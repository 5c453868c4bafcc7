import Calevate.Billing.Helpers.Effects
import Calevate.Lib.Run
import Calevate.Rentals.Periods

/-!
# Paying for a period

A period of a number is collected by the route the account pays by when the tick comes: a
debit of the wallet, or a line of the invoice. Each route's ledger holds a period once, under
its key, and neither is asked about the other's. So a period is paid for once as long as no
collection meets its row on the other side (`rental_paid_once`), which is to say the account
does not change sides inside a period it has paid for.
-/

namespace Calevate.Rentals

open Lib
open Billing (CreditTx Problem BooksOk Entry recordUsageFromLots toPaise ofPaise creditsOf)
open Trials (RentalOutcome RentalPeriod istDate rentalPeriodStart)

/-! ## The account and its numbers -/

/-- `PLAN_TIERS`. -/
inductive PlanTier where
  | managed
  | prepaid
  | selfServe
  | trial
  deriving DecidableEq, Repr

/-- `PREPAID_TIERS`. -/
def prepaidTiers : List PlanTier := [.prepaid, .selfServe, .trial]

/-- `is_prepaid`. -/
def PlanTier.isPrepaid (tier : PlanTier) : Bool := tier ∈ prepaidTiers

/-- A priced row of `phone_numbers`: `created_at`, and `client_inr_per_month` in paise. -/
structure PhoneNumber where
  recordedAt : ℕ
  inrPerMonth : ℤ
  deriving DecidableEq, Repr

/-- The day the number's periods are counted from. -/
def PhoneNumber.anchor (phone : PhoneNumber) : ℕ := istDate phone.recordedAt

/-- One period's price. -/
def PhoneNumber.price (phone : PhoneNumber) : ℤ := toPaise (ofPaise phone.inrPerMonth)

/-- A row of `one_time_charges` of the kind `number_rental`. -/
structure RentalLine where
  ref : String
  amount : ℤ
  billingMonth : String
  deriving DecidableEq, Repr

/-- The two ledgers of one client. -/
structure Office where
  wallet : Billing.Account
  lines : List RentalLine

/-- What a collection reads beside them: `rental_charged_from`, whether the account is
closed, its trials and its tier, and whether the number was given back or is held. -/
structure Facts where
  chargedFrom : Option ℕ
  closed : Bool
  trials : Trials.Account
  tier : PlanTier
  released : Bool
  onHold : Bool

namespace Office

/-- A client with nothing on either ledger. -/
def opened : Office := ⟨{}, []⟩

/-- The wallet has a `usage` row of the key. -/
def inWallet (o : Office) (ref : String) : Bool :=
  o.wallet.ledger.any fun e => e.reason = .usage ∧ e.ref = some ref

/-- The invoice has a line of the key. -/
def inLines (o : Office) (ref : String) : Bool := o.lines.any fun line => line.ref = ref

/-- The route's own ledger has the key. -/
def onRoute (o : Office) (prepaid : Bool) (ref : String) : Bool :=
  if prepaid then o.inWallet ref else o.inLines ref

/-- What the wallet was debited under a key. -/
def debited (o : Office) (ref : String) : ℤ :=
  ((o.wallet.ledger.filter fun e => e.reason = .usage ∧ e.ref = some ref).map fun e => -e.delta).sum

/-- What was invoiced under a key. -/
def invoiced (o : Office) (ref : String) : ℤ :=
  ((o.lines.filter fun line => line.ref = ref).map RentalLine.amount).sum

/-- The money moved under a key, over both routes. -/
def moved (o : Office) (ref : String) : ℤ := o.debited ref + o.invoiced ref

end Office

/-- The wallet's rows of rentals. -/
def rentalRows (wallet : Billing.Account) : List Entry :=
  wallet.ledger.filter fun e =>
    e.reason = .usage ∧ (e.ref.any fun ref => rentalRefPrefix.toList.isPrefixOf ref.toList)

section Collecting

variable (numbers : NumberId → PhoneNumber)

/-- The key of a number's period. -/
def periodRef (number : NumberId) (periodStart : ℕ) : String :=
  rentalRef number (billingMonthOfIstDate periodStart)

/-- **`charge_number_rental`**: was the wallet debited? -/
def chargeNumberRental (number : NumberId) (periodStart : ℕ) : CreditTx Bool := do
  if (numbers number).inrPerMonth ≤ 0 then
    throw .valueError
  else if ¬ IsPeriod (numbers number).anchor periodStart then
    throw .valueError
  else do
    let debit ← recordUsageFromLots (periodRef number periodStart)
      (.aiAssist (numbers number).price) 0 true .numberRental
    pure debit.charged

/-- **`invoice_number_rental`**: was a line written? -/
def invoiceNumberRental (number : NumberId) (periodStart : ℕ) : Tx Office Problem Bool := do
  if (numbers number).inrPerMonth ≤ 0 then
    throw .valueError
  else do
    let o ← get
    if o.inLines (periodRef number periodStart) then
      pure false
    else do
      set { o with lines := o.lines ++ [(⟨periodRef number periodStart, (numbers number).price,
        billingMonthOfIstDate periodStart⟩ : RentalLine)] }
      pure true

/-- The period as it falls due, its row there already or not. -/
def period (number : NumberId) (periodStart : ℕ) (facts : Facts) (collected : Bool) :
    RentalPeriod :=
  ⟨(numbers number).recordedAt, facts.chargedFrom, periodStart, collected⟩

/-- Nobody pays for the period: it is before the first one charged for, the account is
closed, or it began inside a trial. -/
def Exempt (number : NumberId) (periodStart : ℕ) (facts : Facts) : Prop :=
  facts.chargedFrom.any (periodStart < ·) = true ∨ facts.closed = true ∨
    facts.trials.trialCovers (period numbers number periodStart facts false).began = true

instance (number : NumberId) (periodStart : ℕ) (facts : Facts) :
    Decidable (Exempt numbers number periodStart facts) :=
  inferInstanceAs (Decidable (_ ∨ _))

/-- A transaction of the wallet, in the caller's. -/
def onWallet {α : Type} (tx : CreditTx α) : Tx Office Problem α := fun o =>
  match tx o.wallet with
  | .error problem => .error problem
  | .ok (answer, wallet) => .ok (answer, { o with wallet := wallet })

/-- **`collect_number_rental`**, in the caller's transaction. -/
def collectNumberRental (number : NumberId) (periodStart : ℕ) (facts : Facts) :
    Tx Office Problem RentalOutcome := do
  if ¬ IsPeriod (numbers number).anchor periodStart then
    throw .valueError
  else if facts.chargedFrom.any (periodStart < ·) then
    pure .beforeFirstPeriod
  else if facts.closed then
    pure .closed
  else if facts.trials.trialCovers (period numbers number periodStart facts false).began then
    pure .trial
  else if facts.tier.isPrepaid then do
    let charged ← onWallet (chargeNumberRental numbers number periodStart)
    pure (if charged then .charged else .replayed)
  else do
    let written ← invoiceNumberRental numbers number periodStart
    pure (if written then .invoiced else .replayed)

/-! ## Runs -/

/-- The purchase or the recording of a number, one number of a daily tick, and the rest of
the wallet's life: any sound books with the same rows of rentals. -/
inductive Action where
  | purchase (number : NumberId) (facts : Facts)
  | renew (number : NumberId) (today : ℕ) (facts : Facts)
  | wallet (books : Billing.Account) (sound : BooksOk books)

/-- The period the action collects, and what it reads. -/
def collection : Action → Option (NumberId × ℕ × Facts)
  | .purchase number facts =>
    some (number, (numbers number).anchor, { facts with chargedFrom := none })
  | .renew number today facts =>
    -- `_RENEWING`; a tick before the anchor is refused
    if facts.released ∨ facts.onHold then none
    else (rentalPeriodStart (numbers number).anchor today).map fun start => (number, start, facts)
  | .wallet _ _ => none

/-- One transaction; one that raises leaves the ledgers. -/
def step (o : Office) : Action → Office
  | .wallet books _ =>
    if rentalRows books = rentalRows o.wallet then { o with wallet := books } else o
  | action =>
    match collection numbers action with
    | none => o
    | some (number, periodStart, facts) =>
      Tx.commit (collectNumberRental numbers number periodStart facts) o

def run (actions : List Action) : Office := actions.foldl (step numbers) Office.opened

/-- **Each period of each number is paid for at most once**, over both routes. -/
def PaidOnce (o : Office) : Prop :=
  ∀ number periodStart, IsPeriod (numbers number).anchor periodStart →
    o.moved (periodRef number periodStart) = 0 ∨
      o.moved (periodRef number periodStart) = (numbers number).price

/-- A collection that is not exempt does not meet the period's row on the other route. -/
def KeepsRoute (o : Office) (action : Action) : Prop :=
  ∀ due ∈ collection numbers action, Exempt numbers due.1 due.2.1 due.2.2 ∨
    o.onRoute (!due.2.2.tier.isPrepaid) (periodRef due.1 due.2.1) = false

instance (o : Office) (action : Action) : Decidable (KeepsRoute numbers o action) :=
  inferInstanceAs (Decidable (∀ due ∈ collection numbers action, _ ∨ _))

end Collecting

/-! ## One transaction -/

section Steps

variable {numbers : NumberId → PhoneNumber} {o : Office} {number : NumberId} {periodStart : ℕ}
variable {facts : Facts}

theorem price_eq (phone : PhoneNumber) : phone.price = phone.inrPerMonth * 100 := by
  have hpaise : ((ofPaise phone.inrPerMonth : ℤ) : ℚ) / 100 = (phone.inrPerMonth : ℤ) := by
    unfold ofPaise
    push_cast
    ring
  unfold PhoneNumber.price toPaise
  rw [hpaise, Dec.roundHalfUp_intCast]

/-- **A charge finds its row, or writes it.** -/
theorem chargeNumberRental_ok {charged : Bool} {wallet : Billing.Account}
    (hbooks : BooksOk o.wallet)
    (h : chargeNumberRental numbers number periodStart o.wallet = .ok (charged, wallet)) :
    (o.inWallet (periodRef number periodStart) = true ∧ charged = false ∧ wallet = o.wallet) ∨
    (o.inWallet (periodRef number periodStart) = false ∧ charged = true ∧ BooksOk wallet ∧
      ∃ e : Entry, wallet.ledger = o.wallet.ledger ++ [e] ∧ e.reason = .usage ∧
        e.ref = some (periodRef number periodStart) ∧ -e.delta = (numbers number).price) := by
  unfold chargeNumberRental at h
  obtain ⟨-, h⟩ | ⟨hpositive, h⟩ := Tx.ite_ok.mp h
  · exact (Tx.throw_ok.mp h).elim
  obtain ⟨-, h⟩ | ⟨-, h⟩ := Tx.ite_ok.mp h
  · exact (Tx.throw_ok.mp h).elim
  obtain ⟨debit, _, hdebit, h⟩ := Tx.bind_ok.mp h
  obtain ⟨rfl, rfl⟩ := Prod.mk.inj (Tx.pure_ok.mp h)
  have hprice : 0 < (numbers number).price := by
    rw [price_eq]
    omega
  unfold recordUsageFromLots at hdebit
  obtain ⟨_, _, hget, hdebit⟩ := Tx.bind_ok.mp hdebit
  obtain ⟨rfl, rfl⟩ := Prod.mk.inj (Tx.get_ok.mp hget)
  obtain ⟨htaken, hdebit⟩ | ⟨hfree, hdebit⟩ := Tx.ite_ok.mp hdebit
  · obtain ⟨rfl, rfl⟩ := Prod.mk.inj (Tx.pure_ok.mp hdebit)
    exact .inl ⟨htaken, rfl, rfl⟩
  obtain ⟨calls, a₁, hcalls, hrest⟩ := Tx.bind_ok.mp hdebit
  obtain ⟨extras, a₂, hextras, hcharge⟩ := Tx.bind_ok.mp hrest
  have hface := Billing.consume_aiAssist_ok hbooks.lots hcalls
  rw [max_eq_left hprice.le] at hface
  -- nothing is owed beside the price
  obtain ⟨rfl, rfl⟩ : extras = [] ∧ a₂ = a₁ := by
    unfold Billing.consumeExtra at hextras
    rw [if_neg (lt_irrefl _)] at hextras
    obtain ⟨rfl, rfl⟩ := Prod.mk.inj (Tx.pure_ok.mp hextras)
    exact ⟨rfl, rfl⟩
  rw [List.append_nil] at hcharge
  obtain ⟨hnothing, hcharge⟩ | ⟨-, hwritten⟩ := Tx.ite_ok.mp hcharge
  · omega
  obtain ⟨_, _, hrow, hdone⟩ := Tx.bind_ok.mp hwritten
  obtain ⟨rfl, rfl⟩ := Prod.mk.inj (Tx.pure_ok.mp hdone)
  have hconsumed := Billing.consume_effect hbooks hcalls
  have heffect := hconsumed.trans (Billing.recordEntry_effect hconsumed.books (by omega) hrow)
  refine .inr ⟨Bool.not_eq_true _ ▸ hfree, rfl, heffect.books, _, heffect.ledger, rfl, rfl, ?_⟩
  show -(-creditsOf calls) = _
  rw [neg_neg, hface]

/-- **A line is found, or written.** -/
theorem invoiceNumberRental_ok {written : Bool} {o' : Office}
    (h : invoiceNumberRental numbers number periodStart o = .ok (written, o')) :
    (o.inLines (periodRef number periodStart) = true ∧ written = false ∧ o' = o) ∨
    (o.inLines (periodRef number periodStart) = false ∧ written = true ∧
      o' = { o with lines := o.lines ++ [(⟨periodRef number periodStart, (numbers number).price,
        billingMonthOfIstDate periodStart⟩ : RentalLine)] }) := by
  unfold invoiceNumberRental at h
  obtain ⟨-, h⟩ | ⟨-, h⟩ := Tx.ite_ok.mp h
  · exact (Tx.throw_ok.mp h).elim
  obtain ⟨_, _, hget, h⟩ := Tx.bind_ok.mp h
  obtain ⟨rfl, rfl⟩ := Prod.mk.inj (Tx.get_ok.mp hget)
  obtain ⟨htaken, h⟩ | ⟨hfree, h⟩ := Tx.ite_ok.mp h
  · obtain ⟨rfl, hsame⟩ := Prod.mk.inj (Tx.pure_ok.mp h)
    exact .inl ⟨htaken, rfl, hsame⟩
  · obtain ⟨_, _, hset, h⟩ := Tx.bind_ok.mp h
    obtain ⟨-, rfl⟩ := Prod.mk.inj (Tx.set_ok.mp hset)
    obtain ⟨rfl, hleft⟩ := Prod.mk.inj (Tx.pure_ok.mp h)
    exact .inr ⟨Bool.not_eq_true _ ▸ hfree, rfl, hleft⟩

theorem onWallet_ok {α : Type} {tx : CreditTx α} {answer : α} {o' : Office}
    (h : onWallet tx o = .ok (answer, o')) :
    ∃ wallet, tx o.wallet = .ok (answer, wallet) ∧ o' = { o with wallet := wallet } := by
  unfold onWallet at h
  cases htx : tx o.wallet with
  | error problem =>
    rw [htx] at h
    cases h
  | ok result =>
    rw [htx] at h
    obtain ⟨rfl, rfl⟩ := Prod.mk.inj (Except.ok.inj h)
    exact ⟨result.2, rfl, rfl⟩

end Steps

/-! ## What every run keeps -/

/-- **The ledgers are level**: each has the price of the periods it has and no more, and no
period is on both. -/
structure Level (numbers : NumberId → PhoneNumber) (o : Office) : Prop where
  books : BooksOk o.wallet
  debits : ∀ number s, o.debited (periodRef number s) =
    if o.inWallet (periodRef number s) then (numbers number).price else 0
  lines : ∀ number s, o.invoiced (periodRef number s) =
    if o.inLines (periodRef number s) then (numbers number).price else 0
  apart : ∀ number s, o.inWallet (periodRef number s) = true →
    o.inLines (periodRef number s) = false

section Keeping

variable {numbers : NumberId → PhoneNumber} {o : Office} {number : NumberId} {periodStart : ℕ}
variable {facts : Facts}

theorem level_opened : Level numbers Office.opened where
  books := Billing.booksOk_empty
  debits _ _ := rfl
  lines _ _ := rfl
  apart _ _ h := nomatch h

/-- A level pair of ledgers has moved nothing or one price for a period. -/
theorem Level.paidOnce (h : Level numbers o) : PaidOnce numbers o := by
  intro number s _
  have hdebits := h.debits number s
  have hlines := h.lines number s
  unfold Office.moved
  cases hwallet : o.inWallet (periodRef number s) with
  | false =>
    rw [hwallet, if_neg Bool.false_ne_true] at hdebits
    rw [hdebits, hlines, zero_add]
    split_ifs
    · exact .inr rfl
    · exact .inl rfl
  | true =>
    rw [hwallet, if_pos rfl] at hdebits
    rw [h.apart number s hwallet, if_neg Bool.false_ne_true] at hlines
    rw [hdebits, hlines, add_zero]
    exact .inr rfl

/-- What a successful collection did: nothing, a charge, or an invoice line. -/
theorem collectNumberRental_ok {outcome : RentalOutcome} {o' : Office}
    (h : collectNumberRental numbers number periodStart facts o = .ok (outcome, o')) :
    IsPeriod (numbers number).anchor periodStart ∧
      ((o' = o ∧ ∀ row, facts.trials.collectNumberRental (period numbers number periodStart facts row)
          facts.closed facts.tier.isPrepaid = some outcome) ∨
        (¬ Exempt numbers number periodStart facts ∧
          ((facts.tier.isPrepaid = true ∧ ∃ charged,
              onWallet (chargeNumberRental numbers number periodStart) o = .ok (charged, o') ∧
                outcome = if charged then .charged else .replayed) ∨
            (facts.tier.isPrepaid = false ∧ ∃ written,
              invoiceNumberRental numbers number periodStart o = .ok (written, o') ∧
                outcome = if written then .invoiced else .replayed)))) := by
  unfold collectNumberRental at h
  obtain ⟨-, h⟩ | ⟨hperiod, h⟩ := Tx.ite_ok.mp h
  · exact (Tx.throw_ok.mp h).elim
  have hdate : ¬ rentalPeriodStart (istDate (numbers number).recordedAt) periodStart ≠
      some periodStart := hperiod
  refine ⟨not_not.mp hperiod, ?_⟩
  obtain ⟨hfirst, h⟩ | ⟨hfirst, h⟩ := Tx.ite_ok.mp h
  · obtain ⟨rfl, hsame⟩ := Prod.mk.inj (Tx.pure_ok.mp h)
    refine .inl ⟨hsame, fun row => ?_⟩
    unfold Trials.Account.collectNumberRental period
    rw [if_neg hdate, if_pos hfirst]
  obtain ⟨hclosed, h⟩ | ⟨hclosed, h⟩ := Tx.ite_ok.mp h
  · obtain ⟨rfl, hsame⟩ := Prod.mk.inj (Tx.pure_ok.mp h)
    refine .inl ⟨hsame, fun row => ?_⟩
    unfold Trials.Account.collectNumberRental period
    rw [if_neg hdate, if_neg hfirst, if_pos hclosed]
  obtain ⟨htrial, h⟩ | ⟨htrial, h⟩ := Tx.ite_ok.mp h
  · obtain ⟨rfl, hsame⟩ := Prod.mk.inj (Tx.pure_ok.mp h)
    refine .inl ⟨hsame, fun row => ?_⟩
    unfold period at htrial
    unfold Trials.Account.collectNumberRental period
    rw [if_neg hdate, if_neg hfirst, if_neg hclosed]
    exact if_pos htrial
  have hdue : ¬ Exempt numbers number periodStart facts := by
    rintro (hexempt | hexempt | hexempt)
    · exact hfirst hexempt
    · exact hclosed hexempt
    · exact htrial hexempt
  obtain ⟨hprepaid, h⟩ | ⟨hprepaid, h⟩ := Tx.ite_ok.mp h
  · obtain ⟨charged, _, hcharge, h⟩ := Tx.bind_ok.mp h
    obtain ⟨houtcome, rfl⟩ := Prod.mk.inj (Tx.pure_ok.mp h)
    exact .inr ⟨hdue, .inl ⟨hprepaid, charged, hcharge, houtcome⟩⟩
  · obtain ⟨written, _, hline, h⟩ := Tx.bind_ok.mp h
    obtain ⟨houtcome, rfl⟩ := Prod.mk.inj (Tx.pure_ok.mp h)
    exact .inr ⟨hdue, .inr ⟨Bool.not_eq_true _ ▸ hprepaid, written, hline, houtcome⟩⟩

/-- Collecting a period that is due, on the trials' side. -/
theorem trials_collectNumberRental (hperiod : IsPeriod (numbers number).anchor periodStart)
    (hdue : ¬ Exempt numbers number periodStart facts) (row : Bool) :
    facts.trials.collectNumberRental (period numbers number periodStart facts row) facts.closed
      facts.tier.isPrepaid =
        some (if row then .replayed else if facts.tier.isPrepaid then .charged else .invoiced) := by
  have hdate : ¬ rentalPeriodStart (istDate (numbers number).recordedAt) periodStart ≠
      some periodStart := not_not.mpr hperiod
  have hcovered : ¬ facts.trials.trialCovers
      (period numbers number periodStart facts row).began = true := fun h => hdue (.inr (.inr h))
  unfold Trials.Account.collectNumberRental period at *
  rw [if_neg hdate, if_neg fun h => hdue (.inl h), if_neg fun h => hdue (.inr (.inl h)),
    if_neg hcovered]
  split_ifs <;> rfl

/-- **The outcome is the one of the trials' account**, asked with the route's own ledger. -/
theorem collectNumberRental_outcome {outcome : RentalOutcome} {o' : Office}
    (hbooks : BooksOk o.wallet)
    (h : collectNumberRental numbers number periodStart facts o = .ok (outcome, o')) :
    facts.trials.collectNumberRental (period numbers number periodStart facts
      (o.onRoute facts.tier.isPrepaid (periodRef number periodStart))) facts.closed
        facts.tier.isPrepaid = some outcome := by
  obtain ⟨hperiod, ⟨-, hexempt⟩ | ⟨hdue, hpaid⟩⟩ := collectNumberRental_ok h
  · exact hexempt _
  rw [trials_collectNumberRental hperiod hdue]
  obtain ⟨hprepaid, charged, hcharge, rfl⟩ | ⟨hprepaid, written, hline, rfl⟩ := hpaid
  · obtain ⟨wallet, hdebit, -⟩ := onWallet_ok hcharge
    rw [hprepaid, Office.onRoute, if_pos rfl]
    obtain ⟨hrow, rfl, -⟩ | ⟨hrow, rfl, -⟩ := chargeNumberRental_ok hbooks hdebit
    · rw [hrow]
      rfl
    · rw [hrow]
      rfl
  · rw [hprepaid, Office.onRoute, if_neg Bool.false_ne_true]
    obtain ⟨hrow, rfl, -⟩ | ⟨hrow, rfl, -⟩ := invoiceNumberRental_ok hline
    · rw [hrow]
      rfl
    · rw [hrow]
      rfl

/-- A debit of a period that is on neither ledger. -/
theorem Level.charged (h : Level numbers o) {wallet : Billing.Account} (hbooks : BooksOk wallet)
    {e : Entry} (hledger : wallet.ledger = o.wallet.ledger ++ [e]) (hreason : e.reason = .usage)
    (href : e.ref = some (periodRef number periodStart)) (hdelta : -e.delta = (numbers number).price)
    (hfree : o.inWallet (periodRef number periodStart) = false)
    (hother : o.inLines (periodRef number periodStart) = false) :
    Level numbers { o with wallet := wallet } := by
  have hin : ∀ n s, ({ o with wallet := wallet } : Office).inWallet (periodRef n s) =
      (o.inWallet (periodRef n s) || decide (periodRef number periodStart = periodRef n s)) := by
    intro n s
    simp [Office.inWallet, hledger, hreason, href]
  have hsum : ∀ n s, ({ o with wallet := wallet } : Office).debited (periodRef n s) =
      o.debited (periodRef n s) +
        if periodRef number periodStart = periodRef n s then (numbers number).price else 0 := by
    intro n s
    unfold Office.debited
    rw [hledger, List.filter_append, List.map_append, List.sum_append]
    by_cases hkey : periodRef number periodStart = periodRef n s
    · simp [hreason, href, hkey, hdelta]
    · simp [href, hkey]
  constructor
  · exact hbooks
  · intro n s
    rw [hsum, hin, h.debits]
    by_cases hkey : periodRef number periodStart = periodRef n s
    · obtain ⟨rfl, -⟩ := rentalRef_inj hkey
      rw [← hkey, hfree]
      simp
    · simp [hkey]
  · exact h.lines
  · intro n s hwallet
    rw [hin, Bool.or_eq_true, decide_eq_true_eq] at hwallet
    rcases hwallet with hwallet | hkey
    · exact h.apart n s hwallet
    · rw [← hkey]
      exact hother

/-- A line for a period that is on neither ledger. -/
theorem Level.invoiced (h : Level numbers o) {line : RentalLine}
    (href : line.ref = periodRef number periodStart)
    (hamount : line.amount = (numbers number).price)
    (hfree : o.inLines (periodRef number periodStart) = false)
    (hother : o.inWallet (periodRef number periodStart) = false) :
    Level numbers { o with lines := o.lines ++ [line] } := by
  have hin : ∀ n s, ({ o with lines := o.lines ++ [line] } : Office).inLines (periodRef n s) =
      (o.inLines (periodRef n s) || decide (periodRef number periodStart = periodRef n s)) := by
    intro n s
    simp [Office.inLines, href]
  have hsum : ∀ n s, ({ o with lines := o.lines ++ [line] } : Office).invoiced (periodRef n s) =
      o.invoiced (periodRef n s) +
        if periodRef number periodStart = periodRef n s then (numbers number).price else 0 := by
    intro n s
    unfold Office.invoiced
    rw [List.filter_append, List.map_append, List.sum_append]
    by_cases hkey : periodRef number periodStart = periodRef n s
    · simp [href, hkey, hamount]
    · simp [href, hkey]
  constructor
  · exact h.books
  · exact h.debits
  · intro n s
    rw [hsum, hin, h.lines]
    by_cases hkey : periodRef number periodStart = periodRef n s
    · obtain ⟨rfl, -⟩ := rentalRef_inj hkey
      rw [← hkey, hfree]
      simp
    · simp [hkey]
  · intro n s hwallet
    have hwallet' : o.inWallet (periodRef n s) = true := hwallet
    rw [hin, h.apart n s hwallet', Bool.false_or, decide_eq_false_iff_not]
    intro hkey
    rw [← hkey, hother] at hwallet'
    cases hwallet'

/-- **A collection that keeps to its side leaves the ledgers level.** -/
theorem Level.collected (h : Level numbers o)
    (hroute : Exempt numbers number periodStart facts ∨
      o.onRoute (!facts.tier.isPrepaid) (periodRef number periodStart) = false) :
    Level numbers (Tx.commit (collectNumberRental numbers number periodStart facts) o) := by
  cases hcollect : collectNumberRental numbers number periodStart facts o with
  | error problem => rwa [Tx.commit_of_error hcollect]
  | ok result =>
    rw [Tx.commit_of_ok hcollect]
    obtain ⟨-, ⟨hsame, -⟩ | ⟨hdue, hpaid⟩⟩ := collectNumberRental_ok hcollect
    · rwa [hsame]
    have hother := hroute.resolve_left hdue
    obtain ⟨hprepaid, charged, hcharge, -⟩ | ⟨hprepaid, written, hline, -⟩ := hpaid
    · rw [hprepaid, Bool.not_true, Office.onRoute, if_neg Bool.false_ne_true] at hother
      obtain ⟨wallet, hdebit, hleft⟩ := onWallet_ok hcharge
      rw [hleft]
      obtain ⟨-, -, rfl⟩ | ⟨hfree, -, hbooks, e, hledger, hreason, href, hdelta⟩ :=
        chargeNumberRental_ok h.books hdebit
      · exact h
      · exact h.charged hbooks hledger hreason href hdelta hfree hother
    · rw [hprepaid, Bool.not_false, Office.onRoute, if_pos rfl] at hother
      obtain ⟨-, -, hsame⟩ | ⟨hfree, -, hleft⟩ := invoiceNumberRental_ok hline
      · rwa [hsame]
      · rw [hleft]
        exact h.invoiced rfl rfl hfree hother

theorem isPrefixOf_periodRef (number : NumberId) (s : ℕ) :
    rentalRefPrefix.toList.isPrefixOf (periodRef number s).toList = true := by
  unfold periodRef rentalRef
  rw [String.toList_append, List.isPrefixOf_iff_prefix]
  exact List.prefix_append _ _

/-- The rows of a period's key are among the rows of rentals. -/
theorem filter_rentalRows (wallet : Billing.Account) (number : NumberId) (s : ℕ) :
    (rentalRows wallet).filter (fun e => e.reason = .usage ∧ e.ref = some (periodRef number s)) =
      wallet.ledger.filter fun e => e.reason = .usage ∧ e.ref = some (periodRef number s) := by
  unfold rentalRows
  rw [List.filter_filter]
  apply List.filter_congr
  intro e _
  by_cases hkey : e.ref = some (periodRef number s)
  · simp [hkey, isPrefixOf_periodRef]
  · simp [hkey]

theorem inWallet_iff (o : Office) (ref : String) : o.inWallet ref = true ↔
    (o.wallet.ledger.filter fun e => e.reason = .usage ∧ e.ref = some ref) ≠ [] := by
  rw [Office.inWallet, ne_eq, List.filter_eq_nil_iff, List.any_eq_true]
  push Not
  rfl

/-- The rest of the wallet's life leaves the ledgers level. -/
theorem Level.otherwise (h : Level numbers o) {books : Billing.Account} (hbooks : BooksOk books)
    (hrows : rentalRows books = rentalRows o.wallet) :
    Level numbers { o with wallet := books } := by
  have hsame : ∀ n s,
      (books.ledger.filter fun e => e.reason = .usage ∧ e.ref = some (periodRef n s)) =
        o.wallet.ledger.filter fun e => e.reason = .usage ∧ e.ref = some (periodRef n s) := by
    intro n s
    rw [← filter_rentalRows, ← filter_rentalRows, hrows]
  have hin : ∀ n s, ({ o with wallet := books } : Office).inWallet (periodRef n s) =
      o.inWallet (periodRef n s) := by
    intro n s
    rw [Bool.eq_iff_iff, inWallet_iff, inWallet_iff, hsame]
  have hsum : ∀ n s, ({ o with wallet := books } : Office).debited (periodRef n s) =
      o.debited (periodRef n s) := by
    intro n s
    unfold Office.debited
    rw [hsame]
  constructor
  · exact hbooks
  · intro n s
    rw [hsum, hin]
    exact h.debits n s
  · exact h.lines
  · intro n s hwallet
    rw [hin] at hwallet
    exact h.apart n s hwallet

/-- **Every step that keeps to its side leaves the ledgers level.** -/
theorem Level.step (h : Level numbers o) (action : Action)
    (hroute : KeepsRoute numbers o action) : Level numbers (step numbers o action) := by
  cases action with
  | purchase number facts => exact h.collected (hroute _ rfl)
  | renew number today facts =>
    show Level numbers (match collection numbers (.renew number today facts) with
      | none => o
      | some (number, periodStart, facts) => 
        Tx.commit (collectNumberRental numbers number periodStart facts) o)
    cases hdue : collection numbers (.renew number today facts) with
    | none => exact h
    | some due => exact h.collected (hroute _ hdue)
  | wallet books sound =>
    show Level numbers (if rentalRows books = rentalRows o.wallet then
      { o with wallet := books } else o)
    by_cases hrows : rentalRows books = rentalRows o.wallet
    · rw [if_pos hrows]
      exact h.otherwise sound hrows
    · rw [if_neg hrows]
      exact h

end Keeping

/-! ## Paid for once -/

/-- The periods of a number: each day from the anchor on is in one, the one
`rental_period_start` answers, and no two have one key. -/
structure PeriodsKeyed (number : NumberId) (anchor : ℕ) : Prop where
  covered : ∀ date, anchor ≤ date → ∃! s, InPeriod anchor s date
  answered : ∀ date, anchor ≤ date → ∃ s, rentalPeriodStart anchor date = some s ∧
    InPeriod anchor s date
  keyed : ∀ s t, IsPeriod anchor s → IsPeriod anchor t → s ≠ t →
    periodRef number s ≠ periodRef number t

theorem periodsKeyed (number : NumberId) (anchor : ℕ) : PeriodsKeyed number anchor where
  covered date h := by
    obtain ⟨k, hstart, -⟩ := rentalPeriodStart_spec h
    refine ⟨_, (inPeriod_iff h).mpr hstart, fun s hs => ?_⟩
    exact Option.some.inj (((inPeriod_iff h).mp hs).symm.trans hstart)
  answered date h := by
    obtain ⟨k, hstart, -⟩ := rentalPeriodStart_spec h
    exact ⟨_, hstart, (inPeriod_iff h).mpr hstart⟩
  keyed _ _ hs ht hne hkey := hne (hs.eq_of_ref ht hkey)

/-- **Each period of each number is paid for at most once** in every run of purchases and
ticks, with the rest of the wallet's life between them, whose collections each find the period
off the other route's ledger. -/
theorem rental_paid_once (numbers : NumberId → PhoneNumber) (actions : List Action)
    (hroutes : Run.Guarded (step numbers) (KeepsRoute numbers) Office.opened actions) :
    (∀ number, PeriodsKeyed number (numbers number).anchor) ∧
      PaidOnce numbers (run numbers actions) :=
  ⟨fun number => periodsKeyed number _,
    (hroutes.inv (fun _ action h hroute => h.step action hroute) level_opened).paidOnce⟩

/-- Four hundred rupees a month, recorded on the fifth of October. -/
def octoberNumber : NumberId → PhoneNumber :=
  fun _ => ⟨Calendar.daysOfCivil ⟨2026, 10, 5⟩ * Calendar.day, 40000⟩

/-- An open account on a tier, never on trial. -/
def onTier (tier : PlanTier) : Facts := ⟨none, false, ⟨[], none, none, false, false⟩, tier, false, false⟩

def firstNumber : NumberId := ⟨"0199b1f0-5a00-7000-8000-000000000001", by decide⟩

/-- The account is invoiced the first period, comes to credits, and is charged the second. -/
def movedBetween : List Action :=
  [.purchase firstNumber (onTier .managed),
    .renew firstNumber (Calendar.daysOfCivil ⟨2026, 11, 5⟩) (onTier .prepaid),
    .renew firstNumber (Calendar.daysOfCivil ⟨2026, 11, 6⟩) (onTier .prepaid)]

/-- The account is invoiced the first period, and comes to credits inside it. -/
def movedInside : List Action :=
  [.purchase firstNumber (onTier .managed),
    .renew firstNumber (Calendar.daysOfCivil ⟨2026, 10, 11⟩) (onTier .prepaid)]

theorem movedBetween_paid_once : (∀ number, PeriodsKeyed number (octoberNumber number).anchor) ∧
    PaidOnce octoberNumber (run octoberNumber movedBetween) :=
  rental_paid_once octoberNumber movedBetween (by decide +kernel)

/-- **The period is paid for twice**, by an invoice line and from the wallet. -/
theorem movedInside_paid_twice : ¬ PaidOnce octoberNumber (run octoberNumber movedInside) := by
  intro h
  have htwice : IsPeriod (octoberNumber firstNumber).anchor (octoberNumber firstNumber).anchor ∧
      (run octoberNumber movedInside).moved (periodRef firstNumber
        (octoberNumber firstNumber).anchor) = 8000000 ∧
      (octoberNumber firstNumber).price = 4000000 := by decide +kernel
  obtain ⟨hperiod, hmoved, hprice⟩ := htwice
  have honce := h firstNumber _ hperiod
  rw [hmoved, hprice] at honce
  omega

end Calevate.Rentals
