import Calevate.Lib.Part
import Calevate.Billing.Corrections
import Calevate.Billing.Helpers.Lapses
import Calevate.Billing.Helpers.Roots

/-!
# Credit that lapsed

What expired of a purchase was taken off the wallet once. A later refund, a dispute's hold or a
correction of the same purchase is met from that first: `_restate_lapsed_credit` puts back as
much of the lapse as the reversal takes, and only the rest comes off the lots.

`Purchase` reads one purchase off the ledger in figures. The potential of
`lapsed_credit_lost_once` is what the figures leave for it: the credit still on its lots is
within what it added, less what was charged, expired and taken back, whatever was charged,
taken back, released, restated or sold again in between. What a reversal finds neither lapsed
nor on the purchase's lots it takes from the rest of the queue, by design, or overdraws.
-/

namespace Calevate

namespace Billing

open Lib

/-! ## A purchase in figures -/

/-- One purchase: the payment's reference, its row on the ledger, and the lots it is or was
on. -/
structure Purchase where
  paymentRef : String
  entryId : Option ℕ
  holds : ℕ → Bool

/-- The purchase a payment bought. -/
def Account.purchase (a : Account) (paymentRef : String) : Purchase where
  paymentRef := paymentRef
  entryId := (a.findTopup paymentRef).map Entry.id
  holds := a.holdsCredit paymentRef

/-- A figure of the rows of the ledger, over all of them. -/
def Account.total (a : Account) (figure : Entry → ℤ) : ℤ := (a.ledger.map figure).sum

namespace Purchase

variable (p : Purchase) (e : Entry)

/-- What these splits took off the purchase's own lots. -/
def own (splits : List LotSplit) : ℤ := creditsOf (splits.filter fun s => s.lotId.any p.holds)

/-- What these splits took elsewhere: off other lots, or off none as overdraft. -/
def elsewhere (splits : List LotSplit) : ℤ :=
  creditsOf (splits.filter fun s => ¬ s.lotId.any p.holds)

/-- The row takes the purchase back, in part or whole: a refund of its payment, a dispute's
hold of it, or a correction of its row. -/
def Reverses : Prop :=
  e.delta < 0 ∧
    ((e.reason = .refund ∧ e.entryMeta.paymentRef = some p.paymentRef) ∨
    (e.reason = .adjustment ∧ e.entryMeta.kind = some .disputeHold ∧
      e.entryMeta.paymentRef = some p.paymentRef) ∨
    (e.reason = .adjustment ∧ e.entryMeta.correctsEntryId ≠ none ∧
      e.entryMeta.correctsEntryId = p.entryId))

instance : Decidable (p.Reverses e) := inferInstanceAs (Decidable (_ ∧ _))

/-- The credit it added: the payment's own row, and those that restate it. -/
def added : ℤ :=
  if e.reason = .topup ∧
    (e.ref = some p.paymentRef ∨ e.entryMeta.paymentRef = some p.paymentRef) then e.delta else 0

/-- What a metered charge drew from its lots. -/
def charged : ℤ := if e.reason = .usage then p.own e.entryMeta.lots else 0

/-- What lapsed off its lots. -/
def expired : ℤ :=
  if e.reason = .adjustment ∧ e.entryMeta.kind = some .creditExpiry ∧
    e.entryMeta.lotId.any p.holds then -e.delta else 0

/-- What reversals gave back of the lapse. -/
def restated : ℤ :=
  if e.reason = .adjustment ∧ e.entryMeta.kind = some .creditExpiryRestated ∧
    e.entryMeta.lotId.any p.holds then e.delta else 0

/-- What a reversal took back. -/
def takenBack : ℤ := if p.Reverses e then -e.delta else 0

/-- What a dispute's release gave back. -/
def released : ℤ :=
  if e.reason = .adjustment ∧ e.entryMeta.kind = some .disputeRelease ∧
    e.entryMeta.paymentRef = some p.paymentRef then e.delta else 0

/-- What a reversal took elsewhere. -/
def beyond : ℤ := if p.Reverses e then p.elsewhere e.entryMeta.lots else 0

/-- What a row leaves of the purchase. -/
def net : ℤ :=
  p.added e - p.charged e + p.beyond e -
    (p.expired e + p.takenBack e - p.released e - p.restated e)

end Purchase

/-! ## The figures of one row -/

section Rows

variable {p q : Purchase} {e : Entry}

theorem Purchase.own_add_elsewhere (p : Purchase) (splits : List LotSplit) :
    p.own splits + p.elsewhere splits = creditsOf splits := by
  unfold Purchase.own Purchase.elsewhere creditsOf
  induction splits with
  | nil => rfl
  | cons s splits ih =>
    rw [List.map_cons, List.sum_cons, List.filter_cons, List.filter_cons]
    by_cases h : s.lotId.any p.holds = true
    · simp only [h, not_true_eq_false, decide_false, if_true, Bool.false_eq_true,
        if_false, List.map_cons, List.sum_cons] at ih ⊢
      omega
    · simp only [h, not_false_eq_true, decide_true, if_true, Bool.false_eq_true,
        if_false, List.map_cons, List.sum_cons] at ih ⊢
      omega

theorem Purchase.own_nonneg (p : Purchase) {splits : List LotSplit}
    (h : ∀ s ∈ splits, 0 ≤ s.credits) : 0 ≤ p.own splits := by
  apply List.sum_nonneg
  intro x hx
  obtain ⟨s, hs, rfl⟩ := List.mem_map.mp hx
  exact h s (List.mem_of_mem_filter hs)

/-- **What the picked lots give up by these splits is what the splits took off them.** -/
theorem Purchase.part_splits (p : Purchase) {n : ℕ} {splits : List LotSplit}
    (h : ∀ s ∈ splits, ∀ i, s.lotId = some i → i < n) :
    Part.part p.holds n (splitsOf splits) = p.own splits := by
  induction splits with
  | nil =>
    show Part.part p.holds n (fun _ => 0) = 0
    exact Part.part_zero
  | cons s splits ih =>
    have hrest := ih fun x hx => h x (List.mem_cons_of_mem _ hx)
    have hcons : splitsOf (s :: splits) =
        fun i => (if s.lotId = some i then s.credits else 0) + splitsOf splits i := by
      funext i
      exact splitsOf_cons
    have hone : Part.part p.holds n (fun i => if s.lotId = some i then s.credits else 0) =
        if s.lotId.any p.holds then s.credits else 0 := by
      cases hs : s.lotId with
      | none =>
        simp only [reduceCtorEq, if_false, Option.any_none, Bool.false_eq_true]
        exact Part.part_zero
      | some j =>
        have hj := h s List.mem_cons_self j hs
        simp only [Option.some.injEq, Option.any_some]
        simp only [eq_comm (a := j)]
        rw [Part.part_single]
        simp only [hj, true_and]
    rw [hcons, Part.part_add, hone, hrest]
    unfold Purchase.own creditsOf
    rw [List.filter_cons]
    by_cases hp : s.lotId.any p.holds = true
    · simp [hp]
    · simp [hp]

/-- A row that names no lot given out since reads the same. -/
theorem Purchase.net_congr {n : ℕ} (hbelow : e.Below n) (hlots : ∀ i < n, p.holds i = q.holds i)
    (href : p.paymentRef = q.paymentRef)
    (hentry : ∀ i, e.entryMeta.correctsEntryId = some i → (p.entryId = some i ↔ q.entryId = some i)) :
    p.net e = q.net e := by
  have hsplits : ∀ s ∈ e.entryMeta.lots, s.lotId.any p.holds = s.lotId.any q.holds := by
    intro s hs
    cases hi : s.lotId with
    | none => rfl
    | some i => exact hlots i (hbelow.splits s hs i hi)
  have hlot : e.entryMeta.lotId.any p.holds = e.entryMeta.lotId.any q.holds := by
    cases hi : e.entryMeta.lotId with
    | none => rfl
    | some i => exact hlots i (hbelow.lot i hi)
  have hown : p.own e.entryMeta.lots = q.own e.entryMeta.lots := by
    unfold Purchase.own
    rw [List.filter_congr hsplits]
  have helse : p.elsewhere e.entryMeta.lots = q.elsewhere e.entryMeta.lots := by
    unfold Purchase.elsewhere
    rw [List.filter_congr fun s hs => by rw [hsplits s hs]]
  have hreverses : p.Reverses e ↔ q.Reverses e := by
    have hname : (e.entryMeta.correctsEntryId ≠ none ∧ e.entryMeta.correctsEntryId = p.entryId) ↔
        (e.entryMeta.correctsEntryId ≠ none ∧ e.entryMeta.correctsEntryId = q.entryId) := by
      cases hi : e.entryMeta.correctsEntryId with
      | none => simp
      | some i =>
        have := hentry i hi
        rw [eq_comm (b := p.entryId), eq_comm (b := q.entryId), this]
    unfold Purchase.Reverses
    rw [href, hname]
  simp only [Purchase.net, Purchase.added, Purchase.charged, Purchase.beyond, Purchase.expired,
    Purchase.takenBack, Purchase.released, Purchase.restated, href, hlot, hown, helse, hreverses]

/-- The writer adds to the purchase, or gives back of what was taken. -/
def Inflow.Credits (paymentRef : String) : Inflow → Prop
  | .topup ref => ref = paymentRef
  | .restatement payment corrected =>
    payment = paymentRef ∨ restatementRef payment corrected = paymentRef
  | .release _ _ payment => payment = paymentRef
  | _ => False

instance (paymentRef : String) (w : Inflow) : Decidable (w.Credits paymentRef) := by
  cases w <;> unfold Inflow.Credits <;> infer_instance

/-- The writer takes the purchase back. -/
def Outflow.Reverses (p : Purchase) : Outflow → Prop
  | .refund event => event.paymentId = p.paymentRef
  | .clawback _ _ => False
  | .correction target _ => p.entryId = some target.id
  | .hold facts => facts.paymentId = p.paymentRef

instance (p : Purchase) (w : Outflow) : Decidable (w.Reverses p) := by
  cases w <;> unfold Outflow.Reverses <;> infer_instance

theorem Purchase.net_inflow {w : Inflow} {amount : ℤ} (hsign : 0 ≤ amount)
    (h : e.Carries amount w.reason (some w.ref) w.rowMeta) :
    p.net e = if w.Credits p.paymentRef then amount else 0 := by
  obtain ⟨hd, hr, href, hm⟩ := h
  have hnot : ¬ amount < 0 := by omega
  cases w <;>
    simp [Purchase.net, Purchase.added, Purchase.charged, Purchase.beyond, Purchase.expired,
      Purchase.takenBack, Purchase.released, Purchase.restated, Purchase.Reverses, hnot, hr, href,
      hm, hd, Inflow.reason, Inflow.ref, Inflow.rowMeta, Inflow.Credits, or_comm]

theorem Purchase.net_outflow {w : Outflow} {amount : ℤ} {removal : CreditRemoval}
    (hpos : 0 < amount)
    (h : e.Carries (-amount) w.reason (some w.ref) (w.rowMeta removal)) :
    p.net e = if w.Reverses p then p.elsewhere removal.splits - amount else 0 := by
  obtain ⟨hd, hr, -, hm⟩ := h
  by_cases hrev : w.Reverses p <;> cases w <;>
    simp_all [Purchase.net, Purchase.added, Purchase.charged, Purchase.beyond, Purchase.expired,
      Purchase.takenBack, Purchase.released, Purchase.restated, Purchase.Reverses, Outflow.reason,
      Outflow.rowMeta, Outflow.Reverses, eq_comm (b := p.entryId)]

theorem Purchase.net_usage {ref : String} {splits : List LotSplit} {kind : UsageKind} {delta : ℤ}
    (h : e.Carries delta .usage (some ref) { kind := kind.metaKind, lots := splits }) :
    p.net e = -p.own splits := by
  obtain ⟨hd, hr, href, hm⟩ := h
  simp [Purchase.net, Purchase.added, Purchase.charged, Purchase.beyond, Purchase.expired,
    Purchase.takenBack, Purchase.released, Purchase.restated, Purchase.Reverses, hr, hm]

theorem Purchase.net_expiry {lotId : ℕ} {amount : ℤ} {ref : Option String}
    (h : e.Carries (-amount) .adjustment ref { kind := some .creditExpiry, lotId := some lotId }) :
    p.net e = if p.holds lotId then -amount else 0 := by
  obtain ⟨hd, hr, -, hm⟩ := h
  simp [Purchase.net, Purchase.added, Purchase.charged, Purchase.beyond, Purchase.expired,
    Purchase.takenBack, Purchase.released, Purchase.restated, Purchase.Reverses, hd, hr, hm]
  split <;> omega

theorem Purchase.net_restates {lotId : ℕ} {amount : ℤ} (h : e.RestatesLapse lotId amount) :
    p.net e = if p.holds lotId then amount else 0 := by
  obtain ⟨fresh, -, hd, hr, -, hm⟩ := h
  simp [Purchase.net, Purchase.added, Purchase.charged, Purchase.beyond, Purchase.expired,
    Purchase.takenBack, Purchase.released, Purchase.restated, Purchase.Reverses, hd, hr, hm]

theorem Purchase.net_marker {lotId : ℕ} (h : e.Marks lotId) (hd : e.delta = 0) : p.net e = 0 := by
  obtain ⟨hr, hk, -⟩ := h
  simp [Purchase.net, Purchase.added, Purchase.charged, Purchase.beyond, Purchase.expired,
    Purchase.takenBack, Purchase.released, Purchase.restated, Purchase.Reverses, hd, hr, hk]

end Rows

/-! ## The potential -/

/-- What the purchase's lots still hold. -/
def Account.heldBy (a : Account) (p : Purchase) : ℤ := Part.part p.holds a.nextId a.remainingOf

/-- **What is on a purchase's lots is within what its rows leave of it.** -/
structure PurchasesOk (a : Account) : Prop where
  chain : ChainOk a
  roots : RootsOk a
  corrections : CorrectionsOk a
  wrote : ∀ e ∈ a.ledger, e.Wrote
  names : ∀ e ∈ a.ledger, e.Below a.nextId
  within : ∀ ref, a.heldBy (a.purchase ref) ≤ a.total (a.purchase ref).net

theorem purchasesOk_empty : PurchasesOk {} where
  chain := chainOk_empty
  roots := rootsOk_empty
  corrections := ⟨by simp, by simp⟩
  wrote := by intro e he; cases he
  names := by intro e he; cases he
  within := by intro ref; exact le_refl _

section Step

variable {a a' : Account} {ref : String}

/-- New rows name what is there. -/
theorem Figures.below (hf : Figures a a') (ha : BooksOk a) (hmono : a.nextId ≤ a'.nextId)
    (h : ∀ e ∈ a.ledger, e.Below a.nextId) : ∀ e ∈ a'.ledger, e.Below a'.nextId := by
  have hnew : ∀ {rows take}, Effect a a' rows take → (∀ e ∈ rows, e.Below a'.nextId) →
      ∀ e ∈ a'.ledger, e.Below a'.nextId := by
    intro rows take heff hrows e he
    rw [heff.ledger] at he
    rcases List.mem_append.mp he with he | he
    · exact (h e he).mono hmono
    · exact hrows e he
  have hone : ∀ {e : Entry}, e.Below a'.nextId → ∀ f ∈ [e], f.Below a'.nextId := by
    intro e he f hf
    rwa [List.mem_singleton.mp hf]
  have hlot : ∀ l ∈ a.lots, l.id < a'.nextId := fun l hl =>
    (ha.lots.ids_lt l hl).trans_le hmono
  have hentry : ∀ t ∈ a.ledger, t.id < a'.nextId := fun t ht =>
    (ha.ledger.ids_lt t ht).trans_le hmono
  cases hf with
  | idle effect => exact hnew effect (by simp)
  | inflow w amount got target e a₁ allowed row id steps ledger lots within effect lands =>
    refine hnew effect (hone ⟨?_, ?_, ?_⟩)
    · rw [row.2.2.2]
      cases w <;> simp [Inflow.rowMeta]
    · rw [row.2.2.2]
      cases w with
      | correction t x => simpa [Inflow.rowMeta] using hentry t allowed.2.2.1
      | topup ref => simp [Inflow.rowMeta]
      | packBonus paymentId => simp [Inflow.rowMeta]
      | grant reference => simp [Inflow.rowMeta]
      | restatement paymentRef corrected => simp [Inflow.rowMeta]
      | release disputeId suffix paymentId => simp [Inflow.rowMeta]
    · rw [row.2.2.2]
      cases w <;> simp [Inflow.rowMeta]
  | outflow w amount pos allowed removal e rows row names nonneg figure total effect lapse =>
    refine hnew effect fun f hf => ?_
    rcases List.mem_append.mp hf with hf | hf
    · rcases lapse with ⟨rfl, -⟩ | ⟨l, g, hl, rfl, -, fresh, -, hg⟩
      · cases hf
      · rw [List.mem_singleton.mp hf]
        refine ⟨?_, ?_, ?_⟩ <;> rw [hg.2.2.2]
        · simpa using hlot l (correctedLot_mem hl)
        · simp
        · simp
    · rw [List.mem_singleton.mp hf]
      refine ⟨?_, ?_, ?_⟩
      · rw [row.2.2.2]
        cases w <;> simp [Outflow.rowMeta]
      · rw [row.2.2.2]
        cases w with
        | correction t x => simpa [Outflow.rowMeta] using hentry t allowed.2.1
        | refund event => simp [Outflow.rowMeta]
        | clawback event grant => simp [Outflow.rowMeta]
        | hold facts => simp [Outflow.rowMeta]
      · have hlots : e.entryMeta.lots = removal.splits := by
          rw [row.2.2.2]
          cases w <;> rfl
        rw [hlots]
        exact names
  | usage ref splits kind e pos row names nonneg effect =>
    refine hnew effect (hone ⟨?_, ?_, ?_⟩) <;> rw [row.2.2.2]
    · simp
    · simp
    · exact names
  | expiry l e mem pos dated free row effect =>
    refine hnew effect (hone ⟨?_, ?_, ?_⟩) <;> rw [row.2.2.2]
    · simpa using hlot l mem
    · simp
    · simp
  | resold l closed fresh e packId ref pair only effect =>
    refine hnew effect (hone ⟨?_, ?_, ?_⟩)
    · rw [pair.marks.2.2]
      simpa using hlot l pair.mem
    · rw [only.2.1]
      simp
    · rw [only.1]
      simp

/-- The row a correction names is the payment's before the step if it is after it. -/
theorem purchase_entryId (ha : BooksOk a) (hb : BooksOk a') (hledger : a.ledger <+: a'.ledger)
    {t : Entry} (ht : t ∈ a.ledger) :
    (a.purchase ref).entryId = some t.id ↔ (a'.purchase ref).entryId = some t.id := by
  have hiff : ∀ {b : Account}, BooksOk b → t ∈ b.ledger →
      ((b.purchase ref).entryId = some t.id ↔ t.reason = .topup ∧ t.ref = some ref) := by
    intro b hb ht
    show (b.findTopup ref).map Entry.id = some t.id ↔ _
    rw [Option.map_eq_some_iff]
    constructor
    · rintro ⟨paid, hpaid, hid⟩
      obtain ⟨hmem, hreason, href⟩ := (findEntryByRef_some_iff hb.ledger).mp hpaid
      rw [← hb.ledger.eq_of_id hmem ht hid]
      exact ⟨hreason, href⟩
    · rintro ⟨hreason, href⟩
      exact ⟨t, (findEntryByRef_some_iff hb.ledger).mpr ⟨ht, hreason, href⟩, rfl⟩
  rw [hiff ha ht, hiff hb (hledger.subset ht)]

/-- **One movement in figures**: the potential falls by no more than the new rows and the lots
they moved allow. -/
theorem PurchasesOk.within_step (h : PurchasesOk a) (ha : BooksOk a) (hsteps : LotSteps a a')
    {rows : List Entry} {take : ℕ → ℤ} (heff : Effect a a' rows take)
    (hnew : 0 ≤ (rows.map (a'.purchase ref).net).sum +
      Part.part (a'.purchase ref).holds a'.nextId take) :
    a'.heldBy (a'.purchase ref) ≤ a'.total (a'.purchase ref).net := by
  have hmono := (hsteps.keeps ha).1.1
  have hgrow : a.ledger <+: a'.ledger := ⟨rows, heff.ledger.symm⟩
  have hkeeps : ∀ i < a.nextId, (a'.purchase ref).holds i = (a.purchase ref).holds i := fun i hi =>
    holdsCredit_keeps ha h.chain h.roots heff.books hsteps hgrow hi
  have hheld : a'.heldBy (a'.purchase ref) = a.heldBy (a.purchase ref) -
      Part.part (a'.purchase ref).holds a'.nextId take := by
    have hfall : a'.heldBy (a'.purchase ref) =
        Part.part (a'.purchase ref).holds a'.nextId fun i => a.remainingOf i - take i :=
      Part.part_congr fun i _ _ => heff.remaining i
    have hempty : ∀ i, a.nextId ≤ i → a.remainingOf i = 0 := by
      intro i hi
      apply remainingOf_of_notMem
      intro l hl hid
      have := ha.lots.ids_lt l hl
      omega
    rw [hfall, Part.part_sub, Part.part_extend hmono hkeeps hempty]
    rfl
  have htotal : a'.total (a'.purchase ref).net =
      a.total (a.purchase ref).net + (rows.map (a'.purchase ref).net).sum := by
    unfold Account.total
    rw [heff.ledger, List.map_append, List.sum_append]
    congr 2
    apply List.map_congr_left
    intro e he
    refine (Purchase.net_congr (h.names e he) (fun i hi => (hkeeps i hi).symm) rfl ?_).symm
    intro i hi
    obtain ⟨t, ht, rfl, -⟩ := h.corrections.named e he i hi
    exact purchase_entryId ha heff.books hgrow ht
  have := h.within ref
  omega

/-- The lot a reversal is met from is on the purchase it reverses. -/
theorem holdsCredit_reversed (ha : BooksOk a) (hc : ChainOk a) (hb : BooksOk a')
    (hledger : a.ledger <+: a'.ledger) {w : Outflow} {amount : ℤ} (hallowed : w.Allowed a amount)
    (hrev : w.Reverses (a'.purchase ref)) {l : Lot}
    (hl : a.correctedLot (w.reverses a) = some l) : a.holdsCredit ref l.id = true := by
  have hpayment : ∀ {paymentId : String}, paymentId = ref →
      a.correctedLot ((a.findTopup paymentId).map Entry.id) = some l →
      a.holdsCredit ref l.id = true := by
    rintro paymentId rfl hl
    obtain ⟨i, hi, hlot⟩ := Option.bind_eq_some_iff.mp hl
    obtain ⟨paid, hpaid, rfl⟩ := Option.map_eq_some_iff.mp hi
    exact holdsCredit_now ha hc hpaid hlot
  cases w with
  | refund event => exact hpayment hrev hl
  | hold facts => exact hpayment hrev hl
  | clawback event grant => exact hrev.elim
  | correction target x =>
    have hentry := (purchase_entryId ha hb hledger hallowed.2.1).mpr hrev
    obtain ⟨paid, hpaid, hid⟩ := Option.map_eq_some_iff.mp hentry
    have hlot : a.purchaseLotOfEntry target.id = some l := hl
    rw [← hid] at hlot
    exact holdsCredit_now ha hc hpaid hlot

/-- **Credit that lands on a purchase was added to it or given back to it.** -/
theorem PurchasesOk.inflow_credits (h : PurchasesOk a) (ha : BooksOk a) (hb : BooksOk a')
    (hsteps : LotSteps a a') {w : Inflow} {amount : ℤ} {target : ℕ} {e : Entry} {a₁ : Account}
    (row : e.Carries amount w.reason (some w.ref) w.rowMeta) (he : e ∈ a'.ledger)
    (hgrow : a.ledger <+: a'.ledger) (steps : LotSteps a a₁)
    (ledger : a₁.ledger = a.ledger ++ [e]) (lots : a₁.lots = a.lots)
    (lands : a.nextId < target ∧ (∀ k ∈ a.lots, k.id ≠ target) ∧
        (∀ k ∈ a'.lots, k.id = target → k.ledgerEntryId = e.id) ∨
      ∃ l, w.restates a₁ = some l ∧ target = l.id ∧
        ∀ k, a₁.readLot l.id = some k → a₁.lapsed k = false)
    (hholds : a'.holdsCredit ref target = true) : w.Credits ref := by
  obtain ⟨hc', hr'⟩ := hsteps.roots ha h.chain h.roots
  rcases lands with ⟨-, -, hentry⟩ | ⟨l, hrestates, rfl, -⟩
  · obtain ⟨l, -, hl, rfl, -, -⟩ := (holdsCredit_iff hb hc').mp hholds
    have hplain : ∀ i, ¬ e.Marks i := by
      rintro i ⟨-, hkind, -⟩
      rw [row.2.2.2] at hkind
      exact w.kind_ne hkind
    obtain ⟨hreason, href⟩ := holdsCredit_root hb hc' hr' hl he (hentry l hl rfl) hplain hholds
    rw [row.2.1] at hreason
    rw [row.2.2.1] at href
    cases w with
    | topup r => exact Option.some.inj href
    | restatement payment corrected => exact Or.inr (Option.some.inj href)
    | packBonus paymentId => cases hreason
    | grant reference => cases hreason
    | correction t x => cases hreason
    | release disputeId suffix paymentId => cases hreason
  · -- the lot the purchase is on now is grown, and a lot is on one purchase
    have hb₁ := steps.books ha
    obtain ⟨hc₁, hr₁⟩ := steps.roots ha h.chain h.roots
    have hnow : ∀ {payment : String},
        ((a₁.findTopup payment).bind fun e => a₁.purchaseLotOfEntry e.id) = some l →
        payment = ref := by
      intro payment hlot
      obtain ⟨paid, hpaid, hl⟩ := Option.bind_eq_some_iff.mp hlot
      have hlt : l.id < a.nextId := ha.lots.ids_lt l (lots ▸ purchaseLotOfEntry_mem hl)
      have hold := @holdsCredit_keeps _ _ ref ha h.chain h.roots hb hsteps hgrow _ hlt
      have hold₁ := @holdsCredit_keeps _ _ ref ha h.chain h.roots hb₁ steps
        ⟨_, ledger.symm⟩ _ hlt
      exact holdsCredit_unique hb₁ hc₁ hr₁ (holdsCredit_now hb₁ hc₁ hpaid hl)
        (hold₁.trans (hold.symm.trans hholds))
    cases w with
    | restatement payment corrected => exact Or.inl (hnow hrestates)
    | release disputeId suffix payment => exact hnow hrestates
    | topup r => cases hrestates
    | packBonus paymentId => cases hrestates
    | grant reference => cases hrestates
    | correction t x => cases hrestates

/-- What the lot a reversal is met from gives up, seen from a purchase. -/
theorem part_ownTake {holds : ℕ → Bool} {n : ℕ} {l : Lot} {x : ℤ} (hl : l.id < n) :
    Part.part holds n (ownTake (some l) x) = if holds l.id then x else 0 := by
  have hown : ownTake (some l) x = fun i => if i = l.id then x else 0 := by
    funext i
    simp only [ownTake, Option.map_some, Option.some.injEq, eq_comm]
  rw [hown, Part.part_single]
  simp only [hl, true_and]

/-- **A reversal takes what its row says**: the lapse it gives back, the purchase's lots and what
it took elsewhere make up its amount. -/
theorem PurchasesOk.outflow_net (h : PurchasesOk a) (ha : BooksOk a) (hb : BooksOk a')
    (hsteps : LotSteps a a') {w : Outflow} {amount : ℤ} (pos : 0 < amount)
    (allowed : w.Allowed a amount) {removal : CreditRemoval} {e : Entry} {rows : List Entry}
    (row : e.Carries (-amount) w.reason (some w.ref) (w.rowMeta removal))
    (hgrow : a.ledger <+: a'.ledger)
    (names : ∀ s ∈ removal.splits, ∀ i, s.lotId = some i → i < a'.nextId)
    (nonneg : ∀ s ∈ removal.splits, 0 ≤ s.credits)
    (figure : removal.expiryRestatedInr =
      max (min amount (a.unrestated (a.correctedLot (w.reverses a)))) 0)
    (total : amount = removal.expiryRestatedInr +
      a.fromOwnLot (a.correctedLot (w.reverses a)) amount + creditsOf removal.splits)
    (lapse : (rows = [] ∧ removal.expiryRestatedInr = 0) ∨
      ∃ l f, a.correctedLot (w.reverses a) = some l ∧ rows = [f] ∧
        0 < removal.expiryRestatedInr ∧ f.RestatesLapse l.id removal.expiryRestatedInr) :
    0 ≤ ((rows ++ [e]).map (a'.purchase ref).net).sum +
      Part.part (a'.purchase ref).holds a'.nextId fun i =>
        ownTake (a.correctedLot (w.reverses a))
          (a.fromOwnLot (a.correctedLot (w.reverses a)) amount) i + splitsOf removal.splits i := by
  have hmono := (hsteps.keeps ha).1.1
  have hsum := (a'.purchase ref).own_add_elsewhere removal.splits
  have hown := (a'.purchase ref).own_nonneg nonneg
  have htake := @fromOwnLot_nonneg a (a.correctedLot (w.reverses a)) amount pos
  have hholds : ∀ l, a.correctedLot (w.reverses a) = some l → w.Reverses (a'.purchase ref) →
      (a'.purchase ref).holds l.id = true := by
    intro l hl hrev
    have hlt := ha.lots.ids_lt l (correctedLot_mem hl)
    have hold := @holdsCredit_keeps _ _ ref ha h.chain h.roots hb hsteps hgrow _ hlt
    exact hold.trans (holdsCredit_reversed ha h.chain hb hgrow allowed hrev hl)
  have hnet : (a'.purchase ref).net e =
      if w.Reverses (a'.purchase ref) then (a'.purchase ref).elsewhere removal.splits - amount
      else 0 := Purchase.net_outflow pos row
  rw [List.map_append, List.sum_append, List.map_singleton, List.sum_singleton, hnet,
    Part.part_add, (a'.purchase ref).part_splits names]
  cases hlot : a.correctedLot (w.reverses a) with
  | none =>
    rw [hlot] at figure total lapse htake
    have hnone : removal.expiryRestatedInr = 0 := by
      simp only [Account.unrestated] at figure
      omega
    have hzero : Part.part (a'.purchase ref).holds a'.nextId
        (ownTake none (a.fromOwnLot none amount)) = 0 := Part.part_zero
    have hrows : rows = [] := by
      rcases lapse with ⟨hr, -⟩ | ⟨l, f, hl, -⟩
      · exact hr
      · cases hl
    simp only [Account.fromOwnLot] at total
    rw [hzero, hrows, List.map_nil, List.sum_nil]
    split <;> omega
  | some l =>
    have hlt : l.id < a'.nextId :=
      (ha.lots.ids_lt l (correctedLot_mem hlot)).trans_le hmono
    have hhere := hholds l hlot
    rw [hlot] at total lapse htake
    have hrows : (rows.map (a'.purchase ref).net).sum =
        if (a'.purchase ref).holds l.id then removal.expiryRestatedInr else 0 := by
      rcases lapse with ⟨rfl, hz⟩ | ⟨k, f, hk, rfl, -, hf⟩
      · rw [hz, ite_self]
        rfl
      · cases hk
        rw [List.map_singleton, List.sum_singleton, Purchase.net_restates hf]
    rw [hrows, part_ownTake hlt]
    have hback : 0 ≤ removal.expiryRestatedInr := by omega
    by_cases hrev : w.Reverses (a'.purchase ref)
    · rw [if_pos hrev, hhere hrev]
      simp only [if_true]
      omega
    · rw [if_neg hrev]
      split <;> omega

/-- **Every movement keeps the purchases.** -/
theorem PurchasesOk.step (h : PurchasesOk a) (ha : BooksOk a) (hm : Movement a a')
    (hf : Figures a a') : PurchasesOk a' := by
  have hsteps := hm.lotSteps ha
  obtain ⟨hc', hr'⟩ := hsteps.roots ha h.chain h.roots
  have hmono := (hsteps.keeps ha).1.1
  have hgrow := hf.ledger_grows
  have hwrote : ∀ e ∈ a'.ledger, e.Wrote := by
    obtain ⟨rows, hledger, hrows⟩ := hf.wrote ha h.wrote
    rw [hledger]
    intro e he
    exact (List.mem_append.mp he).elim (h.wrote e) (hrows e)
  refine ⟨hc', hr', h.corrections.step ha hf, hwrote, hf.below ha hmono h.names, fun ref => ?_⟩
  cases hf with
  | idle effect =>
    refine h.within_step ha hsteps effect ?_
    rw [Part.part_zero]
    exact le_refl _
  | inflow w amount got target e a₁ allowed row id steps ledger lots within effect lands =>
    refine h.within_step ha hsteps effect ?_
    have he : e ∈ a'.ledger := by
      rw [effect.ledger]
      exact List.mem_append_right _ List.mem_cons_self
    have hsign := (allowed.sign ha h.wrote).1
    have hnet : (a'.purchase ref).net e = if w.Credits ref then amount else 0 :=
      Purchase.net_inflow hsign row
    rw [List.map_singleton, List.sum_singleton, hnet, Part.part_single]
    by_cases hgot : 0 < got ∧ target < a'.nextId ∧ (a'.purchase ref).holds target = true
    · have hcredits : w.Credits ref := h.inflow_credits ha effect.books hsteps row he hgrow steps
        ledger lots (lands hgot.1) hgot.2.2
      have hle : got ≤ amount := by simpa only [max_eq_left hsign] using within.2
      rw [if_pos hcredits, if_pos hgot.2, ← sub_eq_add_neg]
      exact sub_nonneg.mpr hle
    · have hzero : (if target < a'.nextId ∧ (a'.purchase ref).holds target = true then -got
          else 0) = 0 := by
        by_cases hon : target < a'.nextId ∧ (a'.purchase ref).holds target = true
        · have hnot : ¬ 0 < got := fun hpos => hgot ⟨hpos, hon⟩
          rw [if_pos hon]
          omega
        · exact if_neg hon
      rw [hzero, add_zero]
      split
      · exact hsign
      · exact le_refl _
  | outflow w amount pos allowed removal e rows row names nonneg figure total effect lapse =>
    exact h.within_step ha hsteps effect (h.outflow_net ha effect.books hsteps pos allowed row hgrow
      names nonneg figure total lapse)
  | usage usageRef splits kind e pos row names nonneg effect =>
    refine h.within_step ha hsteps effect ?_
    rw [List.map_singleton, List.sum_singleton, Purchase.net_usage row,
      (a'.purchase ref).part_splits names]
    omega
  | expiry l e mem pos dated free row effect =>
    refine h.within_step ha hsteps effect ?_
    have hlt : l.id < a'.nextId := (ha.lots.ids_lt l mem).trans_le hmono
    rw [List.map_singleton, List.sum_singleton, Purchase.net_expiry row, Part.part_single]
    simp only [hlt, true_and]
    split <;> omega
  | resold l closed fresh e packId markerRef pair only effect =>
    refine h.within_step ha hsteps effect ?_
    have hlt : l.id < a'.nextId := (ha.lots.ids_lt l pair.mem).trans_le hmono
    have hne : fresh.id ≠ l.id := by
      have := ha.lots.ids_lt l pair.mem
      have := pair.later
      omega
    have htake : (fun i => if i = l.id then l.creditsRemaining
        else if i = fresh.id then -l.creditsRemaining else 0) = fun i =>
        (if i = l.id then l.creditsRemaining else 0) +
          if i = fresh.id then -l.creditsRemaining else 0 := by
      funext i
      by_cases hi : i = l.id
      · rw [if_pos hi, if_pos hi, if_neg (by omega), add_zero]
      · rw [if_neg hi, if_neg hi, zero_add]
    -- the replacement is on the purchase the lot was on
    have hsame : (a'.purchase ref).holds fresh.id = true →
        (a'.purchase ref).holds l.id = true := by
      intro hon
      obtain ⟨k, root, hk, hkid, hroot, hat⟩ := (holdsCredit_iff effect.books hc').mp hon
      have hfresh : fresh ∈ a'.lots := by
        rw [pair.lots]
        exact List.mem_append_right _ List.mem_cons_self
      have hclosed : closed ∈ a'.lots := by
        rw [pair.lots]
        exact List.mem_append_left _ (Table.mem_updateKey.mpr (Or.inr ⟨l, pair.mem, rfl, rfl⟩))
      obtain rfl := List.inj_on_of_nodup_map effect.books.lots.ids hk hfresh hkid
      refine (holdsCredit_iff effect.books hc').mpr
        ⟨closed, root, hclosed, terms_id pair.terms, hroot, ?_⟩
      rw [terms_openedAt pair.terms, ← pair.place.1]
      exact hat
    have hn := l.remaining_nonneg
    rw [List.map_singleton, List.sum_singleton, Purchase.net_marker pair.marks pair.delta, htake,
      Part.part_add, Part.part_single, Part.part_single]
    by_cases hon : (a'.purchase ref).holds l.id = true
    · rw [if_pos ⟨hlt, hon⟩]
      split <;> omega
    · rw [if_neg fun hboth => hon hboth.2, if_neg fun hboth => hon (hsame hboth.2)]
      omega

theorem PurchasesOk.run (ops : List Op) : BooksOk (runOps ops {}) ∧ PurchasesOk (runOps ops {}) :=
  runOps_figures (fun _ _ ha hm hf h => h.step ha hm hf) booksOk_empty purchasesOk_empty ops

end Step

/-! ## The result -/

/-- Expiry and reversals together took no more for the purchase than it added, less what was
charged to its lots, beside what the reversals took elsewhere. -/
def Account.TakenWithin (a : Account) (p : Purchase) : Prop :=
  a.total p.expired + a.total p.takenBack - a.total p.released - a.total p.restated ≤
    a.total p.added - a.total p.charged + a.total p.beyond

/-- What a purchase's lots hold is not less than nothing, so its figures stay within. -/
theorem PurchasesOk.takenWithin {a : Account} (h : PurchasesOk a) (ref : String) :
    a.TakenWithin (a.purchase ref) := by
  have hheld : 0 ≤ a.heldBy (a.purchase ref) := Part.part_nonneg fun i => remainingOf_nonneg a i
  have hwithin := h.within ref
  have hnet : a.total (a.purchase ref).net =
      a.total (a.purchase ref).added - a.total (a.purchase ref).charged +
        a.total (a.purchase ref).beyond -
      (a.total (a.purchase ref).expired + a.total (a.purchase ref).takenBack -
        a.total (a.purchase ref).released - a.total (a.purchase ref).restated) := by
    unfold Account.total Purchase.net
    induction a.ledger with
    | nil => rfl
    | cons e rows ih =>
      simp only [List.map_cons, List.sum_cons]
      rw [ih]
      omega
  unfold Account.TakenWithin
  omega

/-- **Lapsed credit is lost once.** In every reachable state, for the purchase of every payment,
what expired of it and what reversals took back, less what releases gave back and what
reversals restated of the lapse, is within what it added less what was charged to its lots,
beside what its reversals took off other lots or overdrew. The lapse still to be given back is
never less than nothing, and a reversal restates exactly what it takes of it: the balance gains
that much before the reversal's own row takes the whole amount, the lots lose only the rest,
and a reversal within the lapse moves no lot. -/
theorem lapsed_credit_lost_once (ops : List Op) :
    (∀ paymentRef, (runOps ops {}).TakenWithin ((runOps ops {}).purchase paymentRef)) ∧
    (∀ lotId, 0 ≤ (runOps ops {}).lapsedUnrestated lotId) ∧
    ∀ entryId amount r a', 0 < amount →
      removeCreditFromLots entryId amount (runOps ops {}) = .ok (r, a') →
      r.expiryRestatedInr =
        min amount ((runOps ops {}).unrestated ((runOps ops {}).correctedLot entryId)) ∧
      a'.balance = (runOps ops {}).balance + r.expiryRestatedInr ∧
      a'.held = max ((runOps ops {}).held - (amount - r.expiryRestatedInr)) 0 ∧
      (amount ≤ (runOps ops {}).unrestated ((runOps ops {}).correctedLot entryId) →
        a'.lots = (runOps ops {}).lots) ∧
      ∀ l, (runOps ops {}).correctedLot entryId = some l →
        a'.lapsedUnrestated l.id = (runOps ops {}).lapsedUnrestated l.id - r.expiryRestatedInr := by
  obtain ⟨ha, hp⟩ := PurchasesOk.run ops
  obtain ⟨-, hlapse⟩ := LapseOk.run ops
  generalize runOps ops {} = a at ha hp hlapse
  refine ⟨hp.takenWithin, fun i => (hlapse i).1, ?_⟩
  intro entryId amount r a' hpos hrun
  have hnn : 0 ≤ a.unrestated (a.correctedLot entryId) := by
    cases a.correctedLot entryId with
    | none => exact le_refl _
    | some l => exact (hlapse l.id).1
  obtain ⟨hfig, -, rows, heff, hrows⟩ := removeCreditFromLots_effect ha hpos hrun
  obtain ⟨moved, hm, hsum, -⟩ := removeCreditFromLots_moves ha hpos hrun
  have hexact : r.expiryRestatedInr = min amount (a.unrestated (a.correctedLot entryId)) := by
    omega
  refine ⟨hexact, by rw [hm.balance ha, hsum], by rw [hm.held]; omega, fun hall => ?_, fun l hl => ?_⟩
  · -- the lapse covers the reversal, so nothing is left to take
    cases removeCreditFromLots_path ha hpos hrun with
    | lapsed lapse a₁ pos figure given rest =>
      obtain ⟨-, hlots, -⟩ := restateLapseOf_effect ha hpos given
      rcases rest with ⟨-, -, rfl⟩ | ⟨hless, -⟩
      · exact hlots
      · omega
    | own l found none small figure restated a₁ swap rest => omega
    | queue none large figure debit => omega
  · rw [lapsedUnrestated_eq, heff.ledger, lapsedIn_append, ← lapsedUnrestated_eq]
    rcases hrows with ⟨rfl, hz⟩ | ⟨k, e, hk, rfl, -, he⟩
    · rw [hz, lapsedIn_nil]
      omega
    · rw [hl] at hk
      cases hk
      rw [lapsedIn_restates he, if_pos rfl]
      omega

/-- What a row that takes the purchase back took off no lot: the overdraft it made. -/
def Purchase.overdraft (p : Purchase) (e : Entry) : ℤ :=
  if p.Reverses e then creditsOf (e.entryMeta.lots.filter fun s => s.lotId.isNone) else 0

/-- Two payments of three hundred rupees, a hundred of the first spent before it is refunded. -/
def spentThenRefunded : List Op :=
  [.capture onePackCtx ⟨"pay_1", 30000, none⟩, .capture onePackCtx ⟨"pay_2", 30000, none⟩,
   .usage "assist-1" (.aiAssist 1000000) 0 true, .refund ⟨"rfnd_1", "pay_1", 30000⟩]

/-- **What was spent of a refunded purchase comes off the other lots**: the refund takes the
whole three hundred rupees and overdraws nothing, though only two hundred were left of it. -/
theorem spentThenRefunded_reaches_further :
    ¬ ∀ (ops : List Op) (paymentRef : String),
      (runOps ops {}).total ((runOps ops {}).purchase paymentRef).expired +
        (runOps ops {}).total ((runOps ops {}).purchase paymentRef).takenBack -
        (runOps ops {}).total ((runOps ops {}).purchase paymentRef).released -
        (runOps ops {}).total ((runOps ops {}).purchase paymentRef).restated ≤
      (runOps ops {}).total ((runOps ops {}).purchase paymentRef).added -
        (runOps ops {}).total ((runOps ops {}).purchase paymentRef).charged +
        (runOps ops {}).total ((runOps ops {}).purchase paymentRef).overdraft := by
  intro h
  have := h spentThenRefunded "pay_1"
  revert this
  decide +kernel

end Billing

end Calevate
