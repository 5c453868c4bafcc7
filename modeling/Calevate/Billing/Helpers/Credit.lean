import Calevate.Billing.Credit
import Calevate.Billing.Helpers.Lots

/-!
# Helpers — the seam

One lemma for each door of `Billing.Credit`, saying which rows it appends and by how much
the lots move. `Moves a a' rows d` is the shape of all of them: the ledger grows by
`rows`, the lots hold `d` more, and the other tables stand. The balance follows from the
rows, so a proof about the wallet compares the two sums and nothing else.
-/

namespace Calevate

namespace Billing

open Lib

/-- The two halves of the wallet are well formed. -/
structure BooksOk (a : Account) : Prop where
  ledger : LedgerOk a
  lots : LotsOk a

theorem booksOk_empty : BooksOk {} := ⟨ledgerOk_empty, lotsOk_empty⟩

/-- **What one step of a credit transaction does.** -/
structure Moves (a a' : Account) (rows : List Entry) (dHeld : ℤ) : Prop where
  books : BooksOk a'
  ledger : a'.ledger = a.ledger ++ rows
  held : a'.held = a.held + dHeld
  disputes : a'.disputes = a.disputes
  refundIntents : a'.refundIntents = a.refundIntents
  feePayments : a'.feePayments = a.feePayments
  nextId : a.nextId ≤ a'.nextId

/-- The deltas of a list of rows. -/
def deltaSum (rows : List Entry) : ℤ := (rows.map Entry.delta).sum

@[simp] theorem deltaSum_nil : deltaSum [] = 0 := rfl

@[simp] theorem deltaSum_singleton (e : Entry) : deltaSum [e] = e.delta := by
  simp [deltaSum]

@[simp] theorem deltaSum_append (r s : List Entry) : deltaSum (r ++ s) = deltaSum r + deltaSum s := by
  simp [deltaSum]

namespace Moves

variable {a b c : Account} {r s : List Entry} {d e : ℤ}

theorem refl (h : BooksOk a) : Moves a a [] 0 :=
  ⟨h, (List.append_nil _).symm, (add_zero _).symm, rfl, rfl, rfl, le_refl _⟩

theorem trans (h : Moves a b r d) (h' : Moves b c s e) : Moves a c (r ++ s) (d + e) where
  books := h'.books
  ledger := by rw [h'.ledger, h.ledger, List.append_assoc]
  held := by rw [h'.held, h.held]; omega
  disputes := h'.disputes.trans h.disputes
  refundIntents := h'.refundIntents.trans h.refundIntents
  feePayments := h'.feePayments.trans h.feePayments
  nextId := h.nextId.trans h'.nextId

theorem balance (h : Moves a b r d) (ha : BooksOk a) : b.balance = a.balance + deltaSum r := by
  rw [h.books.ledger.balance_eq_sum, ha.ledger.balance_eq_sum, h.ledger, List.map_append,
    List.sum_append]
  rfl

theorem fees_subset (h : Moves a b r d) : a.feePayments ⊆ b.feePayments := by
  rw [h.feePayments]
  exact List.Subset.refl _

theorem cast (h : Moves a b r d) (hd : d = e) : Moves a b r e := hd ▸ h

theorem of_lotsOnly (ha : BooksOk a) (h : LotsOnly a b) (hok : LotsOk b)
    (hheld : b.held = a.held + d) : Moves a b [] d where
  books := ⟨h.ledgerOk ha.ledger, hok⟩
  ledger := by rw [h.ledger, List.append_nil]
  held := hheld
  disputes := h.disputes
  refundIntents := h.refundIntents
  feePayments := h.feePayments
  nextId := h.nextId

end Moves

section Doors

variable {a a' : Account}

/-! ## The ledger writer -/

/-- `record_entry` appends its one row and leaves the lots alone. -/
theorem recordEntry_moves {delta : ℤ} {reason : CreditReason} {ref : Option String}
    {m : EntryMeta} {neg zero : Bool} {b : Balance} (ha : BooksOk a)
    (h : recordEntry delta reason ref m neg zero a = .ok (b, a')) :
    b.amountInr = a.balance + delta ∧
    ((delta = 0 ∧ zero = false ∧ a' = a) ∨
      Moves a a' [a.entryOf delta reason ref m] 0) := by
  rcases recordEntry_ok h with ⟨rfl, hz, rfl, hb⟩ | ⟨-, hkey, -, rfl, hb⟩
  · exact ⟨by rw [hb, add_zero], Or.inl ⟨rfl, hz, rfl⟩⟩
  · refine ⟨hb, Or.inr ⟨⟨ha.ledger.appendEntry hkey, ?_⟩, rfl, ?_, rfl, rfl, rfl, Nat.le_succ _⟩⟩
    · have hl := ha.lots
      exact ⟨hl.ids, fun l hl' => Nat.lt_succ_of_lt (hl.ids_lt l hl'), hl.sound, hl.entries⟩
    · rw [add_zero]
      rfl

/-- The row a call asks for, whatever its id and its instant. -/
def Entry.Carries (e : Entry) (delta : ℤ) (reason : CreditReason) (ref : Option String)
    (m : EntryMeta) : Prop :=
  e.delta = delta ∧ e.reason = reason ∧ e.ref = ref ∧ e.entryMeta = m

/-- The same, for a proof that reads the rows and not the stamps. -/
theorem recordEntry_sums {delta : ℤ} {reason : CreditReason} {ref : Option String}
    {m : EntryMeta} {neg zero : Bool} {b : Balance} (ha : BooksOk a)
    (h : recordEntry delta reason ref m neg zero a = .ok (b, a')) :
    b.amountInr = a.balance + delta ∧ ∃ rows, Moves a a' rows 0 ∧ deltaSum rows = delta ∧
      ∀ e ∈ rows, e.Carries delta reason ref m := by
  obtain ⟨hb, ⟨rfl, -, rfl⟩ | hm⟩ := recordEntry_moves ha h
  · exact ⟨hb, [], Moves.refl ha, rfl, by simp⟩
  · refine ⟨hb, _, hm, by simp [Account.entryOf], ?_⟩
    intro e he
    obtain rfl := List.mem_singleton.mp he
    exact ⟨rfl, rfl, rfl, rfl⟩

/-- The references under which a correction, a lapse, its reversal and a re-price are
written. -/
def adjustmentPrefixes : List String :=
  ["adjust:", "credit_expiry:", "credit_expiry_restated:", "lot_rates:"]

theorem creditExpiryRestatedRef_eq (lotId fresh : ℕ) : creditExpiryRestatedRef lotId fresh =
    "credit_expiry_restated:" ++ (toString lotId ++ (":" ++ toString fresh)) := by
  unfold creditExpiryRestatedRef
  rw [String.append_assoc, String.append_assoc]

theorem lotRepriceRef_eq (lotId : ℕ) (packId : String) : lotRepriceRef lotId packId =
    "lot_rates:" ++ (toString lotId ++ (":" ++ packId)) := by
  unfold lotRepriceRef
  rw [String.append_assoc, String.append_assoc]

/-- A row no dispute writes, and a debit if it is a refund. -/
structure Entry.Plain (e : Entry) : Prop where
  refund : e.reason = .refund → e.delta < 0
  unrestated : e.entryMeta.expiryRestatedInr = none
  adjustment : e.reason = .adjustment →
    ∃ p ∈ adjustmentPrefixes, ∃ t, e.ref = some (p ++ t)

theorem Entry.Carries.plain {e : Entry} {delta : ℤ} {reason : CreditReason} {ref : Option String}
    {m : EntryMeta} (h : e.Carries delta reason ref m) (hd : reason = .refund → delta < 0)
    (hm : m.expiryRestatedInr = none)
    (hr : reason = .adjustment → ∃ p ∈ adjustmentPrefixes, ∃ t, ref = some (p ++ t)) :
    e.Plain := by
  obtain ⟨rfl, rfl, rfl, rfl⟩ := h
  exact ⟨hd, hm, hr⟩

/-! ## The lots -/

theorem consume_moves {demand : LotDemand} {splits : List LotSplit} (ha : BooksOk a)
    (h : consume demand a = .ok (splits, a')) :
    Moves a a' [] (max (a.held - creditsOf splits) 0 - a.held) ∧ 0 ≤ creditsOf splits := by
  obtain ⟨honly, hok, hheld, hnn⟩ := consume_ok ha.lots h
  exact ⟨Moves.of_lotsOnly ha honly hok (by omega), hnn⟩

theorem openLot_moves {credits : ℤ} {rates : LotRates} {source : LotSource}
    {packId overrideId : Option String} {entryId newId : ℕ} {openedAt expiresAt : Option ℕ}
    (ha : BooksOk a)
    (h : openLot credits rates source packId entryId overrideId openedAt expiresAt a =
      .ok (newId, a')) : Moves a a' [] credits := by
  obtain ⟨honly, hok, hheld, -⟩ := openLot_ok ha.lots h
  exact Moves.of_lotsOnly ha honly hok hheld

theorem adjustLot_moves {lotId : ℕ} {delta : ℤ} {r : LotRestatement} (ha : BooksOk a)
    (h : adjustLotForRestatement lotId delta a = .ok (r, a')) :
    Moves a a' [] (delta + r.shortfall) ∧
      ∃ l ∈ a.lots, r.shortfall = max (-delta - l.creditsRemaining) 0 := by
  obtain ⟨l, hread, honly, hok, hsf, hheld⟩ := adjustLotForRestatement_ok ha.lots h
  exact ⟨Moves.of_lotsOnly ha honly hok (by omega), l, (readLot_some hread).1, hsf⟩

/-! ## Credit that arrives -/

/-- **Credit repays the overdraft before it reaches a lot.** -/
theorem applyCreditToLots_moves {ctx : Ctx} {credits : ℤ} {rates : LotRates} {source : LotSource}
    {packId overrideId : Option String} {entryId : ℕ} {restate : Option ℕ} {r : CreditedLot}
    (ha : BooksOk a)
    (h : applyCreditToLots ctx credits a.balance rates source packId entryId restate overrideId a =
      .ok (r, a')) :
    Moves a a' [] (credits - min credits (max (credits - a.balance) 0)) := by
  have hover : max (-(a.balance - credits)) 0 = max (credits - a.balance) 0 := by
    rw [neg_sub]
  simp only [applyCreditToLots, hover] at h
  rcases Tx.ite_ok.mp h with ⟨hle, h⟩ | ⟨hpos, h⟩
  · cases Tx.pure_ok.mp h
    exact (Moves.refl ha).cast (by omega)
  · obtain ⟨_, _, hget, h⟩ := Tx.bind_ok.mp h
    cases Tx.get_ok.mp hget
    cases restate with
    | none =>
      obtain ⟨_, _, hopen, h⟩ := Tx.bind_ok.mp h
      cases Tx.pure_ok.mp h
      exact openLot_moves ha hopen
    | some lotId =>
      cases htarget : (a.readLot lotId).filter a.lapsed with
      | none =>
        simp only [htarget] at h
        obtain ⟨restated, _, hadj, h⟩ := Tx.bind_ok.mp h
        cases Tx.pure_ok.mp h
        obtain ⟨hm, l, -, hsf⟩ := adjustLot_moves ha hadj
        -- an upward restatement has no shortfall
        have hn := l.remaining_nonneg
        have hz : restated.shortfall = 0 := by omega
        rwa [hz, add_zero] at hm
      | some target =>
        simp only [htarget] at h
        obtain ⟨_, _, hopen, h⟩ := Tx.bind_ok.mp h
        cases Tx.pure_ok.mp h
        exact openLot_moves ha hopen

/-! ## A metered charge -/

theorem consumeExtra_moves {extra : ℚ} {splits : List LotSplit} (ha : BooksOk a)
    (h : consumeExtra extra a = .ok (splits, a')) :
    Moves a a' [] (max (a.held - creditsOf splits) 0 - a.held) ∧ 0 ≤ creditsOf splits := by
  unfold consumeExtra at h
  rcases Tx.ite_ok.mp h with ⟨-, h⟩ | ⟨-, h⟩
  · exact consume_moves ha h
  · cases Tx.pure_ok.mp h
    have hn := held_nonneg a
    have hnil : creditsOf [] = 0 := rfl
    exact ⟨(Moves.refl ha).cast (by omega), le_refl _⟩

/-- **The charge on the ledger is what the lots answered.** -/
theorem recordUsageFromLots_moves {ref : String} {demand : LotDemand} {extra : ℚ} {neg : Bool}
    {kind : UsageKind} {r : LotDebit} (ha : BooksOk a)
    (h : recordUsageFromLots ref demand extra neg kind a = .ok (r, a')) :
    ∃ rows, Moves a a' rows (max (a.held + deltaSum rows) 0 - a.held) ∧ deltaSum rows ≤ 0 ∧
      ∀ e ∈ rows, e.Plain := by
  have hn := held_nonneg a
  unfold recordUsageFromLots at h
  obtain ⟨_, _, hget, h⟩ := Tx.bind_ok.mp h
  cases Tx.get_ok.mp hget
  rcases Tx.ite_ok.mp h with ⟨-, h⟩ | ⟨-, h⟩
  · cases Tx.pure_ok.mp h
    exact ⟨[], (Moves.refl ha).cast (by rw [deltaSum_nil]; omega), le_refl _, by simp⟩
  · obtain ⟨calls, a₁, hcalls, h⟩ := Tx.bind_ok.mp h
    obtain ⟨extras, a₂, hextras, h⟩ := Tx.bind_ok.mp h
    obtain ⟨hm₁, hn₁⟩ := consume_moves ha hcalls
    obtain ⟨hm₂, hn₂⟩ := consumeExtra_moves hm₁.books hextras
    have hm := hm₁.trans hm₂
    have hheld₁ := hm₁.held
    have hsum : creditsOf (calls ++ extras) = creditsOf calls + creditsOf extras := by
      simp [creditsOf]
    rcases Tx.ite_ok.mp h with ⟨hle, h⟩ | ⟨hgt, h⟩
    · cases Tx.pure_ok.mp h
      exact ⟨[], hm.cast (by rw [deltaSum_nil]; omega), le_refl _, by simp⟩
    · obtain ⟨_, a₃, hrec, h⟩ := Tx.bind_ok.mp h
      cases Tx.pure_ok.mp h
      obtain ⟨-, rows, hm₃, hrows, hcarry⟩ := recordEntry_sums hm.books hrec
      refine ⟨rows, (hm.trans hm₃).cast (by rw [hrows, hsum]; omega), by omega, ?_⟩
      intro e he
      exact (hcarry e he).plain (by simp) rfl (by simp)

/-! ## Credit taken back -/

theorem restateLapsedCredit_moves {lotId : ℕ} {amount restated : ℤ} (ha : BooksOk a)
    (h : restateLapsedCredit lotId amount a = .ok (restated, a')) :
    ∃ rows, Moves a a' rows 0 ∧ deltaSum rows = restated ∧ 0 ≤ restated ∧
      (0 < restated → restated ≤ amount) ∧ ∀ e ∈ rows, e.Plain := by
  unfold restateLapsedCredit at h
  obtain ⟨_, _, hget, h⟩ := Tx.bind_ok.mp h
  cases Tx.get_ok.mp hget
  rcases Tx.ite_ok.mp h with ⟨-, h⟩ | ⟨hpos, h⟩
  · cases Tx.pure_ok.mp h
    exact ⟨[], Moves.refl ha, rfl, le_refl _, by omega, by simp⟩
  · obtain ⟨fresh, a₁, hid, h⟩ := Tx.bind_ok.mp h
    cases uuid7_ok.mp hid
    obtain ⟨_, a₂, hrec, h⟩ := Tx.bind_ok.mp h
    cases Tx.pure_ok.mp h
    have hmint : LotsOnly a a.mint := ⟨rfl, rfl, rfl, rfl, le_refl _, Nat.le_succ _⟩
    have hm₁ : Moves a a.mint [] 0 := Moves.of_lotsOnly ha hmint
      (lotsOk_of_lots_eq hmint rfl ha.lots).1 (by rw [add_zero]; rfl)
    obtain ⟨-, rows, hm₂, hrows, hcarry⟩ := recordEntry_sums hm₁.books hrec
    refine ⟨rows, hm₁.trans hm₂, hrows, by omega, by omega, ?_⟩
    intro e he
    exact (hcarry e he).plain nofun rfl fun _ =>
      ⟨_, by simp [adjustmentPrefixes], _, congrArg some (creditExpiryRestatedRef_eq _ _)⟩

theorem restateLapseOf_moves {lot : Option Lot} {amount restated : ℤ} (ha : BooksOk a)
    (h : restateLapseOf lot amount a = .ok (restated, a')) :
    ∃ rows, Moves a a' rows 0 ∧ deltaSum rows = restated ∧ 0 ≤ restated ∧
      (0 < restated → restated ≤ amount) ∧ ∀ e ∈ rows, e.Plain := by
  cases lot with
  | none =>
    cases Tx.pure_ok.mp h
    exact ⟨[], Moves.refl ha, rfl, le_refl _, by omega, by simp⟩
  | some l => exact restateLapsedCredit_moves ha h

theorem consume_aiAssist_moves {c : ℤ} {splits : List LotSplit} (ha : BooksOk a) (hc : 0 ≤ c)
    (h : consume (.aiAssist c) a = .ok (splits, a')) :
    Moves a a' [] (max (a.held - c) 0 - a.held) := by
  have hsum := consume_aiAssist_ok ha.lots h
  rw [max_eq_left hc] at hsum
  have hm := (consume_moves ha h).1
  rwa [hsum] at hm

theorem removeUnlapsed_moves {lot : Option Lot} {amount : ℤ} {r : CreditRemoval}
    (ha : BooksOk a) (hpos : 0 < amount) (h : removeUnlapsed lot amount a = .ok (r, a')) :
    Moves a a' [] (max (a.held - amount) 0 - a.held) ∧ r.expiryRestatedInr = 0 := by
  unfold removeUnlapsed at h
  cases hlot : lot.filter fun l => amount < l.creditsTotal with
  | none =>
    simp only [hlot] at h
    obtain ⟨splits, a₁, hcons, h⟩ := Tx.bind_ok.mp h
    cases Tx.pure_ok.mp h
    exact ⟨consume_aiAssist_moves ha hpos.le hcons, rfl⟩
  | some l =>
    simp only [hlot] at h
    obtain ⟨restated, a₁, hadj, h⟩ := Tx.bind_ok.mp h
    obtain ⟨hm₁, k, hk, hsf⟩ := adjustLot_moves ha hadj
    have hle := ha.lots.remaining_le_held hk
    have hn := k.remaining_nonneg
    rcases Tx.ite_ok.mp h with ⟨hno, h⟩ | ⟨hyes, h⟩
    · cases Tx.pure_ok.mp h
      exact ⟨hm₁.cast (by omega), rfl⟩
    · -- the lot gave up all it held; what it could not give comes off the queue
      obtain ⟨splits, a₂, hcons, h⟩ := Tx.bind_ok.mp h
      cases Tx.pure_ok.mp h
      have hm₂ := consume_aiAssist_moves hm₁.books (by omega) hcons
      have hheld₁ := hm₁.held
      exact ⟨(hm₁.trans hm₂).cast (by omega), rfl⟩

/-- **Credit taken back comes off the lots in full, less what a lapse had taken already.**
That part is given back by rows of its own, so the caller's row for the whole amount
still leaves the two halves level. -/
theorem removeCreditFromLots_moves {entry : Option ℕ} {amount : ℤ} {r : CreditRemoval}
    (ha : BooksOk a) (hpos : 0 < amount) (h : removeCreditFromLots entry amount a = .ok (r, a')) :
    ∃ rows, Moves a a' rows (max (a.held - (amount - r.expiryRestatedInr)) 0 - a.held) ∧
      deltaSum rows = r.expiryRestatedInr ∧ 0 ≤ r.expiryRestatedInr ∧
      r.expiryRestatedInr ≤ amount ∧ ∀ e ∈ rows, e.Plain := by
  have hheld := held_nonneg a
  unfold removeCreditFromLots at h
  obtain ⟨_, _, hget, h⟩ := Tx.bind_ok.mp h
  cases Tx.get_ok.mp hget
  obtain ⟨lapse, a₁, hlapse, h⟩ := Tx.bind_ok.mp h
  obtain ⟨rows, hm₁, hrows, hnn, hle, hkind⟩ := restateLapseOf_moves ha hlapse
  have hheld₁ := hm₁.held
  rcases Tx.ite_ok.mp h with ⟨hl, h⟩ | ⟨hl, h⟩
  · have hle := hle hl
    rcases Tx.ite_ok.mp h with ⟨hall, h⟩ | ⟨hrest, h⟩
    · cases Tx.pure_ok.mp h
      exact ⟨rows, hm₁.cast (by dsimp only; omega), hrows, hnn, hle, hkind⟩
    · obtain ⟨splits, a₂, hcons, h⟩ := Tx.bind_ok.mp h
      cases Tx.pure_ok.mp h
      have hcast : ((amount : ℚ) - lapse) = ((amount - lapse : ℤ) : ℚ) := by push_cast; rfl
      rw [hcast] at hcons
      have hm₂ := consume_aiAssist_moves hm₁.books (by omega) hcons
      refine ⟨rows, ?_, hrows, hnn, hle, hkind⟩
      have := (hm₁.trans hm₂).cast (e := max (a.held - (amount - lapse)) 0 - a.held) (by omega)
      rwa [List.append_nil] at this
  · obtain ⟨hm₂, hz⟩ := removeUnlapsed_moves hm₁.books hpos h
    have hl0 : lapse = 0 := by omega
    subst hl0
    refine ⟨rows, ?_, by rw [hrows, hz], by rw [hz], by omega, hkind⟩
    rw [hz]
    have := (hm₁.trans hm₂).cast (e := max (a.held - (amount - 0)) 0 - a.held) (by omega)
    rwa [List.append_nil] at this

/-! ## Lapse and re-price -/

/-- **A lapse takes off the ledger what it takes off its lot.** -/
theorem expireLot_moves {lotId now : ℕ} {r : Option ℤ} (ha : BooksOk a)
    (h : expireLot lotId now a = .ok (r, a')) :
    ∃ rows, Moves a a' rows (deltaSum rows) ∧ deltaSum rows ≤ 0 ∧ ∀ e ∈ rows, e.Plain := by
  unfold expireLot at h
  obtain ⟨_, _, hget, h⟩ := Tx.bind_ok.mp h
  cases Tx.get_ok.mp hget
  rcases Tx.ite_ok.mp h with ⟨-, h⟩ | ⟨-, h⟩
  · cases Tx.pure_ok.mp h
    exact ⟨[], Moves.refl ha, le_refl _, by simp⟩
  · cases hl : a.dueLot lotId now with
    | none =>
      rw [hl] at h
      cases Tx.pure_ok.mp h
      exact ⟨[], Moves.refl ha, le_refl _, by simp⟩
    | some l =>
      simp only [hl] at h
      obtain ⟨closed, a₁, hclose, h⟩ := Tx.bind_ok.mp h
      obtain ⟨honly, hok, hheld⟩ := closeLot_ok ha.lots hclose
      rcases Tx.ite_ok.mp h with ⟨hcl, h⟩ | ⟨-, h⟩
      · obtain ⟨_, a₂, hrec, h⟩ := Tx.bind_ok.mp h
        cases Tx.pure_ok.mp h
        have hm₁ : Moves a a₁ [] (-l.creditsRemaining) := by
          refine Moves.of_lotsOnly ha honly hok ?_
          rw [hheld hcl]
          omega
        obtain ⟨-, rows, hm₂, hrows, hcarry⟩ := recordEntry_sums hm₁.books hrec
        have hn := l.remaining_nonneg
        refine ⟨rows, (hm₁.trans hm₂).cast (by omega), by omega, ?_⟩
        intro e he
        exact (hcarry e he).plain nofun rfl fun _ => ⟨"credit_expiry:", by simp [adjustmentPrefixes], _, rfl⟩
      · exact (Tx.throw_ok.mp h).elim

/-- **A re-price moves no money**: the marker's delta is nothing, and what leaves the
closed lot arrives on its replacement. -/
theorem repriceLot_moves {ctx : Ctx} {lotId : ℕ} {pack : CreditPack} {r : Option RepricedLot}
    (ha : BooksOk a) (h : repriceLot ctx lotId pack a = .ok (r, a')) :
    ∃ rows, Moves a a' rows 0 ∧ deltaSum rows = 0 ∧ ∀ e ∈ rows, e.Plain := by
  unfold repriceLot at h
  obtain ⟨_, _, hget, h⟩ := Tx.bind_ok.mp h
  cases Tx.get_ok.mp hget
  rcases Tx.ite_ok.mp h with ⟨-, h⟩ | ⟨-, h⟩
  · cases Tx.pure_ok.mp h
    exact ⟨[], Moves.refl ha, rfl, by simp⟩
  · simp only [Tx.bind_ok, Tx.ofOption_ok, Tx.ite_ok, Tx.throw_ok, Tx.get_ok, Tx.pure_ok,
      and_false, false_or, or_false] at h
    obtain ⟨l, _, ⟨_, hread, h₁⟩, -, -, -, _, a₁, hrec, _, _, h₂, marker, _, ⟨_, hmark, h₃⟩,
      closed, a₂, hclose, hcl, newId, a₃, hopen, h₄⟩ := h
    cases h₁
    cases h₂
    cases h₃
    cases h₄
    obtain ⟨-, rows, hm₁, hrows, hcarry⟩ := recordEntry_sums ha hrec
    obtain ⟨honly, hok, hheld⟩ := closeLot_ok hm₁.books.lots hclose
    have hm₂ : Moves a₁ a₂ [] (-l.creditsRemaining) := by
      refine Moves.of_lotsOnly hm₁.books honly hok ?_
      rw [hheld hcl]
      omega
    have hm₃ := openLot_moves hm₂.books hopen
    have hm := ((hm₁.trans hm₂).trans hm₃).cast (e := 0) (by omega)
    rw [List.append_nil, List.append_nil] at hm
    refine ⟨rows, hm, hrows, ?_⟩
    intro e he
    exact (hcarry e he).plain (by simp) rfl fun _ =>
      ⟨_, by simp [adjustmentPrefixes], _, congrArg some (lotRepriceRef_eq _ _)⟩

end Doors

end Billing

end Calevate
