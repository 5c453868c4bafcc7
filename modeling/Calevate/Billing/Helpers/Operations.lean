import Calevate.Billing.Helpers.Credit
import Calevate.Billing.Operations

/-!
# Helpers — the credit operations

Every operation of `Billing.Operations` either replays, and moves nothing, or writes its
rows and moves the lots with them. `Settles` is what they share: the rows are none of a
dispute's, and lots that agreed with the balance before agree with it after. It composes,
so a refund and the bonus it takes back are two of them in a row.
-/

namespace Calevate

namespace Billing

open Lib

/-- Lots that hold the positive part of the balance hold it still after `rows` and `d`. -/
def Level (a : Account) (rows : List Entry) (d : ℤ) : Prop :=
  a.held = max a.balance 0 → a.held + d = max (a.balance + deltaSum rows) 0

theorem Level.nil (a : Account) : Level a [] 0 := by
  intro h
  simpa using h

theorem Level.trans {a b : Account} {r s : List Entry} {d e : ℤ} (h : Level a r d)
    (ha : BooksOk a) (hm : Moves a b r d) (h' : Level b s e) : Level a (r ++ s) (d + e) := by
  intro hagree
  have hb := hm.balance ha
  have hheld := hm.held
  have hmid := h hagree
  have hend := h' (by rw [hheld, hb, hmid])
  rw [deltaSum_append]
  rw [hheld, hb] at hend
  rw [← add_assoc, ← add_assoc, hend]

/-- **What an operation outside the disputes does.** -/
def Settles (a a' : Account) : Prop :=
  ∃ rows d, Moves a a' rows d ∧ (∀ e ∈ rows, e.Plain) ∧ Level a rows d

theorem Settles.refl {a : Account} (ha : BooksOk a) : Settles a a :=
  ⟨[], 0, Moves.refl ha, by simp, Level.nil a⟩

theorem Settles.trans {a b c : Account} (ha : BooksOk a) (h : Settles a b) (h' : Settles b c) :
    Settles a c := by
  obtain ⟨r, d, hm, hp, hl⟩ := h
  obtain ⟨s, e, hm', hp', hl'⟩ := h'
  refine ⟨r ++ s, d + e, hm.trans hm', ?_, hl.trans ha hm hl'⟩
  intro x hx
  rcases List.mem_append.mp hx with hx | hx
  · exact hp x hx
  · exact hp' x hx

theorem Settles.books {a b : Account} (h : Settles a b) : BooksOk b := by
  obtain ⟨_, _, hm, -, -⟩ := h
  exact hm.books

theorem adjustmentRef_eq (entryId : ℕ) (amount : ℤ) : adjustmentRef entryId amount =
    "adjust:" ++ (toString entryId ++ (":" ++ paiseText amount)) := by
  unfold adjustmentRef
  rw [String.append_assoc, String.append_assoc]

section Steps

variable {a a₁ a' : Account} {amount : ℤ} {reason : CreditReason} {ref : Option String}
  {m : EntryMeta} {neg zero : Bool} {b : Balance}

/-! ## The two movements -/

/-- **A credit row and the lot it lands on.** The part that repays an overdraft reaches no
lot, and it is the part by which the positive balance grows less than the row. -/
theorem credit_moves {ctx : Ctx} {rates : LotRates} {source : LotSource}
    {packId overrideId : Option String} {entryId : ℕ} {restate : Option ℕ} {r : CreditedLot}
    (ha : BooksOk a) (hrow : recordEntry amount reason ref m neg zero a = .ok (b, a₁))
    (hlot : applyCreditToLots ctx amount b.amountInr rates source packId entryId restate
      overrideId a₁ = .ok (r, a')) :
    ∃ rows d, Moves a a' rows d ∧ (0 ≤ amount → Level a rows d) ∧
      (amount = 0 ∧ zero = false ∧ rows = [] ∨ rows = [a.entryOf amount reason ref m]) := by
  have hrows : ∃ rows, Moves a a₁ rows 0 ∧ deltaSum rows = amount ∧
      (amount = 0 ∧ zero = false ∧ rows = [] ∨ rows = [a.entryOf amount reason ref m]) := by
    obtain ⟨-, ⟨hz, hzero, rfl⟩ | hm⟩ := recordEntry_moves ha hrow
    · exact ⟨[], Moves.refl ha, hz.symm, Or.inl ⟨hz, hzero, rfl⟩⟩
    · exact ⟨_, hm, deltaSum_singleton _, Or.inr rfl⟩
  obtain ⟨rows, hm₁, hsum, hshape⟩ := hrows
  have hb := (recordEntry_moves ha hrow).1
  have hbal := hm₁.balance ha
  rw [hb, ← hsum, ← hbal, hsum] at hlot
  have hm₂ := applyCreditToLots_moves hm₁.books hlot
  refine ⟨rows ++ [], _, hm₁.trans hm₂, ?_, by simpa using hshape⟩
  intro hpos hagree
  rw [List.append_nil]
  omega

/-- **A row that takes credit back and what it takes off the lots.** -/
theorem removal_moves {entry : Option ℕ} {removal : CreditRemoval} (ha : BooksOk a)
    (hpos : 0 < amount) (hlots : removeCreditFromLots entry amount a = .ok (removal, a₁))
    (hrow : recordEntry (-amount) reason ref m true false a₁ = .ok (b, a')) :
    ∃ rows d, Moves a a' (rows ++ [a₁.entryOf (-amount) reason ref m]) d ∧
      (∀ e ∈ rows, e.Plain) ∧ Level a (rows ++ [a₁.entryOf (-amount) reason ref m]) d ∧
      deltaSum rows = removal.expiryRestatedInr ∧ 0 ≤ removal.expiryRestatedInr ∧
      removal.expiryRestatedInr ≤ amount := by
  obtain ⟨rows, hm₁, hsum, hnn, hle, hplain⟩ := removeCreditFromLots_moves ha hpos hlots
  obtain ⟨-, ⟨hz, -⟩ | hm₂⟩ := recordEntry_moves hm₁.books hrow
  · omega
  · refine ⟨rows, _, hm₁.trans hm₂, hplain, ?_, hsum, hnn, hle⟩
    intro hagree
    have hdelta : deltaSum [a₁.entryOf (-amount) reason ref m] = -amount := deltaSum_singleton _
    rw [deltaSum_append, hsum, hdelta]
    omega

theorem credit_settles {ctx : Ctx} {rates : LotRates} {source : LotSource}
    {packId overrideId : Option String} {entryId : ℕ} {restate : Option ℕ} {r : CreditedLot}
    (ha : BooksOk a) (hpos : 0 ≤ amount)
    (hrow : recordEntry amount reason ref m neg zero a = .ok (b, a₁))
    (hlot : applyCreditToLots ctx amount b.amountInr rates source packId entryId restate
      overrideId a₁ = .ok (r, a')) (hmeta : m.expiryRestatedInr = none)
    (hreason : reason = .adjustment → ∃ p ∈ adjustmentPrefixes, ∃ t, ref = some (p ++ t))
    (hrefund : reason ≠ .refund) : Settles a a' := by
  obtain ⟨rows, d, hm, hlevel, ⟨-, -, rfl⟩ | rfl⟩ := credit_moves ha hrow hlot
  · exact ⟨[], d, hm, by simp, hlevel hpos⟩
  · refine ⟨_, d, hm, ?_, hlevel hpos⟩
    intro e he
    obtain rfl := List.mem_singleton.mp he
    exact ⟨fun h => absurd h hrefund, hmeta, hreason⟩

theorem removal_settles {entry : Option ℕ} {removal : CreditRemoval} (ha : BooksOk a)
    (hpos : 0 < amount) (hlots : removeCreditFromLots entry amount a = .ok (removal, a₁))
    (hrow : recordEntry (-amount) reason ref m true false a₁ = .ok (b, a'))
    (hmeta : m.expiryRestatedInr = none)
    (hreason : reason = .adjustment → ∃ p ∈ adjustmentPrefixes, ∃ t, ref = some (p ++ t)) :
    Settles a a' := by
  obtain ⟨rows, d, hm, hplain, hlevel, -, -, -⟩ := removal_moves ha hpos hlots hrow
  refine ⟨_, d, hm, ?_, hlevel⟩
  intro e he
  rcases List.mem_append.mp he with he | he
  · exact hplain e he
  · obtain rfl := List.mem_singleton.mp he
    exact ⟨fun _ => neg_neg_of_pos hpos, hmeta, hreason⟩

end Steps

section Operations

variable {a a' : Account} {ctx : Ctx}

/-! ## Payments and grants -/

theorem refuseConflictingOverride_ok {entryId : ℕ} {override : Option CreditPack} {u : Unit}
    (h : refuseConflictingOverride entryId override a = .ok (u, a')) : a = a' := by
  unfold refuseConflictingOverride at h
  obtain ⟨_, _, hget, h⟩ := Tx.bind_ok.mp h
  cases Tx.get_ok.mp hget
  cases override with
  | none => cases Tx.pure_ok.mp h; rfl
  | some pack =>
    rcases Tx.ite_ok.mp h with ⟨-, h⟩ | ⟨-, h⟩
    · cases Tx.pure_ok.mp h; rfl
    · exact (Tx.throw_ok.mp h).elim

theorem overridePack_ok {ratesOf : Option String} {r : Option CreditPack}
    (h : overridePack ctx ratesOf a = .ok (r, a')) : a = a' := by
  unfold overridePack at h
  cases ratesOf with
  | none => cases Tx.pure_ok.mp h; rfl
  | some pid =>
    obtain ⟨_, _, hp, h⟩ := Tx.bind_ok.mp h
    obtain ⟨_, -, hp⟩ := Tx.ofOption_ok.mp hp
    cases hp
    cases Tx.pure_ok.mp h
    rfl

theorem creditTopup_settles {amount : ℤ} {ref : String} {override : Option CreditPack}
    {r : CreditedLot} (ha : BooksOk a) (hpos : 0 ≤ amount)
    (h : creditTopup ctx amount ref override a = .ok (r, a')) : Settles a a' := by
  unfold creditTopup at h
  simp only [Tx.bind_ok, Tx.get_ok, Tx.ofOption_ok] at h
  obtain ⟨b, a₁, hrow, _, _, h₁, written, _, ⟨_, -, h₂⟩, hlot⟩ := h
  cases h₁
  cases h₂
  exact credit_settles ha hpos hrow hlot rfl nofun nofun

theorem recordTopup_settles {paise : ℤ} {ref : String} {ratesOf : Option String} {u : Unit}
    (ha : BooksOk a) (h : recordTopup ctx paise ref ratesOf a = .ok (u, a')) : Settles a a' := by
  unfold recordTopup at h
  rcases Tx.ite_ok.mp h with ⟨-, h⟩ | ⟨hpos, h⟩
  · exact (Tx.throw_ok.mp h).elim
  · obtain ⟨override, _, hov, h⟩ := Tx.bind_ok.mp h
    obtain rfl := overridePack_ok hov
    obtain ⟨_, _, hget, h⟩ := Tx.bind_ok.mp h
    cases Tx.get_ok.mp hget
    cases hfind : a.findTopup ref with
    | some existing =>
      simp only [hfind] at h
      rcases Tx.ite_ok.mp h with ⟨-, h⟩ | ⟨-, h⟩
      · obtain rfl := refuseConflictingOverride_ok h
        exact Settles.refl ha
      · exact (Tx.throw_ok.mp h).elim
    | none =>
      simp only [hfind] at h
      obtain ⟨_, _, hnew, h⟩ := Tx.bind_ok.mp h
      cases Tx.pure_ok.mp h
      exact creditTopup_settles ha (by omega) hnew

theorem grantPackBonus_settles {paymentId : String} {pack : CreditPack} {u : Unit}
    (ha : BooksOk a) (h : grantPackBonus ctx paymentId pack a = .ok (u, a')) : Settles a a' := by
  unfold grantPackBonus at h
  rcases Tx.ite_ok.mp h with ⟨-, h⟩ | ⟨hpos, h⟩
  · cases Tx.pure_ok.mp h
    exact Settles.refl ha
  · obtain ⟨_, _, hget, h⟩ := Tx.bind_ok.mp h
    cases Tx.get_ok.mp hget
    rcases Tx.ite_ok.mp h with ⟨-, h⟩ | ⟨-, h⟩
    · cases Tx.pure_ok.mp h
      exact Settles.refl ha
    · simp only [Tx.bind_ok, Tx.get_ok, Tx.ofOption_ok, Tx.pure_ok] at h
      obtain ⟨b, a₁, hrow, _, _, h₁, written, _, ⟨_, -, h₂⟩, _, _, hlot, h₃⟩ := h
      cases h₁
      cases h₂
      cases h₃
      exact credit_settles ha (by omega) hrow hlot rfl nofun nofun

theorem paiseToInr_pos (paise : ℕ+) : 0 < paiseToInr paise := by
  have := paise.pos
  unfold paiseToInr ofPaise
  omega

theorem creditNewPayment_settles {payment : CapturedPayment} {pack : Option CreditPack} {u : Unit}
    (ha : BooksOk a) (h : creditNewPayment ctx payment pack a = .ok (u, a')) : Settles a a' := by
  unfold creditNewPayment at h
  simp only [Tx.bind_ok, Tx.get_ok, Tx.ofOption_ok] at h
  obtain ⟨b, a₁, hrow, _, _, h₁, written, _, ⟨_, -, h₂⟩, _, a₂, hlot, h⟩ := h
  cases h₁
  cases h₂
  have hpaid : Settles a a₂ :=
    credit_settles ha (paiseToInr_pos payment.paise).le hrow hlot rfl nofun nofun
  cases pack with
  | none =>
    cases Tx.pure_ok.mp h
    exact hpaid
  | some pack => exact hpaid.trans ha (grantPackBonus_settles hpaid.books h)

theorem creditCapturedPayment_settles {payment : CapturedPayment} {u : Unit} (ha : BooksOk a)
    (h : creditCapturedPayment ctx payment a = .ok (u, a')) : Settles a a' := by
  unfold creditCapturedPayment at h
  obtain ⟨_, _, hget, h⟩ := Tx.bind_ok.mp h
  cases Tx.get_ok.mp hget
  cases hfind : a.findTopup payment.paymentId with
  | some existing =>
    simp only [hfind] at h
    rcases Tx.ite_ok.mp h with ⟨-, h⟩ | ⟨-, h⟩
    · cases Tx.pure_ok.mp h
      exact Settles.refl ha
    · exact (Tx.throw_ok.mp h).elim
  | none =>
    simp only [hfind] at h
    exact creditNewPayment_settles ha h

theorem checkGrantAmount_ok {paise : ℤ} {confirmation : Option ℤ} {u : Unit}
    (h : checkGrantAmount paise confirmation a = .ok (u, a')) : a = a' ∧ 100 ≤ paise := by
  unfold checkGrantAmount at h
  rcases Tx.ite_ok.mp h with ⟨-, h⟩ | ⟨hrange, h⟩
  · exact (Tx.throw_ok.mp h).elim
  · rcases Tx.ite_ok.mp h with ⟨-, h⟩ | ⟨-, h⟩
    · exact (Tx.throw_ok.mp h).elim
    · cases Tx.pure_ok.mp h
      exact ⟨rfl, by omega⟩

theorem recordGrant_settles {paise : ℤ} {confirmation : Option ℤ} {reference : String} {u : Unit}
    (ha : BooksOk a) (h : recordGrant ctx paise confirmation reference a = .ok (u, a')) :
    Settles a a' := by
  unfold recordGrant at h
  obtain ⟨_, _, hcheck, h⟩ := Tx.bind_ok.mp h
  obtain ⟨rfl, hmin⟩ := checkGrantAmount_ok hcheck
  obtain ⟨_, _, hget, h⟩ := Tx.bind_ok.mp h
  cases Tx.get_ok.mp hget
  cases hfind : a.findEntryByRef .grant (grantRef reference) with
  | some existing =>
    simp only [hfind] at h
    rcases Tx.ite_ok.mp h with ⟨-, h⟩ | ⟨-, h⟩
    · cases Tx.pure_ok.mp h
      exact Settles.refl ha
    · exact (Tx.throw_ok.mp h).elim
  | none =>
    simp only [hfind, Tx.bind_ok, Tx.get_ok, Tx.ofOption_ok, Tx.pure_ok] at h
    obtain ⟨b, a₁, hrow, _, _, h₁, written, _, ⟨_, -, h₂⟩, _, _, hlot, h₃⟩ := h
    cases h₁
    cases h₂
    cases h₃
    have hpos : 0 ≤ ofPaise paise := by
      unfold ofPaise
      omega
    exact credit_settles ha hpos hrow hlot rfl nofun nofun

/-! ## Corrections -/

theorem writeAdjustment_settles {target : Entry} {amount : ℤ} {u : Unit} (ha : BooksOk a)
    (hpos : 0 < amount) (h : writeAdjustment ctx target amount a = .ok (u, a')) :
    Settles a a' := by
  have href : CreditReason.adjustment = .adjustment → ∃ p ∈ adjustmentPrefixes, ∃ t,
      some (adjustmentRef target.id amount) = some (p ++ t) := fun _ =>
    ⟨_, by simp [adjustmentPrefixes], _, congrArg some (adjustmentRef_eq _ _)⟩
  unfold writeAdjustment at h
  rcases Tx.ite_ok.mp h with ⟨-, h⟩ | ⟨-, h⟩
  · simp only [Tx.bind_ok, Tx.pure_ok] at h
    obtain ⟨removal, a₁, hlots, _, _, hrow, h₁⟩ := h
    cases h₁
    exact removal_settles ha hpos hlots hrow rfl href
  · simp only [Tx.bind_ok, Tx.get_ok, Tx.ofOption_ok, Tx.pure_ok] at h
    obtain ⟨b, a₁, hrow, _, _, h₁, written, _, ⟨_, -, h₂⟩, _, _, hlot, h₃⟩ := h
    cases h₁
    cases h₂
    cases h₃
    exact credit_settles ha hpos.le hrow hlot rfl href (by simp)

theorem recordAdjustment_settles {entryId : ℕ} {paise : ℤ} {u : Unit} (ha : BooksOk a)
    (h : recordAdjustment ctx entryId paise a = .ok (u, a')) : Settles a a' := by
  unfold recordAdjustment at h
  simp only [Tx.ite_ok, Tx.bind_ok, Tx.get_ok, Tx.ofOption_ok, Tx.throw_ok, Tx.pure_ok,
    and_false, false_or] at h
  obtain ⟨hpos, _, _, h₁, target, _, ⟨_, -, h₂⟩, -, h⟩ := h
  cases h₁
  cases h₂
  rcases h with ⟨-, h⟩ | ⟨-, -, h⟩
  · cases h
    exact Settles.refl ha
  · exact writeAdjustment_settles ha (by omega) h

theorem writeRestatement_settles {paymentRef : String} {corrected added : ℤ} {u : Unit}
    (ha : BooksOk a) (hpos : 0 ≤ added)
    (h : writeRestatement ctx paymentRef corrected added a = .ok (u, a')) : Settles a a' := by
  unfold writeRestatement at h
  simp only [Tx.bind_ok, Tx.get_ok, Tx.ofOption_ok, Tx.pure_ok] at h
  obtain ⟨b, a₁, hrow, _, _, h₁, written, _, ⟨_, -, h₂⟩, anchor, _, ⟨_, -, h₃⟩, _, _, hlot, h₄⟩ := h
  cases h₁
  cases h₂
  cases h₃
  cases h₄
  exact credit_settles ha hpos hrow hlot rfl nofun nofun

theorem recordRestatement_settles {paymentRef : String} {paise : ℤ} {u : Unit} (ha : BooksOk a)
    (h : recordRestatement ctx paymentRef paise a = .ok (u, a')) : Settles a a' := by
  unfold recordRestatement at h
  simp only [Tx.ite_ok, Tx.bind_ok, Tx.get_ok, Tx.ofOption_ok, Tx.throw_ok, Tx.pure_ok,
    and_false, false_or] at h
  obtain ⟨-, _, _, h₁, credited, _, ⟨_, -, h₂⟩, h⟩ := h
  cases h₁
  cases h₂
  rcases h with ⟨-, h⟩ | ⟨-, hincrease, h⟩
  · cases h
    exact Settles.refl ha
  · exact writeRestatement_settles ha (by omega) h

/-! ## Refunds -/

theorem clawBackPackBonus_settles {refund : RefundEvent} {u : Unit} (ha : BooksOk a)
    (h : clawBackPackBonus refund a = .ok (u, a')) : Settles a a' := by
  unfold clawBackPackBonus at h
  obtain ⟨_, _, hget, h⟩ := Tx.bind_ok.mp h
  cases Tx.get_ok.mp hget
  cases hpaid : a.findTopup refund.paymentId with
  | none =>
    simp only [hpaid] at h
    cases Tx.pure_ok.mp h
    exact Settles.refl ha
  | some paid =>
    cases hgrant : a.findEntryByRef .bonus refund.paymentId with
    | none =>
      simp only [hpaid, hgrant] at h
      cases Tx.pure_ok.mp h
      exact Settles.refl ha
    | some grant =>
      simp only [hpaid, hgrant] at h
      rcases Tx.ite_ok.mp h with ⟨-, h⟩ | ⟨hdue, h⟩
      · cases Tx.pure_ok.mp h
        exact Settles.refl ha
      · simp only [writeClawback, Tx.bind_ok, Tx.pure_ok] at h
        obtain ⟨removal, a₁, hlots, _, _, hrow, h₁⟩ := h
        cases h₁
        exact removal_settles ha (by omega) hlots hrow rfl nofun

theorem writeRefund_settles {refund : RefundEvent} {u : Unit} (ha : BooksOk a)
    (h : writeRefund refund a = .ok (u, a')) : Settles a a' := by
  unfold writeRefund at h
  simp only [Tx.bind_ok, Tx.get_ok] at h
  obtain ⟨_, _, h₁, removal, a₁, hlots, _, a₂, hrow, hclaw⟩ := h
  cases h₁
  have hrefund : Settles a a₂ :=
    removal_settles ha (paiseToInr_pos refund.paise) hlots hrow rfl nofun
  exact hrefund.trans ha (clawBackPackBonus_settles hrefund.books hclaw)

theorem creditRefund_settles {refund : RefundEvent} {u : Unit} (ha : BooksOk a)
    (h : creditRefund refund a = .ok (u, a')) : Settles a a' := by
  unfold creditRefund at h
  obtain ⟨_, _, hget, h⟩ := Tx.bind_ok.mp h
  cases Tx.get_ok.mp hget
  cases hfind : a.findEntryByRef .refund refund.refundId with
  | some existing =>
    simp only [hfind] at h
    rcases Tx.ite_ok.mp h with ⟨-, h⟩ | ⟨-, h⟩
    · cases Tx.pure_ok.mp h
      exact Settles.refl ha
    · exact (Tx.throw_ok.mp h).elim
  | none =>
    simp only [hfind] at h
    exact writeRefund_settles ha h

/-! ## Charges, lapses and re-prices -/

theorem recordUsageFromLots_settles {ref : String} {demand : LotDemand} {extra : ℚ} {neg : Bool}
    {kind : UsageKind} {r : LotDebit} (ha : BooksOk a)
    (h : recordUsageFromLots ref demand extra neg kind a = .ok (r, a')) :
    Settles a a' := by
  obtain ⟨rows, hm, hle, hplain⟩ := recordUsageFromLots_moves ha h
  refine ⟨rows, _, hm, hplain, ?_⟩
  intro hagree
  omega

theorem chargeForCall_settles {callId : ℕ} {minutes extra : ℚ} {tier : VoiceTier}
    {fallback : LotRates} {r : ℤ} (ha : BooksOk a)
    (h : chargeForCall callId minutes tier fallback extra a = .ok (r, a')) : Settles a a' := by
  unfold chargeForCall at h
  rcases Tx.ite_ok.mp h with ⟨-, h⟩ | ⟨-, h⟩
  · cases Tx.pure_ok.mp h
    exact Settles.refl ha
  · obtain ⟨_, _, hcharge, h⟩ := Tx.bind_ok.mp h
    cases Tx.pure_ok.mp h
    exact recordUsageFromLots_settles ha hcharge

/-- A lot that lapses was open, so the balance covered it: the row cannot overdraw. -/
theorem expireLot_settles {lotId now : ℕ} {r : Option ℤ} (ha : BooksOk a)
    (h : expireLot lotId now a = .ok (r, a')) : Settles a a' := by
  obtain ⟨rows, hm, hle, hplain⟩ := expireLot_moves ha h
  refine ⟨rows, _, hm, hplain, ?_⟩
  intro hagree
  have hheld := held_nonneg a'
  have := hm.held
  omega

theorem repriceLot_settles {lotId : ℕ} {pack : CreditPack} {r : Option RepricedLot}
    (ha : BooksOk a) (h : repriceLot ctx lotId pack a = .ok (r, a')) : Settles a a' := by
  obtain ⟨rows, hm, hsum, hplain⟩ := repriceLot_moves ha h
  refine ⟨rows, _, hm, hplain, ?_⟩
  intro hagree
  omega

end Operations

end Billing

end Calevate
