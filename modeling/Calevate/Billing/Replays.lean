import Calevate.Billing.Helpers.Figures
import Calevate.Lib.Replay

/-!
# Redelivered requests

The gateway and the workers deliver at least once: a captured payment, a refund, a correction,
a restated payment, a charge or an expiry may arrive again, long after the first time and in
any order with the others. Each writer looks its own row up first. `Op.keyed` says for every
one of them that it does nothing when the row is there and otherwise leaves the row behind;
since the ledger only grows, the repeats can then be struck out of every run.
-/

namespace Calevate

namespace Billing

open Lib

/-- The reason and the reference of the row a request is recorded under. -/
def Op.key : Op → Option (CreditReason × String)
  | .topup _ _ ref _ => some (.topup, ref)
  | .capture _ payment => some (.topup, payment.paymentId)
  | .grant _ _ _ reference => some (.grant, grantRef reference)
  | .usage ref _ _ _ _ => some (.usage, ref)
  | .call callId _ _ _ _ => some (.usage, toString callId)
  | .adjust _ entryId paise => some (.adjustment, adjustmentRef entryId (ofPaise paise))
  | .restate _ paymentRef paise => some (.topup, restatementRef paymentRef (ofPaise paise))
  | .refund event => some (.refund, event.refundId)
  | .expire lotId _ => some (.adjustment, creditExpiryRef lotId)
  | .reprice _ lotId pack => some (.adjustment, lotRepriceRef lotId pack.packId)
  | .dispute _ _ => none
  | .feePaid _ => none
  | .alertLine _ => none
  | .wait _ => none

/-- A row stands under the request's key. -/
def Account.Recorded (a : Account) (o : Op) : Prop :=
  ∃ key, o.key = some key ∧ a.keyTaken key.1 (some key.2)

/-! ## Under one key -/

section Keyed

variable {a a' a₁ : Account} {reason : CreditReason} {ref : String}

/-- A transaction that is recorded under this key: it does nothing, or it finds the key free
and leaves its row there, or it had nothing to write. -/
def Keyed (reason : CreditReason) (ref : String) (a a' : Account) : Prop :=
  a' = a ∨ ¬ a.keyTaken reason (some ref) ∧
    (a'.keyTaken reason (some ref) ∨ a'.ledger = a.ledger)

theorem keyTaken_of_prefix (h : a.ledger <+: a'.ledger) {r : Option String}
    (hkey : a.keyTaken reason r) : a'.keyTaken reason r := by
  obtain ⟨hsome, e, he, hr⟩ := hkey
  exact ⟨hsome, e, h.subset he, hr⟩

theorem keyTaken_of_carries {e : Entry} {delta : ℤ} {m : EntryMeta}
    (h : e.Carries delta reason (some ref) m) (he : e ∈ a.ledger) :
    a.keyTaken reason (some ref) :=
  ⟨rfl, e, he, h.2.1, h.2.2.1⟩

theorem findEntryByRef_isSome (ha : LedgerOk a) :
    (a.findEntryByRef reason ref).isSome ↔ a.keyTaken reason (some ref) := by
  rw [Option.isSome_iff_exists]
  constructor
  · rintro ⟨e, he⟩
    obtain ⟨hmem, hr, href⟩ := (findEntryByRef_some_iff ha).mp he
    exact ⟨rfl, e, hmem, hr, href⟩
  · rintro ⟨-, e, hmem, hr, href⟩
    exact ⟨e, (findEntryByRef_some_iff ha).mpr ⟨hmem, hr, href⟩⟩

theorem not_keyTaken_of_none (ha : LedgerOk a) (h : a.findEntryByRef reason ref = none) :
    ¬ a.keyTaken reason (some ref) := by
  rw [← findEntryByRef_isSome ha, h]
  simp

/-- The ledger only grows. -/
theorem Movements.ledger_grows (ha : BooksOk a) (h : Movements a a') :
    a.ledger <+: a'.ledger := by
  refine (@Movements.inv (fun b => BooksOk b ∧ a.ledger <+: b.ledger) ?_ a a'
    ⟨ha, List.prefix_refl _⟩ h).2
  rintro b c hm ⟨hb, hpre⟩
  exact ⟨hm.books hb, hpre.trans (hm.figures hb).ledger_grows⟩

/-- A row that was written is there. -/
theorem recordEntry_recorded {delta : ℤ} {m : EntryMeta} {neg zero : Bool} {b : Balance}
    (ha : BooksOk a) (hz : ¬ (delta = 0 ∧ zero = false))
    (h : recordEntry delta reason (some ref) m neg zero a = .ok (b, a')) :
    BooksOk a' ∧ a'.keyTaken reason (some ref) := by
  have hrow := recordEntry_effect ha hz h
  refine ⟨hrow.books, rfl, a.entryOf delta reason (some ref) m, ?_, rfl, rfl⟩
  rw [hrow.ledger]
  exact List.mem_append_right _ List.mem_cons_self

/-- A credit that arrives leaves its row. -/
theorem inflow_recorded {w : Inflow} {amount : ℤ} {neg zero : Bool} {b : Balance} {written : Entry}
    {ctx : Ctx} {rates : LotRates} {source : LotSource} {packId overrideId : Option String}
    {r : CreditedLot} (ha : BooksOk a) (hpos : 0 < amount)
    (row : recordEntry amount w.reason (some w.ref) w.rowMeta neg zero a = .ok (b, a₁))
    (lot : applyCreditToLots ctx amount b.amountInr rates source packId written.id
      ((w.restates a₁).map Lot.id) overrideId a₁ = .ok (r, a')) :
    BooksOk a' ∧ a'.keyTaken w.reason (some w.ref) := by
  obtain ⟨hb, hkey⟩ := recordEntry_recorded ha (by omega) row
  rcases applyCreditToLots_effect hb lot with ⟨-, rfl⟩ | ⟨-, got, target, -, -, heff, -⟩
  · exact ⟨hb, hkey⟩
  · exact ⟨heff.books, keyTaken_of_prefix ⟨[], heff.ledger.symm⟩ hkey⟩

/-- A credit taken back leaves its row. -/
theorem outflow_recorded {w : Outflow} {amount : ℤ} {removal : CreditRemoval} {b : Balance}
    {entryId : Option ℕ} (ha : BooksOk a) (hpos : 0 < amount)
    (lots : removeCreditFromLots entryId amount a = .ok (removal, a₁))
    (row : recordEntry (-amount) w.reason (some w.ref) (w.rowMeta removal) true false a₁ =
      .ok (b, a')) :
    BooksOk a' ∧ a'.keyTaken w.reason (some w.ref) := by
  obtain ⟨-, -, rows, heff, -⟩ := removeCreditFromLots_effect ha hpos lots
  exact recordEntry_recorded heff.books (by omega) row

end Keyed

/-! ## Each writer under its own key -/

section Writers

variable {a a' : Account} {ctx : Ctx} {u : Unit}

theorem recordTopup_keyed {paise : ℤ} {ref : String} {ratesOf : Option String} (ha : BooksOk a)
    (h : recordTopup ctx paise ref ratesOf a = .ok (u, a')) : Keyed .topup ref a a' := by
  unfold recordTopup at h
  rcases Tx.ite_ok.mp h with ⟨-, h⟩ | ⟨hpos, h⟩
  · exact (Tx.throw_ok.mp h).elim
  · obtain ⟨override, _, hov, h⟩ := Tx.bind_ok.mp h
    obtain rfl := overridePack_ok hov
    obtain ⟨_, _, hget, h⟩ := Tx.bind_ok.mp h
    cases Tx.get_ok.mp hget
    cases hfind : a.findTopup ref with
    | some existing =>
      simp only [hfind] at h
      rcases Tx.ite_ok.mp h with ⟨-, h⟩ | ⟨-, h⟩
      · obtain rfl := refuseConflictingOverride_ok h
        exact Or.inl rfl
      · exact (Tx.throw_ok.mp h).elim
    | none =>
      simp only [hfind, creditTopup, Tx.bind_ok, Tx.get_ok, Tx.ofOption_ok, Tx.pure_ok] at h
      obtain ⟨_, _, ⟨b, a₁, hrow, _, _, h₁, written, _, ⟨_, -, h₂⟩, hlot⟩, h₃⟩ := h
      cases h₁
      cases h₂
      cases h₃
      have hkey := (@inflow_recorded a a' a₁ (.topup ref) _ _ _ _ _ _ _ _ _ _ _ ha (by omega)
        hrow hlot).2
      exact Or.inr ⟨not_keyTaken_of_none ha.ledger hfind, Or.inl hkey⟩

theorem creditCapturedPayment_keyed {payment : CapturedPayment} (ha : BooksOk a)
    (h : creditCapturedPayment ctx payment a = .ok (u, a')) :
    Keyed .topup payment.paymentId a a' := by
  unfold creditCapturedPayment at h
  obtain ⟨_, _, hget, h⟩ := Tx.bind_ok.mp h
  cases Tx.get_ok.mp hget
  cases hfind : a.findTopup payment.paymentId with
  | some existing =>
    simp only [hfind] at h
    rcases Tx.ite_ok.mp h with ⟨-, h⟩ | ⟨-, h⟩
    · cases Tx.pure_ok.mp h
      exact Or.inl rfl
    · exact (Tx.throw_ok.mp h).elim
  | none =>
    simp only [hfind, creditNewPayment, Tx.bind_ok, Tx.get_ok, Tx.ofOption_ok] at h
    obtain ⟨b, a₁, hrow, _, _, h₁, written, _, ⟨_, -, h₂⟩, _, a₂, hlot, h⟩ := h
    cases h₁
    cases h₂
    obtain ⟨hb, hkey⟩ := @inflow_recorded a a₂ a₁ (.topup payment.paymentId) _ _ _ _ _ _ _ _ _ _ _
      ha (paiseToInr_pos payment.paise) hrow hlot
    refine Or.inr ⟨not_keyTaken_of_none ha.ledger hfind, Or.inl ?_⟩
    cases hpack : ctx.card.packPaidFor payment.packId (paiseToInr payment.paise) with
    | none =>
      rw [hpack] at h
      cases Tx.pure_ok.mp h
      exact hkey
    | some pack =>
      -- the bonus rides in the same transaction and leaves the payment's row alone
      rw [hpack] at h
      exact keyTaken_of_prefix (Movements.ledger_grows hb (grantPackBonus_movements h)) hkey

theorem recordGrant_keyed {paise : ℤ} {confirmation : Option ℤ} {reference : String}
    (ha : BooksOk a) (h : recordGrant ctx paise confirmation reference a = .ok (u, a')) :
    Keyed .grant (grantRef reference) a a' := by
  unfold recordGrant at h
  obtain ⟨_, _, hcheck, h⟩ := Tx.bind_ok.mp h
  obtain ⟨rfl, hmin⟩ := checkGrantAmount_ok hcheck
  obtain ⟨_, _, hget, h⟩ := Tx.bind_ok.mp h
  cases Tx.get_ok.mp hget
  cases hfind : a.findEntryByRef .grant (grantRef reference) with
  | some existing =>
    simp only [hfind] at h
    rcases Tx.ite_ok.mp h with ⟨-, h⟩ | ⟨-, h⟩
    · cases Tx.pure_ok.mp h
      exact Or.inl rfl
    · exact (Tx.throw_ok.mp h).elim
  | none =>
    simp only [hfind, Tx.bind_ok, Tx.get_ok, Tx.ofOption_ok, Tx.pure_ok] at h
    obtain ⟨b, a₁, hrow, _, _, h₁, written, _, ⟨_, -, h₂⟩, _, _, hlot, h₃⟩ := h
    cases h₁
    cases h₂
    cases h₃
    have hpos : 0 < ofPaise paise := by
      unfold ofPaise
      omega
    have hkey := (@inflow_recorded a a' a₁ (.grant reference) _ _ _ _ _ _ _ _ _ _ _ ha hpos
      hrow hlot).2
    exact Or.inr ⟨not_keyTaken_of_none ha.ledger hfind, Or.inl hkey⟩

theorem recordAdjustment_keyed {entryId : ℕ} {paise : ℤ} (ha : BooksOk a)
    (h : recordAdjustment ctx entryId paise a = .ok (u, a')) :
    Keyed .adjustment (adjustmentRef entryId (ofPaise paise)) a a' := by
  unfold recordAdjustment at h
  simp only [Tx.ite_ok, Tx.bind_ok, Tx.get_ok, Tx.ofOption_ok, Tx.throw_ok, Tx.pure_ok,
    and_false, false_or] at h
  obtain ⟨hpos, _, _, h₁, target, _, ⟨_, htarget, h₂⟩, hmoved, h⟩ := h
  cases h₁
  cases h₂
  obtain ⟨-, rfl⟩ := Table.findKey_some htarget
  rcases h with ⟨-, h⟩ | ⟨hnone, hroom, h⟩
  · cases h
    exact Or.inl rfl
  · have hfree : ¬ a.keyTaken .adjustment (some (adjustmentRef target.id (ofPaise paise))) := by
      rwa [← findEntryByRef_isSome ha.ledger]
    unfold writeAdjustment at h
    rcases Tx.ite_ok.mp h with ⟨hup, h⟩ | ⟨hdown, h⟩
    · simp only [Tx.bind_ok, Tx.pure_ok] at h
      obtain ⟨removal, a₁, hlots, _, _, hrow, h₃⟩ := h
      cases h₃
      have hkey := (@outflow_recorded a a' a₁ (.correction target (ofPaise paise)) _ removal _ _ ha
        (by omega) hlots hrow).2
      exact Or.inr ⟨hfree, Or.inl hkey⟩
    · simp only [Tx.bind_ok, Tx.get_ok, Tx.ofOption_ok, Tx.pure_ok] at h
      obtain ⟨b, a₁, hrow, _, _, h₃, written, _, ⟨_, -, h₄⟩, _, _, hlot, h₅⟩ := h
      cases h₃
      cases h₄
      cases h₅
      have hkey := (@inflow_recorded a a' a₁ (.correction target (ofPaise paise)) _ _ _ _ _ _ _ _
        _ _ _ ha (by omega) hrow hlot).2
      exact Or.inr ⟨hfree, Or.inl hkey⟩

theorem recordRestatement_keyed {paymentRef : String} {paise : ℤ} (ha : BooksOk a)
    (h : recordRestatement ctx paymentRef paise a = .ok (u, a')) :
    Keyed .topup (restatementRef paymentRef (ofPaise paise)) a a' := by
  unfold recordRestatement at h
  simp only [Tx.ite_ok, Tx.bind_ok, Tx.get_ok, Tx.ofOption_ok, Tx.throw_ok, Tx.pure_ok,
    and_false, false_or] at h
  obtain ⟨-, _, _, h₁, credited, _, ⟨_, -, h₂⟩, h⟩ := h
  cases h₁
  cases h₂
  rcases h with ⟨-, h⟩ | ⟨hnone, hincrease, h⟩
  · cases h
    exact Or.inl rfl
  · simp only [writeRestatement, Tx.bind_ok, Tx.get_ok, Tx.ofOption_ok, Tx.pure_ok] at h
    obtain ⟨b, a₁, hrow, _, _, h₃, written, _, ⟨_, -, h₄⟩, anchor, _, ⟨_, hanchor, h₅⟩, _, _,
      hlot, h₆⟩ := h
    cases h₃
    cases h₄
    cases h₅
    cases h₆
    have hrest : (Inflow.restatement paymentRef (ofPaise paise)).restates a₁ =
        a₁.purchaseLotOfEntry anchor.id := by
      simp only [Inflow.restates, hanchor, Option.bind_some]
    rw [← hrest] at hlot
    have hkey := (@inflow_recorded a a' a₁ (.restatement paymentRef (ofPaise paise)) _ _ _ _ _ _ _
      _ _ _ _ ha (by omega) hrow hlot).2
    refine Or.inr ⟨?_, Or.inl hkey⟩
    rwa [← findEntryByRef_isSome ha.ledger]

theorem creditRefund_keyed {refund : RefundEvent} (ha : BooksOk a)
    (h : creditRefund refund a = .ok (u, a')) : Keyed .refund refund.refundId a a' := by
  unfold creditRefund at h
  obtain ⟨_, _, hget, h⟩ := Tx.bind_ok.mp h
  cases Tx.get_ok.mp hget
  cases hfind : a.findEntryByRef .refund refund.refundId with
  | some existing =>
    simp only [hfind] at h
    rcases Tx.ite_ok.mp h with ⟨-, h⟩ | ⟨-, h⟩
    · cases Tx.pure_ok.mp h
      exact Or.inl rfl
    · exact (Tx.throw_ok.mp h).elim
  | none =>
    simp only [hfind, writeRefund, Tx.bind_ok, Tx.get_ok] at h
    obtain ⟨_, _, h₁, removal, a₁, hlots, _, a₂, hrow, hclaw⟩ := h
    cases h₁
    obtain ⟨hb, hkey⟩ := @outflow_recorded a a₂ a₁ (.refund refund) _ removal _ _ ha
      (paiseToInr_pos refund.paise) hlots hrow
    -- the clawback has no key to be found by: the refund's row stands in front of it
    refine Or.inr ⟨not_keyTaken_of_none ha.ledger hfind, Or.inl ?_⟩
    exact keyTaken_of_prefix (Movements.ledger_grows hb (clawBackPackBonus_movements hclaw)) hkey

theorem recordUsageFromLots_keyed {ref : String} {demand : LotDemand} {extra : ℚ} {neg : Bool}
    {kind : UsageKind} {r : LotDebit} (ha : BooksOk a)
    (h : recordUsageFromLots ref demand extra neg kind a = .ok (r, a')) :
    Keyed .usage ref a a' := by
  by_cases hkey : a.keyTaken .usage (some ref)
  · unfold recordUsageFromLots at h
    obtain ⟨_, _, hget, h⟩ := Tx.bind_ok.mp h
    cases Tx.get_ok.mp hget
    have hany : (a.ledger.any fun e => e.reason = .usage ∧ e.ref = some ref) = true := by
      obtain ⟨-, e, he, hr, href⟩ := hkey
      rw [List.any_eq_true]
      exact ⟨e, he, by simp [hr, href]⟩
    rw [if_pos hany] at h
    cases Tx.pure_ok.mp h
    exact Or.inl rfl
  · refine Or.inr ⟨hkey, ?_⟩
    rcases recordUsageFromLots_effect ha h with heff | ⟨e, heff, -, -, hrow⟩
    · exact Or.inr (by rw [heff.ledger, List.append_nil])
    · refine Or.inl (keyTaken_of_carries hrow ?_)
      rw [heff.ledger]
      exact List.mem_append_right _ List.mem_cons_self

theorem expireLot_keyed {lotId now : ℕ} {r : Option ℤ} (ha : BooksOk a)
    (h : expireLot lotId now a = .ok (r, a')) :
    Keyed .adjustment (creditExpiryRef lotId) a a' := by
  rcases expireLot_effect ha h with rfl | ⟨l, -, e, -, -, -, hfree, hrow, heff⟩
  · exact Or.inl rfl
  · refine Or.inr ⟨not_keyTaken_of_none ha.ledger hfree, Or.inl (keyTaken_of_carries hrow ?_)⟩
    rw [heff.ledger]
    exact List.mem_append_right _ List.mem_cons_self

theorem repriceLot_keyed {lotId : ℕ} {pack : CreditPack} {r : Option RepricedLot} (ha : BooksOk a)
    (h : repriceLot ctx lotId pack a = .ok (r, a')) :
    Keyed .adjustment (lotRepriceRef lotId pack.packId) a a' := by
  by_cases hkey : a.keyTaken .adjustment (some (lotRepriceRef lotId pack.packId))
  · unfold repriceLot at h
    obtain ⟨_, _, hget, h⟩ := Tx.bind_ok.mp h
    cases Tx.get_ok.mp hget
    rw [if_pos ((findEntryByRef_isSome ha.ledger).mpr hkey)] at h
    cases Tx.pure_ok.mp h
    exact Or.inl rfl
  · rcases repriceLot_resold ha h with ⟨-, rfl⟩ | ⟨l, closed, fresh, e, hpair, rfl, -, -, href, -⟩
    · exact Or.inl rfl
    · refine Or.inr ⟨hkey, Or.inl ⟨rfl, e, ?_, hpair.marks.1, href⟩⟩
      rw [hpair.ledger]
      exact List.mem_append_right _ List.mem_cons_self

end Writers

/-- **Every keyed request does nothing when its row is there, and otherwise leaves its row.** -/
theorem Op.keyed {o : Op} {a a' : Account} {u : Unit} {reason : CreditReason} {ref : String}
    (ha : BooksOk a) (hkey : o.key = some (reason, ref)) (h : o.tx a = .ok (u, a')) :
    Keyed reason ref a a' := by
  cases o with
  | topup ctx paise ref ratesOf =>
    cases hkey
    exact recordTopup_keyed ha h
  | capture ctx payment =>
    cases hkey
    exact creditCapturedPayment_keyed ha h
  | grant ctx paise confirmation reference =>
    cases hkey
    exact recordGrant_keyed ha h
  | usage ref demand extra neg kind =>
    cases hkey
    obtain ⟨_, _, hu, h⟩ := Tx.bind_ok.mp h
    cases Tx.pure_ok.mp h
    exact recordUsageFromLots_keyed ha hu
  | call callId minutes tier fallback extra =>
    cases hkey
    obtain ⟨_, _, hu, h⟩ := Tx.bind_ok.mp h
    cases Tx.pure_ok.mp h
    unfold chargeForCall at hu
    rcases Tx.ite_ok.mp hu with ⟨-, hu⟩ | ⟨-, hu⟩
    · cases Tx.pure_ok.mp hu
      exact Or.inl rfl
    · obtain ⟨_, _, hcharge, hu⟩ := Tx.bind_ok.mp hu
      cases Tx.pure_ok.mp hu
      exact recordUsageFromLots_keyed ha hcharge
  | adjust ctx entryId paise =>
    cases hkey
    exact recordAdjustment_keyed ha h
  | restate ctx paymentRef paise =>
    cases hkey
    exact recordRestatement_keyed ha h
  | refund event =>
    cases hkey
    exact creditRefund_keyed ha h
  | expire lotId now =>
    cases hkey
    obtain ⟨_, _, hu, h⟩ := Tx.bind_ok.mp h
    cases Tx.pure_ok.mp h
    exact expireLot_keyed ha hu
  | reprice ctx lotId pack =>
    cases hkey
    obtain ⟨_, _, hu, h⟩ := Tx.bind_ok.mp h
    cases Tx.pure_ok.mp h
    exact repriceLot_keyed ha hu
  | dispute ctx facts => cases hkey
  | feePaid ref => cases hkey
  | alertLine amount => cases hkey
  | wait ticks => cases hkey

/-! ## Runs with redeliveries -/

/-- The request was applied: it is a keyed one and it wrote. -/
def Op.Applies (a : Account) (o : Op) : Prop :=
  o.key ≠ none ∧ (o.step a).ledger ≠ a.ledger

/-- A request whose row is there does nothing. -/
theorem Op.step_of_recorded {o : Op} {a : Account} (ha : BooksOk a) (h : a.Recorded o) :
    o.step a = a := by
  obtain ⟨⟨reason, ref⟩, hkey, htaken⟩ := h
  unfold Op.step
  cases htx : o.tx a with
  | error e => exact Tx.commit_of_error htx
  | ok r =>
    rw [Tx.commit_of_ok htx]
    rcases Op.keyed ha hkey htx with hsame | ⟨hfree, -⟩
    · exact hsame
    · exact absurd htaken hfree

/-- An applied request has its row. -/
theorem Op.recorded_of_applies {o : Op} {a : Account} (ha : BooksOk a) (h : o.Applies a) :
    (o.step a).Recorded o := by
  obtain ⟨hkeyed, hwrote⟩ := h
  obtain ⟨⟨reason, ref⟩, hkey⟩ := Option.ne_none_iff_exists'.mp hkeyed
  refine ⟨(reason, ref), hkey, ?_⟩
  unfold Op.step at hwrote ⊢
  cases htx : o.tx a with
  | error e =>
    rw [Tx.commit_of_error htx] at hwrote
    exact absurd rfl hwrote
  | ok r =>
    rw [Tx.commit_of_ok htx] at hwrote ⊢
    rcases Op.keyed ha hkey htx with hsame | ⟨-, htaken | hsame⟩
    · rw [hsame] at hwrote
      exact absurd rfl hwrote
    · exact htaken
    · exact absurd hsame hwrote

/-- **The credit writers are safe under redelivery.** -/
theorem replaySafe : Replay.Safe Op.step (fun a o => o.Applies a) Account.Recorded BooksOk where
  inv := by
    intro a o ha
    exact Movements.inv (fun _ _ hm hb => hm.books hb) ha (o.step_movements a)
  settles := Op.recorded_of_applies
  stays := by
    rintro a o q ha ⟨key, hkey, htaken⟩
    exact ⟨key, hkey, keyTaken_of_prefix (Movements.ledger_grows ha (q.step_movements a)) htaken⟩
  idle := Op.step_of_recorded

/-- A payment of six hundred rupees, captured. -/
def payment600 : Op := .capture onePackCtx ⟨"pay_1", 60000, none⟩

/-- A refund of two hundred and fifty of them. -/
def refund250 : Op := .refund ⟨"rfnd_1", "pay_1", 25000⟩

end Billing

end Calevate
