import Calevate.Billing.Helpers.Effects
import Calevate.Billing.RefundCeiling

/-!
# The bonus a refund takes back

A pack's bonus is taken back in step with its payment. Each refund works out what the
refunds so far have earned back of the bonus and takes what earlier refunds have not, so
what is rounded is the running figure and never a step. Whatever the order, the sizes and
the replays of the refunds, what has been taken is the share of what has been refunded.
-/

namespace Calevate

namespace Billing

open Lib

/-! ## The share -/

/-- What refunds of `refunded` have earned back of a bonus. -/
def bonusShare (bonus refunded paid : ℤ) : ℤ :=
  min bonus (Dec.roundHalfUp (bonus * refunded / paid))

/-- The same, in the arithmetic of `_claw_back_pack_bonus`. -/
def clawbackTarget (bonus refunded paid : ℤ) : ℤ :=
  min bonus (money (Dec.ctx (Dec.ctx (bonus * refunded) / paid)))

theorem Account.clawbackDue_eq (a : Account) (paid grant : Entry) (paymentId : String) :
    a.clawbackDue paid grant paymentId =
      clawbackTarget grant.delta (a.refundedTotalInr paymentId) paid.delta -
        a.clawedBackBonusInr paymentId := rfl

section Share

variable {bonus refunded paid : ℤ}

theorem clawbackTarget_mono {more : ℤ} (hbonus : 0 ≤ bonus) (hpaid : 0 < paid)
    (h : refunded ≤ more) :
    clawbackTarget bonus refunded paid ≤ clawbackTarget bonus more paid := by
  have hbonus' : (0 : ℚ) ≤ bonus := by exact_mod_cast hbonus
  have hpaid' : (0 : ℚ) ≤ paid := by exact_mod_cast hpaid.le
  have hmore : (refunded : ℚ) ≤ more := by exact_mod_cast h
  apply min_le_min_left
  apply Dec.roundHalfUp_le_roundHalfUp
  apply Dec.ctx_mono
  apply div_le_div_of_nonneg_right _ hpaid'
  apply Dec.ctx_mono
  exact mul_le_mul_of_nonneg_left hmore hbonus'

theorem clawbackTarget_zero (hbonus : 0 ≤ bonus) : clawbackTarget bonus 0 paid = 0 := by
  have hmoney : money 0 = 0 := Dec.roundHalfUp_intCast 0
  simp [clawbackTarget, hmoney, hbonus]

/-- `NUMERIC(12, 4)`: the column a ledger row's figure is kept in. -/
def InColumn (amount : ℤ) : Prop := |amount| < 10 ^ 12

instance : DecidablePred InColumn := fun amount => inferInstanceAs (Decidable (|amount| < 10 ^ 12))

/-- **The arithmetic is exact** on the figures the ledger keeps. -/
theorem clawbackTarget_eq (hbonus : 0 ≤ bonus) (hpaid : 0 < paid) (hrefunded : 0 ≤ refunded)
    (hle : refunded ≤ paid) (hb : InColumn bonus) (hp : InColumn paid) :
    clawbackTarget bonus refunded paid = bonusShare bonus refunded paid := by
  unfold InColumn at hb hp
  rw [abs_lt] at hb hp
  have hprod : 0 ≤ bonus * refunded := mul_nonneg hbonus hrefunded
  have hbound : bonus * refunded ≤ 10 ^ 12 * 10 ^ 12 :=
    mul_le_mul hb.2.le (by omega) hrefunded (by norm_num)
  have hkept : Dec.ctx ((bonus : ℚ) * refunded) = ((bonus * refunded : ℤ) : ℚ) := by
    rw [← Int.cast_mul]
    exact Dec.ctx_intCast (by rw [abs_lt]; omega)
  unfold clawbackTarget bonusShare money
  rw [hkept, Dec.roundHalfUp_ctx_div hprod hpaid (by omega), Int.cast_mul]

/-- A payment refunded in full has earned back all of the bonus. -/
theorem bonusShare_full (hpaid : 0 < paid) : bonusShare bonus paid paid = bonus := by
  have hpaid' : (paid : ℚ) ≠ 0 := by exact_mod_cast hpaid.ne'
  rw [bonusShare, mul_div_assoc, div_self hpaid', mul_one, Dec.roundHalfUp_intCast, min_self]

end Share

/-! ## The rows -/

/-- A refund of the payment. -/
def Entry.Refunds (paymentId : String) (e : Entry) : Prop :=
  e.reason = .refund ∧ e.entryMeta.paymentRef = some paymentId

/-- A clawback of its bonus. -/
def Entry.ClawsBack (paymentId : String) (e : Entry) : Prop :=
  e.reason = .bonus ∧ e.entryMeta.kind = some .creditPackBonusClawback ∧
    e.entryMeta.paymentRef = some paymentId

instance (paymentId : String) : DecidablePred (Entry.Refunds paymentId) :=
  fun e => inferInstanceAs (Decidable (e.reason = .refund ∧ _))

instance (paymentId : String) : DecidablePred (Entry.ClawsBack paymentId) :=
  fun e => inferInstanceAs (Decidable (e.reason = .bonus ∧ _))

section Rows

variable {a a' : Account} {rows : List Entry} {paymentId : String}

theorem refundedTotalInr_append (h : a'.ledger = a.ledger ++ rows) :
    a'.refundedTotalInr paymentId = a.refundedTotalInr paymentId +
      ((rows.filter fun e => e.Refunds paymentId).map fun e => |e.delta|).sum := by
  unfold Account.refundedTotalInr
  rw [h, List.filter_append, List.map_append, List.sum_append]
  rfl

theorem clawedBackBonusInr_append (h : a'.ledger = a.ledger ++ rows) :
    a'.clawedBackBonusInr paymentId = a.clawedBackBonusInr paymentId +
      ((rows.filter fun e => e.ClawsBack paymentId).map fun e => |e.delta|).sum := by
  unfold Account.clawedBackBonusInr
  rw [h, List.filter_append, List.map_append, List.sum_append]
  rfl

/-- Rows that are neither leave both totals where they are. -/
theorem totals_of_other (h : a'.ledger = a.ledger ++ rows)
    (hrows : ∀ e ∈ rows, ¬ e.Refunds paymentId ∧ ¬ e.ClawsBack paymentId) :
    a'.refundedTotalInr paymentId = a.refundedTotalInr paymentId ∧
      a'.clawedBackBonusInr paymentId = a.clawedBackBonusInr paymentId := by
  have hrefunds : rows.filter (fun e => e.Refunds paymentId) = [] := by
    rw [List.filter_eq_nil_iff]
    intro e he
    simpa using (hrows e he).1
  have hclaws : rows.filter (fun e => e.ClawsBack paymentId) = [] := by
    rw [List.filter_eq_nil_iff]
    intro e he
    simpa using (hrows e he).2
  rw [refundedTotalInr_append h, clawedBackBonusInr_append h, hrefunds, hclaws]
  exact ⟨by simp, by simp⟩

theorem refundedTotalInr_nonneg (a : Account) (paymentId : String) :
    0 ≤ a.refundedTotalInr paymentId := by
  apply List.sum_nonneg
  intro x hx
  obtain ⟨e, -, rfl⟩ := List.mem_map.mp hx
  exact abs_nonneg _

theorem findEntryByRef_of_append {reason : CreditReason} {ref : String} {e : Entry}
    (ha : LedgerOk a) (ha' : LedgerOk a') (h : a'.ledger = a.ledger ++ rows)
    (he : a.findEntryByRef reason ref = some e) : a'.findEntryByRef reason ref = some e := by
  obtain ⟨hmem, hreason, href⟩ := (findEntryByRef_some_iff ha).mp he
  refine (findEntryByRef_some_iff ha').mpr ⟨?_, hreason, href⟩
  rw [h]
  exact List.mem_append_left _ hmem

end Rows

/-! ## What one refund writes -/

section Writes

variable {a a' : Account} {event : RefundEvent} {u : Unit} {paymentId : String}

/-- Rows beside the two: what a lapse gives back is an adjustment. -/
def Aside (rows : List Entry) : Prop := ∀ e ∈ rows, e.reason = .adjustment

theorem Aside.other {rows : List Entry} (h : Aside rows) :
    ∀ e ∈ rows, ¬ e.Refunds paymentId ∧ ¬ e.ClawsBack paymentId := by
  intro e he
  have hreason := h e he
  constructor
  · rintro ⟨hrefund, -⟩
    rw [hreason] at hrefund
    cases hrefund
  · rintro ⟨hbonus, -⟩
    rw [hreason] at hbonus
    cases hbonus

/-- Taking credit off the lots and writing the row that says so. -/
theorem removal_rows {entryId : Option ℕ} {amount : ℤ} {removal : CreditRemoval} {b : Balance}
    {reason : CreditReason} {ref : String} {m : EntryMeta} {a₁ : Account} (ha : BooksOk a)
    (hpos : 0 < amount) (hlots : removeCreditFromLots entryId amount a = .ok (removal, a₁))
    (hrow : recordEntry (-amount) reason (some ref) m true false a₁ = .ok (b, a')) :
    BooksOk a' ∧ ∃ rows e, a'.ledger = a.ledger ++ rows ++ [e] ∧ Aside rows ∧
      e.Carries (-amount) reason (some ref) m := by
  obtain ⟨-, -, rows, heffect, hrows⟩ := removeCreditFromLots_effect ha hpos hlots
  have hentry := recordEntry_effect heffect.books (by omega) hrow
  refine ⟨hentry.books, rows, _, by rw [hentry.ledger, heffect.ledger], ?_, rfl, rfl, rfl, rfl⟩
  intro e he
  rcases hrows with ⟨rfl, -⟩ | ⟨l, e', -, rfl, -, hlapse⟩
  · cases he
  · obtain rfl := List.mem_singleton.mp he
    obtain ⟨_, -, -, hreason, -⟩ := hlapse
    exact hreason

/-- **What a clawback writes**: nothing when nothing is due, else one row of what is. -/
theorem clawBackPackBonus_rows {paid grant : Entry} (ha : BooksOk a)
    (htopup : a.findTopup event.paymentId = some paid)
    (hbonus : a.findEntryByRef .bonus event.paymentId = some grant) (hpaid : 0 < paid.delta)
    (hgrant : 0 < grant.delta) (h : clawBackPackBonus event a = .ok (u, a')) :
    (a.clawbackDue paid grant event.paymentId ≤ 0 ∧ a' = a) ∨
    (0 < a.clawbackDue paid grant event.paymentId ∧ BooksOk a' ∧
      ∃ rows e splits, a'.ledger = a.ledger ++ rows ++ [e] ∧ Aside rows ∧
        e.Carries (-a.clawbackDue paid grant event.paymentId) .bonus (some event.refundId)
          { kind := some .creditPackBonusClawback, paymentRef := some event.paymentId,
            lots := splits }) := by
  unfold clawBackPackBonus at h
  obtain ⟨_, _, hget, h⟩ := Tx.bind_ok.mp h
  cases Tx.get_ok.mp hget
  simp only [htopup, hbonus] at h
  rcases Tx.ite_ok.mp h with ⟨hnone, h⟩ | ⟨hdue, h⟩
  · cases Tx.pure_ok.mp h
    exact Or.inl ⟨by omega, rfl⟩
  · simp only [writeClawback, Tx.bind_ok, Tx.pure_ok] at h
    obtain ⟨removal, a₁, hlots, _, _, hrow, h₁⟩ := h
    cases h₁
    have hpos : 0 < a.clawbackDue paid grant event.paymentId := by omega
    obtain ⟨hbooks, rows, e, hledger, haside, hcarries⟩ := removal_rows ha hpos hlots hrow
    exact Or.inr ⟨hpos, hbooks, rows, e, _, hledger, haside, hcarries⟩

/-- A clawback leaves the totals of every other payment alone. -/
theorem clawBackPackBonus_other (ha : BooksOk a) (hne : event.paymentId ≠ paymentId)
    (h : clawBackPackBonus event a = .ok (u, a')) :
    BooksOk a' ∧ ∃ rows, a'.ledger = a.ledger ++ rows ∧
      ∀ e ∈ rows, ¬ e.Refunds paymentId ∧ ¬ e.ClawsBack paymentId := by
  have hnothing : BooksOk a ∧ ∃ rows, a.ledger = a.ledger ++ rows ∧
      ∀ e ∈ rows, ¬ e.Refunds paymentId ∧ ¬ e.ClawsBack paymentId :=
    ⟨ha, [], (List.append_nil _).symm, by simp⟩
  unfold clawBackPackBonus at h
  obtain ⟨_, _, hget, h⟩ := Tx.bind_ok.mp h
  cases Tx.get_ok.mp hget
  cases hpaid : a.findTopup event.paymentId with
  | none =>
    simp only [hpaid] at h
    cases Tx.pure_ok.mp h
    exact hnothing
  | some paid =>
    cases hgrant : a.findEntryByRef .bonus event.paymentId with
    | none =>
      simp only [hpaid, hgrant] at h
      cases Tx.pure_ok.mp h
      exact hnothing
    | some grant =>
      simp only [hpaid, hgrant] at h
      rcases Tx.ite_ok.mp h with ⟨-, h⟩ | ⟨hdue, h⟩
      · cases Tx.pure_ok.mp h
        exact hnothing
      · simp only [writeClawback, Tx.bind_ok, Tx.pure_ok] at h
        obtain ⟨removal, a₁, hlots, _, _, hrow, h₁⟩ := h
        cases h₁
        obtain ⟨hbooks, rows, e, hledger, haside, -, hreason, -, hmeta⟩ :=
          removal_rows ha (by omega) hlots hrow
        refine ⟨hbooks, rows ++ [e], by rw [hledger, List.append_assoc], fun f hf => ?_⟩
        rcases List.mem_append.mp hf with hf | hf
        · exact haside.other f hf
        · obtain rfl := List.mem_singleton.mp hf
          constructor
          · rintro ⟨hrefund, -⟩
            rw [hreason] at hrefund
            cases hrefund
          · rintro ⟨-, -, hpayment⟩
            rw [hmeta] at hpayment
            exact hne (Option.some.inj hpayment)

/-- **What a refund writes**: nothing when it is a replay, else its row and the clawback. -/
theorem creditRefund_rows (ha : BooksOk a) (h : creditRefund event a = .ok (u, a')) :
    a' = a ∨ ∃ a₁ rows e splits, BooksOk a₁ ∧ a₁.ledger = a.ledger ++ rows ++ [e] ∧ Aside rows ∧
      e.Carries (-event.amountInr) .refund (some event.refundId)
        { paymentRef := some event.paymentId, lots := splits } ∧
      clawBackPackBonus event a₁ = .ok (u, a') := by
  unfold creditRefund at h
  obtain ⟨_, _, hget, h⟩ := Tx.bind_ok.mp h
  cases Tx.get_ok.mp hget
  cases hfind : a.findEntryByRef .refund event.refundId with
  | some existing =>
    simp only [hfind] at h
    rcases Tx.ite_ok.mp h with ⟨-, h⟩ | ⟨-, h⟩
    · cases Tx.pure_ok.mp h
      exact Or.inl rfl
    · exact (Tx.throw_ok.mp h).elim
  | none =>
    simp only [hfind, writeRefund, Tx.bind_ok, Tx.get_ok] at h
    obtain ⟨_, _, h₁, removal, a₁, hlots, _, a₂, hrow, hclaw⟩ := h
    cases h₁
    obtain ⟨hbooks, rows, e, hledger, haside, hcarries⟩ :=
      removal_rows ha (paiseToInr_pos event.paise) hlots hrow
    exact Or.inr ⟨a₂, rows, e, _, hbooks, hledger, haside, hcarries, hclaw⟩

/-- Both totals after rows beside them and one row more. -/
theorem totals_snoc (paymentId : String) {rows : List Entry} {e : Entry}
    (h : a'.ledger = a.ledger ++ rows ++ [e])
    (haside : Aside rows) :
    a'.refundedTotalInr paymentId =
        a.refundedTotalInr paymentId + (if e.Refunds paymentId then |e.delta| else 0) ∧
      a'.clawedBackBonusInr paymentId =
        a.clawedBackBonusInr paymentId + (if e.ClawsBack paymentId then |e.delta| else 0) := by
  have hrefunds : rows.filter (fun e => e.Refunds paymentId) = [] := by
    rw [List.filter_eq_nil_iff]
    intro f hf
    simpa using (haside.other f hf).1
  have hclaws : rows.filter (fun e => e.ClawsBack paymentId) = [] := by
    rw [List.filter_eq_nil_iff]
    intro f hf
    simpa using (haside.other f hf).2
  rw [List.append_assoc] at h
  rw [refundedTotalInr_append h, clawedBackBonusInr_append h, List.filter_append,
    List.filter_append, hrefunds, hclaws]
  constructor
  · by_cases he : e.Refunds paymentId <;> simp [he]
  · by_cases he : e.ClawsBack paymentId <;> simp [he]

theorem taken_snoc {rows : List Entry} {e : Entry}
    (h : ∀ f ∈ a.ledger, f.ClawsBack paymentId → f.delta < 0)
    (hledger : a'.ledger = a.ledger ++ (rows ++ [e])) (haside : Aside rows)
    (he : e.ClawsBack paymentId → e.delta < 0) :
    ∀ f ∈ a'.ledger, f.ClawsBack paymentId → f.delta < 0 := by
  intro f hf hclaws
  rw [hledger] at hf
  rcases List.mem_append.mp hf with hf | hf
  · exact h f hf hclaws
  rcases List.mem_append.mp hf with hf | hf
  · exact absurd hclaws (haside.other f hf).2
  · rw [List.mem_singleton.mp hf] at hclaws ⊢
    exact he hclaws

end Writes

/-! ## In step with the refunds -/

/-- What has been taken back of the bonus is the share of what has been refunded. -/
def Account.Even (a : Account) (paymentId : String) (paid grant : Entry) : Prop :=
  a.clawedBackBonusInr paymentId =
    clawbackTarget grant.delta (a.refundedTotalInr paymentId) paid.delta

/-- **The clawback is never ahead of the refunds.** It is behind them while refunds recorded
before the bonus was granted are all there is. -/
structure Behind (a : Account) (paymentId : String) (paid grant : Entry) : Prop where
  books : BooksOk a
  topup : a.findTopup paymentId = some paid
  bonus : a.findEntryByRef .bonus paymentId = some grant
  behind : a.clawedBackBonusInr paymentId ≤
    clawbackTarget grant.delta (a.refundedTotalInr paymentId) paid.delta
  taken : ∀ e ∈ a.ledger, e.ClawsBack paymentId → e.delta < 0

section InStep

variable {a a' : Account} {paymentId : String} {paid grant : Entry} {rows : List Entry}

/-- Rows apart keep an even account even. -/
theorem Account.Even.other (h : a.Even paymentId paid grant) (hledger : a'.ledger = a.ledger ++ rows)
    (hrows : ∀ e ∈ rows, ¬ e.Refunds paymentId ∧ ¬ e.ClawsBack paymentId) :
    a'.Even paymentId paid grant := by
  obtain ⟨hrefunded, hclawed⟩ := totals_of_other hledger hrows
  rw [Account.Even, hrefunded, hclawed]
  exact h

namespace Behind

/-- When the bonus has just been granted. -/
theorem start (hbooks : BooksOk a) (htopup : a.findTopup paymentId = some paid)
    (hbonus : a.findEntryByRef .bonus paymentId = some grant) (hpaid : 0 < paid.delta)
    (hgrant : 0 < grant.delta) (hnone : ∀ e ∈ a.ledger, ¬ e.ClawsBack paymentId) :
    Behind a paymentId paid grant ∧
      (a.refundedTotalInr paymentId = 0 → a.Even paymentId paid grant) := by
  have hclawed : a.clawedBackBonusInr paymentId = 0 := by
    have hfilter : a.ledger.filter (fun e => e.ClawsBack paymentId) = [] := by
      rw [List.filter_eq_nil_iff]
      intro e he
      simpa using hnone e he
    have happ := @clawedBackBonusInr_append {} a a.ledger paymentId (List.nil_append _).symm
    rw [happ, hfilter]
    rfl
  have hzero : clawbackTarget grant.delta 0 paid.delta = 0 := clawbackTarget_zero hgrant.le
  have hgrows : clawbackTarget grant.delta 0 paid.delta ≤
      clawbackTarget grant.delta (a.refundedTotalInr paymentId) paid.delta :=
    clawbackTarget_mono hgrant.le hpaid (refundedTotalInr_nonneg a paymentId)
  refine ⟨⟨hbooks, htopup, hbonus, by omega, fun e he hclaws => absurd hclaws (hnone e he)⟩, ?_⟩
  intro hrefunded
  rw [Account.Even, hclawed, hrefunded, hzero]

/-- What writes neither a refund of the payment nor a clawback of its bonus. -/
theorem other (h : Behind a paymentId paid grant) (hbooks : BooksOk a')
    (hledger : a'.ledger = a.ledger ++ rows)
    (hrows : ∀ e ∈ rows, ¬ e.Refunds paymentId ∧ ¬ e.ClawsBack paymentId) :
    Behind a' paymentId paid grant where
  books := hbooks
  topup := findEntryByRef_of_append h.books.ledger hbooks.ledger hledger h.topup
  bonus := findEntryByRef_of_append h.books.ledger hbooks.ledger hledger h.bonus
  behind := by
    obtain ⟨hrefunded, hclawed⟩ := totals_of_other hledger hrows
    rw [hrefunded, hclawed]
    exact h.behind
  taken := by
    intro e he hclaws
    rw [hledger] at he
    rcases List.mem_append.mp he with he | he
    · exact h.taken e he hclaws
    · exact absurd hclaws (hrows e he).2

/-- **A new refund of the payment catches up**: the clawback takes all that is due, which is
nothing when the refund was too small to move the share by a tick. -/
theorem catch_up {a₁ : Account} {e : Entry} {event : RefundEvent} {u : Unit}
    (h : Behind a event.paymentId paid grant) (hpaid : 0 < paid.delta) (hgrant : 0 < grant.delta)
    (hbooks : BooksOk a₁) (hledger : a₁.ledger = a.ledger ++ rows ++ [e]) (haside : Aside rows)
    (hrefunds : e.Refunds event.paymentId) (hnoclaw : ¬ e.ClawsBack event.paymentId)
    (hclaw : clawBackPackBonus event a₁ = .ok (u, a')) :
    Behind a' event.paymentId paid grant ∧ a'.Even event.paymentId paid grant ∧
      a.clawedBackBonusInr event.paymentId ≤ a'.clawedBackBonusInr event.paymentId := by
  obtain ⟨hrefunded, hclawed⟩ := totals_snoc event.paymentId hledger haside
  rw [if_neg hnoclaw, add_zero] at hclawed
  rw [if_pos hrefunds] at hrefunded
  have hraised : a.refundedTotalInr event.paymentId ≤ a₁.refundedTotalInr event.paymentId := by
    have habs := abs_nonneg e.delta
    omega
  have hgrows : clawbackTarget grant.delta (a.refundedTotalInr event.paymentId) paid.delta ≤
      clawbackTarget grant.delta (a₁.refundedTotalInr event.paymentId) paid.delta :=
    clawbackTarget_mono hgrant.le hpaid hraised
  have hbehind := h.behind
  have hdue := a₁.clawbackDue_eq paid grant event.paymentId
  rw [hclawed] at hdue
  rw [List.append_assoc] at hledger
  have htopup := findEntryByRef_of_append h.books.ledger hbooks.ledger hledger h.topup
  have hbonus := findEntryByRef_of_append h.books.ledger hbooks.ledger hledger h.bonus
  have htaken := taken_snoc h.taken hledger haside fun hclaws => absurd hclaws hnoclaw
  rcases clawBackPackBonus_rows hbooks htopup hbonus hpaid hgrant hclaw with
    ⟨hnone, rfl⟩ | ⟨hpos, hbooks', rows', f, splits', hledger', haside', hdelta, hfreason, -,
      hfmeta⟩
  · have heven : a'.Even event.paymentId paid grant := by
      rw [Account.Even, hclawed]
      omega
    exact ⟨⟨hbooks, htopup, hbonus, heven.le, htaken⟩, heven, hclawed.ge⟩
  · have hclaws : f.ClawsBack event.paymentId := ⟨hfreason, by rw [hfmeta], by rw [hfmeta]⟩
    have hnorefund : ¬ f.Refunds event.paymentId := by
      rintro ⟨hrefund, -⟩
      rw [hfreason] at hrefund
      cases hrefund
    obtain ⟨hrefunded', hclawed'⟩ := totals_snoc event.paymentId hledger' haside'
    rw [if_neg hnorefund, add_zero] at hrefunded'
    rw [if_pos hclaws, hdelta, abs_neg, abs_of_pos hpos] at hclawed'
    rw [List.append_assoc] at hledger'
    have heven : a'.Even event.paymentId paid grant := by
      rw [Account.Even, hrefunded', hclawed']
      omega
    exact ⟨⟨hbooks', findEntryByRef_of_append hbooks.ledger hbooks'.ledger hledger' htopup,
      findEntryByRef_of_append hbooks.ledger hbooks'.ledger hledger' hbonus, heven.le,
      taken_snoc htaken hledger' haside' fun _ => by omega⟩, heven, by omega⟩

/-- **What a refund does to the bonus of a payment.** -/
theorem refund (h : Behind a paymentId paid grant) (hpaid : 0 < paid.delta)
    (hgrant : 0 < grant.delta) {event : RefundEvent} {u : Unit}
    (hrun : creditRefund event a = .ok (u, a')) :
    Behind a' paymentId paid grant ∧
      a.clawedBackBonusInr paymentId ≤ a'.clawedBackBonusInr paymentId ∧
      (a.Even paymentId paid grant → a'.Even paymentId paid grant) ∧
      (event.paymentId = paymentId → a' ≠ a → a'.Even paymentId paid grant) := by
  rcases creditRefund_rows h.books hrun with rfl | ⟨a₁, rows, e, splits, hbooks, hledger, haside,
    ⟨-, hreason, -, hmeta⟩, hclaw⟩
  · exact ⟨h, le_refl _, id, fun _ hne => absurd rfl hne⟩
  have hnoclaw : ¬ e.ClawsBack paymentId := by
    rintro ⟨hbonus, -⟩
    rw [hreason] at hbonus
    cases hbonus
  by_cases hpayment : event.paymentId = paymentId
  · subst hpayment
    obtain ⟨hkept, heven, hle⟩ := h.catch_up hpaid hgrant hbooks hledger haside
      ⟨hreason, by rw [hmeta]⟩ hnoclaw hclaw
    exact ⟨hkept, hle, fun _ => heven, fun _ _ => heven⟩
  · have hnorefund : ¬ e.Refunds paymentId := by
      rintro ⟨-, href⟩
      rw [hmeta] at href
      exact hpayment (Option.some.inj href)
    have hrows : ∀ f ∈ rows ++ [e], ¬ f.Refunds paymentId ∧ ¬ f.ClawsBack paymentId := by
      intro f hf
      rcases List.mem_append.mp hf with hf | hf
      · exact haside.other f hf
      · rw [List.mem_singleton.mp hf]
        exact ⟨hnorefund, hnoclaw⟩
    rw [List.append_assoc] at hledger
    obtain ⟨hbooks', rows', hledger', hrows'⟩ := clawBackPackBonus_other hbooks hpayment hclaw
    refine ⟨(h.other hbooks hledger hrows).other hbooks' hledger' hrows', ?_,
      fun heven => (heven.other hledger hrows).other hledger' hrows', fun hp => absurd hp hpayment⟩
    rw [(totals_of_other hledger' hrows').2, (totals_of_other hledger hrows).2]

end Behind

end InStep

/-! ## A run of refunds -/

/-- An operation that is a refund, of any payment and under any gateway id, seen for the
first time or again, or that writes neither a refund of the payment nor a clawback of its
bonus. -/
def RefundsOnly (paymentId : String) (a : Account) (o : Op) : Prop :=
  (∃ event, o = .refund event) ∨ ∃ rows, (o.step a).ledger = a.ledger ++ rows ∧
    ∀ e ∈ rows, ¬ e.Refunds paymentId ∧ ¬ e.ClawsBack paymentId

section Runs

variable {a : Account} {paymentId : String} {paid grant : Entry}

theorem Behind.step (h : Behind a paymentId paid grant) (hpaid : 0 < paid.delta)
    (hgrant : 0 < grant.delta) {o : Op} (ho : RefundsOnly paymentId a o) :
    Behind (o.step a) paymentId paid grant ∧
      a.clawedBackBonusInr paymentId ≤ (o.step a).clawedBackBonusInr paymentId ∧
      (a.Even paymentId paid grant → (o.step a).Even paymentId paid grant) := by
  rcases ho with ⟨event, rfl⟩ | ⟨rows, hledger, hrows⟩
  · cases hrun : creditRefund event a with
    | error e =>
      have hsame : Op.step a (.refund event) = a := Tx.commit_of_error hrun
      rw [hsame]
      exact ⟨h, le_refl _, id⟩
    | ok r =>
      have hdone : Op.step a (.refund event) = r.2 := Tx.commit_of_ok hrun
      obtain ⟨hkept, hle, heven, -⟩ := h.refund hpaid hgrant hrun
      rw [hdone]
      exact ⟨hkept, hle, heven⟩
  · obtain ⟨-, -, hbooks⟩ := Op.step_grows h.books o
    exact ⟨h.other hbooks hledger hrows, (totals_of_other hledger hrows).2.ge,
      fun heven => heven.other hledger hrows⟩

theorem Behind.run {ops : List Op} (h : Behind a paymentId paid grant) (hpaid : 0 < paid.delta)
    (hgrant : 0 < grant.delta) (hops : Run.Guarded Op.step (RefundsOnly paymentId) a ops) :
    Behind (runOps ops a) paymentId paid grant ∧
      a.clawedBackBonusInr paymentId ≤ (runOps ops a).clawedBackBonusInr paymentId ∧
      (a.Even paymentId paid grant → (runOps ops a).Even paymentId paid grant) := by
  induction ops generalizing a with
  | nil => exact ⟨h, le_refl _, id⟩
  | cons o ops ih =>
    obtain ⟨hkept, hle, heven⟩ := h.step hpaid hgrant hops.1
    obtain ⟨hkept', hle', heven'⟩ := ih hkept hops.2
    exact ⟨hkept', hle.trans hle', fun he => heven' (heven he)⟩

/-- What has been taken back is the rounded share of what has been refunded, and all of the
bonus when that is all of the payment. -/
def Account.GaveBack (a : Account) (paymentId : String) (paid grant : Entry) : Prop :=
  a.clawedBackBonusInr paymentId =
      bonusShare grant.delta (a.refundedTotalInr paymentId) paid.delta ∧
    (a.refundedTotalInr paymentId = paid.delta → a.clawedBackBonusInr paymentId = grant.delta)

theorem Account.Even.gaveBack (h : a.Even paymentId paid grant) (hpaid : 0 < paid.delta)
    (hgrant : 0 < grant.delta) (hpaidFits : InColumn paid.delta) (hgrantFits : InColumn grant.delta)
    (hwithin : a.refundedTotalInr paymentId ≤ paid.delta) : a.GaveBack paymentId paid grant := by
  have heq := clawbackTarget_eq hgrant.le hpaid (refundedTotalInr_nonneg a paymentId) hwithin
    hgrantFits hpaidFits
  rw [Account.Even, heq] at h
  refine ⟨h, fun hfull => ?_⟩
  rw [h, hfull, bonusShare_full hpaid]

/-- **A bonus that goes back with its payment**, between the wallet that was granted it and
the wallet a run of refunds has reached. -/
structure GoesBack (granted a : Account) (paymentId : String) (paid grant : Entry) : Prop where
  debits : ∀ e ∈ a.ledger, e.ClawsBack paymentId → e.delta < 0
  grows : ∀ more, Run.Guarded Op.step (RefundsOnly paymentId) a more →
    a.clawedBackBonusInr paymentId ≤ (runOps more a).clawedBackBonusInr paymentId
  /-- After every refund of the payment that is recorded here. -/
  after_refund : ∀ event a', event.paymentId = paymentId →
    creditRefund event a = .ok ((), a') → a' ≠ a →
      a'.refundedTotalInr paymentId ≤ paid.delta → a'.GaveBack paymentId paid grant
  /-- At every moment, where nothing was refunded before the bonus was granted. -/
  throughout : granted.refundedTotalInr paymentId = 0 →
    a.refundedTotalInr paymentId ≤ paid.delta → a.GaveBack paymentId paid grant

/-- **The bonus goes back with the payment.** Take any wallet in which a pack's payment and
its bonus are on file and none of the bonus has been taken back, and any run of refunds after
it: what has been taken back never goes down, every row of it is a debit, and in step with the
refunds of the payment it is its rounded share, all of it when all is refunded. -/
theorem clawback_follows_refunds (before : List Op)
    (htopup : (runOps before {}).findTopup paymentId = some paid)
    (hbonus : (runOps before {}).findEntryByRef .bonus paymentId = some grant)
    (hpaid : 0 < paid.delta) (hgrant : 0 < grant.delta) (hpaidFits : InColumn paid.delta)
    (hgrantFits : InColumn grant.delta)
    (hnone : ∀ e ∈ (runOps before {}).ledger, ¬ e.ClawsBack paymentId) (ops : List Op)
    (hops : Run.Guarded Op.step (RefundsOnly paymentId) (runOps before {}) ops) :
    GoesBack (runOps before {}) (runOps ops (runOps before {})) paymentId paid grant := by
  have hbooks := (walletOk_empty.run before).books
  obtain ⟨hstart, hfresh⟩ := Behind.start hbooks htopup hbonus hpaid hgrant hnone
  obtain ⟨hkept, -, heven⟩ := hstart.run hpaid hgrant hops
  constructor
  case debits => exact hkept.taken
  case grows => exact fun more hmore => (hkept.run hpaid hgrant hmore).2.1
  case after_refund =>
    intro event a' hpayment hrun hnew hwithin
    have heven' := (hkept.refund hpaid hgrant hrun).2.2.2 hpayment hnew
    exact heven'.gaveBack hpaid hgrant hpaidFits hgrantFits hwithin
  case throughout =>
    intro hzero hwithin
    exact (heven (hfresh hzero)).gaveBack hpaid hgrant hpaidFits hgrantFits hwithin

end Runs

/-- A pack with a bonus of three per cent. -/
def bonusPacks : List CreditPack := [⟨"starter", 10000000, 3⟩]

theorem bonusPacks_ne : bonusPacks ≠ [] := List.cons_ne_nil _ _

/-- The card that sells it. -/
def bonusPackCtx : Ctx where
  card := ⟨bonusPacks, bonusPacks_ne, onePackCtx.card.cells⟩
  expiryMonths := none

theorem packPaise_pos : 0 < 100000 := by decide

/-- The pack is bought. -/
def packBought : List Op :=
  [.capture bonusPackCtx ⟨"pay_1", ⟨100000, packPaise_pos⟩, some "starter"⟩]

/-- A third of it is refunded, and the refund's webhook comes twice. -/
def thirdRefunded : List Op :=
  [.refund ⟨"rfnd_1", "pay_1", 33333⟩, .refund ⟨"rfnd_1", "pay_1", 33333⟩]

/-- The rows the purchase wrote. -/
def packPaid : Entry := ⟨0, 10000000, .topup, some "pay_1", 10000000, 1, {}⟩

def packBonus : Entry :=
  ⟨2, 300000, .bonus, some "pay_1", 10300000, 3, { kind := some .creditPackBonus }⟩

theorem clawback_follows_refunds_third :
    GoesBack (runOps packBought {}) (runOps thirdRefunded (runOps packBought {})) "pay_1" packPaid
      packBonus :=
  clawback_follows_refunds packBought (by decide +kernel) (by decide +kernel) (by decide)
    (by decide) (by decide) (by decide) (by decide +kernel) thirdRefunded
    ⟨Or.inl ⟨_, rfl⟩, Or.inl ⟨_, rfl⟩, trivial⟩

end Billing

end Calevate
