import Calevate.Billing.Refunds

/-!
# Helpers — refund claims

What each step of the refund desk does to the claims and to the ledger. Only a new claim
raises what is claimed of a payment, and it is checked against the top-up the request read,
which no later operation changes: the ledger only grows and a reference is on it once.
-/

namespace Calevate

namespace Billing

open Lib

/-! ## The claims table -/

theorem BooksOk.setRefundIntents {a : Account} (ha : BooksOk a) (intents : List RefundIntent) :
    BooksOk (a.setRefundIntents intents) :=
  ⟨⟨ha.ledger.stamped, ha.ledger.stamped_le, ha.ledger.ids, ha.ledger.ids_lt, ha.ledger.keys,
    ha.ledger.chain⟩, ⟨ha.lots.ids, ha.lots.ids_lt, ha.lots.sound, ha.lots.entries⟩⟩

theorem BooksOk.mint {a : Account} (ha : BooksOk a) : BooksOk a.mint := by
  have hl := ha.ledger
  have hk := ha.lots
  exact ⟨⟨hl.stamped, hl.stamped_le, hl.ids, fun e he => Nat.lt_succ_of_lt (hl.ids_lt e he),
    hl.keys, hl.chain⟩, ⟨hk.ids, fun l h => Nat.lt_succ_of_lt (hk.ids_lt l h), hk.sound,
    hk.entries⟩⟩

/-- The live claims of one payment in a table. -/
def liveTotal (paymentId : String) (intents : List RefundIntent) : ℤ :=
  ((intents.filter fun c => c.paymentRef = paymentId ∧ c.isLive).map RefundIntent.amountInr).sum

theorem liveTotal_cons (p : String) (c : RefundIntent) (l : List RefundIntent) :
    liveTotal p (c :: l) =
      (if c.paymentRef = p ∧ c.isLive then c.amountInr else 0) + liveTotal p l := by
  unfold liveTotal
  by_cases h : c.paymentRef = p ∧ c.isLive
  · rw [List.filter_cons_of_pos (by simpa using h), if_pos h]
    simp
  · rw [List.filter_cons_of_neg (by simpa using h), if_neg h]
    simp

theorem liveTotal_append (p : String) (l k : List RefundIntent) :
    liveTotal p (l ++ k) = liveTotal p l + liveTotal p k := by
  simp [liveTotal]

/-- An update that revives no claim and keeps payments and amounts claims no more. -/
theorem liveTotal_update_le {p : String} {q : RefundIntent → Bool} {f : RefundIntent → RefundIntent}
    {l : List RefundIntent} (hpos : ∀ c ∈ l, 0 < c.amountInr)
    (hpay : ∀ c, (f c).paymentRef = c.paymentRef) (hamt : ∀ c, (f c).amountInr = c.amountInr)
    (hlive : ∀ c, (f c).isLive = true → c.isLive = true) :
    liveTotal p (Table.update q f l) ≤ liveTotal p l := by
  induction l with
  | nil => exact le_refl _
  | cons c l ih =>
    have hrest := ih fun x hx => hpos x (List.mem_cons_of_mem _ hx)
    have hc := hpos c List.mem_cons_self
    have hcons : Table.update q f (c :: l) = (if q c then f c else c) :: Table.update q f l := rfl
    rw [hcons, liveTotal_cons, liveTotal_cons]
    by_cases hq : q c = true
    · -- the row's own share can only drop out
      have hshare : (if (f c).paymentRef = p ∧ (f c).isLive then (f c).amountInr else 0) ≤
          if c.paymentRef = p ∧ c.isLive then c.amountInr else 0 := by
        rw [hpay, hamt]
        by_cases hl : c.paymentRef = p ∧ (f c).isLive = true
        · rw [if_pos hl, if_pos ⟨hl.1, hlive c hl.2⟩]
        · rw [if_neg hl]
          split_ifs
          · exact hc.le
          · exact le_refl _
      rw [if_pos hq]
      omega
    · rw [if_neg hq]
      omega

/-! ## What each step does to the claims -/

section Steps

variable {a a' : Account}

/-- **What a claim does**: nothing, when it replays a live one, or one new row that the
payment has room for. -/
theorem claimRefund_ok {refundKey : String → ℤ → ℕ → String} {p : String} {amount total : ℤ}
    {entryId : ℕ} {r : RefundClaim}
    (h : claimRefund refundKey p amount total entryId a = .ok (r, a')) :
    a' = a ∨ ∃ c, a' = a.mint.setRefundIntents (a.refundIntents ++ [c]) ∧ c.paymentRef = p ∧
      c.amountInr = amount ∧ 0 < amount ∧ c.isLive = true ∧
      a.claimedRefundTotalInr p + amount ≤ total ∧ c.refundKey ∉ a.refundIntents.map
        RefundIntent.refundKey := by
  unfold claimRefund at h
  obtain ⟨_, _, hget, h⟩ := Tx.bind_ok.mp h
  cases Tx.get_ok.mp hget
  cases hlive : a.refundIntents.find? fun c =>
      c.paymentRef = p ∧ c.amountInr = amount ∧ c.isLive with
  | some live =>
    simp only [hlive] at h
    cases Tx.pure_ok.mp h
    exact Or.inl rfl
  | none =>
    simp only [hlive, newRefundClaim, refuseIfDisputed, insertRefundIntent, Tx.bind_ok, Tx.get_ok,
      Tx.ite_ok, Tx.throw_ok, Tx.pure_ok, Tx.set_ok, uuid7_ok, and_false, false_or] at h
    obtain ⟨_, _, ⟨_, _, h₁, -, -, h₂⟩, _, _, h₃, hceil, -, _, _, ⟨_, _, h₄, _, _, h₅, hpos, hkey,
      h₆⟩, h₇⟩ := h
    cases h₁
    cases h₂
    cases h₃
    cases h₄
    cases h₅
    cases h₆
    cases h₇
    refine Or.inr ⟨_, rfl, rfl, rfl, by omega, rfl, by omega, ?_⟩
    intro hmem
    obtain ⟨c, hc, hck⟩ := List.mem_map.mp hmem
    exact hkey (List.any_eq_true.mpr ⟨c, hc, by simpa using hck⟩)

theorem releaseRefundClaim_ok {key : String} {refundId : Option String} {u : Unit}
    (h : releaseRefundClaim key refundId a = .ok (u, a')) :
    a' = a.setRefundIntents (Table.update (fun c => c.refundKey = key ∧ c.isLive)
      (fun c => { c with failedAt := some a.clock, refundRef := c.refundRef.or refundId })
      a.refundIntents) := by
  unfold releaseRefundClaim at h
  obtain ⟨_, _, hget, h⟩ := Tx.bind_ok.mp h
  cases Tx.get_ok.mp hget
  cases Tx.set_ok.mp h
  rfl

/-- **What a failure event does**: nothing, or it releases the claim it finds. -/
theorem applyRefundFailed_ok {refund : RefundEvent} {u : Unit}
    (h : applyRefundFailed refund a = .ok (u, a')) :
    (a.claimOfFailedRefund refund = none ∧ a' = a) ∨
    ∃ c, a.claimOfFailedRefund refund = some c ∧
      releaseRefundClaim c.refundKey (some refund.refundId) a = .ok (u, a') := by
  unfold applyRefundFailed at h
  obtain ⟨_, _, hget, h⟩ := Tx.bind_ok.mp h
  cases Tx.get_ok.mp hget
  cases hclaim : a.claimOfFailedRefund refund with
  | none =>
    simp only [hclaim] at h
    cases Tx.pure_ok.mp h
    exact Or.inl ⟨rfl, rfl⟩
  | some c =>
    simp only [hclaim] at h
    exact Or.inr ⟨c, rfl, h⟩

/-- **Which claim a failure is charged to**: the one its refund is bound to, else one that
no refund is bound to, and none once that refund's failure is recorded. -/
theorem claimOfFailedRefund_some {refund : RefundEvent} {c : RefundIntent}
    (h : a.claimOfFailedRefund refund = some c) :
    c ∈ a.refundIntents ∧ c.isLive = true ∧
    (∀ f ∈ a.refundIntents, f.isLive = false → f.refundRef ≠ some refund.refundId) ∧
    (c.refundRef = some refund.refundId ∨
      (c.refundRef = none ∧ c.paymentRef = refund.paymentId ∧ c.amountInr = refund.amountInr ∧
        ∀ f ∈ a.refundIntents, f.isLive = true → f.refundRef ≠ some refund.refundId)) := by
  unfold Account.claimOfFailedRefund at h
  split_ifs at h with hrecorded
  have hnone : ∀ f ∈ a.refundIntents, f.isLive = false → f.refundRef ≠ some refund.refundId := by
    intro f hf hdead hid
    exact hrecorded (List.any_eq_true.mpr ⟨f, hf, by simp [hdead, hid]⟩)
  rw [Option.or_eq_some_iff] at h
  rcases h with hbound | ⟨hnobound, hunbound⟩
  · have hp := List.find?_some hbound
    simp only [decide_eq_true_eq] at hp
    exact ⟨List.mem_of_find?_eq_some hbound, hp.1, hnone, Or.inl hp.2⟩
  · have hp := List.find?_some hunbound
    simp only [decide_eq_true_eq] at hp
    refine ⟨List.mem_of_find?_eq_some hunbound, hp.1, hnone, Or.inr ⟨hp.2.1, hp.2.2.1, hp.2.2.2, ?_⟩⟩
    intro f hf hlive hid
    have := List.find?_eq_none.mp hnobound f hf
    exact this (by simp [hlive, hid])

/-! ## What an operation does to the ledger -/

/-- The ledger grew, by rows that are debits where they are refunds. -/
def Grows (a a' : Account) : Prop :=
  ∃ rows, a'.ledger = a.ledger ++ rows ∧ ∀ e ∈ rows, e.reason = .refund → e.delta < 0

theorem Grows.refl (a : Account) : Grows a a := ⟨[], (List.append_nil _).symm, by simp⟩

theorem Grows.mem {e : Entry} (h : Grows a a') (he : e ∈ a.ledger) : e ∈ a'.ledger := by
  obtain ⟨rows, hl, -⟩ := h
  rw [hl]
  exact List.mem_append_left _ he

theorem applyDisputeEvent_grows {ctx : Ctx} {d : DisputeFacts} {o : DisputeOutcome}
    (ha : BooksOk a) (h : applyDisputeEvent ctx d a = .ok (o, a')) :
    Grows a a' ∧ a'.refundIntents = a.refundIntents := by
  rcases applyDisputeEvent_ok h with ⟨-, rfl⟩ | ⟨-, hmoney⟩
  · exact ⟨Grows.refl _, rfl⟩
  · have hb := ha.setDisputes (recordedDisputes a.disputes d)
    rcases moveDisputeMoney_ok hmoney with ⟨-, placed, hhold⟩ | ⟨-, done, hrel⟩
    · rcases hold_ok hb hhold with ⟨-, rfl, -⟩ | ⟨-, -, -, hh⟩
      · exact ⟨⟨[], (List.append_nil _).symm, by simp⟩, rfl⟩
      · obtain ⟨b, rows, e, restated, δ, hm, -, hplain, -, hrow, rfl⟩ := hh
        refine ⟨⟨rows ++ [e], hm.ledger, ?_⟩, hm.refundIntents⟩
        intro x hx hreason
        rcases List.mem_append.mp hx with hx | hx
        · exact (hplain x hx).refund hreason
        · obtain rfl := List.mem_singleton.mp hx
          rw [hrow.reason] at hreason
          cases hreason
    · rcases release_ok hb hrel with ⟨-, rfl, -⟩ | ⟨-, s, -, hr⟩
      · exact ⟨⟨[], (List.append_nil _).symm, by simp⟩, rfl⟩
      · obtain ⟨held, e, δ, -, hm, -, -, hreason, -, -⟩ := hr
        refine ⟨⟨[e], hm.ledger, ?_⟩, hm.refundIntents⟩
        intro x hx hx'
        obtain rfl := List.mem_singleton.mp hx
        rw [hreason] at hx'
        cases hx'

/-- **No operation outside the desk touches a claim**, and the ledger only grows. -/
theorem Op.step_grows (ha : BooksOk a) (o : Op) :
    Grows a (o.step a) ∧ (o.step a).refundIntents = a.refundIntents ∧ BooksOk (o.step a) := by
  unfold Op.step
  cases htx : o.tx a with
  | error e =>
    rw [Tx.commit_of_error htx]
    exact ⟨Grows.refl a, rfl, ha⟩
  | ok r =>
    rw [Tx.commit_of_ok htx]
    rcases Op.settles ha htx with ⟨rows, d, hm, hplain, -⟩ | ⟨ctx, d, outcome, -, hd⟩ |
      ⟨hb, hl, -, -, hi, -⟩
    · exact ⟨⟨rows, hm.ledger, fun e he => (hplain e he).refund⟩, hm.refundIntents, hm.books⟩
    · obtain ⟨hg, hi⟩ := applyDisputeEvent_grows ha hd
      exact ⟨hg, hi, applyDisputeEvent_books ha hd⟩
    · exact ⟨⟨[], by rw [hl, List.append_nil], by simp⟩, hi, hb⟩

/-- **A processed refund is on the ledger**, whether this event wrote it or another had. -/
theorem creditRefund_recorded {refund : RefundEvent} {u : Unit} (ha : BooksOk a)
    (hdebits : ∀ e ∈ a.ledger, e.reason = .refund → e.delta < 0)
    (h : creditRefund refund a = .ok (u, a')) :
    ∃ e ∈ a'.ledger, e.reason = .refund ∧ e.ref = some refund.refundId ∧
      e.delta = -refund.amountInr := by
  unfold creditRefund at h
  obtain ⟨_, _, hget, h⟩ := Tx.bind_ok.mp h
  cases Tx.get_ok.mp hget
  cases hfind : a.findEntryByRef .refund refund.refundId with
  | some existing =>
    simp only [hfind] at h
    obtain ⟨hmem, hreason, href⟩ := (findEntryByRef_some_iff ha.ledger).mp hfind
    rcases Tx.ite_ok.mp h with ⟨hsame, h⟩ | ⟨-, h⟩
    · cases Tx.pure_ok.mp h
      have hneg := hdebits existing hmem hreason
      rw [abs_of_neg hneg] at hsame
      exact ⟨existing, hmem, hreason, href, by omega⟩
    · exact (Tx.throw_ok.mp h).elim
  | none =>
    simp only [hfind, writeRefund, Tx.bind_ok, Tx.get_ok] at h
    obtain ⟨_, _, h₁, removal, a₁, hlots, _, a₂, hrow, hclaw⟩ := h
    cases h₁
    have hpos := paiseToInr_pos refund.paise
    obtain ⟨rows, d, hm, -⟩ := removal_moves ha hpos hlots hrow
    obtain ⟨rows', d', hm', -⟩ := clawBackPackBonus_settles hm.books hclaw
    refine ⟨a₁.entryOf (-refund.amountInr) .refund (some refund.refundId)
      { paymentRef := some refund.paymentId, lots := removal.splits }, ?_, rfl, rfl, rfl⟩
    rw [hm'.ledger, hm.ledger]
    exact List.mem_append_left _ (List.mem_append_right _ (List.mem_append_right _
      (List.mem_singleton.mpr rfl)))

end Steps

end Billing

end Calevate
