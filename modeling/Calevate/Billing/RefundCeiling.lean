import Calevate.Billing.Helpers.Refunds

/-!
# The refund ceiling

In every run of the refund desk the live claims of a payment are within what was paid, a
failure event fails at most the claim it is about, and a processed refund debits the wallet
once (`refund_claims_within_payment`).

Which claim a failure event is about is decided by the gateway's refund id where the claim
is bound to one. The answer that binds it can be lost, so an unbound claim of the same
payment and amount stands in for it; `claimedUnbound_fails` is a run where it does.
-/

namespace Calevate

namespace Billing

open Lib

/-- The invariant of the desk. -/
structure DeskOk (s : RefundDesk) : Prop where
  books : BooksOk s.account
  debits : ∀ e ∈ s.account.ledger, e.reason = .refund → e.delta < 0
  amounts : ∀ c ∈ s.account.refundIntents, 0 < c.amountInr
  keys : (s.account.refundIntents.map RefundIntent.refundKey).Nodup
  ceiling : ∀ p, 0 < s.account.claimedRefundTotalInr p →
    ∃ paid, s.account.findTopup p = some paid ∧ s.account.claimedRefundTotalInr p ≤ paid.delta
  requests : ∀ q ∈ s.requests, q.2 ∈ s.account.ledger ∧ q.2.reason = .topup ∧ q.2.ref = some q.1

theorem deskOk_empty : DeskOk {} where
  books := booksOk_empty
  debits := by intro e he; cases he
  amounts := by intro c hc; cases hc
  keys := List.nodup_nil
  ceiling := by intro p hp; cases hp
  requests := by intro q hq; cases hq

section Steps

variable {refundKey : String → ℤ → ℕ → String} {s : RefundDesk}

/-- A payment on the ledger stays the one that is found. -/
theorem findTopup_grows {a a' : Account} {p : String} {paid : Entry} (ha : LedgerOk a)
    (ha' : LedgerOk a') (hg : Grows a a') (h : a.findTopup p = some paid) :
    a'.findTopup p = some paid := by
  obtain ⟨hmem, hreason, href⟩ := (findEntryByRef_some_iff ha).mp h
  exact (findEntryByRef_some_iff ha').mpr ⟨hg.mem hmem, hreason, href⟩

/-- A step that leaves the claims alone. -/
theorem DeskOk.grows (h : DeskOk s) {a' : Account} (hg : Grows s.account a')
    (hb : BooksOk a') (hi : a'.refundIntents = s.account.refundIntents) :
    DeskOk (s.setAccount a') where
  books := hb
  debits := by
    obtain ⟨rows, hl, hrows⟩ := hg
    intro e he hreason
    rw [RefundDesk.setAccount_account, hl] at he
    rcases List.mem_append.mp he with he | he
    · exact h.debits e he hreason
    · exact hrows e he hreason
  amounts := by rw [RefundDesk.setAccount_account, hi]; exact h.amounts
  keys := by rw [RefundDesk.setAccount_account, hi]; exact h.keys
  ceiling := by
    intro p
    unfold Account.claimedRefundTotalInr
    rw [RefundDesk.setAccount_account, hi]
    intro hp
    obtain ⟨paid, hpaid, hle⟩ := h.ceiling p hp
    exact ⟨paid, findTopup_grows h.books.ledger hb.ledger hg hpaid, hle⟩
  requests := by
    intro q hq
    obtain ⟨hmem, hreason, href⟩ := h.requests q hq
    exact ⟨hg.mem hmem, hreason, href⟩

/-- A rewrite of claims that revives none. -/
structure Fades (f : RefundIntent → RefundIntent) : Prop where
  key : ∀ c, (f c).refundKey = c.refundKey
  payment : ∀ c, (f c).paymentRef = c.paymentRef
  amount : ∀ c, (f c).amountInr = c.amountInr
  live : ∀ c, (f c).isLive = true → c.isLive = true

/-- A step that only rewrites claims, reviving none. -/
theorem DeskOk.update (h : DeskOk s) {q : RefundIntent → Bool} {f : RefundIntent → RefundIntent}
    (hf : Fades f) :
    DeskOk (s.setAccount
      (s.account.setRefundIntents (Table.update q f s.account.refundIntents))) where
  books := h.books.setRefundIntents _
  debits := h.debits
  amounts := by
    intro c hc
    obtain ⟨x, hx, rfl⟩ := List.mem_map.mp hc
    by_cases hq : q x = true
    · rw [if_pos hq, hf.amount]
      exact h.amounts x hx
    · rw [if_neg hq]
      exact h.amounts x hx
  keys := by
    have hmap : (Table.update q f s.account.refundIntents).map RefundIntent.refundKey =
        s.account.refundIntents.map RefundIntent.refundKey := by
      unfold Table.update
      rw [List.map_map]
      apply List.map_congr_left
      intro x _
      by_cases hq : q x = true <;> simp [hq, hf.key]
    show ((Table.update q f s.account.refundIntents).map RefundIntent.refundKey).Nodup
    rw [hmap]
    exact h.keys
  ceiling := by
    intro p hp
    have hle : liveTotal p (Table.update q f s.account.refundIntents) ≤
        liveTotal p s.account.refundIntents := liveTotal_update_le h.amounts hf.payment hf.amount hf.live
    have hp' : 0 < liveTotal p (Table.update q f s.account.refundIntents) := hp
    obtain ⟨paid, hpaid, hbound⟩ := h.ceiling p (lt_of_lt_of_le hp' hle)
    exact ⟨paid, hpaid, hle.trans hbound⟩
  requests := h.requests

/-- A new claim, within what the payment has left. -/
theorem DeskOk.claim (h : DeskOk s) {p : String} {paid : Entry} {c : RefundIntent}
    (hreq : (p, paid) ∈ s.requests) (hpay : c.paymentRef = p) (hpos : 0 < c.amountInr)
    (hroom : s.account.claimedRefundTotalInr p + c.amountInr ≤ paid.delta)
    (hlive : c.isLive = true)
    (hkey : c.refundKey ∉ s.account.refundIntents.map RefundIntent.refundKey) :
    DeskOk (s.setAccount
      (s.account.mint.setRefundIntents (s.account.refundIntents ++ [c]))) where
  books := h.books.mint.setRefundIntents _
  debits := h.debits
  amounts := by
    intro x hx
    rcases List.mem_append.mp hx with hx | hx
    · exact h.amounts x hx
    · obtain rfl := List.mem_singleton.mp hx
      exact hpos
  keys := by
    show ((s.account.refundIntents ++ [c]).map RefundIntent.refundKey).Nodup
    rw [List.map_append, List.nodup_append]
    refine ⟨h.keys, List.nodup_singleton _, ?_⟩
    intro x hx y hy hxy
    obtain rfl := List.mem_singleton.mp hy
    exact hkey (hxy ▸ hx)
  ceiling := by
    intro p' hp'
    have htotal : liveTotal p' (s.account.refundIntents ++ [c]) =
        liveTotal p' s.account.refundIntents + if p = p' then c.amountInr else 0 := by
      rw [liveTotal_append, liveTotal_cons]
      simp [hpay, hlive, liveTotal]
    have hp'' : 0 < liveTotal p' (s.account.refundIntents ++ [c]) := hp'
    show ∃ paid, s.account.findTopup p' = some paid ∧
      liveTotal p' (s.account.refundIntents ++ [c]) ≤ paid.delta
    by_cases hpp : p = p'
    · -- the payment of this claim is the one its request read
      subst hpp
      obtain ⟨hmem, hreason, href⟩ := h.requests _ hreq
      refine ⟨paid, (findEntryByRef_some_iff h.books.ledger).mpr ⟨hmem, hreason, href⟩, ?_⟩
      rw [htotal, if_pos rfl]
      exact hroom
    · rw [htotal, if_neg hpp, add_zero] at hp'' ⊢
      exact h.ceiling p' hp''
  requests := h.requests

/-- **Everything a step of the desk can do**: run an operation, remember what a request
read, add a claim the payment has room for, or rewrite claims. -/
theorem RefundDesk.step_cases (s : RefundDesk) (st : RefundStep) :
    (∃ o, s.step refundKey st = s.setAccount (Op.step s.account o)) ∨
    (∃ requests, s.step refundKey st = { s with requests := requests } ∧
      ∀ q ∈ requests, q ∈ s.requests ∨ s.account.findTopup q.1 = some q.2) ∨
    (∃ p paid c, (p, paid) ∈ s.requests ∧ c.paymentRef = p ∧ 0 < c.amountInr ∧
      s.account.claimedRefundTotalInr p + c.amountInr ≤ paid.delta ∧ c.isLive = true ∧
      c.refundKey ∉ s.account.refundIntents.map RefundIntent.refundKey ∧
      s.step refundKey st = s.setAccount
        (s.account.mint.setRefundIntents (s.account.refundIntents ++ [c]))) ∨
    (∃ q f, s.step refundKey st = s.setAccount
      (s.account.setRefundIntents (Table.update q f s.account.refundIntents)) ∧ Fades f) := by
  cases st with
  | op o => exact Or.inl ⟨o, rfl⟩
  | read p =>
    refine Or.inr (Or.inl ?_)
    cases hfind : s.account.findTopup p with
    | none => exact ⟨s.requests, by simp only [RefundDesk.step, hfind], fun q hq => Or.inl hq⟩
    | some paid =>
      refine ⟨s.requests ++ [(p, paid)], by simp only [RefundDesk.step, hfind], ?_⟩
      intro q hq
      rcases List.mem_append.mp hq with hq | hq
      · exact Or.inl hq
      · obtain rfl := List.mem_singleton.mp hq
        exact Or.inr hfind
  | claim i paise =>
    cases hreq : s.requests[i]? with
    | none =>
      exact Or.inr (Or.inl ⟨s.requests, by simp only [RefundDesk.step, hreq], fun q hq => Or.inl hq⟩)
    | some q =>
      obtain ⟨p, paid⟩ := q
      simp only [RefundDesk.step, hreq, RefundDesk.commit]
      split_ifs with hle
      · exact Or.inr (Or.inl ⟨s.requests, rfl, fun q hq => Or.inl hq⟩)
      · cases htx : claimRefund refundKey p ((paise.map ofPaise).getD paid.delta) paid.delta paid.id
            s.account with
        | error e =>
          rw [Tx.commit_of_error htx]
          exact Or.inr (Or.inl ⟨s.requests, rfl, fun q hq => Or.inl hq⟩)
        | ok r =>
          rw [Tx.commit_of_ok htx]
          rcases claimRefund_ok htx with heq | ⟨c, heq, hpay, hamt, hpos, hlive, hroom, hkey⟩
          · exact Or.inr (Or.inl ⟨s.requests, by rw [heq]; rfl, fun q hq => Or.inl hq⟩)
          · exact Or.inr (Or.inr (Or.inl ⟨p, paid, c, List.mem_of_getElem? hreq, hpay, by omega,
              by omega, hlive, hkey, by rw [heq]⟩))
  | release key =>
    refine Or.inr (Or.inr (Or.inr ⟨_, _, rfl, fun _ => rfl, fun _ => rfl, fun _ => rfl, ?_⟩))
    intro c hl
    cases hl
  | bind key refundId =>
    exact Or.inr (Or.inr (Or.inr
      ⟨_, _, rfl, fun _ => rfl, fun _ => rfl, fun _ => rfl, fun _ hl => hl⟩))
  | failed refund =>
    simp only [RefundDesk.step, RefundDesk.commit]
    cases htx : applyRefundFailed refund s.account with
    | error e =>
      rw [Tx.commit_of_error htx]
      exact Or.inr (Or.inl ⟨s.requests, rfl, fun q hq => Or.inl hq⟩)
    | ok r =>
      rw [Tx.commit_of_ok htx]
      rcases applyRefundFailed_ok htx with ⟨-, heq⟩ | ⟨c, -, hrel⟩
      · exact Or.inr (Or.inl ⟨s.requests, by rw [heq]; rfl, fun q hq => Or.inl hq⟩)
      · rw [releaseRefundClaim_ok hrel]
        refine Or.inr (Or.inr (Or.inr ⟨_, _, rfl, fun _ => rfl, fun _ => rfl, fun _ => rfl, ?_⟩))
        intro c hl
        cases hl

/-- **One step keeps the invariant of the desk.** -/
theorem DeskOk.step (h : DeskOk s) (st : RefundStep) : DeskOk (s.step refundKey st) := by
  rcases s.step_cases st with ⟨o, heq⟩ | ⟨requests, heq, hreq⟩ |
    ⟨p, paid, c, hreq, hpay, hpos, hroom, hlive, hkey, heq⟩ | ⟨q, f, heq, hf⟩
  · obtain ⟨hg, hi, hb⟩ := Op.step_grows h.books o
    rw [heq]
    exact h.grows hg hb hi
  · rw [heq]
    refine ⟨h.books, h.debits, h.amounts, h.keys, h.ceiling, ?_⟩
    intro q hq
    rcases hreq q hq with hq | hq
    · exact h.requests q hq
    · exact (findEntryByRef_some_iff h.books.ledger).mp hq
  · rw [heq]
    exact h.claim hreq hpay hpos hroom hlive hkey
  · rw [heq]
    exact h.update hf

theorem DeskOk.run (h : DeskOk s) (steps : List RefundStep) :
    DeskOk (runRefunds refundKey steps s) :=
  Run.foldl_inv (fun _ st h => h.step st) h steps

/-! ## Failure events -/

/-- **A failure event fails the claim it is about and no other.** -/
theorem DeskOk.failed_only (h : DeskOk s) {refund : RefundEvent} {c : RefundIntent}
    (hc : c ∈ s.account.refundIntents)
    (hgone : c ∉ (s.step refundKey (.failed refund)).account.refundIntents) :
    s.account.claimOfFailedRefund refund = some c := by
  simp only [RefundDesk.step, RefundDesk.commit] at hgone
  cases htx : applyRefundFailed refund s.account with
  | error e =>
    rw [Tx.commit_of_error htx] at hgone
    exact absurd hc hgone
  | ok r =>
    rw [Tx.commit_of_ok htx] at hgone
    rcases applyRefundFailed_ok htx with ⟨-, heq⟩ | ⟨found, hfound, hrel⟩
    · rw [heq] at hgone
      exact absurd hc hgone
    · -- the update rewrites the rows under one key, and the key is one row's
      rw [releaseRefundClaim_ok hrel] at hgone
      have hmem := (claimOfFailedRefund_some hfound).1
      by_cases hkey : c.refundKey = found.refundKey
      · rw [hfound, List.inj_on_of_nodup_map h.keys hc hmem hkey]
      · refine absurd ?_ hgone
        refine List.mem_map.mpr ⟨c, hc, ?_⟩
        simp [hkey]

/-! ## Processed refunds -/

/-- The ledger only grows along a run. -/
theorem DeskOk.mem_run (h : DeskOk s) {e : Entry} (he : e ∈ s.account.ledger)
    (steps : List RefundStep) : e ∈ (runRefunds refundKey steps s).account.ledger := by
  have hinv : ∀ (t : RefundDesk) (st : RefundStep), DeskOk t ∧ e ∈ t.account.ledger →
      DeskOk (t.step refundKey st) ∧ e ∈ (t.step refundKey st).account.ledger := by
    rintro t st ⟨ht, he⟩
    refine ⟨ht.step st, ?_⟩
    rcases t.step_cases st with ⟨o, heq⟩ | ⟨requests, heq, -⟩ |
      ⟨p, paid, c, -, -, -, -, -, -, heq⟩ | ⟨q, f, heq, -⟩
    · rw [heq]
      exact (Op.step_grows ht.books o).1.mem he
    · rwa [heq]
    · rwa [heq]
    · rwa [heq]
  exact (Run.foldl_inv hinv ⟨h, he⟩ steps).2

/-- **A processed refund debits the wallet exactly once**, whatever comes after it. -/
theorem DeskOk.processed_once (h : DeskOk s) {refund : RefundEvent} {a' : Account}
    (htx : creditRefund refund s.account = .ok ((), a')) (more : List RefundStep) :
    ∃ e, (runRefunds refundKey (.op (.refund refund) :: more) s).account.ledger.filter
        (fun x => x.reason = .refund ∧ x.ref = some refund.refundId) = [e] ∧
      e.delta = -refund.amountInr := by
  obtain ⟨e, he, hreason, href, hdelta⟩ := creditRefund_recorded h.books h.debits htx
  have hstep : DeskOk (s.step refundKey (.op (.refund refund))) := h.step _
  have hmem : e ∈ (s.step refundKey (.op (.refund refund))).account.ledger := by
    show e ∈ (Tx.commit (Op.refund refund).tx s.account).ledger
    rw [Tx.commit_of_ok (show (Op.refund refund).tx s.account = .ok ((), a') from htx)]
    exact he
  have hlast : e ∈ (runRefunds refundKey more _).account.ledger := hstep.mem_run hmem more
  have hend : DeskOk (runRefunds refundKey more _) := hstep.run more
  refine ⟨e, ?_, hdelta⟩
  have honce := hend.books.ledger.key_once .refund refund.refundId
  have hin : e ∈ (runRefunds refundKey (.op (.refund refund) :: more) s).account.ledger.filter
      (fun x => x.reason = .refund ∧ x.ref = some refund.refundId) :=
    List.mem_filter.mpr ⟨hlast, by simp [hreason, href]⟩
  have hrun : runRefunds refundKey (.op (.refund refund) :: more) s =
      runRefunds refundKey more (s.step refundKey (.op (.refund refund))) := rfl
  rw [hrun] at hin ⊢
  obtain ⟨x, hx⟩ := List.length_eq_one_iff.mp (le_antisymm honce (List.length_pos_of_mem hin))
  rw [hx] at hin ⊢
  rw [List.mem_singleton.mp hin]

end Steps

/-! ## Every run -/

/-- **Refund claims never exceed the payment**, in every interleaving of requests, gateway
events and other operations. The live claims of a payment, those whose refund was processed
among them, are within the amount paid. A failure event fails only the live claim bound to
its refund or, where none is, an unbound live claim of its payment and amount, and nothing
once that refund's failure is recorded. A processed refund debits the wallet exactly once. -/
theorem refund_claims_within_payment (refundKey : String → ℤ → ℕ → String)
    (steps : List RefundStep) :
    (∀ p, 0 < (runRefunds refundKey steps {}).account.claimedRefundTotalInr p →
      ∃ paid, (runRefunds refundKey steps {}).account.findTopup p = some paid ∧
        (runRefunds refundKey steps {}).account.claimedRefundTotalInr p ≤ paid.delta) ∧
    (∀ refund, ∀ c ∈ (runRefunds refundKey steps {}).account.refundIntents,
      c ∉ ((runRefunds refundKey steps {}).step refundKey (.failed refund)).account.refundIntents →
      c.isLive = true ∧
      (∀ f ∈ (runRefunds refundKey steps {}).account.refundIntents,
        f.isLive = false → f.refundRef ≠ some refund.refundId) ∧
      (c.refundRef = some refund.refundId ∨
        (c.refundRef = none ∧ c.paymentRef = refund.paymentId ∧ c.amountInr = refund.amountInr ∧
          ∀ f ∈ (runRefunds refundKey steps {}).account.refundIntents,
            f.isLive = true → f.refundRef ≠ some refund.refundId))) ∧
    (∀ refund a' more, creditRefund refund (runRefunds refundKey steps {}).account = .ok ((), a') →
      ∃ e, (runRefunds refundKey (.op (.refund refund) :: more)
          (runRefunds refundKey steps {})).account.ledger.filter
          (fun x => x.reason = .refund ∧ x.ref = some refund.refundId) = [e] ∧
        e.delta = -refund.amountInr) := by
  have h : DeskOk (runRefunds refundKey steps {}) := deskOk_empty.run steps
  refine ⟨h.ceiling, ?_, ?_⟩
  · intro refund c hc hgone
    exact (claimOfFailedRefund_some (h.failed_only hc hgone)).2
  · intro refund a' more htx
    exact h.processed_once htx more

/-- A request that has claimed its refund and not heard from the gateway yet. -/
def claimedUnbound : List RefundStep :=
  [.op (.capture onePackCtx ⟨"pay_1", 100000, none⟩), .read "pay_1", .claim 0 (some 40000)]

/-- And the payment refunded by hand on the gateway's dashboard meanwhile. -/
def refundedOutside : List RefundStep :=
  claimedUnbound ++ [.op (.refund ⟨"rfnd_dashboard", "pay_1", 80000⟩)]

/-- Refunds of a payment that were processed and that no live claim is bound to: the ones
made outside this platform, on the gateway's own dashboard. -/
def Account.unclaimedRefundsInr (a : Account) (paymentId : String) : ℤ :=
  ((a.ledger.filter fun e => e.reason = .refund ∧ e.entryMeta.paymentRef = some paymentId ∧
    a.refundIntents.all fun c => decide (c.isLive → c.refundRef ≠ e.ref)).map
      fun e => |e.delta|).sum

/-- **The ceiling is on claims, and a claim may be unbound.** A refund made on the gateway's
dashboard while a claim is live is counted in no claim, and a failure event can fail a claim
that is bound to no refund. -/
theorem claimedUnbound_fails :
    (¬ ∀ (refundKey : String → ℤ → ℕ → String) (steps : List RefundStep) (p : String) (paid : Entry),
      (runRefunds refundKey steps {}).account.findTopup p = some paid →
        (runRefunds refundKey steps {}).account.claimedRefundTotalInr p +
          (runRefunds refundKey steps {}).account.unclaimedRefundsInr p ≤ paid.delta) ∧
    ¬ ∀ (refundKey : String → ℤ → ℕ → String) (steps : List RefundStep) (refund : RefundEvent),
      ∀ c ∈ (runRefunds refundKey steps {}).account.refundIntents,
        c ∉ ((runRefunds refundKey steps {}).step refundKey
          (.failed refund)).account.refundIntents →
        c.refundRef = some refund.refundId := by
  refine ⟨?_, ?_⟩
  · intro h
    have hpaid : ((runRefunds (fun _ _ _ => "rfnd_key") refundedOutside {}).account.findTopup
        "pay_1").map Entry.delta = some 10000000 := by decide +kernel
    have hover : 10000000 < (runRefunds (fun _ _ _ => "rfnd_key") refundedOutside
        {}).account.claimedRefundTotalInr "pay_1" + (runRefunds (fun _ _ _ => "rfnd_key")
        refundedOutside {}).account.unclaimedRefundsInr "pay_1" := by decide +kernel
    obtain ⟨paid, hfind, hdelta⟩ := Option.map_eq_some_iff.mp hpaid
    have := h _ _ _ paid hfind
    omega
  · intro h
    have hrun : ∃ c ∈ (runRefunds (fun _ _ _ => "rfnd_key") claimedUnbound {}).account.refundIntents,
        c ∉ ((runRefunds (fun _ _ _ => "rfnd_key") claimedUnbound {}).step
          (fun _ _ _ => "rfnd_key") (.failed ⟨"rfnd_1", "pay_1", 40000⟩)).account.refundIntents ∧
        c.refundRef = none := by decide +kernel
    obtain ⟨c, hc, hgone, hnone⟩ := hrun
    have := h _ _ _ c hc hgone
    rw [hnone] at this
    cases this

end Billing

end Calevate
