import Mathlib.Order.Bounds.Defs
import Calevate.Lib.Run
import Calevate.Billing.Caps

/-!
# The spend gate agrees with the caps

`SpendBook.MonthOver` says what the gate is for, with no row and no flag: the calls metered
for the current month have reached the smaller of the ceilings that are set, in minutes or
in rupees. A run keeps the counters equal to those sums (`CountersOk`), whatever month the
row is stamped with; a recompute then writes, or finds, the flag that agrees with them.
-/

namespace Calevate

namespace Billing

open Lib

/-! ## What the gate is for -/

/-- What the calls of a month add up to. -/
def sumIn (figure : MeteredCall → ℤ) (metered : List MeteredCall) (month : ℕ) : ℤ :=
  ((metered.filter fun c => istBillingMonth c.endedAt = month).map figure).sum

/-- The smaller of the ceilings that are set is reached; a ceiling counts in units. -/
def CeilingReached (unit used : ℤ) (admin client : Option ℤ) : Prop :=
  ∃ c, IsLeast {x | admin = some x ∨ client = some x} c ∧ c * unit ≤ used

/-- **The current month is over its caps.** -/
def SpendBook.MonthOver (b : SpendBook) (v : CapView) : Prop :=
  CeilingReached minuteUnits (sumIn MeteredCall.minutes b.metered b.currentBillingMonth)
      v.adminCapMin v.clientCapMin ∨
    CeilingReached 1 (sumIn MeteredCall.billedInr b.metered b.currentBillingMonth)
      v.adminCapSpend v.clientCapSpend

/-- The ceilings a view comes to. -/
def CapView.ceilings (v : CapView) : Ceilings :=
  ⟨least v.adminCapMin v.clientCapMin, least v.adminCapSpend v.clientCapSpend⟩

theorem isLeast_least {a b : Option ℤ} {c : ℤ} :
    IsLeast {x | a = some x ∨ b = some x} c ↔ least a b = some c := by
  simp only [IsLeast, lowerBounds, Set.mem_ofPred_eq]
  cases a with
  | none =>
    cases b with
    | none => simp [least]
    | some b => simp +contextual [least]
  | some a =>
    cases b with
    | none => simp +contextual [least]
    | some b =>
      simp only [least, Option.some.injEq]
      constructor
      · rintro ⟨hc, hlow⟩
        have h₁ := hlow (.inl rfl)
        have h₂ := hlow (.inr rfl)
        omega
      · rintro rfl
        refine ⟨by omega, ?_⟩
        rintro x (rfl | rfl) <;> omega

theorem ceilingReached_iff {unit used : ℤ} {a b : Option ℤ} :
    CeilingReached unit used a b ↔ reached used ((least a b).map (· * unit)) = true := by
  simp only [CeilingReached, isLeast_least]
  cases least a b <;> simp [reached]

theorem capsAt_eq (b : SpendBook) (now : ℕ) : capsAt b.plans now = (b.readCaps now).ceilings := by
  unfold capsAt SpendBook.readCaps
  cases planInEffect b.plans now <;> rfl

theorem monthOver_iff {b : SpendBook} {v : CapView} : b.MonthOver v ↔
    v.ceilings.overCap (sumIn MeteredCall.minutes b.metered b.currentBillingMonth)
      (sumIn MeteredCall.billedInr b.metered b.currentBillingMonth) = true := by
  rw [SpendBook.MonthOver, ceilingReached_iff, ceilingReached_iff, Ceilings.overCap, Bool.or_eq_true]
  simp [CapView.ceilings]

/-! ## What the counters count -/

/-- **The row counts the latest month seen, which is not later than the current one.** -/
structure CountersOk (b : SpendBook) : Prop where
  empty : b.spendState = none → b.metered = []
  current : ∀ row, b.spendState = some row → row.month ≤ b.currentBillingMonth
  latest : ∀ row, b.spendState = some row → ∀ c ∈ b.metered, istBillingMonth c.endedAt ≤ row.month
  minutes : ∀ row, b.spendState = some row →
    row.minutesUsed = sumIn MeteredCall.minutes b.metered row.month
  billed : ∀ row, b.spendState = some row →
    row.billedInr = sumIn MeteredCall.billedInr b.metered row.month

theorem sumIn_append (figure : MeteredCall → ℤ) (metered : List MeteredCall) (call : MeteredCall)
    (month : ℕ) : sumIn figure (metered ++ [call]) month = sumIn figure metered month +
      if istBillingMonth call.endedAt = month then figure call else 0 := by
  simp only [sumIn, List.filter_append, List.map_append, List.sum_append]
  split
  · rename_i h
    simp [h]
  · rename_i h
    simp [h]

theorem sumIn_eq_zero {figure : MeteredCall → ℤ} {metered : List MeteredCall} {month : ℕ}
    (h : ∀ c ∈ metered, istBillingMonth c.endedAt < month) : sumIn figure metered month = 0 := by
  rw [sumIn, List.filter_eq_nil_iff.mpr]
  · rfl
  · intro c hc
    have := h c hc
    simp only [decide_eq_true_eq]
    omega

/-- A counter moved by a call is the counter of the month it is then stamped with. -/
theorem accumulate_eq {figure : MeteredCall → ℤ} {metered : List MeteredCall} {rowMonth : ℕ}
    (hlatest : ∀ c ∈ metered, istBillingMonth c.endedAt ≤ rowMonth) (call : MeteredCall) :
    accumulate rowMonth (istBillingMonth call.endedAt) (sumIn figure metered rowMonth)
        (figure call) =
      sumIn figure (metered ++ [call]) (max rowMonth (istBillingMonth call.endedAt)) := by
  rw [sumIn_append, accumulate]
  split
  · rename_i heq
    rw [← heq, max_self, if_pos rfl]
  · rename_i hne
    split
    · rename_i hlt
      rw [max_eq_right hlt.le, if_pos rfl, sumIn_eq_zero, zero_add]
      intro c hc
      have := hlatest c hc
      omega
    · rw [max_eq_left (by omega), if_neg (by omega), add_zero]

theorem currentBillingMonth_mono {b b' : SpendBook} (h : b.clock ≤ b'.clock) :
    b.currentBillingMonth ≤ b'.currentBillingMonth :=
  Calendar.monthOf_mono istOffset h

/-- What a recompute leaves alone. -/
theorem CountersOk.congr {b b' : SpendBook} (h : CountersOk b) (hrow : b'.spendState = b.spendState)
    (hmet : b'.metered = b.metered) (hclock : b.clock ≤ b'.clock) : CountersOk b' where
  empty hn := by rw [hmet]; exact h.empty (hrow ▸ hn)
  current row hr := (h.current row (hrow ▸ hr)).trans (currentBillingMonth_mono hclock)
  latest row hr := by rw [hmet]; exact h.latest row (hrow ▸ hr)
  minutes row hr := by rw [hmet]; exact h.minutes row (hrow ▸ hr)
  billed row hr := by rw [hmet]; exact h.billed row (hrow ▸ hr)

theorem CountersOk.of_row {b : SpendBook} {row : SpendState} (hrow : b.spendState = some row)
    (hcur : row.month ≤ b.currentBillingMonth)
    (hlatest : ∀ c ∈ b.metered, istBillingMonth c.endedAt ≤ row.month)
    (hmin : row.minutesUsed = sumIn MeteredCall.minutes b.metered row.month)
    (hbill : row.billedInr = sumIn MeteredCall.billedInr b.metered row.month) : CountersOk b := by
  have hone : ∀ r, b.spendState = some r → r = row := by
    intro r hr
    rw [hrow] at hr
    exact (Option.some.inj hr).symm
  constructor
  case empty =>
    intro hn
    rw [hrow] at hn
    cases hn
  all_goals
    intro r hr
    rw [hone r hr]
    assumption

/-! ## A recompute -/

/-- The counters of the current month, off the row. -/
theorem CountersOk.sums {b : SpendBook} (h : CountersOk b) {row : SpendState}
    (hrow : b.spendState = some row) (hm : row.month = b.currentBillingMonth) :
    sumIn MeteredCall.minutes b.metered b.currentBillingMonth = row.minutesUsed ∧
      sumIn MeteredCall.billedInr b.metered b.currentBillingMonth = row.billedInr := by
  rw [h.minutes row hrow, h.billed row hrow, hm]
  exact ⟨rfl, rfl⟩

/-- A month with no row of its own has no calls. -/
theorem CountersOk.sums_zero {b : SpendBook} (h : CountersOk b)
    (hno : ∀ row, b.spendState = some row → row.month ≠ b.currentBillingMonth)
    (figure : MeteredCall → ℤ) : sumIn figure b.metered b.currentBillingMonth = 0 := by
  cases hrow : b.spendState with
  | none => rw [h.empty hrow]; rfl
  | some row =>
    apply sumIn_eq_zero
    intro c hc
    have hne := hno row hrow
    have hle := h.current row hrow
    have hlast := h.latest row hrow c hc
    omega

/-- **What a recompute answers and leaves.** -/
structure Recomputed (b : SpendBook) (now : ℕ) (flag : Option Bool) (b' : SpendBook) : Prop where
  agrees : flag.getD false = true ↔ b.MonthOver (b.readCaps now)
  gate : b'.spendCapped = flag.getD false
  plans : b'.plans = b.plans
  counters : CountersOk b'

/-- The current month's row gets the flag its counters call for. -/
theorem recomputed_of_row {b : SpendBook} (h : CountersOk b) {row : SpendState}
    (hrow : b.spendState = some row) (hm : row.month = b.currentBillingMonth) (now : ℕ) :
    Recomputed b now (some ((capsAt b.plans now).overCap row.minutesUsed row.billedInr))
      { b with spendState := some ({ row with
          capped := (capsAt b.plans now).overCap row.minutesUsed row.billedInr }) } where
  agrees := by
    obtain ⟨hmin, hbill⟩ := h.sums hrow hm
    rw [monthOver_iff, ← capsAt_eq, hmin, hbill, Option.getD_some]
  gate := by
    have hmonth : row.month = istBillingMonth b.clock := hm
    simp [SpendBook.spendCapped, SpendBook.currentBillingMonth, hmonth]
  plans := rfl
  counters := CountersOk.of_row rfl hm.le (h.latest row hrow) (h.minutes row hrow)
    (h.billed row hrow)

/-- A month with no row is closed by a ceiling that nothing spent reaches. -/
theorem recomputed_armed {b : SpendBook} (h : CountersOk b)
    (hno : ∀ row, b.spendState = some row → row.month ≠ b.currentBillingMonth) {now : ℕ}
    (hover : (capsAt b.plans now).overCap 0 0 = true) :
    Recomputed b now (some true)
      { b with spendState := some (armedRow b.currentBillingMonth) } where
  agrees := by
    rw [monthOver_iff, ← capsAt_eq, h.sums_zero hno, h.sums_zero hno, hover, Option.getD_some]
  gate := by
    simp [SpendBook.spendCapped, SpendBook.currentBillingMonth, armedRow]
  plans := rfl
  counters := by
    refine CountersOk.of_row rfl (le_refl _) ?_ (h.sums_zero hno _).symm (h.sums_zero hno _).symm
    intro c hc
    cases hrow : b.spendState with
    | none => rw [h.empty hrow] at hc; cases hc
    | some row => exact (h.latest row hrow c hc).trans (h.current row hrow)

/-- Where nothing is over, a month with no row is left as it is. -/
theorem recomputed_idle {b : SpendBook} (h : CountersOk b)
    (hno : ∀ row, b.spendState = some row → row.month ≠ b.currentBillingMonth) {now : ℕ}
    (hover : (capsAt b.plans now).overCap 0 0 = false) : Recomputed b now none b where
  agrees := by
    rw [monthOver_iff, ← capsAt_eq, h.sums_zero hno, h.sums_zero hno, hover, Option.getD_none]
  gate := by
    unfold SpendBook.spendCapped
    cases hrow : b.spendState with
    | none => rfl
    | some row => simp [hno row hrow]
  plans := rfl
  counters := h

theorem armZeroCeiling_spec {b : SpendBook} (h : CountersOk b)
    (hno : ∀ row, b.spendState = some row → row.month ≠ b.currentBillingMonth) (now : ℕ) :
    ∃ flag b', armZeroCeiling now b = .ok (flag, b') ∧ Recomputed b now flag b' := by
  cases hover : (capsAt b.plans now).overCap 0 0 with
  | false =>
    refine ⟨none, b, ?_, recomputed_idle h hno hover⟩
    simp [armZeroCeiling, Tx.bind_ok, Tx.get_ok, hover, Tx.pure_ok]
  | true =>
    refine ⟨some true, _, ?_, recomputed_armed h hno hover⟩
    cases hrow : b.spendState with
    | none =>
      rw [armZeroCeiling, Tx.bind_ok]
      refine ⟨b, b, Tx.get_ok.mpr rfl, ?_⟩
      simp only [hover, hrow, if_true]
      rfl
    | some row =>
      -- a row of another month is of an earlier one, and the conflict rolls it over
      have hlt : row.month < b.currentBillingMonth :=
        lt_of_le_of_ne (h.current row hrow) (hno row hrow)
      rw [armZeroCeiling, Tx.bind_ok]
      refine ⟨b, b, Tx.get_ok.mpr rfl, ?_⟩
      simp only [hover, hrow, if_pos hlt, if_true]
      rfl

/-- **A recompute always answers, and with the truth.** -/
theorem recomputeCapped_spec {b : SpendBook} (h : CountersOk b) (now : ℕ) :
    ∃ flag b', recomputeCapped now b = .ok (flag, b') ∧ Recomputed b now flag b' := by
  by_cases hcur : ∃ row, b.spendState = some row ∧ row.month = b.currentBillingMonth
  · obtain ⟨row, hrow, hm⟩ := hcur
    refine ⟨_, _, ?_, recomputed_of_row h hrow hm now⟩
    have hset : recomputeRow now b =
        .ok (some ((capsAt b.plans now).overCap row.minutesUsed row.billedInr),
          { b with spendState := some ({ row with
              capped := (capsAt b.plans now).overCap row.minutesUsed row.billedInr }) }) := by
      rw [recomputeRow, Tx.bind_ok]
      refine ⟨b, b, Tx.get_ok.mpr rfl, ?_⟩
      simp only [hrow, if_pos hm]
      rfl
    rw [recomputeCapped, Tx.bind_ok]
    exact ⟨_, _, hset, rfl⟩
  · have hno : ∀ row, b.spendState = some row → row.month ≠ b.currentBillingMonth := by
      intro row hrow hm
      exact hcur ⟨row, hrow, hm⟩
    have hnone : recomputeRow now b = .ok (none, b) := by
      cases hrow : b.spendState with
      | none => simp [recomputeRow, Tx.bind_ok, Tx.get_ok, hrow, Tx.pure_ok]
      | some row =>
        simp [recomputeRow, Tx.bind_ok, Tx.get_ok, hrow, hno row hrow, Tx.pure_ok]
    obtain ⟨flag, b', hrun, hspec⟩ := armZeroCeiling_spec h hno now
    refine ⟨flag, b', ?_, hspec⟩
    rw [recomputeCapped, Tx.bind_ok]
    exact ⟨none, b, hnone, hrun⟩

theorem recomputeCapped_counters {b b' : SpendBook} (h : CountersOk b) {now : ℕ}
    {flag : Option Bool} (hrun : recomputeCapped now b = .ok (flag, b')) : CountersOk b' := by
  obtain ⟨flag', c, hre, hrec⟩ := recomputeCapped_spec h now
  rw [hrun] at hre
  cases hre
  exact hrec.counters

/-! ## The client's own caps -/

/-- Client caps do not decide which plan is in effect. -/
theorem planInEffect_map {f : PlanRow → PlanRow} (hterms : ∀ p, (f p).terms = p.terms)
    (hcreated : ∀ p, (f p).createdAt = p.createdAt) (hid : ∀ p, (f p).id = p.id)
    (plans : List PlanRow) (instant : ℕ) :
    planInEffect (plans.map f) instant = (planInEffect plans instant).map f := by
  have houtranks : ∀ p q, (f p).outranks (f q) = p.outranks q := by
    intro p q
    have hkey : ∀ r, (f r).startKey = r.startKey := by
      intro r
      rw [PlanRow.startKey, hterms, ← PlanRow.startKey]
    rw [PlanRow.outranks, hkey, hkey, hcreated, hcreated, hid, hid, ← PlanRow.outranks]
  have hprefer : ∀ best p, PlanRow.prefer (best.map f) (f p) = (PlanRow.prefer best p).map f := by
    intro best p
    cases best with
    | none => rfl
    | some q =>
      simp only [PlanRow.prefer, Option.map_some, houtranks]
      split <;> rfl
  have hfold : ∀ (rows : List PlanRow) (best : Option PlanRow),
      (rows.map f).foldl PlanRow.prefer (best.map f) = (rows.foldl PlanRow.prefer best).map f := by
    intro rows
    induction rows with
    | nil => intro best; rfl
    | cons p rows ih =>
      intro best
      rw [List.map_cons, List.foldl_cons, List.foldl_cons, hprefer, ih]
  have hcovers : (fun p => (f p).covers instant) = fun p => p.covers instant := by
    funext p
    simp only [PlanRow.covers, hterms]
  rw [planInEffect, planInEffect, List.filter_map]
  show List.foldl _ (Option.map f none) _ = _
  rw [hfold]
  simp only [Function.comp_def, hcovers]

theorem foldl_prefer_isSome (rows : List PlanRow) (p : PlanRow) :
    (rows.foldl PlanRow.prefer (some p)).isSome = true := by
  induction rows generalizing p with
  | nil => rfl
  | cons q rows ih =>
    rw [List.foldl_cons, PlanRow.prefer]
    split
    · exact ih q
    · exact ih p

/-- A plan minted where none was in effect is the one in effect. -/
theorem planInEffect_minted {plans : List PlanRow} {now : ℕ} (h : planInEffect plans now = none)
    {p : PlanRow} (hp : p.covers now = true) : planInEffect (plans ++ [p]) now = some p := by
  have hnone : plans.filter (fun q => q.covers now) = [] := by
    cases hrows : plans.filter fun q => q.covers now with
    | nil => rfl
    | cons q rows =>
      rw [planInEffect, hrows, List.foldl_cons] at h
      have hsome := foldl_prefer_isSome rows q
      rw [show PlanRow.prefer none q = some q from rfl] at h
      rw [h] at hsome
      cases hsome
  have hone : [p].filter (fun q => q.covers now) = [p] := by simp [hp]
  rw [planInEffect, List.filter_append, hnone, List.nil_append, hone]
  rfl

/-- **The pair the client states is the pair in force**, beside the admin's own. -/
theorem writeClientCaps_readCaps (b : SpendBook) (now : ℕ) (capMin capSpend : Option ℤ) :
    (b.writeClientCaps now capMin capSpend).readCaps now =
      ⟨(b.readCaps now).adminCapMin, (b.readCaps now).adminCapSpend, capMin, capSpend⟩ := by
  unfold SpendBook.writeClientCaps SpendBook.readCaps
  cases hp : planInEffect b.plans now with
  | none =>
    simp only
    rw [planInEffect_minted hp rfl]
    rfl
  | some p =>
    simp only
    rw [planInEffect_map, hp, Option.map_some, if_pos rfl]
    · rfl
    all_goals
      intro q
      split <;> rfl

theorem CountersOk.writeClientCaps {b : SpendBook} (h : CountersOk b) (now : ℕ)
    (capMin capSpend : Option ℤ) : CountersOk (b.writeClientCaps now capMin capSpend) := by
  unfold SpendBook.writeClientCaps
  split <;> exact h.congr rfl rfl (le_refl _)

theorem writeClientCaps_monthOver {b : SpendBook} {now : ℕ} {capMin capSpend : Option ℤ}
    {v : CapView} : (b.writeClientCaps now capMin capSpend).MonthOver v ↔ b.MonthOver v := by
  unfold SpendBook.writeClientCaps
  split <;> rfl

/-- What an accepted change of the client's caps answers and leaves. -/
theorem applyClientCaps_spec {b b' : SpendBook} (h : CountersOk b) {now : ℕ}
    {capMin capSpend : Option ℤ} {r : CapWriteResult}
    (hrun : applyClientCaps now capMin capSpend b = .ok (r, b')) :
    CountersOk b' ∧ b'.spendCapped = r.cappedNow ∧
      (r.cappedNow = true ↔ b.MonthOver
        ⟨(b.readCaps now).adminCapMin, (b.readCaps now).adminCapSpend, capMin, capSpend⟩) := by
  rw [applyClientCaps, Tx.bind_ok] at hrun
  obtain ⟨_, _, hget, hrun⟩ := hrun
  cases Tx.get_ok.mp hget
  obtain ⟨_, s₁, hmin, hrun⟩ := Tx.bind_ok.mp hrun
  obtain ⟨_, s₂, hspend, hrun⟩ := Tx.bind_ok.mp hrun
  obtain ⟨_, s₃, hset, hrun⟩ := Tx.bind_ok.mp hrun
  cases Tx.set_ok.mp hset
  obtain ⟨flag, c, hre, hrec⟩ :=
    recomputeCapped_spec (h.writeClientCaps now capMin capSpend) now
  obtain ⟨flag', c', hre', hrun⟩ := Tx.bind_ok.mp hrun
  rw [hre] at hre'
  cases hre'
  obtain ⟨_, _, hget', hrun⟩ := Tx.bind_ok.mp hrun
  cases Tx.get_ok.mp hget'
  cases Tx.pure_ok.mp hrun
  have hagrees := hrec.agrees
  rw [writeClientCaps_monthOver, writeClientCaps_readCaps] at hagrees
  exact ⟨hrec.counters, hrec.gate, hagrees⟩

/-! ## Runs -/

theorem writeSpendState_ok {caps : Ceilings} {month : ℕ} {minutes spend billed : ℤ}
    {b b' : SpendBook} {u : PUnit}
    (h : writeSpendState caps month minutes spend billed b = .ok (u, b')) :
    ∃ hnn : 0 ≤ billed, b' = { b with
      spendState := some ⟨month, minutes, spend, billed, caps.overCap minutes billed, hnn⟩ } := by
  rw [writeSpendState, Tx.bind_ok] at h
  obtain ⟨_, _, hget, h⟩ := h
  cases Tx.get_ok.mp hget
  by_cases hnn : 0 ≤ billed
  · rw [dif_pos hnn] at h
    cases Tx.set_ok.mp h
    exact ⟨hnn, rfl⟩
  · rw [dif_neg hnn] at h
    exact (Tx.throw_ok.mp h).elim

theorem meterSpend_counters {b b' : SpendBook} (h : CountersOk b) {now : ℕ} {call : MeteredCall}
    {spend : ℤ} {u : PUnit} (hpast : call.endedAt ≤ b.clock)
    (hrun : meterSpend now call spend b = .ok (u, b')) : CountersOk b' := by
  have hmonth : istBillingMonth call.endedAt ≤ b.currentBillingMonth :=
    Calendar.monthOf_mono istOffset hpast
  rw [meterSpend, Tx.bind_ok] at hrun
  obtain ⟨_, s₁, hups, hrun⟩ := hrun
  cases Tx.modify_ok.mp hrun
  rw [upsertSpendState, Tx.bind_ok] at hups
  obtain ⟨_, _, hget, hwrite⟩ := hups
  cases Tx.get_ok.mp hget
  cases hrow : b.spendState with
  | none =>
    simp only [hrow] at hwrite
    obtain ⟨hnn, rfl⟩ := writeSpendState_ok hwrite
    have hempty := h.empty hrow
    have hsum : ∀ figure : MeteredCall → ℤ, figure call =
        sumIn figure (b.metered ++ [call]) (istBillingMonth call.endedAt) := by
      intro figure
      rw [sumIn_append, hempty, if_pos rfl]
      exact (zero_add _).symm
    refine CountersOk.of_row rfl hmonth ?_ (hsum MeteredCall.minutes)
      (hsum MeteredCall.billedInr)
    intro c hc
    rw [hempty] at hc
    rw [List.mem_singleton.mp hc]
  | some row =>
    simp only [hrow] at hwrite
    obtain ⟨hnn, rfl⟩ := writeSpendState_ok hwrite
    have hlast := h.latest row hrow
    have hmin := @accumulate_eq MeteredCall.minutes b.metered row.month hlast call
    have hbill := @accumulate_eq MeteredCall.billedInr b.metered row.month hlast call
    rw [← h.minutes row hrow] at hmin
    rw [← h.billed row hrow] at hbill
    refine CountersOk.of_row rfl (max_le (h.current row hrow) hmonth) ?_ hmin hbill
    intro c hc
    rcases List.mem_append.mp hc with hc | hc
    · exact (hlast c hc).trans (le_max_left _ _)
    · rw [List.mem_singleton.mp hc]
      exact le_max_right _ _

theorem recordTerms_counters {b b' : SpendBook} (h : CountersOk b) {now : ℕ}
    {terms : CommercialTerms} {r : TermsWriteResult}
    (hrun : recordTerms now terms b = .ok (r, b')) : CountersOk b' := by
  rw [recordTerms, Tx.bind_ok] at hrun
  obtain ⟨_, _, hget, hrun⟩ := hrun
  cases Tx.get_ok.mp hget
  cases hsame : (planInEffect b.plans (terms.effectiveFrom.getD now)).filter
      fun p => decide (p.terms = terms) with
  | some p =>
    rw [hsame] at hrun
    cases Tx.pure_ok.mp hrun
    exact h
  | none =>
    rw [hsame] at hrun
    obtain ⟨_, s₁, hset, hrun⟩ := Tx.bind_ok.mp hrun
    cases Tx.set_ok.mp hset
    obtain ⟨flag, c, hre, hrun⟩ := Tx.bind_ok.mp hrun
    cases Tx.pure_ok.mp hrun
    refine recomputeCapped_counters ?_ hre
    exact h.congr rfl rfl (le_refl _)

/-- **Every step keeps the counters true.** -/
theorem CapStep.counters {b : SpendBook} (s : CapStep) (h : CountersOk b) :
    CountersOk (CapStep.apply b s) := by
  cases s with
  | elapse span => exact h.congr rfl rfl (Nat.le_add_right _ _)
  | meter now ago minutes spend billed =>
    show CountersOk (Tx.commit _ b)
    cases hrun : meterSpend now ⟨b.clock - ago, minutes, billed⟩ spend b with
    | error e => rw [Tx.commit_of_error hrun]; exact h
    | ok r => rw [Tx.commit_of_ok hrun]; exact meterSpend_counters h (Nat.sub_le _ _) hrun
  | newTerms now terms =>
    show CountersOk (Tx.commit _ b)
    cases hrun : recordTerms now terms b with
    | error e => rw [Tx.commit_of_error hrun]; exact h
    | ok r => rw [Tx.commit_of_ok hrun]; exact recordTerms_counters h hrun
  | clientCaps now capMin capSpend =>
    show CountersOk (Tx.commit _ b)
    cases hrun : applyClientCaps now capMin capSpend b with
    | error e => rw [Tx.commit_of_error hrun]; exact h
    | ok r => rw [Tx.commit_of_ok hrun]; exact (applyClientCaps_spec h hrun).1
  | recompute now =>
    show CountersOk (Tx.commit _ b)
    obtain ⟨flag, b', hrun, hrec⟩ := recomputeCapped_spec h now
    rw [Tx.commit_of_ok hrun]
    exact hrec.counters

theorem countersOk_of_run (steps : List CapStep) : CountersOk (runCaps steps {}) := by
  have hempty : CountersOk {} := by
    constructor <;> simp
  exact @Run.foldl_inv _ _ CapStep.apply CountersOk (fun _ s hb => s.counters hb) {} hempty steps

/-- A ceiling of zero on either side, in minutes or in rupees. -/
def CapView.ZeroSet (v : CapView) : Prop :=
  v.adminCapMin = some 0 ∨ v.clientCapMin = some 0 ∨ v.adminCapSpend = some 0 ∨
    v.clientCapSpend = some 0

theorem ceilingReached_zero {unit : ℤ} (hunit : 0 ≤ unit) {a b : Option ℤ}
    (h : a = some 0 ∨ b = some 0) : CeilingReached unit 0 a b := by
  have hleast : ∃ c, least a b = some c ∧ c ≤ 0 := by
    rcases h with rfl | rfl
    · cases b with
      | none => exact ⟨0, rfl, le_refl _⟩
      | some b => exact ⟨min 0 b, rfl, min_le_left _ _⟩
    · cases a with
      | none => exact ⟨0, rfl, le_refl _⟩
      | some a => exact ⟨min a 0, rfl, min_le_right _ _⟩
  obtain ⟨c, hc, hle⟩ := hleast
  exact ⟨c, (isLeast_least).mpr hc, mul_nonpos_of_nonpos_of_nonneg hle hunit⟩

/-- Where no call of the month has been metered a ceiling of zero is reached all the same. -/
theorem monthOver_of_zero {b : SpendBook} (h : CountersOk b)
    (hno : ∀ row, b.spendState = some row → row.month ≠ b.currentBillingMonth) {v : CapView}
    (hzero : v.ZeroSet) : b.MonthOver v := by
  rw [SpendBook.MonthOver, h.sums_zero hno, h.sums_zero hno]
  rcases hzero with hz | hz | hz | hz
  · exact .inl (ceilingReached_zero (by decide) (.inl hz))
  · exact .inl (ceilingReached_zero (by decide) (.inr hz))
  · exact .inr (ceilingReached_zero (by decide) (.inl hz))
  · exact .inr (ceilingReached_zero (by decide) (.inr hz))

/-- **The spend gate agrees with the caps.** After any run of metered calls, changes of
terms, changes of the client's caps, recomputes and months going by, a recompute answers
that the tenant is capped exactly when the calls metered for the current month have reached
the smaller of the ceilings that are set, in minutes or in rupees, and the gate it leaves is
that answer; so it is with a change of the client's caps, under the pair it states; and a
ceiling of zero closes the gate of a month that has no row. -/
theorem spend_gate_agrees (steps : List CapStep) (now : ℕ) :
    (∃ flag b', recomputeCapped now (runCaps steps {}) = .ok (flag, b') ∧
      (flag.getD false = true ↔
        (runCaps steps {}).MonthOver ((runCaps steps {}).readCaps now)) ∧
      b'.spendCapped = flag.getD false ∧
      ((∀ row, (runCaps steps {}).spendState = some row →
          row.month ≠ (runCaps steps {}).currentBillingMonth) →
        ((runCaps steps {}).readCaps now).ZeroSet → b'.spendCapped = true)) ∧
    ∀ (capMin capSpend : Option ℤ) (r : CapWriteResult) (b' : SpendBook),
      applyClientCaps now capMin capSpend (runCaps steps {}) = .ok (r, b') →
        (r.cappedNow = true ↔ (runCaps steps {}).MonthOver
          ⟨((runCaps steps {}).readCaps now).adminCapMin,
            ((runCaps steps {}).readCaps now).adminCapSpend, capMin, capSpend⟩) ∧
        b'.spendCapped = r.cappedNow ∧
        ((∀ row, (runCaps steps {}).spendState = some row →
            row.month ≠ (runCaps steps {}).currentBillingMonth) →
          capMin = some 0 ∨ capSpend = some 0 → b'.spendCapped = true) := by
  have h := countersOk_of_run steps
  constructor
  · obtain ⟨flag, b', hrun, hrec⟩ := recomputeCapped_spec h now
    refine ⟨flag, b', hrun, hrec.agrees, hrec.gate, ?_⟩
    intro hno hzero
    rw [hrec.gate, hrec.agrees]
    exact monthOver_of_zero h hno hzero
  · intro capMin capSpend r b' hrun
    obtain ⟨-, hgate, hagrees⟩ := applyClientCaps_spec h hrun
    refine ⟨hagrees, hgate, ?_⟩
    intro hno hzero
    rw [hgate, hagrees]
    apply monthOver_of_zero h hno
    rcases hzero with hz | hz
    · exact .inr (.inl hz)
    · exact .inr (.inr (.inr hz))

/-- A client's cap of zero, set on a wallet that has metered nothing, closes the gate. -/
example : (Tx.commit (applyClientCaps 0 (some 0) none) {}).spendCapped = true := by
  decide +kernel

end Billing

end Calevate
