import Mathlib.Data.List.Nodup
import Mathlib.Data.Rat.Defs
import Calevate.Lib.Tally
import Calevate.Billing.SpendGate

/-!
# The counters are the month's sums

A call is metered once: a usage row of it on the ledger stops every run after the first. What
it adds goes into the tenant's one row of counters, which counts the latest month it has seen;
the row, and the totals the meter reads back to see whether this call crossed a ceiling, are
sums over the metered calls of that month (`spend_counters_are_month_sums`), whatever order
the calls come in.
-/

namespace Calevate

namespace Billing

open Lib

/-! ## The meter -/

/-- One call as `_meter` has priced it, and the instant of its transaction. -/
structure Metering where
  callId : ℕ
  now : ℕ
  call : MeteredCall
  spend : ℤ
  deriving DecidableEq

namespace Metering

/-- The call's IST billing month. -/
def month (m : Metering) : ℕ := istBillingMonth m.call.endedAt

def minutes (m : Metering) : ℤ := m.call.minutes

def billed (m : Metering) : ℤ := m.call.billedInr

end Metering

/-- The totals a ceiling is compared with. -/
structure Totals where
  minutes : ℤ
  billed : ℤ
  deriving DecidableEq

/-- What `announce_cap_headroom` is told: the totals either side of the write, and the ceilings
they are judged by. -/
structure Headroom where
  month : ℕ
  before : Totals
  after : Totals
  caps : Ceilings
  deriving DecidableEq

/-- How full one ceiling is. -/
def fraction (used ceiling : ℚ) : ℚ := if ceiling ≤ 0 then 1 else used / ceiling

/-- `cap_fullness`: how full the fullest ceiling is. -/
def capFullness (totals : Totals) (caps : Ceilings) : Option ℚ :=
  (caps.capMin.toList.map (fun c => fraction (totals.minutes / minuteUnits) c) ++
    caps.capSpend.toList.map fun c => fraction totals.billed c).max?

/-- The totals before are those the row returned less what this call put in; a call of a closed
month put in nothing. -/
def headroomOf (caps : Ceilings) (m : Metering) (row : SpendState) : Headroom :=
  let counted := row.month = m.month
  { month := m.month
    before := ⟨row.minutesUsed - if counted then m.minutes else 0,
      row.billedInr - if counted then m.billed else 0⟩
    after := ⟨row.minutesUsed, row.billedInr⟩
    caps }

/-- The tenant's plans and counters, and the calls on the usage ledger. -/
structure MeterBook where
  book : SpendBook
  calls : List Metering := []

/-- **`_meter`**, from the ledger's guard to the announcement. -/
def meter (m : Metering) : Tx MeterBook CapProblem (Option Headroom) := fun b =>
  if m.callId ∈ b.calls.map Metering.callId then .ok (none, b)
  else match upsertSpendState m.now m.call m.spend b.book with
    | .error problem => .error problem
    | .ok (_, book) =>
      .ok (book.spendState.map (headroomOf (capsAt book.plans m.now) m),
        { book, calls := b.calls ++ [m] })

/-- Any calls, in any order and again. -/
def meterAll (b : MeterBook) (calls : List Metering) : MeterBook :=
  calls.foldl (fun b m => Tx.commit (meter m) b) b

/-! ## Sums of a month -/

/-- What the calls of a month add up to. -/
def monthTotal (figure : Metering → ℤ) (calls : List Metering) (month : ℕ) : ℤ :=
  Tally.sumOn (· = month) figure (calls.map fun m => (m.month, m))

theorem monthTotal_concat (figure : Metering → ℤ) (calls : List Metering) (m : Metering)
    (month : ℕ) :
    monthTotal figure (calls ++ [m]) month =
      monthTotal figure calls month + if m.month = month then figure m else 0 := by
  rw [monthTotal, List.map_append, Tally.sumOn_append]
  simp [monthTotal]

theorem monthTotal_eq_zero {figure : Metering → ℤ} {calls : List Metering} {month : ℕ}
    (h : ∀ m ∈ calls, m.month < month) : monthTotal figure calls month = 0 := by
  refine Tally.sumOn_eq_zero _ fun p hp => ?_
  obtain ⟨m, hm, rfl⟩ := List.mem_map.mp hp
  exact Nat.ne_of_lt (h m hm)

/-- **A counter that a call moved is the sum of the month it is then stamped with.** -/
theorem accumulate_monthTotal {figure : Metering → ℤ} {calls : List Metering} {rowMonth : ℕ}
    (hlatest : ∀ c ∈ calls, c.month ≤ rowMonth) (m : Metering) :
    accumulate rowMonth m.month (monthTotal figure calls rowMonth) (figure m) =
      monthTotal figure (calls ++ [m]) (max rowMonth m.month) := by
  rw [monthTotal_concat, accumulate]
  split
  · next heq => rw [← heq, max_self, if_pos rfl]
  · next hne =>
    split
    · next hlt =>
      have hnone : monthTotal figure calls m.month = 0 :=
        monthTotal_eq_zero fun c hc => by
          have := hlatest c hc
          omega
      rw [max_eq_right hlt.le, if_pos rfl, hnone, zero_add]
    · rw [max_eq_left (by omega), if_neg (by omega), add_zero]

/-! ## What the row counts -/

/-- The row is the latest month's sums over the metered calls, and its flag the over-cap test
on them at the ceilings the last of these calls was judged by. -/
structure RowCounts (b : MeterBook) (row : SpendState) (last : Metering) : Prop where
  month : ∃ m ∈ b.calls, m.month = row.month
  latest : ∀ m ∈ b.calls, m.month ≤ row.month
  minutes : row.minutesUsed = monthTotal Metering.minutes b.calls row.month
  spend : row.spendUsed = monthTotal Metering.spend b.calls row.month
  billed : row.billedInr = monthTotal Metering.billed b.calls row.month
  capped : row.capped = (capsAt b.book.plans last.now).overCap
    (monthTotal Metering.minutes b.calls row.month) (monthTotal Metering.billed b.calls row.month)

/-- No row and no call, or a row that counts the calls, each of them once. -/
def Counts (b : MeterBook) : Prop :=
  (b.calls.map Metering.callId).Nodup ∧
    ((b.book.spendState = none ∧ b.calls = []) ∨
      ∃ row last, b.book.spendState = some row ∧ b.calls.getLast? = some last ∧
        RowCounts b row last)

/-- **The row behind one more call.** -/
theorem upsert_row {b : MeterBook} (h : Counts b) {m : Metering} {u : PUnit} {book : SpendBook}
    (hrun : upsertSpendState m.now m.call m.spend b.book = .ok (u, book)) :
    ∃ row, book.spendState = some row ∧ book.plans = b.book.plans ∧
      RowCounts { book, calls := b.calls ++ [m] } row m ∧
      ∀ old, b.book.spendState = some old → row.month = max old.month m.month := by
  rw [upsertSpendState, Tx.bind_ok] at hrun
  obtain ⟨_, _, hget, hwrite⟩ := hrun
  cases Tx.get_ok.mp hget
  obtain ⟨-, ⟨hnone, hempty⟩ | ⟨old, last, hold, -, hcounts⟩⟩ := h
  · simp only [hnone] at hwrite
    obtain ⟨hnn, rfl⟩ := writeSpendState_ok hwrite
    have hfirst : ∀ figure : Metering → ℤ,
        monthTotal figure (b.calls ++ [m]) m.month = figure m := by
      intro figure
      rw [monthTotal_concat, hempty, if_pos rfl]
      exact zero_add _
    refine ⟨_, rfl, rfl, ?_, fun old hold => ?_⟩
    · constructor
      case month => exact ⟨m, by simp, rfl⟩
      case latest => simp [hempty, Metering.month]
      case minutes => exact (hfirst Metering.minutes).symm
      case spend => exact (hfirst Metering.spend).symm
      case billed => exact (hfirst Metering.billed).symm
      case capped =>
        exact congrArg₂ (capsAt b.book.plans m.now).overCap
          (hfirst Metering.minutes).symm (hfirst Metering.billed).symm
    · rw [hnone] at hold
      cases hold
  · simp only [hold] at hwrite
    obtain ⟨hnn, rfl⟩ := writeSpendState_ok hwrite
    have hsum : ∀ figure : Metering → ℤ,
        accumulate old.month m.month (monthTotal figure b.calls old.month) (figure m) =
          monthTotal figure (b.calls ++ [m]) (max old.month m.month) :=
      fun figure => accumulate_monthTotal hcounts.latest m
    have hminutes := hsum Metering.minutes
    have hspend := hsum Metering.spend
    have hbilled := hsum Metering.billed
    rw [← hcounts.minutes] at hminutes
    rw [← hcounts.spend] at hspend
    rw [← hcounts.billed] at hbilled
    refine ⟨_, rfl, rfl, ?_, fun old' hold' => ?_⟩
    · constructor
      case month =>
        obtain ⟨c, hc, hmonth⟩ := hcounts.month
        rcases le_total old.month m.month with hle | hle
        · exact ⟨m, by simp, (max_eq_right hle).symm⟩
        · exact ⟨c, List.mem_append_left _ hc, hmonth.trans (max_eq_left hle).symm⟩
      case latest =>
        intro c hc
        rcases List.mem_append.mp hc with hc | hc
        · exact (hcounts.latest c hc).trans (le_max_left _ _)
        · rw [List.mem_singleton.mp hc]
          exact le_max_right _ _
      case minutes => exact hminutes
      case spend => exact hspend
      case billed => exact hbilled
      case capped => exact congrArg₂ (capsAt b.book.plans m.now).overCap hminutes hbilled
    · rw [hold] at hold'
      cases hold'
      rfl

/-! ## One metering -/

/-- What one run of the meter does: nothing to a call that is on the ledger; else the row counts
it, never under an earlier month than before and unmoved by a call of a closed one, and the
totals announced are those sums without and with this call. -/
def Metered (b : MeterBook) (m : Metering) (told : Option Headroom) (b' : MeterBook) : Prop :=
  if m.callId ∈ b.calls.map Metering.callId then told = none ∧ b' = b
  else ∃ row head, b'.book.spendState = some row ∧ told = some head ∧
    b'.calls = b.calls ++ [m] ∧ RowCounts b' row m ∧
    (∀ old, b.book.spendState = some old → old.month ≤ row.month ∧
      (m.month < old.month → row.month = old.month ∧ row.minutesUsed = old.minutesUsed ∧
        row.spendUsed = old.spendUsed ∧ row.billedInr = old.billedInr)) ∧
    head.before = ⟨monthTotal Metering.minutes b.calls row.month,
      monthTotal Metering.billed b.calls row.month⟩ ∧
    head.after = ⟨monthTotal Metering.minutes b'.calls row.month,
      monthTotal Metering.billed b'.calls row.month⟩

/-- A call of a closed month adds nothing to the sums of an open one. -/
theorem closed_adds_nothing (figure : Metering → ℤ) (calls : List Metering) {m : Metering}
    {month : ℕ} (h : m.month < month) :
    monthTotal figure (calls ++ [m]) month = monthTotal figure calls month := by
  rw [monthTotal_concat, if_neg (by omega), add_zero]

/-- **One run of the meter.** -/
theorem meter_spec {b b' : MeterBook} (h : Counts b) {m : Metering} {told : Option Headroom}
    (hrun : meter m b = .ok (told, b')) : Counts b' ∧ Metered b m told b' := by
  unfold meter at hrun
  by_cases hagain : m.callId ∈ b.calls.map Metering.callId
  · rw [if_pos hagain] at hrun
    cases hrun
    exact ⟨h, by rw [Metered, if_pos hagain]; exact ⟨rfl, rfl⟩⟩
  rw [if_neg hagain] at hrun
  cases hups : upsertSpendState m.now m.call m.spend b.book with
  | error problem => simp [hups] at hrun
  | ok r =>
    obtain ⟨u, book⟩ := r
    obtain ⟨row, hrow, hplans, hcounts, hmonth⟩ := upsert_row h hups
    simp only [hups, hrow, Option.map_some] at hrun
    cases hrun
    refine ⟨⟨?_, .inr ⟨row, m, hrow, by simp, hcounts⟩⟩, ?_⟩
    · rw [List.map_append, List.map_singleton]
      refine List.nodup_append.mpr ⟨h.1, List.nodup_singleton _, fun id hid id' hid' heq => ?_⟩
      rw [heq, List.mem_singleton.mp hid'] at hid
      exact hagain hid
    rw [Metered, if_neg hagain]
    refine ⟨row, _, hrow, rfl, rfl, hcounts, fun old hold => ?_, ?_, ?_⟩
    · have hmax := hmonth old hold
      refine ⟨by omega, fun hclosed => ?_⟩
      have hsame : row.month = old.month := by omega
      obtain ⟨-, ⟨hnone, -⟩ | ⟨old', last, hold', -, hbefore⟩⟩ := h
      · rw [hnone] at hold
        cases hold
      rw [hold] at hold'
      cases hold'
      refine ⟨hsame, ?_, ?_, ?_⟩
      · rw [hcounts.minutes, hsame, closed_adds_nothing _ _ hclosed, hbefore.minutes]
      · rw [hcounts.spend, hsame, closed_adds_nothing _ _ hclosed, hbefore.spend]
      · rw [hcounts.billed, hsame, closed_adds_nothing _ _ hclosed, hbefore.billed]
    · have hless : ∀ figure : Metering → ℤ,
          monthTotal figure (b.calls ++ [m]) row.month -
              (if row.month = m.month then figure m else 0) =
            monthTotal figure b.calls row.month := by
        intro figure
        rw [monthTotal_concat]
        by_cases hcounted : row.month = m.month
        · rw [if_pos hcounted, if_pos hcounted.symm, add_sub_cancel_right]
        · rw [if_neg hcounted, if_neg (Ne.symm hcounted), add_zero, sub_zero]
      simp only [headroomOf, hcounts.minutes, hcounts.billed, hless]
    · simp only [headroomOf, hcounts.minutes, hcounts.billed]

/-- A call that bills nothing below zero is never refused. -/
theorem meter_total {b : MeterBook} (h : Counts b) {m : Metering} (hm : 0 ≤ m.billed) :
    ∃ told b', meter m b = .ok (told, b') := by
  unfold meter
  split
  · exact ⟨none, b, rfl⟩
  have hwrite : ∀ (caps : Ceilings) (month : ℕ) (minutes spend billed : ℤ), 0 ≤ billed →
      ∃ book, writeSpendState caps month minutes spend billed b.book = .ok (⟨⟩, book) := by
    intro caps month minutes spend billed hbilled
    let row : SpendState := ⟨month, minutes, spend, billed, caps.overCap minutes billed, hbilled⟩
    refine ⟨{ b.book with spendState := some row }, ?_⟩
    rw [writeSpendState, Tx.bind_ok]
    refine ⟨_, _, Tx.get_ok.mpr rfl, ?_⟩
    rw [dif_pos hbilled]
    rfl
  have hups : ∃ book, upsertSpendState m.now m.call m.spend b.book = .ok (⟨⟩, book) := by
    simp only [upsertSpendState, Tx.bind_ok]
    cases hrow : b.book.spendState with
    | none =>
      obtain ⟨book, hbook⟩ := hwrite _ _ _ _ _ hm
      exact ⟨book, _, _, Tx.get_ok.mpr rfl, by simp only [hrow]; exact hbook⟩
    | some row =>
      obtain ⟨-, ⟨hnone, -⟩ | ⟨row', last, hrow', -, hcounts⟩⟩ := h
      · rw [hnone] at hrow
        cases hrow
      rw [hrow] at hrow'
      cases hrow'
      have hsum : 0 ≤ accumulate row.month m.month row.billedInr m.billed := by
        have hrowNonneg := row.billed_nonneg
        unfold accumulate
        split
        · omega
        · split <;> omega
      obtain ⟨book, hbook⟩ := hwrite _ _ _ _ _ hsum
      exact ⟨book, _, _, Tx.get_ok.mpr rfl, by simp only [hrow]; exact hbook⟩
  obtain ⟨book, hbook⟩ := hups
  rw [hbook]
  exact ⟨_, _, rfl⟩

/-! ## Whole runs -/

theorem counts_empty (plans : List PlanRow) : Counts { book := { plans } } :=
  ⟨List.nodup_nil, .inl ⟨rfl, rfl⟩⟩

theorem meterAll_counts {b : MeterBook} (h : Counts b) (calls : List Metering) :
    Counts (meterAll b calls) := by
  refine Lib.Run.foldl_inv (fun b m hb => ?_) h calls
  cases hrun : meter m b with
  | error problem =>
    rw [Tx.commit_of_error hrun]
    exact hb
  | ok r =>
    rw [Tx.commit_of_ok hrun]
    exact (meter_spec hb hrun).1

/-- The ledger behind one run: as it was, or with this call on it. -/
theorem meter_calls {b b' : MeterBook} (h : Counts b) {m : Metering} {told : Option Headroom}
    (hrun : meter m b = .ok (told, b')) :
    m.callId ∈ b'.calls.map Metering.callId ∧ (b'.calls = b.calls ∨ b'.calls = b.calls ++ [m]) := by
  have hspec := (meter_spec h hrun).2
  unfold Metered at hspec
  split at hspec
  · next hagain =>
    rw [hspec.2]
    exact ⟨hagain, .inl rfl⟩
  · obtain ⟨row, head, -, -, hcalls, -⟩ := hspec
    refine ⟨?_, .inr hcalls⟩
    rw [hcalls, List.map_append]
    exact List.mem_append_right _ (List.mem_singleton_self _)

theorem commit_meter_calls {b : MeterBook} (h : Counts b) (m : Metering) :
    (Tx.commit (meter m) b).calls = b.calls ∨ (Tx.commit (meter m) b).calls = b.calls ++ [m] := by
  cases hrun : meter m b with
  | error problem =>
    rw [Tx.commit_of_error hrun]
    exact .inl rfl
  | ok r =>
    rw [Tx.commit_of_ok hrun]
    exact (meter_calls h hrun).2

/-- What is on the ledger was there before or is one of these calls. -/
theorem meterAll_mem {b : MeterBook} (h : Counts b) (calls : List Metering) :
    ∀ m ∈ (meterAll b calls).calls, m ∈ b.calls ∨ m ∈ calls := by
  induction calls generalizing b with
  | nil => exact fun m hm => .inl hm
  | cons c calls ih =>
    intro m hm
    rcases ih (meterAll_counts h [c]) m hm with hm | hm
    · rcases commit_meter_calls h c with hcalls | hcalls
      · exact .inl (hcalls ▸ hm)
      · rcases List.mem_append.mp (hcalls ▸ hm) with hm | hm
        · exact .inl hm
        · rw [List.mem_singleton.mp hm]
          exact .inr (List.mem_cons_self ..)
    · exact .inr (List.mem_cons_of_mem _ hm)

/-- A call stays on the ledger. -/
theorem meterAll_keeps {b : MeterBook} (h : Counts b) (calls : List Metering) :
    ∀ m ∈ b.calls, m ∈ (meterAll b calls).calls := by
  induction calls generalizing b with
  | nil => exact fun m hm => hm
  | cons c calls ih =>
    intro m hm
    refine ih (meterAll_counts h [c]) m ?_
    rcases commit_meter_calls h c with hcalls | hcalls
    · exact hcalls ▸ hm
    · exact hcalls ▸ List.mem_append_left _ hm

/-- No order loses a call. -/
theorem meterAll_metered {b : MeterBook} (h : Counts b) (calls : List Metering) :
    ∀ m ∈ calls, 0 ≤ m.billed → m.callId ∈ (meterAll b calls).calls.map Metering.callId := by
  induction calls generalizing b with
  | nil => simp
  | cons c calls ih =>
    intro m hm hbilled
    rcases List.mem_cons.mp hm with rfl | hm
    · obtain ⟨told, b', hrun⟩ := meter_total h hbilled
      have hcommit : meterAll b [m] = b' := Tx.commit_of_ok hrun
      obtain ⟨m', hmem, hid⟩ := List.mem_map.mp (meter_calls h hrun).1
      have hkept := meterAll_keeps (meterAll_counts h [m]) calls m' (hcommit ▸ hmem)
      exact List.mem_map.mpr ⟨m', hkept, hid⟩
    · exact ih (meterAll_counts h [c]) m hm hbilled

/-- **The counters are the month's sums, in any order of settlement.** Whatever calls are
metered, and however often again: each of them is on the ledger once, the row counts the latest
month's calls and its flag is the over-cap test on these sums; one more run counts one more
call or, of a closed month, none, and announces the totals without it and with it. -/
theorem spend_counters_are_month_sums (plans : List PlanRow) (calls : List Metering) :
    let b := meterAll { book := { plans } } calls
    Counts b ∧ (∀ m ∈ b.calls, m ∈ calls) ∧
      (∀ m ∈ calls, 0 ≤ m.billed → m.callId ∈ b.calls.map Metering.callId) ∧
      ∀ m told b', meter m b = .ok (told, b') → Counts b' ∧ Metered b m told b' := by
  intro b
  have hempty := counts_empty plans
  have hcounts : Counts b := meterAll_counts hempty calls
  refine ⟨hcounts, fun m hm => ?_, meterAll_metered hempty calls, fun m told b' hrun =>
    meter_spec hcounts hrun⟩
  exact (meterAll_mem hempty calls m hm).resolve_left List.not_mem_nil

end Billing

end Calevate
