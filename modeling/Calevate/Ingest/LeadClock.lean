import Calevate.Lib.IndianTime
import Mathlib.Data.List.Sort

/-!
# The calling clock of new leads

A client's plan says on which days and at which hours its new leads are called, with the holidays
left out. The next opening is looked for 399 days ahead. A plan that was saved may be closed for
longer: with one day a week and a holiday on each of them, sixty holidays are more than a year.
What is answered is right exactly where the opening is within the search, or never comes,
`leadClock_iff`.
-/

namespace Calevate.Ingest

open Lib.Calendar (second minute hour day)
open Lib.IndianTime (clockEnd wallClock instant)

/-! ## Plans -/

/-- `WEEKDAYS`. -/
def weekdays : List String := ["mon", "tue", "wed", "thu", "fri", "sat", "sun"]

/-- `AFTER_HOURS_CHOICES`. -/
def afterHoursChoices : List String := ["next_open", "open_plus_3h", "next_day", "hold"]

/-- `LeadCallPlan`: clocks in microseconds of the day, holidays by the number of the day. -/
structure LeadCallPlan where
  waitSeconds : ℤ
  hoursStart : ℕ
  hoursEnd : ℕ
  days : List String
  holidays : List ℕ
  afterHours : String
  retryAttempts : ℤ
  retryIntervalMinutes : ℤ
  deriving DecidableEq

/-- A refusal of a plan. -/
structure PlanRefusal where
  code : String
  detail : String
  field : String
  deriving DecidableEq

/-- `DEFAULT_WINDOW`. -/
def defaultWindow : ℕ × ℕ := (9 * hour, 21 * hour)

def retryMax : ℤ := 3

/-- **`validated`**: the plan as it is stored. -/
def validated (plan : LeadCallPlan) : Except PlanRefusal LeadCallPlan :=
  let days := weekdays.filter (· ∈ plan.days)
  if ¬(defaultWindow.1 ≤ plan.hoursStart ∧ plan.hoursStart < plan.hoursEnd ∧
      plan.hoursEnd ≤ defaultWindow.2) then
    .error ⟨"lead_hours_outside_window",
      "Calling hours must start before they end, inside 9 AM to 9 PM.", "hours_start"⟩
  else if days = [] ∨ days.length ≠ plan.days.dedup.length then
    .error ⟨"lead_days_invalid", "Choose at least one calling day.", "days"⟩
  else if 60 < plan.holidays.length then
    .error ⟨"lead_holidays_too_many", "Add at most 60 holidays.", "holidays"⟩
  else if plan.afterHours ∉ afterHoursChoices then
    .error ⟨"lead_after_hours_invalid", "Choose what happens after hours.", "after_hours"⟩
  else if ¬(0 ≤ plan.waitSeconds ∧ plan.waitSeconds ≤ 3600) then
    .error ⟨"lead_wait_invalid", "Wait between 0 seconds and one hour.", "wait_seconds"⟩
  else if ¬(0 ≤ plan.retryAttempts ∧ plan.retryAttempts ≤ retryMax) then
    .error ⟨"lead_retries_invalid", "Retry at most 3 times.", "retry_attempts"⟩
  else if ¬(10 ≤ plan.retryIntervalMinutes ∧ plan.retryIntervalMinutes ≤ 1440) then
    .error ⟨"lead_retry_interval_invalid",
      "Wait between 10 minutes and 24 hours before a retry.", "retry_interval_minutes"⟩
  else .ok { plan with days, holidays := plan.holidays.dedup.insertionSort (· ≤ ·) }

/-! ## The clock -/

/-- The first day past `date.max`. -/
def clockDays : ℕ := 3652059

/-- `_ist`, or the `OverflowError` at the end of the calendar. -/
def ist (moment : ℕ) : Option ℕ :=
  if wallClock moment < clockEnd then some (wallClock moment) else none

/-- `moment + delta`, or the `OverflowError`. -/
def plus (moment delta : ℕ) : Option ℕ :=
  if moment + delta < clockEnd then some (moment + delta) else none

/-- `_open_day`; the first day of the calendar is a Monday. -/
def openDay (plan : LeadCallPlan) (n : ℕ) : Bool :=
  (weekdays.getD (n % 7) "") ∈ plan.days ∧ n ∉ plan.holidays

/-- Whether the plan allows a wall clock. -/
def openWall (plan : LeadCallPlan) (wall : ℕ) : Bool :=
  openDay plan (wall / day) ∧ plan.hoursStart ≤ wall % day ∧ wall % day < plan.hoursEnd

/-- `is_open`. -/
def isOpen (plan : LeadCallPlan) (moment : ℕ) : Option Bool := (ist moment).map (openWall plan)

/-- `_utc(day, hours_start)`. -/
def opensAt (plan : LeadCallPlan) (n : ℕ) : ℕ := instant (n * day + plan.hoursStart)

/-- The loop over the days ahead: so many of them, from this one on. -/
def searchDays (plan : LeadCallPlan) (n : ℕ) : ℕ → ℕ → Option (Option ℕ)
  | 0, _ => some none
  | turns + 1, offset =>
    if clockDays ≤ n + offset then none
    else if openDay plan (n + offset) then some (some (opensAt plan (n + offset)))
    else searchDays plan n turns (offset + 1)

/-- `_SEARCH_DAYS`. -/
def searchLimit : ℕ := 400

/-- **`next_opening`**. -/
def nextOpening (plan : LeadCallPlan) (moment : ℕ) : Option (Option ℕ) := do
  let wall ← ist moment
  if openWall plan wall then return some moment
  if wall % day < plan.hoursStart ∧ openDay plan (wall / day) then
    return some (opensAt plan (wall / day))
  searchDays plan (wall / day) (searchLimit - 1) 1

/-- `next_day_opening`. -/
def nextDayOpening (plan : LeadCallPlan) (moment : ℕ) : Option (Option ℕ) := do
  let wall ← ist moment
  searchDays plan (wall / day) (searchLimit - 1) 1

inductive TimingKind
  | now
  | later
  | hold
  deriving DecidableEq

/-- `Timing`. -/
structure Timing where
  kind : TimingKind
  callAt : Option ℕ
  reason : Option String
  deriving DecidableEq

/-- `OPEN_PLUS`. -/
def openPlus : ℕ := 3 * hour

/-- `None if opening is None else next_opening(plan, opening + OPEN_PLUS)`. -/
def openPlusAt (plan : LeadCallPlan) : Option ℕ → Option (Option ℕ)
  | none => some none
  | some opening => (plus opening openPlus).bind (nextOpening plan)

/-- What `at` comes to, for a lead that is after hours. -/
def afterHoursAt (plan : LeadCallPlan) (candidate : ℕ) : Option (Option ℕ) :=
  if plan.afterHours = "next_day" then nextDayOpening plan candidate
  else if plan.afterHours = "open_plus_3h" then
    (nextOpening plan candidate).bind (openPlusAt plan)
  else nextOpening plan candidate

/-- The answer with it. -/
def timingOf : Option ℕ → Timing
  | none => ⟨.hold, none, some "closed"⟩
  | some t => ⟨.later, some t, some "after_hours"⟩

/-- **`when_to_call`**. -/
def whenToCall (plan : LeadCallPlan) (now : ℕ) : Option Timing := do
  let candidate ← plus now (plan.waitSeconds.toNat * second)
  if ← isOpen plan candidate then
    if plan.waitSeconds = 0 then return ⟨.now, none, none⟩
    return ⟨.later, some candidate, some "wait"⟩
  if plan.afterHours = "hold" then return ⟨.hold, none, some "after_hours"⟩
  return timingOf (← afterHoursAt plan candidate)

/-! ## What an answer should be -/

/-- The plan is open at an instant. -/
def OpenAt (plan : LeadCallPlan) (t : ℕ) : Prop := isOpen plan t = some true

/-- The plan does not open from an instant on. -/
def NeverOpens (plan : LeadCallPlan) (t : ℕ) : Prop := ∀ u, t ≤ u → ¬OpenAt plan u

/-- **The next opening is the least instant that is open**, and there is none only if the plan
does not open again. -/
def OpeningRight (plan : LeadCallPlan) (moment : ℕ) : Prop :=
  ∃ answer, nextOpening plan moment = some answer ∧
    (∀ t ∈ answer, OpenAt plan t ∧ moment ≤ t ∧ ∀ u, moment ≤ u → OpenAt plan u → t ≤ u) ∧
    (answer = none → NeverOpens plan moment)

/-- **A lead is called when the plan allows it.** -/
def TimingRight (plan : LeadCallPlan) (now : ℕ) : Prop :=
  ∃ timing, whenToCall plan now = some timing ∧
    (timing.kind = .now → OpenAt plan now) ∧
    (∀ t ∈ timing.callAt, OpenAt plan t ∧ defaultWindow.1 ≤ wallClock t % day ∧
      wallClock t % day < defaultWindow.2 ∧ now + plan.waitSeconds.toNat * second ≤ t) ∧
    (timing.reason = some "closed" →
      NeverOpens plan (now + plan.waitSeconds.toNat * second))

/-! ## When it is -/

/-- The first open day past a day, found by the search. -/
structure LaterOpen (plan : LeadCallPlan) (n m : ℕ) : Prop where
  later : n < m
  near : m < n + searchLimit
  dated : m < clockDays
  isOpen : openDay plan m = true
  first : ∀ j, n < j → j < m → openDay plan j = false

/-- No later day is open, and the search does not run off the calendar. -/
structure Ended (plan : LeadCallPlan) (n : ℕ) : Prop where
  closed : ∀ m, n < m → m < clockDays → openDay plan m = false
  dated : n + searchLimit ≤ clockDays

/-- The plan opens later on the day of a wall clock. -/
def OpensToday (plan : LeadCallPlan) (wall : ℕ) : Prop :=
  wall % day < plan.hoursStart ∧ openDay plan (wall / day) = true

/-- The day of the next opening behind a wall clock. -/
def NextDay (plan : LeadCallPlan) (wall m : ℕ) : Prop :=
  OpensToday plan wall ∧ m = wall / day ∨ ¬OpensToday plan wall ∧ LaterOpen plan (wall / day) m

/-- The plan does not open behind a wall clock, nor does the search run off the calendar. -/
def Over (plan : LeadCallPlan) (wall : ℕ) : Prop :=
  ¬OpensToday plan wall ∧ Ended plan (wall / day)

/-- **The next opening is within the search, or the plan has ended.** -/
def OpeningSeen (plan : LeadCallPlan) (wall : ℕ) : Prop :=
  openWall plan wall = true ∨ (∃ m, NextDay plan wall m) ∨ Over plan wall

/-- The same of what a lead waits for after hours. -/
def TimingSeen (plan : LeadCallPlan) (wall : ℕ) : Prop :=
  if openWall plan wall = true ∨ plan.afterHours = "hold" then True
  else if plan.afterHours = "next_day" then
    (∃ m, LaterOpen plan (wall / day) m) ∨ Over plan wall
  else if plan.afterHours = "open_plus_3h" then
    (∃ m, NextDay plan wall m ∧
      (plan.hoursStart + openPlus < plan.hoursEnd ∨ ∃ k, LaterOpen plan m k)) ∨ Over plan wall
  else OpeningSeen plan wall

/-! ## The search -/

/-- What the search of a day comes to. -/
inductive Search (plan : LeadCallPlan) (n : ℕ) : Option (Option ℕ) → Prop
  /-- A day is open. -/
  | found (m : ℕ) : LaterOpen plan n m → Search plan n (some (some (opensAt plan m)))
  /-- None of the days is. -/
  | closed : (∀ m, ¬LaterOpen plan n m) → n + searchLimit ≤ clockDays → Search plan n (some none)
  /-- The calendar ends first. -/
  | off : (∀ m, ¬LaterOpen plan n m) → clockDays < n + searchLimit → Search plan n none

/-- Nothing is found where nothing is open before the search or the calendar ends. -/
theorem not_laterOpen {plan : LeadCallPlan} {n k : ℕ} (hk : n + searchLimit ≤ k ∨ clockDays ≤ k)
    (hnone : ∀ j, n < j → j < k → openDay plan j = false) (m : ℕ) : ¬LaterOpen plan n m := by
  intro hm
  have hfar : m < k := by
    have := hm.near
    have := hm.dated
    omega
  have := hnone m hm.later hfar
  rw [hm.isOpen] at this
  cases this

/-- The loop, from a day on that no open one is before. -/
theorem searchDays_spec (plan : LeadCallPlan) (n : ℕ) : ∀ turns offset, 0 < offset →
    offset + turns = searchLimit → n + offset ≤ clockDays →
    (∀ j, n < j → j < n + offset → openDay plan j = false) →
    Search plan n (searchDays plan n turns offset)
  | 0, offset, _, hlimit, hdated, hclosed => by
    exact .closed (not_laterOpen (.inl (by omega)) hclosed) (by omega)
  | turns + 1, offset, hpos, hlimit, hdated, hclosed => by
    rw [searchDays]
    by_cases hend : clockDays ≤ n + offset
    · rw [if_pos hend]
      exact .off (not_laterOpen (.inr hend) hclosed) (by omega)
    · rw [if_neg hend]
      by_cases hopen : openDay plan (n + offset) = true
      · rw [if_pos hopen]
        exact .found _ ⟨by omega, by omega, by omega, hopen, hclosed⟩
      · rw [if_neg hopen]
        refine searchDays_spec plan n turns (offset + 1) (by omega) (by omega) (by omega)
          fun j hj hlt => ?_
        rcases Nat.lt_or_eq_of_le (show j ≤ n + offset by omega) with h | h
        · exact hclosed j hj h
        · rw [h]
          exact Bool.eq_false_iff.mpr hopen

/-- **The search finds the first open day of those it looks at.** -/
theorem search (plan : LeadCallPlan) {n : ℕ} (hn : n < clockDays) :
    Search plan n (searchDays plan n (searchLimit - 1) 1) :=
  searchDays_spec plan n _ _ Nat.one_pos rfl hn fun j h h' => by omega

/-- A day found is the only one. -/
theorem LaterOpen.unique {plan : LeadCallPlan} {n m k : ℕ} (h : LaterOpen plan n m)
    (h' : LaterOpen plan n k) : m = k := by
  rcases Nat.lt_trichotomy m k with hlt | heq | hgt
  · have := h'.first m h.later hlt
    rw [h.isOpen] at this
    cases this
  · exact heq
  · have := h.first k h'.later hgt
    rw [h'.isOpen] at this
    cases this

/-- So is the day of the next opening. -/
theorem NextDay.unique {plan : LeadCallPlan} {wall m k : ℕ} (h : NextDay plan wall m)
    (h' : NextDay plan wall k) : m = k := by
  rcases h with ⟨ht, rfl⟩ | ⟨hn, hm⟩ <;> rcases h' with ⟨ht', rfl⟩ | ⟨hn', hk⟩
  · rfl
  · exact absurd ht hn'
  · exact absurd ht' hn
  · exact hm.unique hk

/-! ## The clock of a plan -/

/-- The hours of a plan that is stored are within the day's window. -/
structure Fits (plan : LeadCallPlan) : Prop where
  start : 9 * hour ≤ plan.hoursStart
  order : plan.hoursStart < plan.hoursEnd
  stop : plan.hoursEnd ≤ 21 * hour

/-- A plan is stored only so. -/
theorem fits_of_validated {plan p : LeadCallPlan} (h : validated plan = .ok p) : Fits p := by
  rw [validated] at h
  by_cases hhours : defaultWindow.1 ≤ plan.hoursStart ∧ plan.hoursStart < plan.hoursEnd ∧
      plan.hoursEnd ≤ defaultWindow.2
  · rw [if_neg (not_not.mpr hhours)] at h
    -- none of the other checks writes the hours
    repeat' split at h
    all_goals cases h
    exact ⟨hhours.1, hhours.2.1, hhours.2.2⟩
  · rw [if_pos hhours] at h
    cases h

variable {p : LeadCallPlan} {t u : ℕ}

theorem openAt_iff : OpenAt p t ↔ wallClock t < clockEnd ∧ openWall p (wallClock t) = true := by
  rw [OpenAt, isOpen, ist]
  by_cases h : wallClock t < clockEnd
  · simp [h]
  · simp [h]

theorem openWall_iff {wall : ℕ} : openWall p wall = true ↔ openDay p (wall / day) = true ∧
    p.hoursStart ≤ wall % day ∧ wall % day < p.hoursEnd := by
  simp [openWall]

/-- A wall clock is its day and its time of the day. -/
theorem wall_eq (wall : ℕ) : wall / day * day + wall % day = wall := by
  rw [Nat.mul_comm]
  exact Nat.div_add_mod wall day

theorem day_eq : day = 24 * hour := rfl

/-- A time of a day is before the next. -/
theorem day_div (n : ℕ) {clock : ℕ} (hc : clock < day) : (n * day + clock) / day = n := by
  rw [Nat.mul_comm, Nat.mul_add_div (by decide), Nat.div_eq_of_lt hc, Nat.add_zero]

/-- The time of the day of it. -/
theorem day_mod (n : ℕ) {clock : ℕ} (hc : clock < day) : (n * day + clock) % day = clock := by
  rw [Nat.mul_comm, Nat.mul_add_mod, Nat.mod_eq_of_lt hc]

theorem clockEnd_eq : clockEnd = clockDays * day := rfl

/-- Nothing before the end of the calendar is on a day past it. -/
theorem wallDay_lt (h : wallClock t < clockEnd) : wallClock t / day < clockDays := by
  rw [clockEnd_eq, Nat.mul_comm] at h
  exact Nat.div_lt_of_lt_mul h

/-- Days never go back. -/
theorem wallDay_mono (h : t ≤ u) : wallClock t / day ≤ wallClock u / day := by
  have hreg : Lib.IndianTime.Regular 0 := .inl rfl
  have hle := Lib.IndianTime.le_wallClock_of_le hreg (n := wallClock t / day)
    (by rw [Nat.add_zero]; exact Nat.div_mul_le_self _ _) h
  rw [Nat.add_zero] at hle
  exact (Nat.le_div_iff_mul_le (by decide)).mpr hle

namespace Fits

variable (h : Fits p)
include h

theorem regular_start : Lib.IndianTime.Regular p.hoursStart := by
  have := h.start; have := h.order; have := h.stop
  exact .inr ⟨by omega, by omega⟩

theorem regular_end : Lib.IndianTime.Regular p.hoursEnd := by
  have := h.start; have := h.order; have := h.stop
  exact .inr ⟨by omega, by omega⟩

/-- The opening of a day shows its own clock. -/
theorem wallClock_opensAt (n : ℕ) : wallClock (opensAt p n) = n * day + p.hoursStart := by
  have := h.start; have := h.order; have := h.stop
  exact Lib.IndianTime.wallClock_instant ⟨by omega, by omega⟩ (by omega)

theorem start_lt : p.hoursStart < day := by
  have := h.order; have := h.stop; have := day_eq
  omega

theorem opensAt_div (n : ℕ) : wallClock (opensAt p n) / day = n := by
  rw [h.wallClock_opensAt, day_div n h.start_lt]

theorem opensAt_mod (n : ℕ) : wallClock (opensAt p n) % day = p.hoursStart := by
  rw [h.wallClock_opensAt, day_mod n h.start_lt]

/-- **An opening is open.** -/
theorem openAt_opensAt {n : ℕ} (hn : n < clockDays) (ho : openDay p n = true) :
    OpenAt p (opensAt p n) := by
  refine openAt_iff.mpr ⟨?_, openWall_iff.mpr ?_⟩
  · have hlt := h.start_lt
    have hle : (n + 1) * day ≤ clockDays * day := Nat.mul_le_mul_right day hn
    rw [h.wallClock_opensAt, clockEnd_eq]
    rw [Nat.succ_mul] at hle
    omega
  · rw [h.opensAt_div, h.opensAt_mod]
    exact ⟨ho, le_refl _, h.order⟩

/-- It is the first open instant of its day and of the days past it. -/
theorem opensAt_le {n : ℕ} (hu : OpenAt p u) (hn : n ≤ wallClock u / day) : opensAt p n ≤ u := by
  have hwall := openWall_iff.mp (openAt_iff.mp hu).2
  have hle := Nat.mul_le_mul_right day hn
  refine (Lib.IndianTime.le_wallClock_iff h.regular_start n u).mp ?_
  have := wall_eq (wallClock u)
  omega

/-- It is past every instant that shows an earlier clock. -/
theorem le_opensAt {n : ℕ} (ht : wallClock t < n * day + p.hoursStart) : t ≤ opensAt p n := by
  by_contra hlt
  have := (Lib.IndianTime.le_wallClock_iff h.regular_start n t).mpr (by
    show opensAt p n ≤ t
    omega)
  omega

/-- So are the openings of later days. -/
theorem le_opensAt_later {n : ℕ} (hn : wallClock t / day < n) : t ≤ opensAt p n := by
  refine h.le_opensAt (Nat.lt_of_lt_of_le ?_ (Nat.le_add_right _ _))
  exact (Nat.div_lt_iff_lt_mul (by decide)).mp hn

/-- What is open past an instant that is not, is so later the same day or on a later day. -/
theorem open_later (hopen : ¬openWall p (wallClock t) = true) (htu : t ≤ u) (hu : OpenAt p u) :
    OpensToday p (wallClock t) ∧ wallClock u / day = wallClock t / day ∨
      wallClock t / day < wallClock u / day := by
  rcases Nat.lt_or_eq_of_le (wallDay_mono htu) with hlt | heq
  · exact .inr hlt
  have hwall := openWall_iff.mp (openAt_iff.mp hu).2
  rw [← heq] at hwall
  refine .inl ⟨⟨?_, hwall.1⟩, heq.symm⟩
  by_contra hstart
  -- otherwise the day's hours are over, and stay so
  have hend : p.hoursEnd ≤ wallClock t % day := by
    by_contra hlt
    exact hopen (openWall_iff.mpr ⟨hwall.1, by omega, by omega⟩)
  have hpast := Lib.IndianTime.le_wallClock_of_le h.regular_end (n := wallClock t / day)
    (by have := wall_eq (wallClock t); omega) htu
  have hu' := wall_eq (wallClock u)
  rw [← heq] at hu'
  omega

/-- **The opening of the next day is the least open instant.** -/
theorem opensAt_least (hwall : wallClock t < clockEnd) (hopen : ¬openWall p (wallClock t) = true)
    {m : ℕ} (hm : NextDay p (wallClock t) m) :
    OpenAt p (opensAt p m) ∧ t ≤ opensAt p m ∧ ∀ u, t ≤ u → OpenAt p u → opensAt p m ≤ u := by
  rcases hm with ⟨htoday, rfl⟩ | ⟨hnot, hm⟩
  · refine ⟨h.openAt_opensAt (wallDay_lt hwall) htoday.2, h.le_opensAt ?_, fun u htu hu => ?_⟩
    · have heq := wall_eq (wallClock t)
      have := htoday.1
      omega
    · exact h.opensAt_le hu (wallDay_mono htu)
  · have hpast := h.le_opensAt_later hm.later
    refine ⟨h.openAt_opensAt hm.dated hm.isOpen, hpast, fun u htu hu => ?_⟩
    rcases h.open_later hopen htu hu with ⟨hyes, _⟩ | hlt
    · exact absurd hyes hnot
    · refine h.opensAt_le hu ?_
      by_contra hle
      have := hm.first _ hlt (by omega)
      rw [(openWall_iff.mp (openAt_iff.mp hu).2).1] at this
      cases this

/-- **A plan never opens again** if it neither opens later the same day nor on a later one. -/
theorem neverOpens_iff (hwall : wallClock t < clockEnd)
    (hopen : ¬openWall p (wallClock t) = true) : NeverOpens p t ↔
    ¬OpensToday p (wallClock t) ∧
      ∀ m, wallClock t / day < m → m < clockDays → openDay p m = false := by
  constructor
  · intro hnever
    constructor
    · intro htoday
      have hopens := h.opensAt_least hwall hopen (.inl ⟨htoday, rfl⟩)
      exact hnever _ hopens.2.1 hopens.1
    · intro m hm hdated
      by_contra ho
      exact hnever _ (h.le_opensAt_later hm)
        (h.openAt_opensAt hdated (Bool.eq_true_of_not_eq_false ho))
  · rintro ⟨htoday, hlater⟩ u htu hu
    rcases h.open_later hopen htu hu with ⟨hyes, _⟩ | hlt
    · exact htoday hyes
    · have hu' := openAt_iff.mp hu
      have := hlater _ hlt (wallDay_lt hu'.1)
      rw [(openWall_iff.mp hu'.2).1] at this
      cases this

end Fits

/-! ## The next opening -/

/-- What the next opening behind a wall clock that is not open comes to. -/
inductive Opening (p : LeadCallPlan) (wall : ℕ) : Option (Option ℕ) → Prop
  /-- There is one. -/
  | found (m : ℕ) : NextDay p wall m → Opening p wall (some (some (opensAt p m)))
  /-- No day within the search is open. -/
  | closed : (∀ m, ¬NextDay p wall m) → wall / day + searchLimit ≤ clockDays →
      Opening p wall (some none)
  /-- The calendar ends first. -/
  | off : (∀ m, ¬NextDay p wall m) → clockDays < wall / day + searchLimit → Opening p wall none

theorem not_nextDay {wall : ℕ} (htoday : ¬OpensToday p wall)
    (hnone : ∀ m, ¬LaterOpen p (wall / day) m) (m : ℕ) : ¬NextDay p wall m := by
  rintro (⟨hyes, _⟩ | ⟨_, hm⟩)
  · exact htoday hyes
  · exact hnone m hm

theorem nextOpening_open (hwall : wallClock t < clockEnd)
    (hopen : openWall p (wallClock t) = true) : nextOpening p t = some (some t) := by
  simp [nextOpening, ist, hwall, hopen]

theorem nextDayOpening_eq (hwall : wallClock t < clockEnd) :
    nextDayOpening p t = searchDays p (wallClock t / day) (searchLimit - 1) 1 := by
  simp [nextDayOpening, ist, hwall]

theorem nextOpening_closed (hwall : wallClock t < clockEnd)
    (hopen : ¬openWall p (wallClock t) = true) : Opening p (wallClock t) (nextOpening p t) := by
  by_cases htoday : OpensToday p (wallClock t)
  · have heq : nextOpening p t = some (some (opensAt p (wallClock t / day))) := by
      simp [nextOpening, ist, hwall, hopen, htoday.1, htoday.2]
    rw [heq]
    exact .found _ (.inl ⟨htoday, rfl⟩)
  · have heq : nextOpening p t = searchDays p (wallClock t / day) (searchLimit - 1) 1 := by
      rw [OpensToday] at htoday
      simp only [nextOpening, ist, if_pos hwall, if_neg hopen, if_neg htoday, Option.bind_eq_bind,
        Option.bind_some]
    have hsearch := search p (wallDay_lt hwall)
    rw [← heq] at hsearch
    generalize nextOpening p t = answer at hsearch
    cases hsearch with
    | found m hm => exact .found m (.inr ⟨htoday, hm⟩)
    | closed hnone hdated => exact .closed (not_nextDay htoday hnone) hdated
    | off hnone hend => exact .off (not_nextDay htoday hnone) hend

/-! ## When a lead is called -/

/-- What an answer for after hours should be. -/
def Promised (p : LeadCallPlan) (candidate : ℕ) (answer : Option (Option ℕ)) : Prop :=
  ∃ a, answer = some a ∧ (∀ t ∈ a, OpenAt p t ∧ candidate ≤ t) ∧ (a = none → NeverOpens p candidate)

theorem promised_some : Promised p u (some (some t)) ↔ OpenAt p t ∧ u ≤ t := by
  constructor
  · rintro ⟨_, ⟨⟩, hopen, -⟩
    exact hopen t rfl
  · intro hopen
    refine ⟨_, rfl, ?_, fun hnone => by cases hnone⟩
    rintro _ ⟨⟩
    exact hopen

theorem promised_closed : Promised p u (some none) ↔ NeverOpens p u := by
  constructor
  · rintro ⟨_, ⟨⟩, -, hnever⟩
    exact hnever rfl
  · intro hnever
    exact ⟨_, rfl, fun _ hmem => (by cases hmem), fun _ => hnever⟩

theorem not_promised_off : ¬Promised p u none := fun ⟨_, heq, _⟩ => by cases heq

variable {now : ℕ}

theorem plus_eq {d : ℕ} (h : t + d < clockEnd) : plus t d = some (t + d) := if_pos h

/-- By whether the lead's own time is open. -/
theorem whenToCall_eq {c : ℕ} {b : Bool} (hc : plus now (p.waitSeconds.toNat * second) = some c)
    (hin : isOpen p c = some b) : whenToCall p now =
      if b then
        some (if p.waitSeconds = 0 then ⟨.now, none, none⟩ else ⟨.later, some c, some "wait"⟩)
      else if p.afterHours = "hold" then some ⟨.hold, none, some "after_hours"⟩
      else (afterHoursAt p c).map timingOf := by
  simp only [whenToCall, hc, hin, Option.bind_eq_bind, Option.bind_some, Option.pure_def,
    Option.map_eq_bind]
  split_ifs <;> rfl

/-- What is open is within the day's window. -/
theorem Fits.window (h : Fits p) (ht : OpenAt p t) :
    defaultWindow.1 ≤ wallClock t % day ∧ wallClock t % day < defaultWindow.2 := by
  have hwall := (openWall_iff.mp (openAt_iff.mp ht).2).2
  exact ⟨h.start.trans hwall.1, hwall.2.trans_le h.stop⟩

/-- A lead whose own time is open is called then. -/
theorem timingRight_open (h : Fits p)
    (hc : now + p.waitSeconds.toNat * second < clockEnd)
    (hopen : OpenAt p (now + p.waitSeconds.toNat * second)) : TimingRight p now := by
  refine ⟨_, whenToCall_eq (plus_eq hc) hopen, ?_⟩
  by_cases hwait : p.waitSeconds = 0
  · rw [if_pos hwait]
    refine ⟨fun _ => ?_, fun _ hmem => (by cases hmem), fun hreason => by cases hreason⟩
    rwa [hwait, Int.toNat_zero, Nat.zero_mul, Nat.add_zero] at hopen
  · rw [if_neg hwait]
    refine ⟨fun hkind => (by cases hkind), ?_, fun hreason => ?_⟩
    · rintro _ ⟨⟩
      exact ⟨hopen, (h.window hopen).1, (h.window hopen).2, le_refl _⟩
    · exact absurd (Option.some.inj hreason) (show "wait" ≠ "closed" by decide)

/-- A lead that is after hours is called as it was promised. -/
theorem timingRight_after (h : Fits p) (hc : now + p.waitSeconds.toNat * second < clockEnd)
    (hin : isOpen p (now + p.waitSeconds.toNat * second) = some false)
    (hhold : p.afterHours ≠ "hold") : TimingRight p now ↔
      Promised p (now + p.waitSeconds.toNat * second)
        (afterHoursAt p (now + p.waitSeconds.toNat * second)) := by
  rw [TimingRight, whenToCall_eq (plus_eq hc) hin, if_neg Bool.false_ne_true, if_neg hhold]
  rcases afterHoursAt p (now + p.waitSeconds.toNat * second) with _ | _ | t
  · exact iff_of_false (fun ⟨_, hnone, _⟩ => by cases hnone) not_promised_off
  · rw [promised_closed]
    constructor
    · rintro ⟨_, ⟨⟩, -, -, hclosed⟩
      exact hclosed rfl
    · intro hnever
      exact ⟨_, rfl, fun hkind => (by cases hkind), fun _ hmem => (by cases hmem), fun _ => hnever⟩
  · rw [promised_some]
    constructor
    · rintro ⟨_, ⟨⟩, -, hlater, -⟩
      exact ⟨(hlater t rfl).1, (hlater t rfl).2.2.2⟩
    · rintro ⟨hopen, hle⟩
      refine ⟨_, rfl, fun hkind => (by cases hkind), ?_, fun hreason => ?_⟩
      · rintro _ ⟨⟩
        exact ⟨hopen, (h.window hopen).1, (h.window hopen).2, hle⟩
      · exact absurd (Option.some.inj hreason) (show "after_hours" ≠ "closed" by decide)

section

variable (h : Fits p) (hwall : wallClock t < clockEnd) (hopen : ¬openWall p (wallClock t) = true)
include h hwall hopen

/-- Where nothing is found within the search, the answer is right if the plan has ended. -/
theorem neverOpens_iff_over (hdated : wallClock t / day + searchLimit ≤ clockDays) :
    NeverOpens p t ↔ Over p (wallClock t) := by
  rw [h.neverOpens_iff hwall hopen]
  exact ⟨fun hnot => ⟨hnot.1, hnot.2, hdated⟩, fun hover => ⟨hover.1, hover.2.closed⟩⟩

/-- The next opening. -/
theorem promised_next : Promised p t (nextOpening p t) ↔ OpeningSeen p (wallClock t) := by
  have hanswer := nextOpening_closed hwall hopen
  rw [OpeningSeen, or_iff_right hopen]
  generalize nextOpening p t = answer at hanswer ⊢
  cases hanswer with
  | found m hm =>
    have hleast := h.opensAt_least hwall hopen hm
    exact iff_of_true (promised_some.mpr ⟨hleast.1, hleast.2.1⟩) (.inl ⟨m, hm⟩)
  | closed hnone hdated =>
    rw [promised_closed, neverOpens_iff_over h hwall hopen hdated, or_iff_right]
    exact not_exists.mpr hnone
  | off hnone hend =>
    refine iff_of_false not_promised_off (not_or.mpr ⟨not_exists.mpr hnone, fun hover => ?_⟩)
    exact absurd hover.2.dated (by omega)

/-- The opening of a later day. -/
theorem promised_nextDay : Promised p t (nextDayOpening p t) ↔
    (∃ m, LaterOpen p (wallClock t / day) m) ∨ Over p (wallClock t) := by
  have hsearch := search p (wallDay_lt hwall)
  rw [nextDayOpening_eq hwall]
  generalize searchDays p _ _ _ = answer at hsearch ⊢
  cases hsearch with
  | found m hm =>
    have hopens := h.openAt_opensAt hm.dated hm.isOpen
    exact iff_of_true (promised_some.mpr ⟨hopens, h.le_opensAt_later hm.later⟩) (.inl ⟨m, hm⟩)
  | closed hnone hdated =>
    rw [promised_closed, neverOpens_iff_over h hwall hopen hdated, or_iff_right]
    exact not_exists.mpr hnone
  | off hnone hend =>
    refine iff_of_false not_promised_off (not_or.mpr ⟨not_exists.mpr hnone, fun hover => ?_⟩)
    exact absurd hover.2.dated (by omega)

/-- Three hours past an opening. -/
theorem promised_openPlus {m : ℕ} (hm : NextDay p (wallClock t) m) :
    Promised p t (openPlusAt p (some (opensAt p m))) ↔
      p.hoursStart + openPlus < p.hoursEnd ∨ ∃ k, LaterOpen p m k := by
  have hleast := h.opensAt_least hwall hopen hm
  have hfirst := (openAt_iff.mp hleast.1).1
  have hopenDay : openDay p m = true := by
    have := (openWall_iff.mp (openAt_iff.mp hleast.1).2).1
    rwa [h.opensAt_div] at this
  have hdated : m < clockDays := by
    have := wallDay_lt hfirst
    rwa [h.opensAt_div] at this
  have hclock : p.hoursStart + openPlus < day := by
    have := h.order; have := h.stop; have := day_eq
    show p.hoursStart + 3 * hour < day
    omega
  -- no change of the zone falls between an opening and three hours past it
  have hwall' : wallClock (opensAt p m + openPlus) = m * day + (p.hoursStart + openPlus) := by
    have := h.start
    rw [← Nat.add_assoc]
    exact Lib.IndianTime.wallClock_instant_add (by omega) hclock (by omega)
  have hbefore : m * day + (p.hoursStart + openPlus) < clockEnd := by
    have hle := Nat.mul_le_mul_right day hdated
    rw [Nat.succ_mul] at hle
    rw [clockEnd_eq]
    omega
  have hplus : plus (opensAt p m) openPlus = some (opensAt p m + openPlus) := by
    refine plus_eq (Nat.lt_of_le_of_lt ?_ hbefore)
    rw [← hwall']
    exact Nat.le_add_right _ _
  rw [openPlusAt, hplus, Option.bind_some]
  have hdiv := day_div m hclock
  have hmod := day_mod m hclock
  have hend : wallClock (opensAt p m + openPlus) < clockEnd := by rwa [hwall']
  by_cases hstill : p.hoursStart + openPlus < p.hoursEnd
  · have hopen' : openWall p (wallClock (opensAt p m + openPlus)) = true := by
      rw [hwall', openWall_iff, hdiv, hmod]
      exact ⟨hopenDay, Nat.le_add_right _ _, hstill⟩
    rw [nextOpening_open hend hopen']
    exact iff_of_true (promised_some.mpr ⟨openAt_iff.mpr ⟨hend, hopen'⟩, by omega⟩) (.inl hstill)
  · have hopen' : ¬openWall p (wallClock (opensAt p m + openPlus)) = true := by
      rw [hwall', openWall_iff, hdiv, hmod]
      exact fun hyes => hstill hyes.2.2
    have htoday : ¬OpensToday p (wallClock (opensAt p m + openPlus)) := by
      rw [OpensToday, hwall', hmod]
      omega
    have hanswer := nextOpening_closed hend hopen'
    have hday : wallClock (opensAt p m + openPlus) / day = m := by rw [hwall', hdiv]
    have hlater {k : ℕ} (hk : LaterOpen p m k) :
        NextDay p (wallClock (opensAt p m + openPlus)) k := .inr ⟨htoday, hday.symm ▸ hk⟩
    rw [or_iff_right hstill]
    generalize nextOpening p (opensAt p m + openPlus) = answer at hanswer ⊢
    cases hanswer with
    | found k hk =>
      have hleast' := h.opensAt_least hend hopen' hk
      rcases hk with ⟨hyes, _⟩ | ⟨_, hk⟩
      · exact absurd hyes htoday
      · rw [hday] at hk
        refine iff_of_true (promised_some.mpr ⟨hleast'.1, ?_⟩) ⟨k, hk⟩
        exact hleast.2.1.trans ((Nat.le_add_right _ _).trans hleast'.2.1)
    | closed hnone _ =>
      refine iff_of_false (fun hnever => ?_) fun ⟨k, hk⟩ => hnone k (hlater hk)
      exact promised_closed.mp hnever _ hleast.2.1 hleast.1
    | off hnone _ => exact iff_of_false not_promised_off fun ⟨k, hk⟩ => hnone k (hlater hk)

/-- What a lead waits for after hours. -/
theorem promised_afterHours (hhold : p.afterHours ≠ "hold") :
    Promised p t (afterHoursAt p t) ↔ TimingSeen p (wallClock t) := by
  rw [TimingSeen, if_neg (not_or.mpr ⟨hopen, hhold⟩), afterHoursAt]
  by_cases hday : p.afterHours = "next_day"
  · rw [if_pos hday, if_pos hday]
    exact promised_nextDay h hwall hopen
  rw [if_neg hday, if_neg hday]
  by_cases hplus : p.afterHours = "open_plus_3h"
  swap
  · rw [if_neg hplus, if_neg hplus]
    exact promised_next h hwall hopen
  rw [if_pos hplus, if_pos hplus]
  have hanswer := nextOpening_closed hwall hopen
  generalize nextOpening p t = answer at hanswer ⊢
  cases hanswer with
  | found m hm =>
    rw [Option.bind_some]
    refine (promised_openPlus h hwall hopen hm).trans ⟨fun hseen => .inl ⟨m, hm, hseen⟩, ?_⟩
    rintro (⟨k, hk, hseen⟩ | hover)
    · rwa [hm.unique hk]
    · exact absurd hm (not_nextDay hover.1 (not_laterOpen (.inr le_rfl) hover.2.closed) m)
  | closed hnone hdated =>
    rw [Option.bind_some]
    exact promised_closed.trans ((neverOpens_iff_over h hwall hopen hdated).trans
      (or_iff_right fun ⟨m, hm, _⟩ => hnone m hm).symm)
  | off hnone hend =>
    refine iff_of_false not_promised_off ?_
    rintro (⟨m, hm, -⟩ | hover)
    · exact hnone m hm
    · exact absurd hover.2.dated (by omega)

end

/-- **When the next opening is answered right.** -/
theorem openingRight_iff (h : Fits p) : OpeningRight p t ↔
    wallClock t < clockEnd ∧ OpeningSeen p (wallClock t) := by
  by_cases hwall : wallClock t < clockEnd
  swap
  · have hnone : nextOpening p t = none := by simp [nextOpening, ist, hwall]
    simp [OpeningRight, hnone, hwall]
  by_cases hopen : openWall p (wallClock t) = true
  · simp only [OpeningRight, nextOpening_open hwall hopen, OpeningSeen, hopen, hwall, true_or,
      and_self, iff_true]
    refine ⟨_, rfl, ?_, fun hnone => by cases hnone⟩
    rintro _ ⟨⟩
    exact ⟨openAt_iff.mpr ⟨hwall, hopen⟩, le_refl _, fun u hu _ => hu⟩
  rw [and_iff_right hwall, ← promised_next h hwall hopen]
  constructor
  · rintro ⟨answer, heq, hleast, hnever⟩
    exact ⟨answer, heq, fun u hu => ⟨(hleast u hu).1, (hleast u hu).2.1⟩, hnever⟩
  · rintro ⟨answer, heq, -, hnever⟩
    refine ⟨answer, heq, fun u hu => ?_, hnever⟩
    -- what is found is the opening of the next day
    have hanswer := nextOpening_closed hwall hopen
    rw [heq, Option.mem_def.mp hu] at hanswer
    cases hanswer with
    | found m hm => exact h.opensAt_least hwall hopen hm

/-- **When a lead is timed right.** -/
theorem timingRight_iff (h : Fits p) : TimingRight p now ↔
    now + p.waitSeconds.toNat * second < clockEnd ∧
      wallClock (now + p.waitSeconds.toNat * second) < clockEnd ∧
      TimingSeen p (wallClock (now + p.waitSeconds.toNat * second)) := by
  by_cases hc : now + p.waitSeconds.toNat * second < clockEnd
  swap
  · refine iff_of_false ?_ fun hright => hc hright.1
    rintro ⟨_, heq, -⟩
    rw [whenToCall, plus, if_neg hc] at heq
    cases heq
  have hplus := plus_eq hc
  rw [and_iff_right hc]
  generalize hcandidate : now + p.waitSeconds.toNat * second = c at hc hplus ⊢
  by_cases hwall : wallClock c < clockEnd
  swap
  · refine iff_of_false ?_ fun hright => hwall hright.1
    rintro ⟨_, heq, -⟩
    rw [whenToCall, hplus, Option.bind_eq_bind, Option.bind_some, isOpen, ist, if_neg hwall] at heq
    cases heq
  rw [and_iff_right hwall]
  by_cases hopen : openWall p (wallClock c) = true
  · have hright : TimingRight p now :=
      timingRight_open h (hcandidate ▸ hc) (hcandidate ▸ openAt_iff.mpr ⟨hwall, hopen⟩)
    refine iff_of_true hright ?_
    rw [TimingSeen, if_pos (.inl hopen)]
    trivial
  have hin : isOpen p c = some false := by
    rw [isOpen, ist, if_pos hwall, Option.map_some, Bool.eq_false_iff.mpr hopen]
  by_cases hhold : p.afterHours = "hold"
  · refine iff_of_true ⟨_, (whenToCall_eq hplus hin).trans (if_pos hhold),
      fun hkind => (by cases hkind), fun _ hmem => (by cases hmem), fun hreason => ?_⟩ ?_
    · exact absurd (Option.some.inj hreason) (show "after_hours" ≠ "closed" by decide)
    · rw [TimingSeen, if_pos (.inr hhold)]
      trivial
  · rw [← promised_afterHours h hwall hopen hhold]
    subst hcandidate
    exact timingRight_after h hc hin hhold

/-- **The clock is right where the next opening is within the search, or never comes.** -/
theorem leadClock_iff {plan : LeadCallPlan} (h : validated plan = .ok p) (moment now : ℕ) :
    (OpeningRight p moment ↔ wallClock moment < clockEnd ∧ OpeningSeen p (wallClock moment)) ∧
      (TimingRight p now ↔ now + p.waitSeconds.toNat * second < clockEnd ∧
        wallClock (now + p.waitSeconds.toNat * second) < clockEnd ∧
        TimingSeen p (wallClock (now + p.waitSeconds.toNat * second))) :=
  ⟨openingRight_iff (fits_of_validated h), timingRight_iff (fits_of_validated h)⟩

/-! ## A plan that opens too late -/

/-- Mondays only, with a holiday on each of the fifty-seven past a Monday. -/
def sparse : LeadCallPlan where
  waitSeconds := 0
  hoursStart := 9 * hour
  hoursEnd := 21 * hour
  days := ["mon"]
  holidays := (List.range 57).map fun k => 739900 + 7 * (k + 1)
  afterHours := "next_open"
  retryAttempts := 0
  retryIntervalMinutes := 60

theorem validated_sparse : validated sparse = .ok sparse := by decide +kernel

/-- That Monday, when the day's hours are over. -/
def sparseNight : ℕ := 739900 * day + 16 * hour

/-- **It is answered as closed, and opens again.** -/
theorem sparse_closed : nextOpening sparse sparseNight = some none ∧
    whenToCall sparse sparseNight = some ⟨.hold, none, some "closed"⟩ ∧
    OpenAt sparse (opensAt sparse 740306) ∧ sparseNight ≤ opensAt sparse 740306 := by
  unfold OpenAt
  decide +kernel

/-- So the clock is not right for every plan that is stored. -/
theorem not_clock_right : ¬∀ plan p : LeadCallPlan, validated plan = .ok p →
    ∀ moment now, OpeningRight p moment ∧ TimingRight p now := by
  intro hall
  obtain ⟨hnone, -, hopens, hlater⟩ := sparse_closed
  obtain ⟨⟨answer, heq, -, hnever⟩, -⟩ := hall _ _ validated_sparse sparseNight sparseNight
  rw [hnone] at heq
  cases heq
  exact hnever rfl _ hlater hopens

/-- The theorem on that plan: on the Monday's morning both are right. -/
theorem leadClock_iff_sparse :
    (OpeningRight sparse (739900 * day) ↔ wallClock (739900 * day) < clockEnd ∧
      OpeningSeen sparse (wallClock (739900 * day))) ∧
    (TimingRight sparse (739900 * day) ↔ 739900 * day + sparse.waitSeconds.toNat * second < clockEnd ∧
      wallClock (739900 * day + sparse.waitSeconds.toNat * second) < clockEnd ∧
      TimingSeen sparse (wallClock (739900 * day + sparse.waitSeconds.toNat * second))) :=
  leadClock_iff validated_sparse (739900 * day) (739900 * day)

end Calevate.Ingest
