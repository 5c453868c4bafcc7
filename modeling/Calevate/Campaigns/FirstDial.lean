import Calevate.Campaigns.CallingHours
import Calevate.Lib.IndianTime

/-!
# The first permitted dial

A campaign may dial while its own hours are open (`campaignWindowOpen`) and the platform's are
(`withinCallingHours`). `validatedWindow` lets hours by that only narrow the platform's, and
`firstDial` is `first_dial_not_before` on the calendar as the language has it: instants are
microseconds since year 1, the wall clock is Indian with every offset it ever had, and a date
past the last is an overflow. What it answers is the least permitted instant from the start
on (`FirstPermitted`), and it overflows only where the calendar ends before there is one.
-/

namespace Calevate.Campaigns

open Lib Lib.Calendar Lib.ClockText Lib.IndianTime

/-! ## Hours -/

/-- A validation problem: its code, title and detail. -/
structure WindowProblem where
  code : String
  title : String
  detail : String
  deriving DecidableEq, Repr

def windowUnreadable : WindowProblem where
  code := "campaign_window_invalid"
  title := "Check the calling window"
  detail := "Enter the calling window as a start time and an end time (HH:MM), in IST."

def windowReversed : WindowProblem where
  code := "campaign_window_invalid"
  title := "Check the calling window"
  detail := "The window's start must be before its end."

def windowOutside : WindowProblem where
  code := "campaign_window_outside_platform_hours"
  title := "Calling window outside platform hours"
  detail := "A campaign window may only narrow the platform's 09:00-21:00 IST " ++
    "calling hours. That window is the law (TRAI), not a default — " ++
    "nothing dials outside it."

/-- `_parse_hhmm` of both entries, in minutes of the day. -/
def CallingHours.read (hours : CallingHours) : Option (ℕ × ℕ) := do
  let start ← hours.start.bind fun text => readTime text.toList
  let finish ← hours.finish.bind fun text => readTime text.toList
  return (start, finish)

/-- **`validated_window`.** -/
def validatedWindow (callingHours : CallingHours) : Except WindowProblem CallingHours :=
  match callingHours.read with
  | none => .error windowUnreadable
  | some (start, finish) =>
    if finish ≤ start then .error windowReversed
    else if start < defaultWindow.1 ∨ defaultWindow.2 < finish then .error windowOutside
    else .ok ⟨some (String.ofList (writeTime start)), some (String.ofList (writeTime finish))⟩

/-- **`campaign_window_open`**, of the time of the Indian day. -/
def campaignWindowOpen (callingHours : Option CallingHours) (clock : ℕ) : Bool :=
  match callingHours with
  | none => true
  | some hours =>
    match hours.read with
    | none => false
    | some (start, finish) => start * minute ≤ clock ∧ clock < finish * minute

/-- `within_calling_hours`. -/
def withinCallingHours (clock : ℕ) : Bool :=
  Callbacks.defaultWindow.1 ≤ clock ∧ clock < Callbacks.defaultWindow.2

/-! ## The first dial -/

/-- **`first_dial_not_before`.** `none` is a date past the calendar. -/
def firstDial (startAt : ℕ) (callingHours : Option CallingHours) : Option ℕ :=
  let window := windowFor callingHours
  let startIst := wallClock startAt
  let midnight := startIst / day * day
  if clockEnd ≤ startIst then none
  else if startIst % day < window.1 then some (instant (midnight + window.1))
  else if window.2 ≤ startIst % day then
    if clockEnd ≤ startIst + day then none else some (instant (midnight + day + window.1))
  else some startAt

/-- An instant at which the campaign may dial. -/
def DialPermitted (callingHours : Option CallingHours) (t : ℕ) : Prop :=
  wallClock t < clockEnd ∧ campaignWindowOpen callingHours (wallClock t % day) = true ∧
    withinCallingHours (wallClock t % day) = true

/-- **The least permitted instant from the start on**, or that there is none left. -/
def FirstPermitted (callingHours : Option CallingHours) (startAt : ℕ) : Option ℕ → Prop
  | some t => startAt ≤ t ∧ DialPermitted callingHours t ∧
      ∀ u, startAt ≤ u → u < t → ¬ DialPermitted callingHours u
  | none => ∀ u, startAt ≤ u → ¬ DialPermitted callingHours u

/-! ## Accepted hours -/

/-- Hours that narrow the platform's: they open on a minute of it and close later. -/
structure Narrows (hours : CallingHours) (start finish : ℕ) : Prop where
  read : hours.read = some (start, finish)
  opens : defaultWindow.1 ≤ start
  lt : start < finish
  closes : finish ≤ defaultWindow.2

/-- **What is accepted narrows the platform's window**, as the client wrote it and as it is
stored. -/
theorem narrows_of_validated {raw hours : CallingHours} (h : validatedWindow raw = .ok hours) :
    ∃ start finish, Narrows raw start finish ∧ Narrows hours start finish := by
  unfold validatedWindow at h
  cases hread : raw.read with
  | none => simp [hread] at h
  | some read =>
    obtain ⟨start, finish⟩ := read
    simp only [hread] at h
    split_ifs at h with hlt hout
    obtain rfl := Except.ok.inj h
    have hopens : defaultWindow.1 ≤ start := by omega
    have hcloses : finish ≤ defaultWindow.2 := by omega
    refine ⟨start, finish, ⟨hread, hopens, by omega, hcloses⟩, ⟨?_, hopens, by omega, hcloses⟩⟩
    have hday : defaultWindow.2 < 24 * 60 := by decide
    have hstart : readTime (writeTime start) = some start := readTime_writeTime (by omega)
    have hfinish : readTime (writeTime finish) = some finish := readTime_writeTime (by omega)
    simp [CallingHours.read, hstart, hfinish]

section Narrows

variable {hours : CallingHours} {start finish : ℕ} (h : Narrows hours start finish)

include h

/-- What such hours leave of the platform's window is themselves. -/
theorem Narrows.windowFor : windowFor (some hours) = (start * minute, finish * minute) := by
  have hread := h.read
  have hopens := Nat.mul_le_mul_right minute h.opens
  have hcloses := Nat.mul_le_mul_right minute h.closes
  have hdefault : Callbacks.defaultWindow = (defaultWindow.1 * minute, defaultWindow.2 * minute) := by
    decide
  unfold CallingHours.read at hread
  obtain ⟨s, hs, hread⟩ := Option.bind_eq_some_iff.mp hread
  obtain ⟨f, hf, hread⟩ := Option.bind_eq_some_iff.mp hread
  obtain ⟨rfl, rfl⟩ := Prod.mk.inj (Option.some.inj hread)
  simp only [Campaigns.windowFor, hs, hf, hdefault, max_eq_left hopens, min_eq_left hcloses]

/-- While they are open so is the platform. -/
theorem Narrows.permitted_iff (t : ℕ) : DialPermitted (some hours) t ↔
    wallClock t < clockEnd ∧ start * minute ≤ wallClock t % day ∧
      wallClock t % day < finish * minute := by
  have hopens := Nat.mul_le_mul_right minute h.opens
  have hcloses := Nat.mul_le_mul_right minute h.closes
  have hdefault : Callbacks.defaultWindow = (defaultWindow.1 * minute, defaultWindow.2 * minute) := by
    decide
  simp only [DialPermitted, campaignWindowOpen, withinCallingHours, h.read, hdefault,
    decide_eq_true_eq]
  constructor
  · rintro ⟨hclock, hopen, -⟩
    exact ⟨hclock, hopen⟩
  · rintro ⟨hclock, hopen⟩
    exact ⟨hclock, hopen, hopens.trans hopen.1, hopen.2.trans_le hcloses⟩

end Narrows

/-- A time of the day is what a wall clock is past its midnight. -/
theorem clock_eq {n wall : ℕ} (hle : n * day ≤ wall) (hlt : wall < (n + 1) * day) :
    wall % day = wall - n * day := by
  obtain ⟨k, rfl⟩ := Nat.exists_eq_add_of_le hle
  rw [Nat.succ_mul] at hlt
  rw [Nat.mul_comm, Nat.mul_add_mod, Nat.mod_eq_of_lt (by omega), Nat.add_sub_cancel_left]

/-- A clock of a day before the last is before the calendar's end. -/
theorem lt_clockEnd {n wall : ℕ} (hlt : wall < (n + 1) * day) (hn : n * day < clockEnd) :
    wall < clockEnd := by
  have hday : n + 1 ≤ 3652059 := Nat.lt_of_mul_lt_mul_right hn
  exact hlt.trans_le (Nat.mul_le_mul_right day hday)

/-- **The first dial is the first permitted instant**, for hours between two times of the day. -/
theorem firstDial_firstPermitted {hours : Option CallingHours} {opens closes : ℕ}
    (hwindow : windowFor hours = (opens, closes))
    (hpermitted : ∀ t, DialPermitted hours t ↔ wallClock t < clockEnd ∧
      opens ≤ wallClock t % day ∧ wallClock t % day < closes)
    (hopens : 6 * hour ≤ opens) (hlt : opens < closes) (hcloses : closes ≤ 23 * hour)
    (startAt : ℕ) : FirstPermitted hours startAt (firstDial startAt hours) := by
  have hhours : 0 < hour ∧ 23 * hour < day := by decide
  have hregular : hour ≤ opens ∧ opens ≤ 23 * hour := by omega
  have hregular' : Regular closes := .inr (by omega)
  obtain ⟨n, hn⟩ : ∃ n, wallClock startAt / day = n := ⟨_, rfl⟩
  have hsplit := Nat.div_add_mod' (wallClock startAt) day
  have hclockLt : wallClock startAt % day < day := Nat.mod_lt _ (by decide)
  have hmidnight : n * day + 0 ≤ wallClock startAt := by
    rw [← hn, Nat.add_zero]
    exact Nat.div_mul_le_self ..
  simp only [firstDial, hwindow]
  rw [hn] at hsplit ⊢
  generalize wallClock startAt % day = clock at hsplit hclockLt ⊢
  by_cases hend : clockEnd ≤ wallClock startAt
  · -- the start is past the calendar
    rw [if_pos hend]
    intro u hu hdial
    have hclockEnd : 3652059 * day + 0 = clockEnd := Nat.add_zero _
    have hle := le_wallClock_of_le (.inl rfl) (hclockEnd.trans_le hend) hu
    exact absurd (hclockEnd.symm.trans_le hle) (Nat.not_le.mpr ((hpermitted u).mp hdial).1)
  rw [if_neg hend]
  by_cases hbefore : clock < opens
  · -- the hours open later that day
    rw [if_pos hbefore]
    have hshown := wallClock_instant (n := n) hregular (by omega)
    refine ⟨?_, (hpermitted _).mpr ?_, fun u hu hur hdial => ?_⟩
    · have := mt (le_wallClock_iff (.inr hregular) n startAt).mpr (by omega)
      omega
    · rw [hshown, clock_eq (Nat.le_add_right ..) (by rw [Nat.succ_mul]; omega)]
      exact ⟨lt_clockEnd (n := n) (by rw [Nat.succ_mul]; omega) (by omega), by omega, by omega⟩
    · have hfrom := le_wallClock_of_le (.inl rfl) hmidnight hu
      have hto := mt (le_wallClock_iff (.inr hregular) n u).mp (by omega)
      obtain ⟨-, hopen, -⟩ := (hpermitted u).mp hdial
      rw [clock_eq (n := n) (by omega) (by rw [Nat.succ_mul]; omega)] at hopen
      omega
  rw [if_neg hbefore]
  by_cases hafter : closes ≤ clock
  · rw [if_pos hafter]
    generalize hthen : wallClock startAt + day = morrow
    rcases Nat.lt_or_ge morrow clockEnd with hlast | hlast
    · -- they are over, and open the next day
      have hnext : (n + 1) * day = n * day + day := Nat.succ_mul ..
      rw [if_neg (Nat.not_le.mpr hlast), ← hnext]
      have hshown := wallClock_instant (n := n + 1) hregular (by omega)
      refine ⟨?_, (hpermitted _).mpr ?_, fun u hu hur hdial => ?_⟩
      · have := mt (le_wallClock_iff (.inr hregular) (n + 1) startAt).mpr (by omega)
        omega
      · rw [hshown, clock_eq (Nat.le_add_right ..) (by rw [Nat.succ_mul (n + 1)]; omega)]
        exact ⟨lt_clockEnd (n := n + 1) (by rw [Nat.succ_mul (n + 1)]; omega) (by omega), by omega,
          by omega⟩
      · have hfrom := le_wallClock_of_le (n := n) hregular' (t := startAt) (by omega) hu
        have hto := mt (le_wallClock_iff (.inr hregular) (n + 1) u).mp (by omega)
        obtain ⟨-, hopen, hclose⟩ := (hpermitted u).mp hdial
        rcases Nat.lt_or_ge (wallClock u) ((n + 1) * day) with hsame | hmorrow
        · rw [clock_eq (n := n) (by omega) hsame] at hclose
          omega
        · rw [clock_eq hmorrow (by rw [Nat.succ_mul (n + 1)]; omega)] at hopen
          omega
    · -- they are over, and so is the calendar
      rw [if_pos hlast]
      intro u hu hdial
      have hfrom := le_wallClock_of_le (n := n) hregular' (t := startAt) (by omega) hu
      obtain ⟨hclock, -, hclose⟩ := (hpermitted u).mp hdial
      have hday : clockEnd ≤ (n + 1) * day := by
        by_contra hnot
        have hlt' : wallClock startAt + day < (n + 1 + 1) * day := by
          rw [Nat.succ_mul, Nat.succ_mul]
          omega
        have := lt_clockEnd hlt' (by omega)
        omega
      rw [clock_eq (n := n) (by omega) (by omega)] at hclose
      omega
  · -- they are open
    rw [if_neg hafter]
    refine ⟨le_rfl, (hpermitted _).mpr ?_, fun u hu hur => absurd hu (Nat.not_le.mpr hur)⟩
    rw [clock_eq (n := n) (by omega) (by rw [Nat.succ_mul]; omega)]
    omega

/-- **Accepted hours are first dialled in at their first permitted instant**, read as they were
sent or as they are stored. -/
theorem firstDial_of_validated {raw hours : CallingHours} (h : validatedWindow raw = .ok hours)
    (startAt : ℕ) : firstDial startAt (some raw) = firstDial startAt (some hours) ∧
      FirstPermitted (some hours) startAt (firstDial startAt (some hours)) := by
  obtain ⟨start, finish, hraw, hhours⟩ := narrows_of_validated h
  have hopens := Nat.mul_le_mul_right minute hhours.opens
  have hcloses := Nat.mul_le_mul_right minute hhours.closes
  have hbounds : 6 * hour ≤ defaultWindow.1 * minute ∧ defaultWindow.2 * minute ≤ 23 * hour := by
    decide
  constructor
  · simp only [firstDial, hraw.windowFor, hhours.windowFor]
  · exact firstDial_firstPermitted hhours.windowFor hhours.permitted_iff (by omega)
      (Nat.mul_lt_mul_of_pos_right hhours.lt (by decide)) (by omega) startAt

/-- From ten to noon. -/
def tenToNoon : CallingHours := ⟨some "10:00", some "12:00"⟩

/-- A start in the afternoon of 2026, for the morning after. -/
theorem firstDial_of_validated_tenToNoon :
    firstDial 63933451200000000 (some tenToNoon) = firstDial 63933451200000000 (some tenToNoon) ∧
      FirstPermitted (some tenToNoon) 63933451200000000
        (firstDial 63933451200000000 (some tenToNoon)) :=
  firstDial_of_validated (by decide +kernel) _

/-- On the evening of the calendar's last day there is no first dial. -/
theorem firstDial_lastEvening : ¬ ∀ (raw hours : CallingHours) (startAt : ℕ),
    validatedWindow raw = .ok hours → ∃ t, firstDial startAt (some hours) = some t ∧
      FirstPermitted (some hours) startAt (some t) := by
  intro h
  obtain ⟨t, ht, -⟩ := h tenToNoon tenToNoon (instant (3652058 * day + 20 * hour)) (by decide +kernel)
  have hnone : firstDial (instant (3652058 * day + 20 * hour)) (some tenToNoon) = none := by
    decide +kernel
  rw [hnone] at ht
  cases ht

/-! ## Since 1970 -/

/-- The first of January 1970. -/
def epoch : ℕ := 719162 * day

theorem wallClock_epoch (t : ℕ) : wallClock (t + epoch) = t + istOffset + epoch := by
  have hepoch : epoch = 62135596800000000 := rfl
  have hoffset : istOffset = 19800000000 := rfl
  have hcases := utcOffset_cases (t + epoch)
  rw [wallClock]
  rw [hepoch] at hcases ⊢
  omega

theorem instant_epoch {wall : ℕ} (h : istOffset ≤ wall) :
    instant (wall + epoch) = wall - istOffset + epoch := by
  have hepoch : epoch = 62135596800000000 := rfl
  have hoffset : istOffset = 19800000000 := rfl
  have hcases := wallOffset_cases (wall + epoch)
  rw [instant]
  rw [hepoch] at hcases ⊢
  rw [hoffset] at h ⊢
  omega

/-- **The offset of today is all there is to it since 1970.** -/
theorem firstDial_epoch (startAt : ℕ) (hours : Option CallingHours)
    (h : startAt + istOffset + epoch + day < clockEnd) :
    firstDial (startAt + epoch) hours = some (firstDialNotBefore startAt hours + epoch) := by
  have hopen := le_windowFor hours
  have hdefault : istOffset ≤ Callbacks.defaultWindow.1 := by decide
  have hwindow : istOffset ≤ (windowFor hours).1 := hdefault.trans hopen
  have hday : (startAt + istOffset + epoch) / day = (startAt + istOffset) / day + 719162 :=
    Nat.add_mul_div_right _ _ (by decide)
  have hclock : (startAt + istOffset + epoch) % day = (startAt + istOffset) % day :=
    Nat.add_mul_mod_self_right ..
  have hmidnight : ((startAt + istOffset) / day + 719162) * day =
      (startAt + istOffset) / day * day + epoch := Nat.add_mul ..
  simp only [firstDial, firstDialNotBefore]
  rw [wallClock_epoch, if_neg (by omega), hday, hclock, hmidnight]
  generalize (startAt + istOffset) / day * day = midnight
  generalize (startAt + istOffset) % day = clock
  generalize (windowFor hours).1 = opens at hwindow ⊢
  by_cases hbefore : clock < opens
  · rw [if_pos hbefore, if_pos hbefore, Nat.add_right_comm, instant_epoch (by omega)]
  rw [if_neg hbefore, if_neg hbefore]
  by_cases hafter : (windowFor hours).2 ≤ clock
  · rw [if_pos hafter, if_pos hafter, if_neg (by omega), Nat.add_right_comm midnight,
      Nat.add_right_comm _ epoch, instant_epoch (by omega)]
  · rw [if_neg hafter, if_neg hafter]

end Calevate.Campaigns
