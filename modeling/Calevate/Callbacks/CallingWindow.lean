import Calevate.Lib.ClockText
import Calevate.Campaigns.Schedule

/-!
# The calling window

`resolve_slot` turns the day and the time a caller asked for into a slot or a refusal, and
the refusal of a time outside the window carries an alternative. A slot is lawful: in the
window, and between the lead and the horizon (`resolveSlot_lawful`). The alternative is not
measured against the horizon, so on its last day it can be a time that is refused when it is
asked for; `resolveSlot_agrees` says exactly when.

The current time is an instant since 1970. Wall clocks are Indian, half an hour past five
ahead of UTC as they have been since 1945; what is asked for may lie before that, and is
then long gone by either reckoning.
-/

namespace Calevate.Callbacks

open Lib Lib.Calendar Lib.ClockText

/-- A window, as two times of the day. -/
abbrev Window := ℕ × ℕ

/-- `DEFAULT_WINDOW`. -/
def defaultWindow : Window := (9 * hour, 21 * hour)

/-- `MIN_LEAD`. -/
def minLead : ℕ := 5 * minute

/-- `MAX_AHEAD`. -/
def maxAhead : ℕ := 30 * day

/-- A wall clock in India: a date and a time of the day. -/
structure Wall where
  date : Date
  clock : ℕ
  deriving DecidableEq

/-- The instant, as `astimezone(UTC)` gives it. -/
def Wall.utc (at_ : Wall) : ℤ := dayNumber at_.date * day + at_.clock - Campaigns.istOffset

/-- The first and the last instant there is a `datetime` for. -/
def datetimeMin : ℤ := dayNumber ⟨1, 1, 1⟩ * day

/-- See `datetimeMin`. -/
def datetimeMax : ℤ := dayNumber ⟨9999, 12, 31⟩ * day + day - 1

/-- `ist_wall_clock`. -/
def istWallClock (now : ℕ) : Wall :=
  ⟨civilOfDays ((now + Campaigns.istOffset) / day), (now + Campaigns.istOffset) % day⟩

/-- `within_window`. -/
def withinWindow (at_ : Wall) (window : Window) : Bool :=
  window.1 ≤ at_.clock ∧ at_.clock < window.2

/-- `next_window_opening`. There is no day after the last. -/
def nextWindowOpening (at_ : Wall) (window : Window) : Option Wall :=
  if at_.clock < window.1 then some { at_ with clock := window.1 / minute * minute }
  else if window.2 ≤ at_.clock then
    (nextDay at_.date).map fun date => ⟨date, window.1 / minute * minute⟩
  else some at_

/-! ## Sentences -/

/-- `%A`. -/
def weekdayName (date : Date) : String :=
  ["Monday", "Tuesday", "Wednesday", "Thursday", "Friday", "Saturday", "Sunday"].getD
    ((dayNumber date + 3) % 7).toNat ""

/-- `%B`. -/
def monthName (date : Date) : String :=
  ["January", "February", "March", "April", "May", "June", "July", "August", "September",
    "October", "November", "December"].getD (date.month - 1) ""

/-- `%H:%M`. -/
def clockText (clock : ℕ) : String := String.ofList (writeTime (clock / minute))

/-- `%Y-%m-%d`. -/
def dateText (date : Date) : String := String.ofList (writeDate date)

/-- `_spoken`. -/
def spoken (at_ : Wall) : String :=
  let hours := at_.clock / hour
  let twelve := if hours % 12 = 0 then 12 else hours % 12
  let meridiem := if hours < 12 then "AM" else "PM"
  weekdayName at_.date ++ " " ++ toString at_.date.dom ++ " " ++ monthName at_.date ++ " at " ++
    toString twelve ++ ":" ++ String.ofList (pad2 (at_.clock / minute % 60)) ++ " " ++ meridiem

/-- `today_in_india`. -/
def todayInIndia (now : ℕ) : String :=
  let today := istWallClock now
  "Today is " ++ weekdayName today.date ++ " " ++ toString today.date.dom ++ " " ++
    monthName today.date ++ " " ++ toString today.date.year ++ " and it is " ++
    clockText today.clock ++ " in India, so today's date is " ++ dateText today.date ++ "."

/-! ## Slots -/

structure Slot where
  atUtc : ℤ
  atIst : Wall
  spoken : String
  deriving DecidableEq

/-- The slot at a wall clock. -/
def Slot.at (at_ : Wall) : Slot := ⟨at_.utc, at_, Callbacks.spoken at_⟩

@[simp] theorem Slot.at_atIst (at_ : Wall) : (Slot.at at_).atIst = at_ := rfl

structure SlotRefusal where
  code : String
  say : String
  alternative : Option Slot
  deriving DecidableEq

/-- `SLOT_REFUSALS`. -/
def slotRefusals : List String :=
  ["unreadable_time", "too_soon", "too_far_ahead", "outside_calling_hours"]

/-- What `resolve_slot` does: it returns a slot or a refusal, or a date runs over. -/
inductive SlotAnswer where
  | slot (slot : Slot)
  | refusal (refusal : SlotRefusal)
  | overflowError
  deriving DecidableEq

/-- A text that is neither `None` nor empty. -/
def given (text : Option String) : Option (List Char) :=
  text.bind fun text => if text = "" then none else some text.toList

/-- The day and the time the texts spell. -/
def asked (date time : List Char) : Option Wall := do
  let date ← readDate (strip date)
  let minutes ← readTime (strip time)
  return ⟨date, minutes * minute⟩

/-- What is decided of a time that was read. -/
def resolveWall (at_ : Wall) (now : ℕ) (window : Window) : SlotAnswer :=
  if at_.utc < datetimeMin ∨ datetimeMax < now + minLead then .overflowError
  else if at_.utc < now + minLead then
    .refusal
      { code := "too_soon"
        say := "That time has already gone by. Ask the caller for a later time, or offer " ++
          "to keep talking now. " ++ todayInIndia now
        alternative := none }
  else if datetimeMax < now + maxAhead then .overflowError
  else if now + maxAhead < at_.utc then
    .refusal
      { code := "too_far_ahead"
        say := "We only book callbacks up to " ++ toString (maxAhead / day) ++
          " days ahead. Ask the caller for a nearer day."
        alternative := none }
  else if ¬ withinWindow at_ window then
    match nextWindowOpening at_ window with
    | none => .overflowError
    | some opens =>
      .refusal
        { code := "outside_calling_hours"
          say := "We are only allowed to ring people between " ++ clockText window.1 ++ " and " ++
            clockText window.2 ++ ". Offer the caller " ++ spoken opens ++
            " instead, or ask for another time inside those hours."
          alternative := some (Slot.at opens) }
  else .slot (Slot.at at_)

/-- **`resolve_slot`.** -/
def resolveSlot (date time : Option String) (now : ℕ) (window : Window) : SlotAnswer :=
  match given date, given time with
  | some date, some time =>
    match asked date time with
    | none =>
      .refusal
        { code := "unreadable_time"
          say := "I could not read that day and time. Give the date as YYYY-MM-DD and the time " ++
            "as HH:MM, 24-hour. Ask the caller again if you are unsure, and be clear " ++
            "whether they mean morning or evening. " ++ todayInIndia now
          alternative := none }
    | some at_ => resolveWall at_ now window
  | _, _ =>
    .refusal
      { code := "unreadable_time"
        say := "I did not catch the day and time. Ask the caller which day and what time " ++
          "suits them, then try again with the full date. " ++ todayInIndia now
        alternative := none }

/-- The wall clock the texts ask for. -/
def requested (date time : Option String) : Option Wall := do
  asked (← given date) (← given time)

/-! ## What is asked for -/

/-- A minute of a day of the calendar, which is all a text can ask for. -/
structure Wall.Lawful (at_ : Wall) : Prop where
  date : valid at_.date = true
  clock : ∃ minutes < 24 * 60, at_.clock = minutes * minute

theorem asked_lawful {date time : List Char} {at_ : Wall} (h : asked date time = some at_) :
    at_.Lawful := by
  obtain ⟨d, hdate, h⟩ := Option.bind_eq_some_iff.1 h
  obtain ⟨minutes, htime, h⟩ := Option.bind_eq_some_iff.1 h
  cases h
  exact ⟨valid_readDate hdate, minutes, readTime_lt htime, rfl⟩

theorem requested_lawful {date time : Option String} {at_ : Wall}
    (h : requested date time = some at_) : at_.Lawful := by
  obtain ⟨d, -, h⟩ := Option.bind_eq_some_iff.1 h
  obtain ⟨t, -, h⟩ := Option.bind_eq_some_iff.1 h
  exact asked_lawful h

theorem Wall.Lawful.clock_lt {at_ : Wall} (h : at_.Lawful) : at_.clock < day := by
  obtain ⟨minutes, hlt, hclock⟩ := h.clock
  rw [hclock]
  simp only [minute, second, day, hour]
  omega

theorem Wall.Lawful.utc_le {at_ : Wall} (h : at_.Lawful) : at_.utc ≤ datetimeMax := by
  have hdate := dayNumber_le h.date
  have hclock := h.clock_lt
  have hoffset : (1 : ℤ) ≤ Campaigns.istOffset := by decide
  have hday := mul_le_mul_of_nonneg_right hdate (Int.natCast_nonneg day)
  unfold Wall.utc datetimeMax
  omega

/-- **A time the texts spell is read back from its own texts**, which is how an offer is asked
for again. -/
theorem requested_texts {at_ : Wall} (h : at_.Lawful) :
    requested (some (dateText at_.date)) (some (clockText at_.clock)) = some at_ := by
  obtain ⟨minutes, hlt, hclock⟩ := h.clock
  have hdiv : at_.clock / minute = minutes := by
    rw [hclock]
    exact Nat.mul_div_cancel minutes (by decide)
  have hdate : given (some (dateText at_.date)) = some (writeDate at_.date) := by
    simp [given, dateText, writeDate, pad4]
  have htime : given (some (clockText at_.clock)) = some (writeTime minutes) := by
    simp [given, clockText, writeTime, pad2, hdiv]
  have hasked : asked (writeDate at_.date) (writeTime minutes) = some at_ := by
    simp [asked, strip_writeDate, strip_writeTime, readDate_writeDate h.date,
      readTime_writeTime hlt, ← hclock]
  simp [requested, hdate, htime, hasked]

/-- What can be read decides the answer. -/
theorem resolveSlot_of_requested {date time : Option String} {at_ : Wall}
    (h : requested date time = some at_) (now : ℕ) (window : Window) :
    resolveSlot date time now window = resolveWall at_ now window := by
  obtain ⟨d, hdate, h⟩ := Option.bind_eq_some_iff.1 h
  obtain ⟨t, htime, h⟩ := Option.bind_eq_some_iff.1 h
  simp [resolveSlot, hdate, htime, h]

/-- And what cannot be read is refused without an offer. -/
theorem resolveSlot_of_unread {date time : Option String} (h : requested date time = none)
    (now : ℕ) (window : Window) :
    ∃ say, resolveSlot date time now window = .refusal ⟨"unreadable_time", say, none⟩ := by
  unfold resolveSlot
  split
  · rename_i d t hdate htime
    have hasked : asked d t = none := by simpa [requested, hdate, htime] using h
    rw [hasked]
    exact ⟨_, rfl⟩
  · exact ⟨_, rfl⟩

/-! ## Answers -/

/-- Between the lead and the horizon. -/
def InReach (at_ : Wall) (now : ℕ) : Prop :=
  now + minLead ≤ at_.utc ∧ at_.utc ≤ now + maxAhead

/-- **A slot that is returned is lawful**: the time that was asked for, in the window and in
reach. -/
theorem resolveWall_slot {at_ : Wall} {now : ℕ} {window : Window} {s : Slot}
    (h : resolveWall at_ now window = .slot s) :
    s = Slot.at at_ ∧ withinWindow at_ window = true ∧ InReach at_ now := by
  unfold resolveWall at h
  split at h
  · cases h
  · split at h
    · cases h
    · rename_i hsoon
      split at h
      · cases h
      · split at h
        · cases h
        · rename_i hfar
          split at h
          · split at h <;> cases h
          · rename_i hwithin
            cases h
            exact ⟨rfl, by simpa using hwithin, by omega, by omega⟩

/-- A refusal that offers something was asked for a time in reach and outside the window, and
offers the next opening. -/
theorem resolveWall_offer {at_ : Wall} {now : ℕ} {window : Window} {r : SlotRefusal} {offer : Slot}
    (h : resolveWall at_ now window = .refusal r) (ho : r.alternative = some offer) :
    withinWindow at_ window = false ∧ InReach at_ now ∧ (now + maxAhead : ℤ) ≤ datetimeMax ∧
      ∃ opens, nextWindowOpening at_ window = some opens ∧ offer = Slot.at opens := by
  unfold resolveWall at h
  split at h
  · cases h
  · split at h
    · cases h
      cases ho
    · rename_i hsoon
      split at h
      · cases h
      · rename_i hmax
        split at h
        · cases h
          cases ho
        · rename_i hfar
          split at h
          · rename_i hwithin
            split at h
            · cases h
            · rename_i opens hopens
              cases h
              cases ho
              exact ⟨by simpa using hwithin, ⟨by omega, by omega⟩, by omega, opens, hopens, rfl⟩
          · cases h

/-- A time in reach and in the window is a slot. -/
theorem resolveWall_lawful {at_ : Wall} {now : ℕ} {window : Window}
    (hw : withinWindow at_ window = true) (hr : InReach at_ now)
    (hmax : (now + maxAhead : ℤ) ≤ datetimeMax) :
    resolveWall at_ now window = .slot (Slot.at at_) := by
  obtain ⟨hsoon, hfar⟩ := hr
  have hmin : datetimeMin ≤ 0 := by decide
  have hlead : (minLead : ℤ) ≤ maxAhead := by decide
  have h1 : ¬ (at_.utc < datetimeMin ∨ datetimeMax < now + minLead) := by omega
  have h2 : ¬ at_.utc < now + minLead := by omega
  have h3 : ¬ datetimeMax < now + maxAhead := by omega
  have h4 : ¬ (now + maxAhead : ℤ) < at_.utc := by omega
  simp [resolveWall, h1, h2, h3, h4, hw]

/-- A time outside the window, in reach, with an opening after it is refused with that. -/
theorem resolveWall_outside {at_ opens : Wall} {now : ℕ} {window : Window}
    (hw : withinWindow at_ window = false) (hr : InReach at_ now)
    (hmax : (now + maxAhead : ℤ) ≤ datetimeMax)
    (hopens : nextWindowOpening at_ window = some opens) :
    ∃ r, resolveWall at_ now window = .refusal r ∧ r.alternative = some (Slot.at opens) := by
  obtain ⟨hsoon, hfar⟩ := hr
  have hmin : datetimeMin ≤ 0 := by decide
  have hlead : (minLead : ℤ) ≤ maxAhead := by decide
  have h1 : ¬ (at_.utc < datetimeMin ∨ datetimeMax < now + minLead) := by omega
  have h2 : ¬ at_.utc < now + minLead := by omega
  have h3 : ¬ datetimeMax < now + maxAhead := by omega
  have h4 : ¬ (now + maxAhead : ℤ) < at_.utc := by omega
  simp only [resolveWall, if_neg h1, if_neg h2, if_neg h3, if_neg h4]
  simp [hw, hopens]

/-! ## Openings -/

/-- The opening of a day. -/
def opening (date : Date) : Wall := ⟨date, defaultWindow.1⟩

theorem withinWindow_opening (date : Date) : withinWindow (opening date) defaultWindow = true := by
  simp [withinWindow, opening, defaultWindow, hour, minute, second]

theorem opening_lawful {date : Date} (h : valid date = true) : (opening date).Lawful :=
  ⟨h, 9 * 60, by decide, (by decide : defaultWindow.1 = 9 * 60 * minute)⟩

/-- Before the window opens the next opening is that of the day, and after it closes that of
the next. -/
theorem nextWindowOpening_cases {at_ opens : Wall} (hw : withinWindow at_ defaultWindow = false)
    (h : nextWindowOpening at_ defaultWindow = some opens) :
    (at_.clock < defaultWindow.1 ∧ opens = opening at_.date) ∨
      (defaultWindow.2 ≤ at_.clock ∧
        ∃ date, nextDay at_.date = some date ∧ opens = opening date) := by
  have hround : defaultWindow.1 / minute * minute = defaultWindow.1 := by decide
  unfold nextWindowOpening at h
  split at h
  · rename_i hbefore
    cases h
    exact .inl ⟨hbefore, by simp [opening, hround]⟩
  · rename_i hnot
    split at h
    · rename_i hafter
      obtain ⟨date, hdate, hopens⟩ := Option.map_eq_some_iff.1 h
      exact .inr ⟨hafter, date, hdate, by simp [opening, ← hopens, hround]⟩
    · rename_i hnot'
      simp [withinWindow] at hw
      omega

/-- The next opening is a time that can be asked for, and no earlier than the time before it. -/
theorem nextWindowOpening_lawful {at_ opens : Wall} (hlaw : at_.Lawful)
    (hw : withinWindow at_ defaultWindow = false)
    (h : nextWindowOpening at_ defaultWindow = some opens) :
    opens.Lawful ∧ withinWindow opens defaultWindow = true ∧ at_.utc ≤ opens.utc := by
  have hclock := hlaw.clock_lt
  rcases nextWindowOpening_cases hw h with ⟨hbefore, rfl⟩ | ⟨-, date, hdate, rfl⟩
  · refine ⟨opening_lawful hlaw.date, withinWindow_opening _, ?_⟩
    simp only [Wall.utc, opening]
    omega
  · refine ⟨opening_lawful (valid_nextDay hlaw.date hdate), withinWindow_opening _, ?_⟩
    simp only [Wall.utc, opening, dayNumber_nextDay hlaw.date hdate, add_mul, one_mul]
    omega

/-! ## Offers -/

/-- What is answered agrees with itself: a slot is in the window and in reach, and an offer is
accepted when it is asked for at the same time. -/
structure SlotsAgree (date time : Option String) (now : ℕ) : Prop where
  lawful : ∀ s, resolveSlot date time now defaultWindow = .slot s →
    s = Slot.at s.atIst ∧ withinWindow s.atIst defaultWindow = true ∧
      now + minLead ≤ s.atUtc ∧ s.atUtc ≤ now + maxAhead
  offers : ∀ r offer, resolveSlot date time now defaultWindow = .refusal r →
    r.alternative = some offer →
      resolveSlot (some (dateText offer.atIst.date)) (some (clockText offer.atIst.clock)) now
        defaultWindow = .slot offer

/-- The opening after a time is no later than the horizon: that of the day before the window
opens, and that of the next day, if there is one, after it closes. -/
def OpensInReach (at_ : Wall) (now : ℕ) : Prop :=
  (at_.clock < defaultWindow.1 → (opening at_.date).utc ≤ now + maxAhead) ∧
    (defaultWindow.2 ≤ at_.clock →
      ∀ tomorrow, nextDay at_.date = some tomorrow → (opening tomorrow).utc ≤ now + maxAhead)

/-- It speaks of the next opening. -/
theorem opensInReach_iff {at_ : Wall} {now : ℕ} :
    OpensInReach at_ now ↔ (withinWindow at_ defaultWindow = false →
      ∀ opens, nextWindowOpening at_ defaultWindow = some opens → opens.utc ≤ now + maxAhead) := by
  constructor
  · rintro ⟨hday, hnext⟩ hw opens hopens
    rcases nextWindowOpening_cases hw hopens with ⟨hbefore, rfl⟩ | ⟨hafter, date, hdate, rfl⟩
    · exact hday hbefore
    · exact hnext hafter date hdate
  · intro h
    have hround : defaultWindow.1 / minute * minute = defaultWindow.1 := by decide
    refine ⟨fun hbefore => ?_, fun hafter tomorrow htomorrow => ?_⟩
    · apply h
      · simp [withinWindow]
        omega
      · simp [nextWindowOpening, hbefore, hround, opening]
    · have horder : defaultWindow.1 ≤ defaultWindow.2 := by decide
      apply h
      · simp [withinWindow]
        omega
      · have hnot : ¬ at_.clock < defaultWindow.1 := by omega
        simp [nextWindowOpening, hnot, hafter, htomorrow, hround, opening]

/-- **Slots and offers agree exactly when the opening after the requested time is no later than
the horizon**, the request itself being in reach. -/
theorem resolveSlot_agrees (date time : Option String) (now : ℕ) :
    SlotsAgree date time now ↔
      ∀ at_, requested date time = some at_ → now + minLead ≤ at_.utc →
        at_.utc ≤ now + maxAhead → OpensInReach at_ now := by
  constructor
  · intro h at_ hat hlead hahead
    rw [opensInReach_iff]
    intro hw opens hopens
    have hlaw := requested_lawful hat
    obtain ⟨hopenslaw, -, -⟩ := nextWindowOpening_lawful hlaw hw hopens
    -- past the last date everything is in reach, for want of dates
    rcases le_or_gt (now + maxAhead : ℤ) datetimeMax with hmax | hmax
    · obtain ⟨r, hr, halt⟩ := resolveWall_outside hw ⟨hlead, hahead⟩ hmax hopens
      have hasked := h.offers r (Slot.at opens) (by rw [resolveSlot_of_requested hat, hr]) halt
      rw [Slot.at_atIst, resolveSlot_of_requested (requested_texts hopenslaw)] at hasked
      obtain ⟨-, -, hreach⟩ := resolveWall_slot hasked
      exact hreach.2
    · exact hopenslaw.utc_le.trans hmax.le
  · intro h
    cases hat : requested date time with
    | none =>
      refine ⟨fun s hs => ?_, fun r offer hr halt => ?_⟩
      · obtain ⟨say, hsay⟩ := resolveSlot_of_unread hat now defaultWindow
        rw [hsay] at hs
        cases hs
      · obtain ⟨say, hsay⟩ := resolveSlot_of_unread hat now defaultWindow
        rw [hsay] at hr
        cases hr
        cases halt
    | some at_ =>
      refine ⟨fun s hs => ?_, fun r offer hr halt => ?_⟩
      · rw [resolveSlot_of_requested hat] at hs
        obtain ⟨rfl, hw, hreach⟩ := resolveWall_slot hs
        exact ⟨rfl, hw, hreach⟩
      · rw [resolveSlot_of_requested hat] at hr
        obtain ⟨hw, hreach, hmax, opens, hopens, rfl⟩ := resolveWall_offer hr halt
        have hlaw := requested_lawful hat
        obtain ⟨hopenslaw, hwin, hle⟩ := nextWindowOpening_lawful hlaw hw hopens
        have hahead := (opensInReach_iff).1 (h at_ hat hreach.1 hreach.2) hw opens hopens
        rw [Slot.at_atIst, resolveSlot_of_requested (requested_texts hopenslaw)]
        exact resolveWall_lawful hwin ⟨hreach.1.trans hle, hahead⟩ hmax

/-- Eleven at night on the first of September 2026. -/
def lateEvening : ℕ := 1788283800 * second

/-- A quarter past ten at night thirty days on. -/
def lastNight : Wall := ⟨⟨2026, 10, 1⟩, 22 * hour + 15 * minute⟩

/-- A caller who rings then and asks for the last night is offered nine the next morning, which
is refused as too far ahead. -/
theorem lastNight_offer_refused : ¬ ∀ date time now, SlotsAgree date time now := by
  intro h
  have hasked : requested (some "2026-10-01") (some "22:15") = some lastNight := by decide +kernel
  have hreach : InReach lastNight lateEvening := by
    unfold InReach
    decide +kernel
  have hopens : nextWindowOpening lastNight defaultWindow = some (opening ⟨2026, 10, 2⟩) := by
    decide +kernel
  obtain ⟨r, hr, halt⟩ := resolveWall_outside (by decide +kernel) hreach (by decide +kernel) hopens
  rw [← resolveSlot_of_requested hasked] at hr
  have hoffer := (h _ _ _).offers r _ hr halt
  have hopening : (opening ⟨2026, 10, 2⟩).Lawful := opening_lawful (by decide)
  rw [Slot.at_atIst, resolveSlot_of_requested (requested_texts hopening)] at hoffer
  obtain ⟨-, -, -, hahead⟩ := resolveWall_slot hoffer
  exact absurd hahead (by decide +kernel)

end Calevate.Callbacks
