import Calevate.Lib.IndianTime
import Calevate.Lib.IsoText
import Calevate.Lib.Weekly
import Mathlib.Data.Rat.Defs

/-!
# Business hours

Opening hours are a stored value of JSON with a window for each day, read by the wall clock of
India. A value that is no object and a time with an offset are not read as unknown: the reading
raises. Where it does not, the answer is the one of the weekly timeline, and the colleague on duty
is the first whose hours are open, `businessHours_timeline_iff`.
-/

namespace Calevate.Agents

open Lib Lib.Calendar Lib.IndianTime Lib.IsoText Lib.Weekly

/-- A value of JSON. -/
inductive Json where
  | null
  | bool (b : Bool)
  | number (n : ℚ)
  | string (text : String)
  | array (items : List Json)
  | object (entries : List (String × Json))

/-- The values that are false where a condition is expected. -/
def Json.falsy : Json → Bool
  | .null => true
  | .bool b => !b
  | .number n => n = 0
  | .string text => text.isEmpty
  | .array items => items.isEmpty
  | .object entries => entries.isEmpty

inductive Raised where
  | attributeError
  | typeError
  | overflowError
  deriving DecidableEq, Repr

/-! ## Times of the day -/

/-- A time of the day, with the offset it was written with. -/
structure ClockTime where
  clock : ℕ
  offset : Option ℤ
  deriving DecidableEq, Repr

/-- The minutes and seconds of a time written with colons. -/
def extendedTail? (text : List Char) : Option (ℕ × ℕ × List Char) := do
  let (minutes, rest) ← two? text
  match rest with
  | ':' :: rest => do
    let (seconds, rest) ← two? rest
    let (fraction, rest) ← fraction? rest
    return (minutes, seconds * second + fraction, rest)
  | _ => return (minutes, 0, rest)

/-- The minutes and seconds of a time written without them. -/
def basicTail? (text : List Char) : Option (ℕ × ℕ × List Char) := do
  let (minutes, rest) ← two? text
  match two? rest with
  | some (seconds, rest) => do
    let (fraction, rest) ← fraction? rest
    return (minutes, seconds * second + fraction, rest)
  | none => return (minutes, 0, rest)

/-- Hours, minutes, and the rest in microseconds. -/
def timeFields? (text : List Char) : Option ((ℕ × ℕ × ℕ) × List Char) := do
  let (hours, rest) ← two? text
  match rest with
  | ':' :: rest => do
    let (minutes, micros, rest) ← extendedTail? rest
    return ((hours, minutes, micros), rest)
  | _ =>
    match basicTail? rest with
    | some (minutes, micros, rest) => return ((hours, minutes, micros), rest)
    | none => return ((hours, 0, 0), rest)

/-- The offset a time ends with. -/
def timeOffset? : List Char → Option (Option ℤ)
  | [] => some none
  | ['Z'] => some (some 0)
  | sign :: rest =>
    match timeFields? rest with
    | some ((hours, minutes, micros), []) =>
      let total := hours * hour + minutes * minute + micros
      if day ≤ total then none
      else if sign = '+' then some (some total)
      else if sign = '-' then some (some (-total))
      else none
    | _ => none

/-- `time.fromisoformat`. -/
def timeFromIso (text : String) : Option ClockTime := do
  let body := match text.toList with
    | 'T' :: rest => rest
    | body => body
  let ((hours, minutes, micros), rest) ← timeFields? body
  let offset ← timeOffset? rest
  if hours < 24 ∧ minutes < 60 ∧ micros < minute then
    some ⟨hours * hour + minutes * minute + micros, offset⟩
  else none

/-- The clock in UTC; the fraction of a second of an offset is not counted. -/
def ClockTime.utc (t : ClockTime) (offset : ℤ) : ℤ := t.clock - offset / second * second

/-- `a < b`. -/
def ClockTime.before (a b : ClockTime) : Except Raised Bool :=
  match a.offset, b.offset with
  | none, none => .ok (a.clock < b.clock)
  | some o, some p => .ok (a.utc o < b.utc p)
  | _, _ => .error .typeError

/-- `a <= b`. -/
def ClockTime.notAfter (a b : ClockTime) : Except Raised Bool :=
  match a.offset, b.offset with
  | none, none => .ok (a.clock ≤ b.clock)
  | some o, some p => .ok (a.utc o ≤ b.utc p)
  | _, _ => .error .typeError

/-! ## The reader -/

/-- `DAYS`. -/
def days : List String := ["mon", "tue", "wed", "thu", "fri", "sat", "sun"]

def dayKey (d : ℕ) : String := days.getD d ""

/-- `_window`: the opening and the closing time of a day. -/
def window? (raw : Option Json) : Option (ClockTime × ClockTime) :=
  match raw with
  | some (.object entries) =>
    match entries.lookup "opens", entries.lookup "closes" with
    | some (.string opens), some (.string closes) => do
      let opens ← timeFromIso opens
      let closes ← timeFromIso closes
      return (opens, closes)
    | _, _ => none
  | _ => none

/-- `_covers`. -/
def covers (w : ClockTime × ClockTime) (clock : ClockTime) (fromPreviousDay : Bool) :
    Except Raised Bool := do
  let spansMidnight ← w.2.notAfter w.1
  if fromPreviousDay then
    match spansMidnight with
    | true => clock.before w.2
    | false => return false
  else
    match spansMidnight with
    | true => w.1.notAfter clock
    | false =>
      match ← w.1.notAfter clock with
      | true => clock.before w.2
      | false => return false

/-- The answer for a day's own entry. -/
def todaysAnswer (entry : Option Json) (clock : ClockTime) : Except Raised (Option Bool) :=
  match entry with
  | none => return none
  | some .null => return some true
  | some raw =>
    match window? (some raw) with
    | none => return none
    | some today => do
      let covered ← covers today clock false
      return some (!covered)

/-- Whether the window of the day before is still open. -/
def spillOver (entry : Option Json) (clock : ClockTime) : Except Raised Bool :=
  match window? entry with
  | none => return false
  | some spill => covers spill clock true

/-- `is_after_hours`, of an instant counted in microseconds since year 1. -/
def isAfterHours (businessHours : Json) (t : ℕ) : Except Raised (Option Bool) :=
  if businessHours.falsy then return none
  else if clockEnd ≤ wallClock t then throw .overflowError
  else
    match businessHours with
    | .object entries => do
      let today := wallClock t / day % 7
      let yesterday := (wallClock t / day + 6) % 7
      let clock : ClockTime := ⟨wallClock t % day, none⟩
      match ← spillOver (entries.lookup (dayKey yesterday)) clock with
      | true => return some false
      | false => todaysAnswer (entries.lookup (dayKey today)) clock
    | _ => throw .attributeError

/-! ## The timeline -/

/-- The entries of a value, none where it is no object. -/
def Json.entries : Json → List (String × Json)
  | .object entries => entries
  | _ => []

/-- A window written without an offset. -/
def onWallClock (w : ClockTime × ClockTime) : Option Window :=
  if w.1.offset = none ∧ w.2.offset = none then some ⟨w.1.clock, w.2.clock⟩ else none

/-- The readable window of a weekday. -/
def Json.window (hours : Json) (d : ℕ) : Option Window :=
  (window? (hours.entries.lookup (dayKey d))).bind onWallClock

/-- The wall clock of India at an instant lies in the window of a weekday. -/
def Json.OpenAt (hours : Json) (t : ℕ) : Prop :=
  ∃ d < 7, ∃ w ∈ hours.window d, w.Holds d (wallClock t)

/-- The entry of a day is missing or unreadable; a day recorded closed is neither. -/
def UnknownEntry (entry : Option Json) : Prop :=
  match entry with
  | none => True
  | some .null => False
  | some raw => (window? (some raw)).bind onWallClock = none

/-- The entry of the day of an instant is missing or unreadable. -/
def Json.Unknown (hours : Json) (t : ℕ) : Prop :=
  UnknownEntry (hours.entries.lookup (dayKey (wallClock t / day % 7)))

/-- What the answer has to say. -/
structure Timeline (hours : Json) (t : ℕ) (verdict : Option Bool) : Prop where
  opened : verdict = some false ↔ hours.OpenAt t
  unknown : verdict = none ↔ ¬ hours.OpenAt t ∧ hours.Unknown t

/-- Neither time has an offset. -/
def Plain (w : ClockTime × ClockTime) : Prop := w.1.offset = none ∧ w.2.offset = none

/-- The two times can be compared, and the window ends on its day. -/
def EndsOnItsDay (w : ClockTime × ClockTime) : Prop := w.2.notAfter w.1 = .ok false

/-- The reading meets no value it cannot take: an object, or nothing at all; a wall clock within
the calendar; and no comparison of a time with an offset with one without. -/
def Json.Comparable (hours : Json) (t : ℕ) : Prop :=
  hours.falsy = true ∨
    (∃ entries, hours = .object entries) ∧ wallClock t < clockEnd ∧
      (∀ w ∈ window? (hours.entries.lookup (dayKey ((wallClock t / day + 6) % 7))),
        Plain w ∨ EndsOnItsDay w) ∧
      ((∃ w ∈ hours.window ((wallClock t / day + 6) % 7), w.SpillsTo (wallClock t % day)) ∨
        ∀ w ∈ window? (hours.entries.lookup (dayKey (wallClock t / day % 7))), Plain w)

/-! ## Windows of a day -/

theorem timeFromIso_lt {text : String} {c : ClockTime} (h : timeFromIso text = some c) :
    c.clock < day := by
  unfold timeFromIso at h
  obtain ⟨⟨⟨hours, minutes, micros⟩, rest⟩, -, h⟩ := Option.bind_eq_some_iff.mp h
  obtain ⟨offset, -, h⟩ := Option.bind_eq_some_iff.mp h
  split at h
  case isTrue hrange =>
    obtain rfl := Option.some.inj h
    have hm : minute = 60000000 := by decide
    have hh : hour = 3600000000 := by decide
    have hd : day = 86400000000 := by decide
    rw [hm] at hrange
    change hours * hour + minutes * minute + micros < day
    rw [hm, hh, hd]
    omega
  case isFalse => cases h

theorem window?_lt {raw : Option Json} {w : ClockTime × ClockTime} (h : window? raw = some w) :
    w.1.clock < day ∧ w.2.clock < day := by
  unfold window? at h
  split at h
  · split at h
    · obtain ⟨opens, hopens, h⟩ := Option.bind_eq_some_iff.mp h
      obtain ⟨closes, hcloses, h⟩ := Option.bind_eq_some_iff.mp h
      obtain rfl := Option.some.inj h
      exact ⟨timeFromIso_lt hopens, timeFromIso_lt hcloses⟩
    · cases h
  · cases h

theorem onWallClock_eq_some {w : ClockTime × ClockTime} {v : Window} :
    onWallClock w = some v ↔ Plain w ∧ v = ⟨w.1.clock, w.2.clock⟩ := by
  unfold onWallClock Plain
  split
  case isTrue h => exact ⟨fun hv => ⟨h, (Option.some.inj hv).symm⟩, fun hv => by rw [hv.2]⟩
  case isFalse h => exact iff_of_false (by simp) fun hv => h hv.1

theorem Json.window_lt {hours : Json} {d : ℕ} {v : Window} (h : v ∈ hours.window d) :
    v.opens < day ∧ v.closes < day := by
  obtain ⟨w, hw, hv⟩ := Option.bind_eq_some_iff.mp h
  obtain ⟨-, rfl⟩ := (onWallClock_eq_some).mp hv
  exact window?_lt hw

/-- **Two days decide** whether an instant lies in a window. -/
theorem Json.openAt_iff (hours : Json) (t : ℕ) :
    hours.OpenAt t ↔
      (∃ w ∈ hours.window (wallClock t / day % 7), w.OpensTo (wallClock t % day)) ∨
        ∃ w ∈ hours.window ((wallClock t / day + 6) % 7), w.SpillsTo (wallClock t % day) := by
  constructor
  · rintro ⟨d, -, w, hw, hholds⟩
    obtain ⟨hopens, hcloses⟩ := Json.window_lt hw
    rcases (Window.holds_iff hopens hcloses).mp hholds with ⟨rfl, h⟩ | ⟨rfl, h⟩
    · exact .inl ⟨w, hw, h⟩
    · exact .inr ⟨w, hw, h⟩
  · rintro (⟨w, hw, h⟩ | ⟨w, hw, h⟩)
    · obtain ⟨hopens, hcloses⟩ := Json.window_lt hw
      exact ⟨_, Nat.mod_lt _ (by decide), w, hw,
        (Window.holds_iff hopens hcloses).mpr (.inl ⟨rfl, h⟩)⟩
    · obtain ⟨hopens, hcloses⟩ := Json.window_lt hw
      exact ⟨_, Nat.mod_lt _ (by decide), w, hw,
        (Window.holds_iff hopens hcloses).mpr (.inr ⟨rfl, h⟩)⟩

/-! ## Comparisons -/

theorem covers_spill {w : ClockTime × ClockTime} (hplain : Plain w) (clock : ℕ) :
    covers w ⟨clock, none⟩ true =
      .ok (decide (Window.SpillsTo ⟨w.1.clock, w.2.clock⟩ clock)) := by
  obtain ⟨⟨opens, _⟩, ⟨closes, _⟩⟩ := w
  obtain ⟨rfl, rfl⟩ := hplain
  by_cases hspans : closes ≤ opens
  · simp [covers, ClockTime.notAfter, ClockTime.before, Window.SpillsTo, hspans, bind, Except.bind]
  · simp [covers, ClockTime.notAfter, Window.SpillsTo, hspans, bind, Except.bind, pure,
      Except.pure]

theorem covers_today {w : ClockTime × ClockTime} (hplain : Plain w) (clock : ℕ) :
    covers w ⟨clock, none⟩ false =
      .ok (decide (Window.OpensTo ⟨w.1.clock, w.2.clock⟩ clock)) := by
  obtain ⟨⟨opens, _⟩, ⟨closes, _⟩⟩ := w
  obtain ⟨rfl, rfl⟩ := hplain
  by_cases hspans : closes ≤ opens
  · have hnot : ¬ opens < closes := Nat.not_lt.mpr hspans
    simp [covers, ClockTime.notAfter, Window.OpensTo, hspans, hnot, bind, Except.bind]
  · have hlt : opens < closes := Nat.not_le.mp hspans
    by_cases hopen : opens ≤ clock
    · simp [covers, ClockTime.notAfter, ClockTime.before, Window.OpensTo, hspans, hlt, hopen, bind,
        Except.bind]
    · simp [covers, ClockTime.notAfter, Window.OpensTo, hspans, hopen, bind, Except.bind,
        pure, Except.pure]

theorem covers_endsOnItsDay {w : ClockTime × ClockTime} (h : EndsOnItsDay w) (clock : ClockTime) :
    covers w clock true = .ok false := by
  unfold covers
  rw [show w.2.notAfter w.1 = .ok false from h]
  rfl

theorem covers_spill_error {w : ClockTime × ClockTime} (hplain : ¬ Plain w)
    (hends : ¬ EndsOnItsDay w) (clock : ℕ) :
    covers w ⟨clock, none⟩ true = .error .typeError := by
  obtain ⟨⟨opens, _ | o⟩, ⟨closes, _ | p⟩⟩ := w
  · exact absurd ⟨rfl, rfl⟩ hplain
  · rfl
  · rfl
  · have hspans : ClockTime.notAfter ⟨closes, some p⟩ ⟨opens, some o⟩ = .ok true := by
      cases hle : decide (ClockTime.utc ⟨closes, some p⟩ p ≤ ClockTime.utc ⟨opens, some o⟩ o) with
      | true => exact congrArg Except.ok hle
      | false => exact absurd (congrArg Except.ok hle) hends
    unfold covers
    rw [hspans]
    rfl

theorem covers_today_error {w : ClockTime × ClockTime} (hplain : ¬ Plain w) (clock : ℕ) :
    covers w ⟨clock, none⟩ false = .error .typeError := by
  obtain ⟨⟨opens, _ | o⟩, ⟨closes, _ | p⟩⟩ := w
  · exact absurd ⟨rfl, rfl⟩ hplain
  · rfl
  · rfl
  · unfold covers ClockTime.notAfter
    dsimp only [bind, Except.bind]
    cases decide (ClockTime.utc ⟨closes, some p⟩ p ≤ ClockTime.utc ⟨opens, some o⟩ o) with
    | true => rfl
    | false => rfl

/-! ## The answer -/

theorem spillOver_ok {entry : Option Json}
    (h : ∀ w ∈ window? entry, Plain w ∨ EndsOnItsDay w) (clock : ℕ) :
    ∃ b, spillOver entry ⟨clock, none⟩ = .ok b ∧
      (b = true ↔ ∃ v ∈ (window? entry).bind onWallClock, v.SpillsTo clock) := by
  unfold spillOver
  cases hw : window? entry with
  | none =>
    refine ⟨false, rfl, ?_⟩
    simp
  | some w =>
    rw [Option.bind_some]
    by_cases hplain : Plain w
    · have hwindow := (onWallClock_eq_some).mpr ⟨hplain, rfl⟩
      refine ⟨_, covers_spill hplain clock, ?_⟩
      rw [hwindow, decide_eq_true_iff]
      exact ⟨fun hspills => ⟨_, rfl, hspills⟩, fun ⟨v, hv, hspills⟩ => Option.some.inj hv ▸ hspills⟩
    · have hends := (h w hw).resolve_left hplain
      refine ⟨false, covers_endsOnItsDay hends _, ?_⟩
      refine ⟨fun hfalse => absurd hfalse (by decide), ?_⟩
      rintro ⟨v, hv, -⟩
      exact absurd ((onWallClock_eq_some).mp hv).1 hplain

theorem spillOver_error {entry : Option Json}
    (h : ¬ ∀ w ∈ window? entry, Plain w ∨ EndsOnItsDay w) (clock : ℕ) :
    spillOver entry ⟨clock, none⟩ = .error .typeError := by
  push Not at h
  obtain ⟨w, hw, hplain, hends⟩ := h
  unfold spillOver
  rw [Option.mem_def.mp hw]
  exact covers_spill_error hplain hends clock

theorem todaysAnswer_written {raw : Json} (hraw : raw ≠ .null) (clock : ClockTime) :
    todaysAnswer (some raw) clock =
      match window? (some raw) with
      | none => return none
      | some today => do
        let covered ← covers today clock false
        return some (!covered) := by
  cases raw with
  | null => exact absurd rfl hraw
  | _ => rfl

theorem unknownEntry_written {raw : Json} (hraw : raw ≠ .null) :
    UnknownEntry (some raw) ↔ (window? (some raw)).bind onWallClock = none := by
  cases raw with
  | null => exact absurd rfl hraw
  | _ => rfl

theorem todaysAnswer_ok {entry : Option Json} (h : ∀ w ∈ window? entry, Plain w) (clock : ℕ) :
    ∃ verdict, todaysAnswer entry ⟨clock, none⟩ = .ok verdict ∧
      (verdict = some false ↔ ∃ v ∈ (window? entry).bind onWallClock, v.OpensTo clock) ∧
      (verdict = none ↔ UnknownEntry entry) := by
  cases entry with
  | none => exact ⟨none, rfl, by simp [window?], by simp [UnknownEntry]⟩
  | some raw =>
    by_cases hraw : raw = .null
    · subst hraw
      exact ⟨some true, rfl, by simp [window?], by simp [UnknownEntry]⟩
    · rw [todaysAnswer_written hraw, unknownEntry_written hraw]
      cases hw : window? (some raw) with
      | none => exact ⟨none, rfl, by simp, by simp⟩
      | some w =>
        have hplain := h w hw
        have hwindow := (onWallClock_eq_some).mpr ⟨hplain, rfl⟩
        refine ⟨some (!decide (Window.OpensTo ⟨w.1.clock, w.2.clock⟩ clock)), ?_, ?_, ?_⟩
        · change (covers w ⟨clock, none⟩ false >>= fun covered => pure (some (!covered))) = _
          rw [covers_today hplain]
          rfl
        · rw [Option.bind_some, hwindow]
          simp
        · rw [Option.bind_some, hwindow]
          simp

theorem todaysAnswer_error {entry : Option Json} (h : ¬ ∀ w ∈ window? entry, Plain w)
    (clock : ℕ) : todaysAnswer entry ⟨clock, none⟩ = .error .typeError := by
  push Not at h
  obtain ⟨w, hw, hplain⟩ := h
  cases entry with
  | none => cases hw
  | some raw =>
    have hraw : raw ≠ .null := by
      rintro rfl
      cases hw
    rw [todaysAnswer_written hraw, Option.mem_def.mp hw]
    change (covers w ⟨clock, none⟩ false >>= fun covered => pure (some (!covered))) = _
    rw [covers_today_error hplain]
    rfl

/-- A value that is false has no entries. -/
theorem entries_of_falsy {hours : Json} (h : hours.falsy = true) : hours.entries = [] := by
  cases hours with
  | object entries => exact List.isEmpty_iff.mp h
  | _ => rfl

theorem timeline_of_falsy {hours : Json} (h : hours.falsy = true) (t : ℕ) :
    Timeline hours t none := by
  have hempty := entries_of_falsy h
  have hopen : ¬ hours.OpenAt t := by
    rintro ⟨d, -, w, hw, -⟩
    rw [Json.window, hempty] at hw
    cases hw
  refine ⟨iff_of_false (by simp) hopen, iff_of_true rfl ⟨hopen, ?_⟩⟩
  rw [Json.Unknown, hempty]
  trivial

/-- The reading of an object. -/
theorem isAfterHours_object {entries : List (String × Json)} {t : ℕ}
    (hfalsy : (Json.object entries).falsy = false) (hclock : wallClock t < clockEnd) :
    isAfterHours (.object entries) t = (do
      match ← spillOver (entries.lookup (dayKey ((wallClock t / day + 6) % 7)))
          ⟨wallClock t % day, none⟩ with
      | true => return some false
      | false =>
        todaysAnswer (entries.lookup (dayKey (wallClock t / day % 7)))
          ⟨wallClock t % day, none⟩) := by
  unfold isAfterHours
  rw [hfalsy, if_neg (by decide), if_neg (Nat.not_le.mpr hclock)]

theorem isAfterHours_ok {hours : Json} {t : ℕ} (h : hours.Comparable t) :
    ∃ verdict, isAfterHours hours t = .ok verdict ∧ Timeline hours t verdict := by
  cases hfalsy : hours.falsy with
  | true =>
    refine ⟨none, ?_, timeline_of_falsy hfalsy t⟩
    unfold isAfterHours
    rw [hfalsy]
    rfl
  | false =>
    obtain hfalsy' | ⟨⟨entries, rfl⟩, hclock, hyesterday, htoday⟩ := h
    · rw [hfalsy] at hfalsy'
      cases hfalsy'
    rw [isAfterHours_object hfalsy hclock]
    obtain ⟨spilled, hspilled, hspill⟩ := spillOver_ok hyesterday (wallClock t % day)
    rw [show entries.lookup _ = (Json.object entries).entries.lookup _ from rfl, hspilled]
    have hopen := Json.openAt_iff (.object entries) t
    cases spilled with
    | true =>
      have hopened := hopen.mpr (.inr (hspill.mp rfl))
      exact ⟨some false, rfl, iff_of_true rfl hopened,
        iff_of_false (by simp) fun hunknown => hunknown.1 hopened⟩
    | false =>
      have hnone : ¬ ∃ v ∈ (Json.object entries).window ((wallClock t / day + 6) % 7),
          v.SpillsTo (wallClock t % day) := fun hex => Bool.noConfusion (hspill.mpr hex)
      obtain ⟨verdict, hverdict, hopened, hunknown⟩ :=
        todaysAnswer_ok (htoday.resolve_left hnone) (wallClock t % day)
      rw [or_iff_left hnone] at hopen
      refine ⟨verdict, hverdict, hopened.trans hopen.symm, ?_⟩
      rw [hunknown, hopen]
      refine ⟨fun h => ⟨?_, h⟩, fun h => h.2⟩
      intro hcontra
      have := hopened.mpr hcontra
      rw [hunknown.mpr h] at this
      cases this

theorem isAfterHours_error {hours : Json} {t : ℕ} (h : ¬ hours.Comparable t) :
    ∃ raised, isAfterHours hours t = .error raised := by
  have hfalsy : hours.falsy = false := by
    cases hfalsy : hours.falsy with
    | true => exact absurd (.inl hfalsy) h
    | false => rfl
  by_cases hclock : wallClock t < clockEnd
  · cases hours with
    | object entries =>
      rw [isAfterHours_object hfalsy hclock]
      by_cases hyesterday : ∀ w ∈ window? (entries.lookup (dayKey ((wallClock t / day + 6) % 7))),
          Plain w ∨ EndsOnItsDay w
      · obtain ⟨spilled, hspilled, hspill⟩ := spillOver_ok hyesterday (wallClock t % day)
        rw [hspilled]
        cases spilled with
        | true => exact absurd (.inr ⟨⟨entries, rfl⟩, hclock, hyesterday, .inl (hspill.mp rfl)⟩) h
        | false =>
          refine ⟨.typeError, todaysAnswer_error ?_ _⟩
          exact fun htoday => h (.inr ⟨⟨entries, rfl⟩, hclock, hyesterday, .inr htoday⟩)
      · rw [spillOver_error hyesterday]
        exact ⟨.typeError, rfl⟩
    | _ =>
      refine ⟨.attributeError, ?_⟩
      unfold isAfterHours
      rw [hfalsy, if_neg (by decide), if_neg (Nat.not_le.mpr hclock)]
      rfl
  · refine ⟨.overflowError, ?_⟩
    unfold isAfterHours
    rw [hfalsy, if_neg (by decide), if_pos (Nat.not_lt.mp hclock)]
    rfl

/-- **A reading gives the answer of the timeline exactly where it meets nothing it cannot
compare.** -/
theorem isAfterHours_timeline (hours : Json) (t : ℕ) :
    (∃ verdict, isAfterHours hours t = .ok verdict ∧ Timeline hours t verdict) ↔
      hours.Comparable t := by
  refine ⟨?_, isAfterHours_ok⟩
  rintro ⟨verdict, hverdict, -⟩
  by_contra hnot
  obtain ⟨raised, hraised⟩ := isAfterHours_error hnot
  rw [hverdict] at hraised
  cases hraised

/-! ## The roster -/

/-- A colleague calls are handed over to. -/
structure RosterMember where
  label : String
  phoneE164 : String
  hours : Json
  active : Bool

inductive Unavailable where
  | disabled
  | noMembers
  | noneActive
  | hoursUnknown
  | outsideHours
  deriving DecidableEq, Repr

structure OnDuty where
  member : Option RosterMember
  reason : Option Unavailable

/-- `member.hours if member.hours else agent_hours`. -/
def RosterMember.ownHours (agentHours : Json) (m : RosterMember) : Json :=
  if m.hours.falsy then agentHours else m.hours

/-- The loop of `resolve_on_duty`. -/
def firstOpen (agentHours : Json) (t : ℕ) : List RosterMember → Bool → Except Raised OnDuty
  | [], sawUnknown => return ⟨none, some (if sawUnknown then .hoursUnknown else .outsideHours)⟩
  | m :: rest, sawUnknown => do
    match ← isAfterHours (m.ownHours agentHours) t with
    | some false => return ⟨some m, none⟩
    | some true => firstOpen agentHours t rest sawUnknown
    | none => firstOpen agentHours t rest true

/-- **`resolve_on_duty`**. -/
def resolveOnDuty (members : List RosterMember) (enabled : Bool) (agentHours : Json) (t : ℕ) :
    Except Raised OnDuty :=
  if !enabled then return ⟨none, some .disabled⟩
  else if members.isEmpty then return ⟨none, some .noMembers⟩
  else if (members.filter (·.active)).isEmpty then return ⟨none, some .noneActive⟩
  else firstOpen agentHours t (members.filter (·.active)) false

/-- The first member whose hours are open, or none where nobody's are. -/
def FirstOpen (agentHours : Json) (t : ℕ) (members : List RosterMember) :
    Option RosterMember → Prop
  | none => ∀ m ∈ members, ¬ (m.ownHours agentHours).OpenAt t
  | some m => ∃ before after, members = before ++ m :: after ∧
      (m.ownHours agentHours).OpenAt t ∧ ∀ b ∈ before, ¬ (b.ownHours agentHours).OpenAt t

/-- The hours of every member up to the first whose hours are open can be compared. -/
def AskedComparable (agentHours : Json) (t : ℕ) (members : List RosterMember) : Prop :=
  ∀ before m after, members = before ++ m :: after →
    (∀ b ∈ before, ¬ (b.ownHours agentHours).OpenAt t) → (m.ownHours agentHours).Comparable t

variable {agentHours : Json} {t : ℕ} {m : RosterMember} {members : List RosterMember}

theorem askedComparable_cons :
    AskedComparable agentHours t (m :: members) ↔
      (m.ownHours agentHours).Comparable t ∧
        (¬ (m.ownHours agentHours).OpenAt t → AskedComparable agentHours t members) := by
  constructor
  · intro h
    refine ⟨h [] m members rfl (by simp), ?_⟩
    intro hnot before b after hsplit hbefore
    refine h (m :: before) b after (congrArg (m :: ·) hsplit) ?_
    exact List.forall_mem_cons.mpr ⟨hnot, hbefore⟩
  · rintro ⟨hm, hrest⟩ before b after hsplit hbefore
    cases before with
    | nil =>
      obtain ⟨rfl, -⟩ := List.cons.inj hsplit
      exact hm
    | cons c before =>
      obtain ⟨rfl, htail⟩ := List.cons.inj hsplit
      obtain ⟨hc, hbefore⟩ := List.forall_mem_cons.mp hbefore
      exact hrest hc before b after htail hbefore

/-- A closed member leaves the question to the others. -/
theorem firstOpen_cons {found : Option RosterMember}
    (hnot : ¬ (m.ownHours agentHours).OpenAt t) (h : FirstOpen agentHours t members found) :
    FirstOpen agentHours t (m :: members) found := by
  cases found with
  | none => exact List.forall_mem_cons.mpr ⟨hnot, h⟩
  | some found =>
    obtain ⟨before, after, hsplit, hopen, hbefore⟩ := h
    exact ⟨m :: before, after, congrArg (m :: ·) hsplit, hopen,
      List.forall_mem_cons.mpr ⟨hnot, hbefore⟩⟩

theorem firstOpen_ok (h : AskedComparable agentHours t members) (sawUnknown : Bool) :
    ∃ duty, firstOpen agentHours t members sawUnknown = .ok duty ∧
      FirstOpen agentHours t members duty.member := by
  induction members generalizing sawUnknown with
  | nil => exact ⟨_, rfl, by simp [FirstOpen]⟩
  | cons m members ih =>
    obtain ⟨hm, hrest⟩ := (askedComparable_cons).mp h
    obtain ⟨verdict, hverdict, htimeline⟩ := isAfterHours_ok hm
    unfold firstOpen
    rw [hverdict]
    cases verdict with
    | none =>
      have hnot := (htimeline.unknown.mp rfl).1
      obtain ⟨duty, hduty, hfirst⟩ := ih (hrest hnot) true
      exact ⟨duty, hduty, firstOpen_cons hnot hfirst⟩
    | some outside =>
      cases outside with
      | false =>
        refine ⟨⟨some m, none⟩, rfl, [], members, rfl, htimeline.opened.mp rfl, by simp⟩
      | true =>
        have hnot : ¬ (m.ownHours agentHours).OpenAt t := fun hopen => by
          cases htimeline.opened.mpr hopen
        obtain ⟨duty, hduty, hfirst⟩ := ih (hrest hnot) sawUnknown
        exact ⟨duty, hduty, firstOpen_cons hnot hfirst⟩

theorem firstOpen_error (h : ¬ AskedComparable agentHours t members) (sawUnknown : Bool) :
    ∃ raised, firstOpen agentHours t members sawUnknown = .error raised := by
  induction members generalizing sawUnknown with
  | nil =>
    refine absurd ?_ h
    intro before m after hsplit
    cases before <;> cases hsplit
  | cons m members ih =>
    unfold firstOpen
    by_cases hm : (m.ownHours agentHours).Comparable t
    · obtain ⟨verdict, hverdict, htimeline⟩ := isAfterHours_ok hm
      rw [askedComparable_cons, not_and] at h
      obtain ⟨hnot, hrest⟩ := Classical.not_imp.mp (h hm)
      rw [hverdict]
      cases verdict with
      | none => exact ih hrest true
      | some outside =>
        cases outside with
        | false => exact absurd (htimeline.opened.mp rfl) hnot
        | true => exact ih hrest sawUnknown
    · obtain ⟨raised, hraised⟩ := isAfterHours_error hm
      rw [hraised]
      exact ⟨raised, rfl⟩

/-- An enabled roster is asked in its order. -/
theorem resolveOnDuty_eq (members : List RosterMember) (agentHours : Json) (t : ℕ) :
    (resolveOnDuty members true agentHours t).map OnDuty.member =
      (firstOpen agentHours t (members.filter (·.active)) false).map OnDuty.member := by
  unfold resolveOnDuty
  rw [if_neg (by decide)]
  split
  case isTrue hempty =>
    obtain rfl := List.isEmpty_iff.mp hempty
    rfl
  case isFalse =>
    split
    case isTrue hempty =>
      rw [List.isEmpty_iff.mp hempty]
      rfl
    case isFalse => rfl

/-- **Opening hours are the weekly timeline, and the colleague on duty is the first whose hours
are open, exactly where nothing is met that cannot be compared.** -/
theorem businessHours_timeline_iff (hours agentHours : Json) (members : List RosterMember)
    (t : ℕ) :
    ((∃ verdict, isAfterHours hours t = .ok verdict ∧ Timeline hours t verdict) ↔
      hours.Comparable t) ∧
    ((∃ duty, resolveOnDuty members true agentHours t = .ok duty ∧
        FirstOpen agentHours t (members.filter (·.active)) duty.member) ↔
      AskedComparable agentHours t (members.filter (·.active))) := by
  refine ⟨isAfterHours_timeline hours t, ?_⟩
  have hsame := resolveOnDuty_eq members agentHours t
  constructor
  · rintro ⟨duty, hduty, -⟩
    by_contra hnot
    obtain ⟨raised, hraised⟩ := firstOpen_error hnot false
    rw [hduty, hraised] at hsame
    cases hsame
  · intro hasked
    obtain ⟨duty, hduty, hfirst⟩ := firstOpen_ok hasked false
    rw [hduty] at hsame
    cases hresolved : resolveOnDuty members true agentHours t with
    | error raised =>
      rw [hresolved] at hsame
      cases hsame
    | ok found =>
      rw [hresolved] at hsame
      refine ⟨found, rfl, ?_⟩
      rw [Except.ok.inj hsame]
      exact hfirst

/-- Hours written with the offset of India. -/
def offsetHours : Json :=
  .object [("mon", .object [("opens", .string "09:30+05:30"), ("closes", .string "18:00+05:30")])]

/-- On the first of June 2026, a Monday, at noon in India. -/
def mondayNoon : ℕ := 63915892200000000

/-- Opening times with an offset do not read as unknown: the reading raises. -/
theorem businessHours_raise :
    isAfterHours offsetHours mondayNoon = .error .typeError ∧
      ¬ ∀ hours t, ∃ verdict, isAfterHours hours t = .ok verdict ∧ Timeline hours t verdict := by
  have hraises : isAfterHours offsetHours mondayNoon = .error .typeError := by
    decide +kernel
  refine ⟨hraises, fun hall => ?_⟩
  obtain ⟨verdict, hverdict, -⟩ := hall offsetHours mondayNoon
  rw [hraises] at hverdict
  cases hverdict

end Calevate.Agents
