import Calevate.Lib.ClockText
import Calevate.Lib.Months

/-!
# ISO 8601 texts

An instant is a count of microseconds since the first of January of year 1 (`dateOf` is the
date of a day counted so), and `writeInstant` is its ISO text in UTC. `readInstant` reads the
spellings with dashes and colons: a date, and behind any one character a time of the day, its
seconds and their fraction where they are given, and the offset of its wall clock. What the
writer writes reads back (`readInstant_writeInstant`).
-/

namespace Lib

namespace IsoText

open Calendar ClockText

/-! ## Dates since year 1 -/

/-- The days of two thousand years less those from year 1 to 1970: the calendar repeats every
four hundred years, and its day numbers begin in 1970. -/
def dayShift : ℕ := 11323

/-- The date of a day since the first of January of year 1. -/
def dateOf (n : ℕ) : Date :=
  let d := civilOfDays (n + dayShift)
  ⟨d.year - 2000, d.month, d.dom⟩

/-- The day a date is. -/
def dayOf (d : Date) : ℕ := daysOfCivil ⟨d.year + 2000, d.month, d.dom⟩ - dayShift

/-- No year of a day since year 1 is before it. -/
theorem year_shifted (n : ℕ) : 2001 ≤ (civilOfDays (n + dayShift)).year := by
  obtain ⟨hlo, hhi⟩ := civilOfDays_month (n + dayShift)
  have hmono := monthOf_mono 0 (Nat.mul_le_mul_right day (Nat.le_add_left dayShift n))
  have hzero : monthOf 0 (dayShift * day) = 24012 := by decide
  have hday : monthOf 0 ((n + dayShift) * day) = monthIndex (civilOfDays (n + dayShift)) := by
    unfold monthOf
    rw [Nat.add_zero, Nat.mul_div_cancel _ (by decide)]
  unfold monthIndex at hday
  omega

theorem dayOf_dateOf (n : ℕ) : dayOf (dateOf n) = n := by
  have hyear := year_shifted n
  have hback := daysOfCivil_civilOfDays (n + dayShift)
  unfold dayOf dateOf
  dsimp only
  rw [Nat.sub_add_cancel (by omega), hback, Nat.add_sub_cancel]

/-- The days of the calendar are dates of it. -/
theorem valid_dateOf {n : ℕ} (h : n < 3652059) : valid (dateOf n) = true := by
  obtain ⟨hlo, hhi⟩ := civilOfDays_month (n + dayShift)
  have hyear := year_shifted n
  have hdom := civilOfDays_dom_le (n + dayShift)
  have hpos : 1 ≤ (civilOfDays (n + dayShift)).dom := Nat.succ_pos _
  have hlast : (civilOfDays (n + dayShift)).year ≤ 11999 := by
    have hmono := monthOf_mono 0 (Nat.mul_le_mul_right day (show n + dayShift ≤ 3663381 by
      unfold dayShift
      omega))
    have hend : monthOf 0 (3663381 * day) = 143999 := by decide
    have hday : monthOf 0 ((n + dayShift) * day) = monthIndex (civilOfDays (n + dayShift)) := by
      unfold monthOf
      rw [Nat.add_zero, Nat.mul_div_cancel _ (by decide)]
    unfold monthIndex at hday
    omega
  -- four hundred years on a month is as long
  have hsame : daysInMonth ((civilOfDays (n + dayShift)).year - 2000)
      (civilOfDays (n + dayShift)).month =
      daysInMonth (civilOfDays (n + dayShift)).year (civilOfDays (n + dayShift)).month := by
    unfold daysInMonth
    generalize (civilOfDays (n + dayShift)).year = y at *
    split_ifs <;> omega
  refine decide_eq_true ⟨?_, ?_, hlo, hhi, hpos, ?_⟩
  · change 1 ≤ (civilOfDays (n + dayShift)).year - 2000
    omega
  · change (civilOfDays (n + dayShift)).year - 2000 ≤ 9999
    omega
  · exact hdom.trans_eq hsame.symm

/-! ## Writing -/

/-- Six digits. -/
def pad6 (n : ℕ) : List Char :=
  [digit (n / 100000), digit (n / 10000), digit (n / 1000), digit (n / 100), digit (n / 10), digit n]

/-- The time of a day, with a fraction where there is one. -/
def writeClock (clock : ℕ) : List Char :=
  pad2 (clock / hour) ++ ':' :: pad2 (clock / minute % 60) ++ ':' :: pad2 (clock / second % 60) ++
    (if clock % second = 0 then [] else '.' :: pad6 (clock % second))

/-- `isoformat` of an instant in UTC. -/
def writeInstant (t : ℕ) : List Char :=
  writeDate (dateOf (t / day)) ++ 'T' :: writeClock (t % day) ++ ['+', '0', '0', ':', '0', '0']

/-! ## Reading -/

/-- Two digits. -/
def two? : List Char → Option (ℕ × List Char)
  | a :: b :: rest => do return ((← ascii? 0 9 a) * 10 + (← ascii? 0 9 b), rest)
  | _ => none

/-- Two digits behind a colon. -/
def colonTwo? : List Char → Option (ℕ × List Char)
  | ':' :: rest => two? rest
  | _ => none

/-- Four digits. -/
def four? (text : List Char) : Option (ℕ × List Char) := do
  let (high, rest) ← two? text
  let (low, rest) ← two? rest
  return (high * 100 + low, rest)

/-- Two digits behind a dash. -/
def dashTwo? : List Char → Option (ℕ × List Char)
  | '-' :: rest => two? rest
  | _ => none

/-- A date, and its day since year 1. -/
def date? (text : List Char) : Option (ℕ × List Char) := do
  let (year, rest) ← four? text
  let (month, rest) ← dashTwo? rest
  let (dom, rest) ← dashTwo? rest
  if valid ⟨year, month, dom⟩ then some (dayOf ⟨year, month, dom⟩, rest) else none

/-- The digits of a fraction, as millionths. -/
def millionths (digits : List ℕ) : ℕ :=
  (digits.take 6).foldl (fun n d => n * 10 + d) 0 * 10 ^ (6 - (digits.take 6).length)

/-- The digits a text begins with. -/
def digits? : List Char → List ℕ × List Char
  | [] => ([], [])
  | c :: rest =>
    match ascii? 0 9 c with
    | none => ([], c :: rest)
    | some d => let (ds, rest) := digits? rest; (d :: ds, rest)

/-- A fraction of a second, where there is one. -/
def fraction? : List Char → Option (ℕ × List Char)
  | c :: rest =>
    if c = '.' ∨ c = ',' then
      let (ds, rest) := digits? rest
      if ds = [] then none else some (millionths ds, rest)
    else some (0, c :: rest)
  | [] => some (0, [])

/-- Seconds and their fraction, where they are given. -/
def seconds? (text : List Char) : Option (ℕ × List Char) :=
  match colonTwo? text with
  | none => some (0, text)
  | some (seconds, rest) => do
    let (fraction, rest) ← fraction? rest
    if seconds < 60 then some (seconds * second + fraction, rest) else none

/-- A time of the day, from its hour on. -/
def clock? (text : List Char) : Option (ℕ × List Char) := do
  let (hours, rest) ← two? text
  let (minutes, rest) := (colonTwo? rest).getD (0, rest)
  let (seconds, rest) ← seconds? rest
  if hours < 24 ∧ minutes < 60 then some (hours * hour + minutes * minute + seconds, rest)
  else none

/-- An offset, to the end of the text: none where the text ends, and none of a day or more. -/
def offset? : List Char → Option (Option ℤ)
  | [] => some none
  | ['Z'] => some (some 0)
  | '+' :: rest =>
    match clock? rest with
    | some (offset, []) => some (some offset)
    | _ => none
  | '-' :: rest =>
    match clock? rest with
    | some (offset, []) => some (some (-offset))
    | _ => none
  | _ => none

/-- `fromisoformat`, of a text with dashes and colons: the wall clock and its offset. -/
def readInstant (text : List Char) : Option (ℕ × Option ℤ) := do
  let (n, rest) ← date? text
  match rest with
  | [] => return (n * day, none)
  | _ :: rest =>
    let (clock, rest) ← clock? rest
    let offset ← offset? rest
    return (n * day + clock, offset)

/-! ## Reading back -/

theorem ascii?_digit (n : ℕ) : ascii? 0 9 (digit n) = some (n % 10) := by
  have hall : ∀ k < 10, ascii? 0 9 (Char.ofNat (k + 48)) = some k := by decide
  exact hall (n % 10) (Nat.mod_lt n (by decide))

theorem two?_pad2 {n : ℕ} (h : n < 100) (rest : List Char) : two? (pad2 n ++ rest) = some (n, rest) := by
  have hsum : n / 10 % 10 * 10 + n % 10 = n := by omega
  simp [two?, pad2, ascii?_digit, hsum]

theorem four?_pad4 {n : ℕ} (h : n < 10000) (rest : List Char) :
    four? (pad4 n ++ rest) = some (n, rest) := by
  have hsum : (n / 1000 % 10 * 10 + n / 100 % 10) * 100 + (n / 10 % 10 * 10 + n % 10) = n := by
    omega
  simp [four?, two?, pad4, ascii?_digit, hsum]

/-- A date of the calendar reads back as its day. -/
theorem date?_writeDate {n : ℕ} (h : n < 3652059) (rest : List Char) :
    date? (writeDate (dateOf n) ++ rest) = some (n, rest) := by
  have hvalid := valid_dateOf h
  obtain ⟨-, hyear, -, hmonth, -, hdom⟩ := of_decide_eq_true hvalid
  have hlong := daysInMonth_le (dateOf n).year (dateOf n).month
  have hday := dayOf_dateOf n
  generalize dateOf n = d at *
  obtain ⟨year, month, dom⟩ := d
  dsimp only at hyear hmonth hdom hlong
  have hy : ∀ rest, four? (pad4 year ++ rest) = some (year, rest) := four?_pad4 (by omega)
  have hm : ∀ rest, two? (pad2 month ++ rest) = some (month, rest) := two?_pad2 (by omega)
  have hd : ∀ rest, two? (pad2 dom ++ rest) = some (dom, rest) := two?_pad2 (by omega)
  simp [date?, writeDate, dashTwo?, List.append_assoc, hy, hm, hd, hvalid, hday]

/-- The millionths of six digits. -/
theorem fraction?_pad6 {n : ℕ} (h : n < 1000000) (rest : List Char)
    (hrest : ∀ c ∈ rest.head?, ascii? 0 9 c = none) :
    fraction? ('.' :: pad6 n ++ rest) = some (n, rest) := by
  have hdigits : digits? rest = ([], rest) := by
    cases rest with
    | nil => rfl
    | cons c rest => simp [digits?, hrest c rfl]
  have hsum : ((((n / 100000 % 10 * 10 + n / 10000 % 10) * 10 + n / 1000 % 10) * 10 +
      n / 100 % 10) * 10 + n / 10 % 10) * 10 + n % 10 = n := by
    omega
  simp [fraction?, pad6, digits?, ascii?_digit, hdigits, millionths, hsum]

/-- A time of the day reads back, before what is no part of it. -/
theorem clock?_writeClock {clock : ℕ} (h : clock < day) (rest : List Char) :
    clock? (writeClock clock ++ '+' :: rest) = some (clock, '+' :: rest) := by
  have hhours : clock / hour < 24 := (Nat.div_lt_iff_lt_mul (by decide)).mpr h
  have hminutes : clock / minute % 60 < 60 := Nat.mod_lt _ (by decide)
  have hseconds : clock / second % 60 < 60 := Nat.mod_lt _ (by decide)
  have hfraction : clock % second < 1000000 := Nat.mod_lt _ (by decide)
  have hsum : clock / hour * hour + clock / minute % 60 * minute +
      (clock / second % 60 * second + clock % second) = clock := by
    have hs : second = 1000000 := rfl
    have hm : minute = 60000000 := rfl
    have hh : hour = 3600000000 := rfl
    rw [hs, hm, hh]
    omega
  have hh : ∀ rest, two? (pad2 (clock / hour) ++ rest) = some (clock / hour, rest) :=
    two?_pad2 (by omega)
  have hm : ∀ rest, two? (pad2 (clock / minute % 60) ++ rest) = some (clock / minute % 60, rest) :=
    two?_pad2 (by omega)
  have hs : ∀ rest, two? (pad2 (clock / second % 60) ++ rest) = some (clock / second % 60, rest) :=
    two?_pad2 (by omega)
  have htail : fraction? ((if clock % second = 0 then [] else '.' :: pad6 (clock % second)) ++
      '+' :: rest) = some (clock % second, '+' :: rest) := by
    split_ifs with hzero
    · rw [hzero]
      rfl
    · exact fraction?_pad6 hfraction _ (by rintro _ ⟨⟩; decide)
  simp only [clock?, writeClock, List.append_assoc, List.cons_append, hh, hm, hs, colonTwo?, seconds?,
    htail, Option.bind_eq_bind, Option.bind_some, Option.getD_some, hhours, hminutes, hseconds,
    if_true, and_self, hsum]

/-- **An instant of the calendar reads back from its text.** -/
theorem readInstant_writeInstant {t : ℕ} (h : t < 3652059 * day) :
    readInstant (writeInstant t) = some (t, some 0) := by
  have hday : t / day < 3652059 := (Nat.div_lt_iff_lt_mul (by decide)).mpr h
  have hclock : t % day < day := Nat.mod_lt _ (by decide)
  have hdate : ∀ rest, date? (writeDate (dateOf (t / day)) ++ rest) = some (t / day, rest) :=
    date?_writeDate hday
  have htime := clock?_writeClock hclock ['0', '0', ':', '0', '0']
  have hoffset : offset? ['+', '0', '0', ':', '0', '0'] = some (some 0) := by decide
  have hsplit := Nat.div_add_mod' t day
  simp only [readInstant, writeInstant, List.append_assoc, List.cons_append, hdate, htime, hoffset,
    Option.bind_eq_bind, Option.bind_some, Option.pure_def, hsplit]

end IsoText

end Lib
