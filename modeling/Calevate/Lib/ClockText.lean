import Mathlib.Tactic.IntervalCases
import Calevate.Lib.Months

/-!
# Dates and times as text

The texts `%Y-%m-%d` and `%H:%M` as a tolerant reader takes them: a month, a day or an hour
may be one digit, a day may have a blank before it, and a digit that is not bound to a range
may be a decimal digit of any script. The writer pads with zeros, and what it writes reads
back (`readDate_writeDate`, `readTime_writeTime`). A date counts the days before it as a
whole number, so that a date long gone is long gone, and the next day is one day later
(`dayNumber_nextDay`).
-/

namespace Lib

namespace ClockText

open Calendar

/-! ## Characters -/

/-- The characters with value zero in the blocks of decimal digits. -/
def decimalZeros : List ℕ :=
  [0x30, 0x660, 0x6f0, 0x7c0, 0x966, 0x9e6, 0xa66, 0xae6, 0xb66, 0xbe6, 0xc66, 0xce6, 0xd66,
    0xde6, 0xe50, 0xed0, 0xf20, 0x1040, 0x1090, 0x17e0, 0x1810, 0x1946, 0x19d0, 0x1a80, 0x1a90,
    0x1b50, 0x1bb0, 0x1c40, 0x1c50, 0xa620, 0xa8d0, 0xa900, 0xa9d0, 0xa9f0, 0xaa50, 0xabf0,
    0xff10, 0x104a0, 0x10d30, 0x11066, 0x110f0, 0x11136, 0x111d0, 0x112f0, 0x11450, 0x114d0,
    0x11650, 0x116c0, 0x11730, 0x118e0, 0x11950, 0x11c50, 0x11d50, 0x11da0, 0x11f50, 0x16a60,
    0x16ac0, 0x16b50, 0x1d7ce, 0x1d7d8, 0x1d7e2, 0x1d7ec, 0x1d7f6, 0x1e140, 0x1e2f0, 0x1e4f0,
    0x1e950, 0x1fbf0]

/-- The value of a decimal digit. -/
def decimal? (c : Char) : Option ℕ :=
  (decimalZeros.find? fun z => z ≤ c.toNat ∧ c.toNat < z + 10).map fun z => c.toNat - z

/-- The value of an ASCII digit between two bounds. -/
def ascii? (lo hi : ℕ) (c : Char) : Option ℕ :=
  if lo + 48 ≤ c.toNat ∧ c.toNat ≤ hi + 48 then some (c.toNat - 48) else none

/-- White space. -/
def isSpace (c : Char) : Bool :=
  (9 ≤ c.toNat ∧ c.toNat ≤ 13) ∨ (0x1c ≤ c.toNat ∧ c.toNat ≤ 0x20) ∨ c.toNat = 0x85 ∨
    c.toNat = 0xa0 ∨ c.toNat = 0x1680 ∨ (0x2000 ≤ c.toNat ∧ c.toNat ≤ 0x200a) ∨
    c.toNat = 0x2028 ∨ c.toNat = 0x2029 ∨ c.toNat = 0x202f ∨ c.toNat = 0x205f ∨ c.toNat = 0x3000

/-- The text without the white space around it. -/
def strip (text : List Char) : List Char :=
  ((text.dropWhile isSpace).reverse.dropWhile isSpace).reverse

/-! ## Reading -/

/-- `%Y` and the dash behind it. -/
def year? : List Char → Option (ℕ × List Char)
  | a :: b :: c :: d :: '-' :: rest => do
    return ((← decimal? a) * 1000 + (← decimal? b) * 100 + (← decimal? c) * 10 + (← decimal? d),
      rest)
  | _ => none

/-- `%m` and the dash behind it. -/
def month? : List Char → Option (ℕ × List Char)
  | '1' :: c :: '-' :: rest => do return (10 + (← ascii? 0 2 c), rest)
  | '0' :: c :: '-' :: rest => do return (← ascii? 1 9 c, rest)
  | c :: '-' :: rest => do return (← ascii? 1 9 c, rest)
  | _ => none

/-- `%d`, to the end. -/
def dom? : List Char → Option ℕ
  | ['3', c] => do return 30 + (← ascii? 0 1 c)
  | ['2', c] => do return 20 + (← decimal? c)
  | ['1', c] => do return 10 + (← decimal? c)
  | ['0', c] => ascii? 1 9 c
  | [' ', c] => ascii? 1 9 c
  | [c] => ascii? 1 9 c
  | _ => none

/-- The date is one of the calendar. -/
def valid (d : Date) : Bool :=
  1 ≤ d.year ∧ d.year ≤ 9999 ∧ 1 ≤ d.month ∧ d.month ≤ 12 ∧ 1 ≤ d.dom ∧
    d.dom ≤ daysInMonth d.year d.month

/-- `%Y-%m-%d`. -/
def readDate (text : List Char) : Option Date := do
  let (year, rest) ← year? text
  let (month, rest) ← month? rest
  let dom ← dom? rest
  if valid ⟨year, month, dom⟩ then some ⟨year, month, dom⟩ else none

/-- `%H` and the colon behind it. -/
def hour? : List Char → Option (ℕ × List Char)
  | '2' :: c :: ':' :: rest => do return (20 + (← ascii? 0 3 c), rest)
  | '1' :: c :: ':' :: rest => do return (10 + (← decimal? c), rest)
  | '0' :: c :: ':' :: rest => do return (← decimal? c, rest)
  | c :: ':' :: rest => do return (← decimal? c, rest)
  | _ => none

/-- `%M`, to the end. -/
def minute? : List Char → Option ℕ
  | [a, c] => do return (← ascii? 0 5 a) * 10 + (← decimal? c)
  | [c] => decimal? c
  | _ => none

/-- `%H:%M`, as minutes of the day. -/
def readTime (text : List Char) : Option ℕ := do
  let (hour, rest) ← hour? text
  let minute ← minute? rest
  return hour * 60 + minute

/-! ## Writing -/

/-- A digit. -/
def digit (n : ℕ) : Char := Char.ofNat (n % 10 + 48)

/-- Two digits. -/
def pad2 (n : ℕ) : List Char := [digit (n / 10), digit n]

/-- Four digits. -/
def pad4 (n : ℕ) : List Char := [digit (n / 1000), digit (n / 100), digit (n / 10), digit n]

/-- `%Y-%m-%d`. -/
def writeDate (d : Date) : List Char := pad4 d.year ++ '-' :: pad2 d.month ++ '-' :: pad2 d.dom

/-- `%H:%M` of the minutes of a day. -/
def writeTime (minutes : ℕ) : List Char := pad2 (minutes / 60) ++ ':' :: pad2 (minutes % 60)

/-! ## Reading back -/

theorem decimal?_digit (n : ℕ) : decimal? (digit n) = some (n % 10) := by
  have hall : ∀ k < 10, decimal? (Char.ofNat (k + 48)) = some k := by decide
  exact hall (n % 10) (Nat.mod_lt n (by decide))

theorem year?_pad4 {n : ℕ} (h : n ≤ 9999) (rest : List Char) :
    year? (pad4 n ++ '-' :: rest) = some (n, rest) := by
  have hsum : n / 1000 % 10 * 1000 + n / 100 % 10 * 100 + n / 10 % 10 * 10 + n % 10 = n := by
    omega
  simp [year?, pad4, decimal?_digit, hsum]

theorem month?_pad2 {n : ℕ} (hlo : 1 ≤ n) (hhi : n ≤ 12) (rest : List Char) :
    month? (pad2 n ++ '-' :: rest) = some (n, rest) := by
  interval_cases n <;> rfl

theorem dom?_pad2 {n : ℕ} (hlo : 1 ≤ n) (hhi : n ≤ 31) : dom? (pad2 n) = some n := by
  interval_cases n <;> rfl

theorem hour?_pad2 {n : ℕ} (h : n < 24) (rest : List Char) :
    hour? (pad2 n ++ ':' :: rest) = some (n, rest) := by
  interval_cases n <;> rfl

theorem minute?_pad2 {n : ℕ} (h : n < 60) : minute? (pad2 n) = some n := by
  interval_cases n <;> rfl

theorem daysInMonth_le (year month : ℕ) : daysInMonth year month ≤ 31 := by
  unfold daysInMonth
  split
  · split <;> omega
  · split <;> omega

/-- **A date that is written reads back.** -/
theorem readDate_writeDate {d : Date} (h : valid d = true) : readDate (writeDate d) = some d := by
  obtain ⟨hy, hy', hm, hm', hd, hd'⟩ := of_decide_eq_true h
  have hdom := hd'.trans (daysInMonth_le d.year d.month)
  have htext : writeDate d = pad4 d.year ++ '-' :: (pad2 d.month ++ '-' :: pad2 d.dom) := by
    simp [writeDate]
  simp [readDate, htext, year?_pad4 hy', month?_pad2 hm hm', dom?_pad2 hd hdom, h]

/-- **And so does a time.** -/
theorem readTime_writeTime {minutes : ℕ} (h : minutes < 24 * 60) :
    readTime (writeTime minutes) = some minutes := by
  have hhour : minutes / 60 < 24 := by omega
  have hminute : minutes % 60 < 60 := by omega
  have hsum : minutes / 60 * 60 + minutes % 60 = minutes := by omega
  simp [readTime, writeTime, hour?_pad2 hhour, minute?_pad2 hminute, hsum]

theorem isSpace_digit (n : ℕ) : isSpace (digit n) = false := by
  have hall : ∀ k < 10, isSpace (Char.ofNat (k + 48)) = false := by decide
  exact hall (n % 10) (Nat.mod_lt n (by decide))

/-- Nothing is stripped off a text between two digits. -/
theorem strip_digits (n m : ℕ) (text : List Char) :
    strip (digit n :: (text ++ [digit m])) = digit n :: (text ++ [digit m]) := by
  simp [strip, isSpace_digit]

theorem strip_writeDate (d : Date) : strip (writeDate d) = writeDate d :=
  strip_digits (d.year / 1000) d.dom
    (digit (d.year / 100) :: digit (d.year / 10) :: digit d.year :: '-' :: digit (d.month / 10) ::
      digit d.month :: '-' :: [digit (d.dom / 10)])

theorem strip_writeTime (minutes : ℕ) : strip (writeTime minutes) = writeTime minutes :=
  strip_digits (minutes / 60 / 10) (minutes % 60)
    (digit (minutes / 60) :: ':' :: [digit (minutes % 60 / 10)])

/-! ## What is read -/

theorem decimal?_lt {c : Char} {n : ℕ} (h : decimal? c = some n) : n < 10 := by
  simp only [decimal?, Option.map_eq_some_iff] at h
  obtain ⟨z, hfind, hn⟩ := h
  have hz := List.find?_some hfind
  simp only [decide_eq_true_eq] at hz
  omega

theorem ascii?_le {lo hi : ℕ} {c : Char} {n : ℕ} (h : ascii? lo hi c = some n) : n ≤ hi := by
  unfold ascii? at h
  split at h
  · rename_i hbounds
    cases h
    omega
  · cases h

theorem hour?_lt {text rest : List Char} {n : ℕ} (h : hour? text = some (n, rest)) : n < 24 := by
  unfold hour? at h
  split at h
  · obtain ⟨k, hk, hn⟩ := Option.bind_eq_some_iff.1 h
    cases hn
    have := ascii?_le hk
    omega
  · obtain ⟨k, hk, hn⟩ := Option.bind_eq_some_iff.1 h
    cases hn
    have := decimal?_lt hk
    omega
  · obtain ⟨k, hk, hn⟩ := Option.bind_eq_some_iff.1 h
    cases hn
    exact (decimal?_lt hk).trans (by decide)
  · obtain ⟨k, hk, hn⟩ := Option.bind_eq_some_iff.1 h
    cases hn
    exact (decimal?_lt hk).trans (by decide)
  · cases h

theorem minute?_lt {text : List Char} {n : ℕ} (h : minute? text = some n) : n < 60 := by
  unfold minute? at h
  split at h
  · obtain ⟨tens, htens, h⟩ := Option.bind_eq_some_iff.1 h
    obtain ⟨ones, hones, hn⟩ := Option.bind_eq_some_iff.1 h
    cases hn
    have := ascii?_le htens
    have := decimal?_lt hones
    omega
  · exact (decimal?_lt h).trans (by decide)
  · cases h

/-- **A time that is read is one of the day.** -/
theorem readTime_lt {text : List Char} {n : ℕ} (h : readTime text = some n) : n < 24 * 60 := by
  obtain ⟨⟨hr, rest⟩, hhour, h⟩ := Option.bind_eq_some_iff.1 h
  obtain ⟨mn, hminute, hn⟩ := Option.bind_eq_some_iff.1 h
  cases hn
  have := hour?_lt hhour
  have := minute?_lt hminute
  omega

/-- **A date that is read is one of the calendar.** -/
theorem valid_readDate {text : List Char} {d : Date} (h : readDate text = some d) :
    valid d = true := by
  obtain ⟨year, -, h⟩ := Option.bind_eq_some_iff.1 h
  obtain ⟨month, -, h⟩ := Option.bind_eq_some_iff.1 h
  obtain ⟨dom, -, h⟩ := Option.bind_eq_some_iff.1 h
  split at h
  · rename_i hvalid
    cases h
    exact hvalid
  · cases h

/-! ## Days -/

/-- The days from the first of January 1970 to the date. -/
def dayNumber (d : Date) : ℤ :=
  let y := if d.month ≤ 2 then d.year - 1 else d.year
  let yoe := y % 400
  let mp := if 2 < d.month then d.month - 3 else d.month + 9
  let doy := (153 * mp + 2) / 5 + d.dom - 1
  ((y / 400 * 146097 + (yoe * 365 + yoe / 4 - yoe / 100 + doy) : ℕ) : ℤ) - 719468

/-- The date after, if there is one. -/
def nextDay (d : Date) : Option Date :=
  if d.dom < daysInMonth d.year d.month then some { d with dom := d.dom + 1 }
  else if d.month < 12 then some ⟨d.year, d.month + 1, 1⟩
  else if d.year < 9999 then some ⟨d.year + 1, 1, 1⟩
  else none

theorem valid_nextDay {d d' : Date} (h : valid d = true) (hn : nextDay d = some d') :
    valid d' = true := by
  obtain ⟨hy, hy', hm, hm', hd, hd'⟩ := of_decide_eq_true h
  have hlong : ∀ year month, 1 ≤ daysInMonth year month := by
    intro year month
    unfold daysInMonth
    split
    · split <;> omega
    · split <;> omega
  unfold nextDay at hn
  split at hn
  · rename_i hlt
    cases hn
    exact decide_eq_true ⟨hy, hy', hm, hm', by simp, hlt⟩
  · split at hn
    · rename_i hmonth
      cases hn
      exact decide_eq_true ⟨hy, hy', by simp, hmonth, le_rfl, hlong _ _⟩
    · split at hn
      · rename_i hyear
        cases hn
        exact decide_eq_true ⟨by simp, hyear, le_rfl, by simp, le_rfl, hlong _ _⟩
      · cases hn

/-- The number of a date, by the years before the March its year is counted from. -/
theorem dayNumber_eq (y m d : ℕ) : dayNumber ⟨y, m, d⟩ =
    ((beforeMarch (if m ≤ 2 then y - 1 else y) +
      ((153 * (if 2 < m then m - 3 else m + 9) + 2) / 5 + d - 1) : ℕ) : ℤ) - 719468 := by
  unfold dayNumber beforeMarch
  rw [Nat.add_assoc]

/-- The first of a month is the day behind the last of the month before. -/
theorem dayNumber_succ_month {year month : ℕ} (hy : 1 ≤ year) (hm : 1 ≤ month)
    (hm' : month < 12) :
    dayNumber ⟨year, month + 1, 1⟩ = dayNumber ⟨year, month, daysInMonth year month⟩ + 1 := by
  rw [dayNumber_eq, dayNumber_eq]
  by_cases hfeb : month = 2
  · -- March is the first month of its own year, and February the last of the one before
    have hmarch := beforeMarch_succ (year - 1)
    rw [Nat.sub_add_cancel hy] at hmarch
    have hlong : 1 ≤ daysInMonth year 2 := by
      unfold daysInMonth
      rw [if_pos rfl]
      split
      · decide
      · decide
    subst hfeb
    rw [if_neg (by decide), if_pos (by decide), if_pos (by decide), if_neg (by decide)]
    omega
  · have hsame : (if month + 1 ≤ 2 then year - 1 else year) =
        if month ≤ 2 then year - 1 else year := by
      split
      · rw [if_pos (by omega)]
      · rw [if_neg (by omega)]
    rw [hsame]
    generalize beforeMarch (if month ≤ 2 then year - 1 else year) = before
    unfold daysInMonth
    rw [if_neg hfeb]
    interval_cases month <;> simp at hfeb ⊢ <;> omega

/-- **The next day is one day later.** -/
theorem dayNumber_nextDay {d d' : Date} (h : valid d = true) (hn : nextDay d = some d') :
    dayNumber d' = dayNumber d + 1 := by
  obtain ⟨hy, -, hm, hm', hd, hd'⟩ := of_decide_eq_true h
  obtain ⟨year, month, dom⟩ := d
  simp only at hy hm hm' hd hd'
  unfold nextDay at hn
  split at hn
  · cases hn
    rw [dayNumber_eq, dayNumber_eq]
    dsimp only
    generalize beforeMarch (if month ≤ 2 then year - 1 else year) = before
    generalize (153 * (if 2 < month then month - 3 else month + 9) + 2) / 5 = start
    omega
  · rename_i hlast
    simp only at hlast
    have hlast : dom = daysInMonth year month := by omega
    split at hn
    · rename_i hmonth
      cases hn
      rw [hlast]
      exact dayNumber_succ_month hy hm hmonth
    · split at hn
      · cases hn
        have hmonth : month = 12 := by simp only at *; omega
        subst hmonth
        have hdays : daysInMonth year 12 = 31 := rfl
        rw [hlast, hdays, dayNumber_eq, dayNumber_eq, if_pos (by decide), if_neg (by decide),
          if_neg (by decide), if_pos (by decide), Nat.add_sub_cancel]
        dsimp only
        omega
      · cases hn

/-- No date is after the last one. -/
theorem dayNumber_le {d : Date} (h : valid d = true) : dayNumber d ≤ dayNumber ⟨9999, 12, 31⟩ := by
  obtain ⟨-, hy, hm, hm', -, hd⟩ := of_decide_eq_true h
  have hdom := hd.trans (daysInMonth_le d.year d.month)
  obtain ⟨year, month, dom⟩ := d
  simp only at hy hm hm' hdom
  have hlast : dayNumber ⟨9999, 12, 31⟩ = 2932896 := by decide
  rw [hlast, dayNumber_eq]
  by_cases hearly : month ≤ 2
  · have hyears : beforeMarch (year - 1) ≤ 3651694 := beforeMarch_mono (z := 9998) (by omega)
    rw [if_pos hearly, if_neg (by omega)]
    omega
  · have hyears : beforeMarch year ≤ 3652059 := beforeMarch_mono (z := 9999) hy
    rw [if_neg hearly, if_pos (by omega)]
    omega

end ClockText

end Lib
