import Calevate.Lib.ClockText
import Calevate.Lib.IndianTime
import Calevate.Lib.IsoText
import Calevate.Lib.Tx
import Calevate.Billing.Caps
import Mathlib.Data.Prod.Lex

/-!
# Billing months

A billing month is a label, `YYYY-MM`, read off the Indian wall clock of an instant
(`istBillingMonth`), and a window of instants in UTC (`istMonthWindow`), built from the two
midnights the month lies between. The two are written apart, so that they agree is a theorem:
an instant is in the window of its own month and of no other.

Instants are microseconds since the first of January of year 1, where the clock of the
language begins, and the wall clock is India's with every offset it ever had.
-/

namespace Calevate

namespace Billing

open Lib Calendar IndianTime IsoText

namespace BillingMonth

/-! ## Days and their months -/

/-- The year and month of a day since the first of January of year 1. -/
def monthOfDay (n : ℕ) : ℕ × ℕ := ((dateOf n).year, (dateOf n).month)

/-- The day the first of a month is. -/
def firstOfMonth (year month : ℕ) : ℕ := dayOf ⟨year, month, 1⟩

/-! ## Labels -/

/-- `%Y`, which is padded only by its own digits. -/
def yearText (year : ℕ) : List Char :=
  if year < 1000 then Nat.toDigits 10 year else ClockText.pad4 year

/-- `strftime("%Y-%m")`. -/
def monthText (year month : ℕ) : List Char := yearText year ++ '-' :: ClockText.pad2 month

/-- `plans.ist_billing_month`. `none` is the overflow of a wall clock past its end. -/
def istBillingMonth (t : ℕ) : Option (List Char) :=
  if wallClock t < clockEnd then
    let m := monthOfDay (wallClock t / day)
    some (monthText m.1 m.2)
  else none

/-- What a month can be refused with. -/
inductive MonthError where
  | invalidBillingMonth
  | valueError
  | overflowError
  deriving DecidableEq, Repr

/-- The month behind the dash, and the line end the pattern lets by. -/
def monthTail : List Char → Option ℕ
  | '0' :: c :: rest => if rest = [] ∨ rest = ['\n'] then ClockText.ascii? 1 9 c else none
  | '1' :: c :: rest =>
    if rest = [] ∨ rest = ['\n'] then (ClockText.ascii? 0 2 c).map (10 + ·) else none
  | _ => none

/-- **`plans.parse_billing_month`.** -/
def parseBillingMonth (month : List Char) : Except MonthError (ℕ × ℕ) :=
  match (do
    let (year, rest) ← ClockText.year? month
    let mon ← monthTail rest
    pure (year, mon) : Option (ℕ × ℕ)) with
  | some m => .ok m
  | none => .error .invalidBillingMonth

/-! ## Windows -/

/-- `datetime(year, mon, 1, tzinfo=IST)`, as its wall clock. -/
def monthStart (year month : ℕ) : Except MonthError ℕ :=
  if 1 ≤ year ∧ year ≤ 9999 then .ok (firstOfMonth year month * day) else .error .valueError

/-- `astimezone(UTC)`. -/
def toUtc (wall : ℕ) : Except MonthError ℕ :=
  if wallOffset wall ≤ wall then .ok (instant wall) else .error .overflowError

/-- The month after. -/
def nextMonth (m : ℕ × ℕ) : ℕ × ℕ := if m.2 = 12 then (m.1 + 1, 1) else (m.1, m.2 + 1)

/-- **`plans.ist_month_window`.** -/
def istMonthWindow (month : List Char) : Except MonthError (ℕ × ℕ) := do
  let m ← parseBillingMonth month
  let start ← monthStart m.1 m.2
  let nextStart ← monthStart (nextMonth m).1 (nextMonth m).2
  return (← toUtc start, ← toUtc nextStart)

/-- `plans.ist_month_end`. -/
def istMonthEnd (month : List Char) : Except MonthError ℕ := do
  let window ← istMonthWindow month
  return window.2 - 1

/-- **`plans.month_pricing_instant`**, `now` being the instant it is asked at. -/
def monthPricingInstant (month : List Char) (now : ℕ) : Except MonthError ℕ := do
  let m ← parseBillingMonth month
  let start ← monthStart m.1 m.2
  let opening ← toUtc start
  let last ← istMonthEnd month
  return min (max now opening) last

/-- **`service._month_bounds`**. -/
def monthBounds (month : List Char) (since : Option ℕ) : Except MonthError (ℕ × ℕ) := do
  let (start, stop) ← istMonthWindow month
  let floor := match since with
    | some s => if start < s ∧ s < stop then s else start
    | none => start
  return (floor, stop)

/-- **A midnight divides the instants**: those from its own instant on show a wall clock at
or past it, and no earlier one does. -/
theorem midnight (n t : ℕ) : n * day ≤ wallClock t ↔ instant (n * day) ≤ t := by
  have h := le_wallClock_iff (Or.inl rfl : Regular 0) n t
  rwa [Nat.add_zero] at h

/-! ## Days of a month -/

/-- A month's number in the calendar two thousand years on. -/
def monthNumber (m : ℕ × ℕ) : ℕ := (m.1 + 2000) * 12 + (m.2 - 1)

/-- A month of a year from year 1 on. -/
def IsMonth (m : ℕ × ℕ) : Prop := 1 ≤ m.1 ∧ 1 ≤ m.2 ∧ m.2 ≤ 12

theorem IsMonth.next {m : ℕ × ℕ} (h : IsMonth m) : IsMonth (nextMonth m) := by
  obtain ⟨hyear, hlo, hhi⟩ := h
  unfold nextMonth
  split_ifs with hdec
  · exact ⟨Nat.le_succ_of_le hyear, le_refl _, Nat.le_add_left ..⟩
  · exact ⟨hyear, Nat.le_add_left .., by dsimp only; omega⟩

theorem monthNumber_next {m : ℕ × ℕ} (h : IsMonth m) :
    monthNumber (nextMonth m) = monthNumber m + 1 := by
  obtain ⟨-, hlo, hhi⟩ := h
  unfold monthNumber nextMonth
  split_ifs with hdec <;> dsimp only <;> omega

/-- A number past the epoch's is a month's. -/
theorem epochMonth_le_monthNumber (m : ℕ × ℕ) : epochMonth ≤ monthNumber m := by
  unfold monthNumber epochMonth
  omega

theorem monthNumber_inj {m m' : ℕ × ℕ} (h : IsMonth m) (h' : IsMonth m')
    (heq : monthNumber m = monthNumber m') : m = m' := by
  obtain ⟨y, mon⟩ := m
  obtain ⟨y', mon'⟩ := m'
  obtain ⟨-, hlo, hhi⟩ := h
  obtain ⟨-, hlo', hhi'⟩ := h'
  unfold monthNumber at heq
  dsimp only at *
  have hyear : y = y' := by omega
  have hmonth : mon = mon' := by omega
  rw [hyear, hmonth]

/-- A month's first day, in the days the calendar counts. -/
theorem firstDay_monthNumber {m : ℕ × ℕ} (h : IsMonth m) :
    firstDay (monthNumber m) = firstOfMonth m.1 m.2 + dayShift := by
  obtain ⟨hyear, hlo, hhi⟩ := h
  have hdiv : monthNumber m / 12 = m.1 + 2000 := by
    unfold monthNumber
    omega
  have hmod : monthNumber m % 12 + 1 = m.2 := by
    unfold monthNumber
    omega
  have hshift : dayShift ≤ firstDay (monthNumber m) := by
    have hmono := firstDay_mono (i := monthNumber (1, 1)) (epochMonth_le_monthNumber _)
      (j := monthNumber m) (by unfold monthNumber; omega)
    exact le_trans (by decide) hmono
  rw [firstDay, hdiv, hmod] at hshift ⊢
  rw [firstOfMonth, dayOf, Nat.sub_add_cancel hshift]

/-- A day's month is a month, and its number the calendar's. -/
theorem isMonth_monthOfDay (n : ℕ) : IsMonth (monthOfDay n) ∧
    monthNumber (monthOfDay n) = monthIndex (civilOfDays (n + dayShift)) := by
  obtain ⟨hlo, hhi⟩ := civilOfDays_month (n + dayShift)
  have hyear := year_shifted n
  unfold IsMonth monthNumber monthOfDay dateOf monthIndex
  dsimp only
  omega

/-- **A day is of the month it lies in**, and of no other. -/
theorem monthOfDay_eq_iff {m : ℕ × ℕ} (h : IsMonth m) (n : ℕ) :
    monthOfDay n = m ↔
      firstOfMonth m.1 m.2 ≤ n ∧ n < firstOfMonth (nextMonth m).1 (nextMonth m).2 := by
  obtain ⟨hday, hnumber⟩ := isMonth_monthOfDay n
  have hfirst := firstDay_monthNumber h
  have hnext := firstDay_monthNumber h.next
  rw [monthNumber_next h] at hnext
  constructor
  · rintro rfl
    have hdom := civilOfDays_dom_le (n + dayShift)
    have hpos : 1 ≤ (civilOfDays (n + dayShift)).dom := Nat.succ_pos _
    have hsplit := day_eq_firstDay (n + dayShift)
    rw [← monthDays_monthIndex, ← hnumber] at hdom
    rw [← hnumber] at hsplit
    rw [firstDay_succ (epochMonth_le_monthNumber _)] at hnext
    omega
  · rintro ⟨hlo, hhi⟩
    refine monthNumber_inj hday h (hnumber.trans ?_)
    exact month_of_mem (epochMonth_le_monthNumber m) (by omega) (by omega)

/-- The first days of the months come in the order of the months. -/
theorem firstOfMonth_mono {m m' : ℕ × ℕ} (h : IsMonth m) (h' : IsMonth m')
    (hle : monthNumber m ≤ monthNumber m') :
    firstOfMonth m.1 m.2 ≤ firstOfMonth m'.1 m'.2 := by
  have hmono := firstDay_mono (epochMonth_le_monthNumber m) hle
  rw [firstDay_monthNumber h, firstDay_monthNumber h'] at hmono
  omega

theorem firstOfMonth_lt_next {m : ℕ × ℕ} (h : IsMonth m) :
    firstOfMonth m.1 m.2 < firstOfMonth (nextMonth m).1 (nextMonth m).2 := by
  have hnext := firstDay_monthNumber h.next
  have hpos : 1 ≤ monthDays (monthNumber m) := by
    unfold monthDays daysInMonth
    split_ifs <;> omega
  rw [monthNumber_next h, firstDay_succ (epochMonth_le_monthNumber _),
    firstDay_monthNumber h] at hnext
  omega

/-! ## Windows and labels -/

/-- The instant a month opens. -/
def opening (m : ℕ × ℕ) : ℕ := instant (firstOfMonth m.1 m.2 * day)

/-- **An instant is in a month's window exactly when its wall clock is in the month.** -/
theorem mem_window_iff {m : ℕ × ℕ} (h : IsMonth m) (t : ℕ) :
    opening m ≤ t ∧ t < opening (nextMonth m) ↔ monthOfDay (wallClock t / day) = m := by
  have hday : 0 < day := by decide
  rw [monthOfDay_eq_iff h, Nat.le_div_iff_mul_le hday, Nat.div_lt_iff_lt_mul hday, midnight,
    ← not_le, ← not_le, midnight]
  rfl

theorem opening_lt_next {m : ℕ × ℕ} (h : IsMonth m) : opening m < opening (nextMonth m) := by
  have hlt := Nat.mul_le_mul_right day (firstOfMonth_lt_next h)
  rw [Nat.succ_mul] at hlt
  have hday : day = 86400000000 := rfl
  have hfrom := wallOffset_cases (firstOfMonth m.1 m.2 * day)
  have hto := wallOffset_cases (firstOfMonth (nextMonth m).1 (nextMonth m).2 * day)
  unfold opening instant
  omega

theorem monthTail_bounds {rest : List Char} {mon : ℕ} (h : monthTail rest = some mon) :
    1 ≤ mon ∧ mon ≤ 12 := by
  unfold monthTail at h
  split at h
  · split_ifs at h with hend
    unfold ClockText.ascii? at h
    split_ifs at h with hdigit
    simp only [Option.some.injEq] at h
    omega
  · split_ifs at h with hend
    unfold ClockText.ascii? at h
    split_ifs at h with hdigit
    · simp only [Option.map_some, Option.some.injEq] at h
      omega
    · simp at h
  · simp at h

theorem monthTail_pad2 {mon : ℕ} (hlo : 1 ≤ mon) (hhi : mon ≤ 12) :
    monthTail (ClockText.pad2 mon) = some mon := by
  interval_cases mon <;> rfl

/-- **What a label is read as.** -/
theorem parse_ok {month : List Char} {m : ℕ × ℕ} : parseBillingMonth month = .ok m ↔
    ∃ rest, ClockText.year? month = some (m.1, rest) ∧ monthTail rest = some m.2 := by
  unfold parseBillingMonth
  obtain ⟨year, mon⟩ := m
  cases hread : ClockText.year? month with
  | none => simp
  | some read =>
    cases htail : monthTail read.2 with
    | none =>
      have : ∀ rest, read = (year, rest) → ¬ monthTail rest = some mon := by
        rintro rest rfl
        simp [show monthTail rest = none from htail]
      simpa [htail] using this
    | some n =>
      simp only [Option.bind_eq_bind, Option.bind_some, htail, Option.pure_def, Except.ok.injEq,
        Option.some.injEq, Prod.mk.injEq]
      constructor
      · rintro ⟨rfl, rfl⟩
        exact ⟨read.2, rfl, htail⟩
      · rintro ⟨rest, rfl, hrest⟩
        exact ⟨rfl, Option.some.inj (htail.symm.trans hrest)⟩

/-- A label that is read names a month of the year. -/
theorem parse_bounds {month : List Char} {m : ℕ × ℕ} (h : parseBillingMonth month = .ok m) :
    1 ≤ m.2 ∧ m.2 ≤ 12 := by
  obtain ⟨rest, -, htail⟩ := (parse_ok).mp h
  exact monthTail_bounds htail

/-- A label that is read has seven characters at least. -/
theorem length_of_parse {month : List Char} {m : ℕ × ℕ} (h : parseBillingMonth month = .ok m) :
    7 ≤ month.length := by
  obtain ⟨rest, hyear, htail⟩ := (parse_ok).mp h
  have hrest : 2 ≤ rest.length := by
    unfold monthTail at htail
    split at htail
    · exact Nat.le_add_left ..
    · exact Nat.le_add_left ..
    · cases htail
  unfold ClockText.year? at hyear
  split at hyear
  · simp only [Option.pure_def, Option.bind_eq_bind, Option.bind_eq_some_iff, Option.some.injEq,
      Prod.mk.injEq] at hyear
    obtain ⟨-, -, -, -, -, -, -, -, -, rfl⟩ := hyear
    simp only [List.length_cons]
    omega
  · cases hyear

/-- **The label of a year reads back from the year 1000 on**, and no earlier one is read. -/
theorem parse_monthText {m : ℕ × ℕ} (h : IsMonth m) (hhi : m.1 ≤ 9999) :
    if 1000 ≤ m.1 then parseBillingMonth (monthText m.1 m.2) = .ok m
    else ∀ m', parseBillingMonth (monthText m.1 m.2) ≠ .ok m' := by
  split_ifs with hlo
  · have htext : monthText m.1 m.2 = ClockText.pad4 m.1 ++ '-' :: ClockText.pad2 m.2 := by
      rw [monthText, yearText, if_neg (Nat.not_lt.mpr hlo)]
    rw [htext, parse_ok, ClockText.year?_pad4 hhi]
    exact ⟨_, rfl, monthTail_pad2 h.2.1 h.2.2⟩
  · intro m' hparse
    have hlength := length_of_parse hparse
    have hdigits : (Nat.toDigits 10 m.1).length ≤ 3 :=
      (Nat.length_toDigits_le_iff (by decide) (by decide)).mpr (by omega)
    rw [monthText, yearText, if_pos (Nat.not_le.mp hlo), List.length_append] at hlength
    simp only [List.length_cons, ClockText.pad2, List.length_nil] at hlength
    omega

theorem monthStart_ok {year month wall : ℕ} :
    monthStart year month = .ok wall ↔
      (1 ≤ year ∧ year ≤ 9999) ∧ wall = firstOfMonth year month * day := by
  unfold monthStart
  split_ifs with h
  · simp [h, eq_comm]
  · simp [h]

theorem toUtc_ok {wall t : ℕ} :
    toUtc wall = .ok t ↔ wallOffset wall ≤ wall ∧ t = instant wall := by
  unfold toUtc
  split_ifs with h
  · simp [h, eq_comm]
  · simp [h]

/-- **What a label's window is**, where it has one. -/
theorem istMonthWindow_ok {month : List Char} {window : ℕ × ℕ} :
    istMonthWindow month = .ok window ↔ ∃ m, parseBillingMonth month = .ok m ∧
      (1 ≤ m.1 ∧ (nextMonth m).1 ≤ 9999 ∧
        wallOffset (firstOfMonth m.1 m.2 * day) ≤ firstOfMonth m.1 m.2 * day) ∧
      window = (opening m, opening (nextMonth m)) := by
  have hday : 0 < day := by decide
  unfold istMonthWindow
  rw [Except.bind_ok]
  refine exists_congr fun m => and_congr_right fun hparse => ?_
  have hm : 1 ≤ m.1 → IsMonth m := fun hyear => ⟨hyear, parse_bounds hparse⟩
  have hnextYear : m.1 ≤ (nextMonth m).1 := by
    unfold nextMonth
    split_ifs <;> simp
  simp only [Except.bind_ok, monthStart_ok, toUtc_ok]
  constructor
  · rintro ⟨start, ⟨hyear, hstart⟩, stop, ⟨hnext, hstop⟩, opens, ⟨hfrom, hopens⟩, closes,
      ⟨-, hcloses⟩, hwindow⟩
    rw [hstart] at hfrom hopens
    rw [hstop] at hcloses
    refine ⟨⟨hyear.1, hnext.2, hfrom⟩, ?_⟩
    rw [opening, opening, ← hopens, ← hcloses]
    exact (Except.ok.inj hwindow).symm
  · rintro ⟨⟨hyear, hnext, hfrom⟩, rfl⟩
    have hlt := Nat.mul_le_mul_right day (firstOfMonth_lt_next (hm hyear))
    have hoffset := wallOffset_cases (firstOfMonth (nextMonth m).1 (nextMonth m).2 * day)
    refine ⟨_, ⟨⟨hyear, hnextYear.trans hnext⟩, rfl⟩, _, ⟨⟨hyear.trans hnextYear, hnext⟩, rfl⟩,
      _, ⟨hfrom, rfl⟩, _, ⟨?_, rfl⟩, rfl⟩
    have hlength : day = 86400000000 := rfl
    rw [Nat.succ_mul] at hlt
    omega

/-- The window of a label that has one holds an instant exactly when the wall clock does. -/
theorem mem_istMonthWindow {month : List Char} {window : ℕ × ℕ}
    (h : istMonthWindow month = .ok window) (t : ℕ) :
    window.1 ≤ t ∧ t < window.2 ↔ parseBillingMonth month = .ok (monthOfDay (wallClock t / day)) := by
  obtain ⟨m, hparse, ⟨hyear, -, -⟩, rfl⟩ := (istMonthWindow_ok).mp h
  have hmonth : IsMonth m := ⟨hyear, parse_bounds hparse⟩
  rw [mem_window_iff hmonth, hparse, Except.ok.injEq]
  exact eq_comm

/-- The instants of the months between two. -/
theorem month_between {t : ℕ} {first last : ℕ × ℕ} (hfirst : IsMonth first) (hlast : IsMonth last) :
    opening first ≤ t ∧ t < opening last ↔
      monthNumber first ≤ monthNumber (monthOfDay (wallClock t / day)) ∧
        monthNumber (monthOfDay (wallClock t / day)) < monthNumber last := by
  have hday : 0 < day := by decide
  obtain ⟨hmonth, -⟩ := isMonth_monthOfDay (wallClock t / day)
  obtain ⟨hbelow, habove⟩ := (monthOfDay_eq_iff hmonth _).mp rfl
  have hcut : ∀ {m : ℕ × ℕ}, IsMonth m → (opening m ≤ t ↔
      monthNumber m ≤ monthNumber (monthOfDay (wallClock t / day))) := by
    intro m hm
    have hclock : opening m ≤ t ↔ firstOfMonth m.1 m.2 ≤ wallClock t / day := by
      rw [Nat.le_div_iff_mul_le hday, midnight]
      rfl
    rw [hclock]
    constructor
    · intro hle
      by_contra hlt
      have hmono := firstOfMonth_mono hmonth.next hm (by rw [monthNumber_next hmonth]; omega)
      exact absurd (lt_of_lt_of_le habove hmono) (Nat.not_lt.mpr hle)
    · intro hle
      exact (firstOfMonth_mono hm hmonth hle).trans hbelow
  rw [hcut hfirst, ← not_le, hcut hlast, not_le]

/-- **The instants whose own label has a window, which then holds them**: those from January
1000 up to the December the calendar ends in. -/
theorem istBillingMonth_window (t : ℕ) : (∃ month window, istBillingMonth t = some month ∧
      istMonthWindow month = .ok window ∧ window.1 ≤ t ∧ t < window.2) ↔
    opening (1000, 1) ≤ t ∧ t < opening (9999, 12) := by
  have hday : 0 < day := by decide
  have hfirst : IsMonth (1000, 1) := by unfold IsMonth; decide
  have hlast : IsMonth (9999, 12) := by unfold IsMonth; decide
  rw [month_between hfirst hlast]
  obtain ⟨hmonth, -⟩ := isMonth_monthOfDay (wallClock t / day)
  obtain ⟨hbelow, habove⟩ := (monthOfDay_eq_iff hmonth _).mp rfl
  have hmem := (mem_window_iff hmonth t).mpr rfl
  unfold istBillingMonth
  generalize monthOfDay (wallClock t / day) = m at *
  constructor
  · rintro ⟨month, window, hlabel, hwindow, -⟩
    split_ifs at hlabel with hclock
    obtain rfl := Option.some.inj hlabel
    obtain ⟨m', hparse, ⟨-, hnext, -⟩, -⟩ := (istMonthWindow_ok).mp hwindow
    have hyear : m.1 ≤ 9999 := by
      by_contra hlate
      have hmono := firstOfMonth_mono (m := (10000, 1)) (by unfold IsMonth; decide) hmonth
        (by unfold monthNumber; omega)
      have hend : clockEnd = firstOfMonth 10000 1 * day := by decide +kernel
      rw [hend, ← Nat.div_lt_iff_lt_mul hday] at hclock
      exact absurd (hbelow.trans_lt hclock) (Nat.not_lt.mpr hmono)
    have hread := parse_monthText hmonth hyear
    split_ifs at hread with hlo
    · obtain rfl : m = m' := Except.ok.inj (hread.symm.trans hparse)
      obtain ⟨-, hjan, hdec⟩ := hmonth
      unfold nextMonth at hnext
      unfold monthNumber
      split_ifs at hnext <;> dsimp only at * <;> omega
    · exact absurd hparse (hread m')
  · rintro ⟨hge, hlt⟩
    have hyears : 1000 ≤ m.1 ∧ m.1 ≤ 9999 ∧ (nextMonth m).1 ≤ 9999 := by
      obtain ⟨-, hjan, hdec⟩ := hmonth
      unfold monthNumber at hge hlt
      unfold nextMonth
      dsimp only at hge hlt
      split_ifs <;> dsimp only <;> omega
    have hclock : wallClock t < clockEnd := by
      have hmono := firstOfMonth_mono hmonth.next hlast (by rw [monthNumber_next hmonth]; omega)
      rw [clockEnd, ← Nat.div_lt_iff_lt_mul hday]
      exact (habove.trans_le hmono).trans (by decide)
    have hwall : wallOffset (firstOfMonth m.1 m.2 * day) ≤ firstOfMonth m.1 m.2 * day := by
      have hpos : 1 ≤ firstOfMonth 1000 1 := by decide
      have hmono := firstOfMonth_mono hfirst hmonth hge
      have hdays := Nat.mul_le_mul_right day (hpos.trans hmono)
      have hoffset := wallOffset_cases (firstOfMonth m.1 m.2 * day)
      have hlength : day = 86400000000 := rfl
      omega
    have hread := parse_monthText hmonth hyears.2.1
    rw [if_pos hyears.1] at hread
    rw [if_pos hclock]
    exact ⟨_, (opening m, opening (nextMonth m)), rfl,
      (istMonthWindow_ok).mpr ⟨m, hread, ⟨hmonth.1, hyears.2.2, hwall⟩, rfl⟩, hmem⟩

theorem window_nonempty {month : List Char} {window : ℕ × ℕ}
    (h : istMonthWindow month = .ok window) : window.1 < window.2 := by
  obtain ⟨m, hparse, ⟨hyear, -, -⟩, rfl⟩ := (istMonthWindow_ok).mp h
  exact opening_lt_next ⟨hyear, parse_bounds hparse⟩

/-- **A month is priced at an instant of its own.** -/
theorem monthPricingInstant_mem {month : List Char} {window : ℕ × ℕ}
    (h : istMonthWindow month = .ok window) (now : ℕ) :
    ∃ t, monthPricingInstant month now = .ok t ∧ window.1 ≤ t ∧ t < window.2 := by
  have hlt := window_nonempty h
  obtain ⟨m, hparse, ⟨hyear, hnext, hfrom⟩, rfl⟩ := (istMonthWindow_ok).mp h
  have hle : m.1 ≤ 9999 := by
    unfold nextMonth at hnext
    split_ifs at hnext
    · exact Nat.le_of_succ_le hnext
    · exact hnext
  refine ⟨min (max now (opening m)) (opening (nextMonth m) - 1), ?_, ?_, ?_⟩
  · refine Except.bind_ok.mpr ⟨m, hparse, Except.bind_ok.mpr ⟨_, (monthStart_ok).mpr ⟨⟨hyear, hle⟩, rfl⟩,
      Except.bind_ok.mpr ⟨_, (toUtc_ok).mpr ⟨hfrom, rfl⟩, Except.bind_ok.mpr ⟨_, ?_, rfl⟩⟩⟩⟩
    exact Except.bind_ok.mpr ⟨_, h, rfl⟩
  · dsimp only at *
    omega
  · dsimp only at *
    omega

/-- The bounds of a month, the floor raised inside it and nowhere else. -/
theorem monthBounds_mem {month : List Char} {window : ℕ × ℕ}
    (h : istMonthWindow month = .ok window) :
    monthBounds month none = .ok window ∧ ∀ since, ∃ floor,
      monthBounds month (some since) = .ok (floor, window.2) ∧
      (floor = if window.1 < since ∧ since < window.2 then since else window.1) ∧
      window.1 ≤ floor ∧ floor < window.2 := by
  have hlt := window_nonempty h
  refine ⟨Except.bind_ok.mpr ⟨window, h, rfl⟩, fun since =>
    ⟨if window.1 < since ∧ since < window.2 then since else window.1,
      Except.bind_ok.mpr ⟨window, h, rfl⟩, rfl, ?_⟩⟩
  split_ifs with hin
  · exact ⟨hin.1.le, hin.2⟩
  · exact ⟨le_rfl, hlt⟩

/-! ## The plan in effect -/

/-- A row's place in the resolver's order. -/
def place (p : PlanRow) : ℕ ×ₗ ℕ ×ₗ ℕ := toLex (p.startKey, toLex (p.createdAt, p.id))

theorem outranks_iff {p q : PlanRow} : p.outranks q = true ↔ place q < place p := by
  simp only [PlanRow.outranks, place, Prod.Lex.toLex_lt_toLex, Bool.or_eq_true,
    Bool.and_eq_true, decide_eq_true_eq]

/-- The better of the row standing and the next. -/
theorem prefer_eq (best : Option PlanRow) (row : PlanRow) : ∃ p, PlanRow.prefer best row = some p ∧
    (best = some p ∨ p = row) ∧ place row ≤ place p ∧ ∀ q, best = some q → place q ≤ place p := by
  cases best with
  | none => exact ⟨row, rfl, .inr rfl, le_rfl, by rintro q ⟨⟩⟩
  | some q =>
    by_cases h : row.outranks q = true
    · refine ⟨row, by rw [PlanRow.prefer, if_pos h], .inr rfl, le_rfl, ?_⟩
      rintro _ ⟨⟩
      exact ((outranks_iff).mp h).le
    · refine ⟨q, by rw [PlanRow.prefer, if_neg h], .inl rfl, ?_, ?_⟩
      · exact not_lt.mp (mt (outranks_iff).mpr h)
      · rintro _ ⟨⟩
        exact le_rfl

/-- **What a run of the resolver's order ends with**: a row that none of the rows outranks. -/
theorem foldl_prefer {rows : List PlanRow} {best : Option PlanRow} {p : PlanRow}
    (h : rows.foldl PlanRow.prefer best = some p) : (best = some p ∨ p ∈ rows) ∧
      (∀ q, best = some q → place q ≤ place p) ∧ ∀ q ∈ rows, place q ≤ place p := by
  induction rows generalizing best with
  | nil =>
    obtain rfl : best = some p := h
    refine ⟨.inl rfl, ?_, by simp⟩
    rintro _ ⟨⟩
    exact le_rfl
  | cons row rows ih =>
    rw [List.foldl_cons] at h
    obtain ⟨r, hr, hfrom, hrow, hbest⟩ := prefer_eq best row
    rw [hr] at h
    obtain ⟨hmem, hle, hall⟩ := ih h
    have hrp : place r ≤ place p := hle r rfl
    refine ⟨?_, fun q hq => (hbest q hq).trans hrp, ?_⟩
    · rcases hmem with hmem | hmem
      · obtain rfl := Option.some.inj hmem
        rcases hfrom with hfrom | rfl
        · exact .inl hfrom
        · exact .inr List.mem_cons_self
      · exact .inr (List.mem_cons_of_mem _ hmem)
    · intro q hq
      rcases List.mem_cons.mp hq with rfl | hq
      · exact hrow.trans hrp
      · exact hall q hq

theorem foldl_prefer_ne_none {rows : List PlanRow} {best : Option PlanRow}
    (h : best ≠ none ∨ rows ≠ []) : rows.foldl PlanRow.prefer best ≠ none := by
  induction rows generalizing best with
  | nil => exact h.resolve_right (fun hnil => hnil rfl)
  | cons row rows ih =>
    obtain ⟨r, hr, -⟩ := prefer_eq best row
    rw [List.foldl_cons, hr]
    exact ih (.inl (Option.some_ne_none r))

/-- **No plan is in effect exactly when no window holds the instant.** -/
theorem planInEffect_eq_none {plans : List PlanRow} {instant : ℕ} :
    planInEffect plans instant = none ↔ ∀ q ∈ plans, q.covers instant = false := by
  have hrows : (plans.filter fun q => q.covers instant) = [] ↔
      ∀ q ∈ plans, q.covers instant = false := by
    simp [List.filter_eq_nil_iff]
  constructor
  · intro h
    by_contra hne
    exact @foldl_prefer_ne_none _ none (.inr (mt hrows.mp hne)) h
  · intro h
    rw [planInEffect, hrows.mpr h]
    rfl

/-- **The plan in effect is the one row, of those whose window holds the instant, that the
order puts before every other.** -/
theorem planInEffect_eq_some {plans : List PlanRow} (hids : (plans.map (·.id)).Nodup)
    {instant : ℕ} {p : PlanRow} : planInEffect plans instant = some p ↔
      p ∈ plans ∧ p.covers instant = true ∧
        ∀ q ∈ plans, q.covers instant = true → q ≠ p → p.outranks q = true := by
  constructor
  · intro h
    obtain ⟨hmem, -, hall⟩ := foldl_prefer h
    obtain ⟨hin, hcovers⟩ := List.mem_filter.mp (hmem.resolve_left (by rintro ⟨⟩))
    refine ⟨hin, hcovers, fun q hq hqcovers hne => (outranks_iff).mpr ?_⟩
    refine lt_of_le_of_ne (hall q (List.mem_filter.mpr ⟨hq, hqcovers⟩)) fun hplace => hne ?_
    -- rows of one place have one id, and an id is one row's
    have hid : q.id = p.id := by
      have := congrArg (fun x => (ofLex (ofLex x).2).2) hplace
      exact this
    exact List.inj_on_of_nodup_map hids hq hin hid
  · rintro ⟨hin, hcovers, hall⟩
    cases hplan : planInEffect plans instant with
    | none =>
      have := (planInEffect_eq_none).mp hplan p hin
      rw [this] at hcovers
      cases hcovers
    | some r =>
      obtain ⟨hmem, -, hbest⟩ := foldl_prefer hplan
      obtain ⟨hrin, hrcovers⟩ := List.mem_filter.mp (hmem.resolve_left (by rintro ⟨⟩))
      by_contra hne
      have hlt := (outranks_iff).mp (hall r hrin hrcovers fun heq => hne (by rw [heq]))
      exact absurd (hbest p (List.mem_filter.mpr ⟨hin, hcovers⟩)) (not_le.mpr hlt)

/-! ## The partition -/

/-- **The months of the Indian calendar part the instants, and the plans of a tenant have one
in effect.** -/
theorem ist_months_partition :
    (∀ t, (∃ month window, istBillingMonth t = some month ∧ istMonthWindow month = .ok window ∧
        window.1 ≤ t ∧ t < window.2) ↔ opening (1000, 1) ≤ t ∧ t < opening (9999, 12)) ∧
    (∀ t month window month' window', istMonthWindow month = .ok window →
      istMonthWindow month' = .ok window' → window.1 ≤ t → t < window.2 →
      window'.1 ≤ t → t < window'.2 →
        window' = window ∧ parseBillingMonth month' = parseBillingMonth month) ∧
    (∀ m month window next nextWindow, parseBillingMonth month = .ok m →
      parseBillingMonth next = .ok (nextMonth m) → istMonthWindow month = .ok window →
      istMonthWindow next = .ok nextWindow → nextWindow.1 = window.2) ∧
    (∀ month window, istMonthWindow month = .ok window →
      (∀ now, ∃ t, monthPricingInstant month now = .ok t ∧ window.1 ≤ t ∧ t < window.2) ∧
      monthBounds month none = .ok window ∧
      ∀ since, ∃ floor, monthBounds month (some since) = .ok (floor, window.2) ∧
        floor = (if window.1 < since ∧ since < window.2 then since else window.1) ∧
        window.1 ≤ floor ∧ floor < window.2) ∧
    ∀ (plans : List PlanRow) (instant : ℕ), (plans.map (·.id)).Nodup →
      (planInEffect plans instant = none ↔ ∀ q ∈ plans, q.covers instant = false) ∧
      ∀ p, planInEffect plans instant = some p ↔ p ∈ plans ∧ p.covers instant = true ∧
        ∀ q ∈ plans, q.covers instant = true → q ≠ p → p.outranks q = true := by
  refine ⟨istBillingMonth_window, ?_, ?_, ?_, ?_⟩
  · intro t month window month' window' h h' hlo hhi hlo' hhi'
    have hread := (mem_istMonthWindow h t).mp ⟨hlo, hhi⟩
    have hread' := (mem_istMonthWindow h' t).mp ⟨hlo', hhi'⟩
    refine ⟨?_, hread'.trans hread.symm⟩
    obtain ⟨m, hparse, -, hwindow⟩ := (istMonthWindow_ok).mp h
    obtain ⟨m', hparse', -, hwindow'⟩ := (istMonthWindow_ok).mp h'
    obtain rfl : m = m' := Except.ok.inj ((hparse.symm.trans hread).trans
      (hread'.symm.trans hparse'))
    rw [hwindow, hwindow']
  · intro m month window next nextWindow hparse hnext h h'
    obtain ⟨m', hparse', -, rfl⟩ := (istMonthWindow_ok).mp h
    obtain ⟨n', hnext', -, rfl⟩ := (istMonthWindow_ok).mp h'
    obtain rfl : m = m' := Except.ok.inj (hparse.symm.trans hparse')
    obtain rfl : nextMonth m = n' := Except.ok.inj (hnext.symm.trans hnext')
    rfl
  · intro month window h
    exact ⟨monthPricingInstant_mem h, (monthBounds_mem h).1, (monthBounds_mem h).2⟩
  · intro plans instant hids
    exact ⟨planInEffect_eq_none, fun p => planInEffect_eq_some hids⟩

/-- A plan from the epoch on, and one of a single day that began a day later. -/
def standingPlan : PlanRow := ⟨1, { effectiveFrom := some 0 }, none, none, 0⟩

def trialPlan : PlanRow :=
  ⟨2, { effectiveFrom := some 100, effectiveTo := some 200 }, none, none, 50⟩

/-- The last instant of the calendar has a label and no window, and the plan in effect once a
later one has ended is not the latest that had started. -/
theorem ist_months_not_all :
    (¬ ∀ t month, istBillingMonth t = some month → ∃ window, istMonthWindow month = .ok window ∧
      window.1 ≤ t ∧ t < window.2) ∧
    ¬ ∀ (plans : List PlanRow) (instant : ℕ) (p : PlanRow), planInEffect plans instant = some p →
      ∀ q ∈ plans, (q.terms.effectiveFrom.all fun s => s ≤ instant) = true →
        q.startKey ≤ p.startKey := by
  constructor
  · intro h
    obtain ⟨window, hwindow, -⟩ := h (clockEnd - 19800000001) "9999-12".toList (by decide +kernel)
    have herror : istMonthWindow "9999-12".toList = .error .valueError := by decide +kernel
    rw [herror] at hwindow
    cases hwindow
  · intro h
    have := h [standingPlan, trialPlan] 300 standingPlan (by decide) trialPlan (by decide)
      (by decide)
    exact absurd this (by decide)

end BillingMonth

end Billing

end Calevate
