import Calevate.Lib.Calendar
import Mathlib.Tactic.IntervalCases

/-!
# Months and their days

A day number is the first day of its month and the days of the month behind it
(`day_eq_firstDay`), and the months of the calendar follow each other without a gap
(`firstDay_succ`), so a day lies in one month (`month_of_mem`). Day numbers and months are
counted from the first of January 1970, whose month is number `epochMonth`.
-/

namespace Lib

namespace Calendar

/-! ## A date and its day number -/

/-- The day of a March-based year a day of an era is. -/
def dayOfYear (doe : ℕ) : ℕ := doe - yearStart (yearOfEra doe)

theorem civilOfDays_eq (n : ℕ) : civilOfDays n =
    { year := yearOfEra ((n + 719468) % 146097) + (n + 719468) / 146097 * 400 +
        if (if (5 * dayOfYear ((n + 719468) % 146097) + 2) / 153 < 10 then
          (5 * dayOfYear ((n + 719468) % 146097) + 2) / 153 + 3 else
          (5 * dayOfYear ((n + 719468) % 146097) + 2) / 153 - 9) ≤ 2 then 1 else 0
      month := if (5 * dayOfYear ((n + 719468) % 146097) + 2) / 153 < 10 then
          (5 * dayOfYear ((n + 719468) % 146097) + 2) / 153 + 3 else
          (5 * dayOfYear ((n + 719468) % 146097) + 2) / 153 - 9
      dom := dayOfYear ((n + 719468) % 146097) -
        (153 * ((5 * dayOfYear ((n + 719468) % 146097) + 2) / 153) + 2) / 5 + 1 } := rfl

theorem daysOfCivil_civilOfDays (n : ℕ) : daysOfCivil (civilOfDays n) = n := by
  have hlt := Nat.mod_lt (n + 719468) (by decide : 146097 > 0)
  have hd : dayOfYear ((n + 719468) % 146097) ≤ 365 := dayOfYear_le hlt
  have hy := yearOfEra_lt hlt
  have hsplit : dayOfYear ((n + 719468) % 146097) + yearStart (yearOfEra ((n + 719468) % 146097)) =
      (n + 719468) % 146097 := Nat.sub_add_cancel (yearStart_le hlt)
  have hdiv := Nat.div_add_mod (n + 719468) 146097
  rw [civilOfDays_eq]
  unfold daysOfCivil
  unfold yearStart at hsplit
  generalize dayOfYear ((n + 719468) % 146097) = doy at *
  generalize yearOfEra ((n + 719468) % 146097) = y at *
  generalize (n + 719468) % 146097 = doe at *
  generalize (n + 719468) / 146097 = era at *
  dsimp only
  by_cases hm : (5 * doy + 2) / 153 < 10
  · have hlate : ¬ (5 * doy + 2) / 153 + 3 ≤ 2 := by omega
    have hmarch : 2 < (5 * doy + 2) / 153 + 3 := by omega
    have hera : (y + era * 400 + 0) / 400 = era := by omega
    have hyoe : (y + era * 400 + 0) % 400 = y := by omega
    rw [if_pos hm, if_neg hlate, if_neg hlate, if_pos hmarch, hera, hyoe]
    omega
  · have hearly : (5 * doy + 2) / 153 - 9 ≤ 2 := by omega
    have hmarch : ¬ 2 < (5 * doy + 2) / 153 - 9 := by omega
    have hera : (y + era * 400 + 1 - 1) / 400 = era := by omega
    have hyoe : (y + era * 400 + 1 - 1) % 400 = y := by omega
    rw [if_neg hm, if_pos hearly, if_pos hearly, if_neg hmarch, hera, hyoe]
    omega

/-- A year without a leap day has at most three hundred and sixty-five. -/
theorem dayOfYear_lt {doe : ℕ} (h : doe < 146097)
    (hplain : (yearOfEra doe + 1) % 4 ≠ 0 ∨
      (yearOfEra doe + 1) % 100 = 0 ∧ yearOfEra doe ≠ 399) :
    doe - yearStart (yearOfEra doe) < 365 := by
  have hy := yearOfEra_lt h
  have hlast : yearOfEra doe < 399 := by omega
  obtain ⟨-, -, -, -, hshort⟩ := yearOfEra_yearStart _ hy
  have := hshort hlast (hplain.imp_right And.left)
  have := lt_yearStart_succ h hlast
  omega

/-! ## A month and its days -/

/-- The first day of a month. -/
def firstDay (i : ℕ) : ℕ := daysOfCivil ⟨i / 12, i % 12 + 1, 1⟩

/-- The days of a month. -/
def monthDays (i : ℕ) : ℕ := daysInMonth (i / 12) (i % 12 + 1)

/-- The days before a year that begins in March, counted from the first of its eras. -/
def beforeMarch (y : ℕ) : ℕ := y / 400 * 146097 + (y % 400 * 365 + y % 400 / 4 - y % 400 / 100)

/-- February is as long as in the same year of an era. -/
theorem daysInMonth_mod (y m : ℕ) : daysInMonth (y % 400) m = daysInMonth y m := by
  unfold daysInMonth
  rw [Nat.mod_mod_of_dvd y (by decide : 4 ∣ 400), Nat.mod_mod_of_dvd y (by decide : 100 ∣ 400),
    Nat.mod_mod]

/-- The years of an era, one by one: how long each is. -/
theorem year_succ : ∀ r < 399, (r + 1) * 365 + (r + 1) / 4 - (r + 1) / 100 =
    r * 365 + r / 4 - r / 100 + 337 + daysInMonth (r + 1) 2 := by
  decide +kernel

theorem beforeMarch_succ (y : ℕ) :
    beforeMarch (y + 1) = beforeMarch y + 337 + daysInMonth (y + 1) 2 := by
  have hlt := Nat.mod_lt y (by decide : 400 > 0)
  unfold beforeMarch
  rw [← daysInMonth_mod]
  obtain hlast | hlast : y % 400 = 399 ∨ y % 400 < 399 := by omega
  · -- an era ends with a leap year
    have hdiv : (y + 1) / 400 = y / 400 + 1 := by omega
    have hmod : (y + 1) % 400 = 0 := by omega
    have hleap : daysInMonth 0 2 = 29 := rfl
    rw [hdiv, hmod, hlast, hleap]
    omega
  · have hdiv : (y + 1) / 400 = y / 400 := by omega
    have hmod : (y + 1) % 400 = y % 400 + 1 := by omega
    rw [hdiv, hmod, year_succ _ hlast]
    omega

theorem beforeMarch_mono {y z : ℕ} (h : y ≤ z) : beforeMarch y ≤ beforeMarch z := by
  induction z, h using Nat.le_induction with
  | base => exact le_rfl
  | succ z hyz ih =>
    rw [beforeMarch_succ, Nat.add_assoc]
    exact ih.trans (Nat.le_add_right ..)

theorem daysOfCivil_eq {y m d : ℕ} (hd : 1 ≤ d) :
    daysOfCivil ⟨y, m, d⟩ = (if m ≤ 2 then beforeMarch (y - 1) + (153 * (m + 9) + 2) / 5
      else beforeMarch y + (153 * (m - 3) + 2) / 5) + (d - 1) - 719468 := by
  unfold daysOfCivil beforeMarch
  dsimp only
  split_ifs <;> omega

/-- The number of the month day zero is in. -/
def epochMonth : ℕ := 1970 * 12

theorem le_beforeMarch {y : ℕ} (h : 1969 ≤ y) : 719162 ≤ beforeMarch y := by
  have hc : y % 400 / 100 ≤ 3 := by omega
  have hq : y % 400 ≤ 4 * (y % 400 / 4) + 3 := by omega
  have hdiv := Nat.div_add_mod y 400
  unfold beforeMarch
  generalize y % 400 = r at *
  generalize y / 400 = e at *
  generalize r / 100 = c at *
  generalize r / 4 = q at *
  omega

theorem le_beforeMarch' {y : ℕ} (h : 1970 ≤ y) : 719468 ≤ beforeMarch y := by
  unfold beforeMarch
  omega

theorem daysOfCivil_day {y m d : ℕ} (hy : 1970 ≤ y) (hm : 1 ≤ m) (hd : 1 ≤ d) :
    daysOfCivil ⟨y, m, d⟩ = daysOfCivil ⟨y, m, 1⟩ + (d - 1) := by
  rw [daysOfCivil_eq hd, daysOfCivil_eq le_rfl]
  have hearly := le_beforeMarch (y := y - 1) (by omega)
  have hlate := le_beforeMarch' hy
  split_ifs <;> omega

/-- **The months follow each other.** -/
theorem firstDay_succ {i : ℕ} (h : epochMonth ≤ i) : firstDay (i + 1) = firstDay i + monthDays i := by
  have hyear : 1970 ≤ i / 12 := by
    unfold epochMonth at h
    omega
  have hearly := le_beforeMarch (y := i / 12 - 1) (by omega)
  have hlate := le_beforeMarch' hyear
  have hmarch := beforeMarch_succ (i / 12 - 1)
  rw [show i / 12 - 1 + 1 = i / 12 by omega] at hmarch
  unfold firstDay monthDays
  rw [daysOfCivil_eq le_rfl, daysOfCivil_eq le_rfl]
  have hmonth : i % 12 < 12 := Nat.mod_lt _ (by decide)
  by_cases hdec : i % 12 = 11
  · have hy : (i + 1) / 12 = i / 12 + 1 := by omega
    have hm : (i + 1) % 12 = 0 := by omega
    rw [hy, hm, hdec]
    simp [daysInMonth]
    omega
  · have hy : (i + 1) / 12 = i / 12 := by omega
    have hm : (i + 1) % 12 = i % 12 + 1 := by omega
    rw [hy, hm]
    generalize i / 12 = y at *
    generalize i % 12 = m at *
    interval_cases m <;> simp [daysInMonth] at * <;> omega

theorem civilOfDays_dom_le (n : ℕ) :
    (civilOfDays n).dom ≤ daysInMonth (civilOfDays n).year (civilOfDays n).month := by
  have hlt := Nat.mod_lt (n + 719468) (by decide : 146097 > 0)
  have hd : dayOfYear ((n + 719468) % 146097) ≤ 365 := dayOfYear_le hlt
  have hplain := dayOfYear_lt hlt
  have hy := yearOfEra_lt hlt
  rw [civilOfDays_eq]
  change _ → dayOfYear ((n + 719468) % 146097) < 365 at hplain
  generalize dayOfYear ((n + 719468) % 146097) = doy at *
  generalize yearOfEra ((n + 719468) % 146097) = y at *
  generalize (n + 719468) / 146097 = era at *
  dsimp only
  generalize hmp : (5 * doy + 2) / 153 = mp at *
  have hlast : mp < 12 := by omega
  by_cases hfeb : mp = 11
  · -- the month a leap day ends
    subst hfeb
    simp only [show ¬ 11 < 10 by decide, if_false, show 11 - 9 ≤ 2 by decide, if_true]
    unfold daysInMonth
    rw [if_pos rfl]
    split_ifs with hleap
    · omega
    · have := hplain (by omega)
      omega
  · have hlast : mp < 11 := by omega
    interval_cases mp <;> simp [daysInMonth] <;> omega

theorem civilOfDays_month (n : ℕ) :
    1 ≤ (civilOfDays n).month ∧ (civilOfDays n).month ≤ 12 := by
  have hd : dayOfYear ((n + 719468) % 146097) ≤ 365 :=
    dayOfYear_le (Nat.mod_lt (n + 719468) (by decide : 146097 > 0))
  rw [civilOfDays_eq]
  generalize dayOfYear ((n + 719468) % 146097) = doy at *
  dsimp only
  split_ifs <;> omega

theorem epochMonth_le (n : ℕ) : epochMonth ≤ monthIndex (civilOfDays n) := by
  have hmono := monthOf_mono 0 (Nat.zero_le (n * day))
  have hzero : monthOf 0 0 = epochMonth := by decide
  have hday : monthOf 0 (n * day) = monthIndex (civilOfDays n) := by
    unfold monthOf
    rw [Nat.add_zero, Nat.mul_div_cancel n (by decide)]
  omega

/-- The month of a day, read back from its number. -/
theorem monthIndex_parts (n : ℕ) : monthIndex (civilOfDays n) / 12 = (civilOfDays n).year ∧
    monthIndex (civilOfDays n) % 12 + 1 = (civilOfDays n).month := by
  obtain ⟨hlo, hhi⟩ := civilOfDays_month n
  unfold monthIndex
  constructor
  · omega
  · omega

/-- The civil date of the first day of a date's month. -/
theorem firstDay_monthIndex (n : ℕ) : firstDay (monthIndex (civilOfDays n)) =
    daysOfCivil ⟨(civilOfDays n).year, (civilOfDays n).month, 1⟩ := by
  obtain ⟨hyear, hmonth⟩ := monthIndex_parts n
  rw [firstDay, hyear, hmonth]

theorem monthDays_monthIndex (n : ℕ) : monthDays (monthIndex (civilOfDays n)) =
    daysInMonth (civilOfDays n).year (civilOfDays n).month := by
  obtain ⟨hyear, hmonth⟩ := monthIndex_parts n
  rw [monthDays, hyear, hmonth]

/-- **A day is its month's first and the days behind it.** -/
theorem day_eq_firstDay (n : ℕ) :
    n = firstDay (monthIndex (civilOfDays n)) + ((civilOfDays n).dom - 1) := by
  obtain ⟨hlo, hhi⟩ := civilOfDays_month n
  have hepoch := epochMonth_le n
  have hyear : 1970 ≤ (civilOfDays n).year := by
    unfold monthIndex epochMonth at hepoch
    omega
  have hdom : 1 ≤ (civilOfDays n).dom := Nat.succ_pos _
  calc n = daysOfCivil (civilOfDays n) := (daysOfCivil_civilOfDays n).symm
    _ = _ := by rw [firstDay_monthIndex, ← daysOfCivil_day hyear hlo hdom]

theorem firstDay_mono {i j : ℕ} (h : epochMonth ≤ i) (hij : i ≤ j) : firstDay i ≤ firstDay j := by
  induction j, hij using Nat.le_induction with
  | base => exact le_rfl
  | succ j hij ih => exact ih.trans (by rw [firstDay_succ (h.trans hij)]; exact Nat.le_add_right ..)

/-- **A day between the first of a month and the first of the next is of that month.** -/
theorem month_of_mem {i n : ℕ} (h : epochMonth ≤ i) (hlo : firstDay i ≤ n)
    (hhi : n < firstDay (i + 1)) : monthIndex (civilOfDays n) = i := by
  have hday := day_eq_firstDay n
  have hdom := civilOfDays_dom_le n
  rw [← monthDays_monthIndex] at hdom
  have hepoch := epochMonth_le n
  have hnext := firstDay_succ hepoch
  generalize monthIndex (civilOfDays n) = m at *
  rcases lt_trichotomy m i with hlt | rfl | hgt
  · -- the day is before the next month's first, which is by then this one's
    have hmono := firstDay_mono (j := i) (by omega : epochMonth ≤ m + 1) (by omega)
    have : 1 ≤ (civilOfDays n).dom := Nat.succ_pos _
    omega
  · rfl
  · have hmono := firstDay_mono (j := m) (by omega : epochMonth ≤ i + 1) (by omega)
    omega

/-- The day of a month a clamped date is. -/
theorem month_of_clamped {i k : ℕ} (h : epochMonth ≤ i) (hk : k < monthDays i) :
    monthIndex (civilOfDays (firstDay i + k)) = i :=
  month_of_mem h (Nat.le_add_right ..) (by rw [firstDay_succ h]; omega)

end Calendar

end Lib
