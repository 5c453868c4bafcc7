import Mathlib.Data.Nat.Basic
import Mathlib.Order.Monotone.Defs

/-!
# The civil calendar

Instants are microseconds since the first of January 1970 in UTC, and days are counted
from the same date. `civilOfDays` and `daysOfCivil` are the proleptic Gregorian calendar
by eras of four hundred years; a place with a fixed offset reads its wall clock by adding
the offset to the instant.

`monthOf` numbers the months of such a place, and they never go back as time goes on
(`monthOf_mono`).
-/

namespace Lib

namespace Calendar

/-- Microseconds in one second, one minute, one hour and one day. -/
def second : ℕ := 1000000

/-- See `second`. -/
def minute : ℕ := 60 * second

/-- See `second`. -/
def hour : ℕ := 60 * minute

/-- See `second`. -/
def day : ℕ := 24 * hour

/-- A date as year, month and day of the month. -/
structure Date where
  year : ℕ
  month : ℕ
  dom : ℕ
  deriving DecidableEq, Repr

/-- The date of a day number. -/
def civilOfDays (days : ℕ) : Date :=
  let z := days + 719468
  let era := z / 146097
  let doe := z % 146097
  let yoe := (doe - doe / 1460 + doe / 36524 - doe / 146096) / 365
  let doy := doe - (365 * yoe + yoe / 4 - yoe / 100)
  let mp := (5 * doy + 2) / 153
  let month := if mp < 10 then mp + 3 else mp - 9
  { year := yoe + era * 400 + if month ≤ 2 then 1 else 0
    month := month
    dom := doy - (153 * mp + 2) / 5 + 1 }

/-- The day number of a date. -/
def daysOfCivil (d : Date) : ℕ :=
  let y := if d.month ≤ 2 then d.year - 1 else d.year
  let era := y / 400
  let yoe := y % 400
  let mp := if 2 < d.month then d.month - 3 else d.month + 9
  let doy := (153 * mp + 2) / 5 + d.dom - 1
  let doe := yoe * 365 + yoe / 4 - yoe / 100 + doy
  era * 146097 + doe - 719468

/-- Days in a month of a year. -/
def daysInMonth (year month : ℕ) : ℕ :=
  if month = 2 then
    if year % 4 = 0 ∧ (year % 100 ≠ 0 ∨ year % 400 = 0) then 29 else 28
  else if month = 4 ∨ month = 6 ∨ month = 9 ∨ month = 11 then 30
  else 31

/-- The same wall-clock time `months` later in a place `offset` ahead of UTC, the day
clamped to the month's last. -/
def addMonths (offset months t : ℕ) : ℕ :=
  let wall := t + offset
  let d := civilOfDays (wall / day)
  let index := d.month - 1 + months
  let year := d.year + index / 12
  let month := index % 12 + 1
  daysOfCivil { year := year, month := month, dom := min d.dom (daysInMonth year month) } * day +
    wall % day - offset

/-- The thirty-first of January with one month added is the last of February. -/
example : civilOfDays (addMonths 0 1 (daysOfCivil ⟨2028, 1, 31⟩ * day) / day) = ⟨2028, 2, 29⟩ := by
  decide +kernel

/-! ## Months in order -/

/-- A month as one number, twelve to the year. -/
def monthIndex (d : Date) : ℕ := d.year * 12 + (d.month - 1)

/-- The month of an instant in a place `offset` ahead of UTC. -/
def monthOf (offset t : ℕ) : ℕ := monthIndex (civilOfDays ((t + offset) / day))

/-- The year of a day of an era, counted from a first of March. -/
def yearOfEra (doe : ℕ) : ℕ := (doe - doe / 1460 + doe / 36524 - doe / 146096) / 365

/-- The day of the era a year begins on. -/
def yearStart (yoe : ℕ) : ℕ := 365 * yoe + yoe / 4 - yoe / 100

/-- The month of a day of an era, counted from the March it begins with. -/
def monthOfEra (doe : ℕ) : ℕ :=
  yearOfEra doe * 12 + (5 * (doe - yearStart (yearOfEra doe)) + 2) / 153

theorem yearOfEra_lt {doe : ℕ} (h : doe < 146097) : yearOfEra doe < 400 := by
  unfold yearOfEra
  omega

theorem yearOfEra_mono {a b : ℕ} (hab : a ≤ b) (hb : b < 146097) :
    yearOfEra a ≤ yearOfEra b := by
  unfold yearOfEra
  apply Nat.div_le_div_right
  omega

/-- The years of an era, one by one: where each begins, and how long it is. -/
theorem yearOfEra_yearStart : ∀ y < 400,
    yearOfEra (yearStart y) = y ∧ (0 < y → yearOfEra (yearStart y - 1) < y) ∧
      yearStart y < 146097 ∧ yearStart (y + 1) ≤ yearStart y + 366 ∧
      (y < 399 → (y + 1) % 4 ≠ 0 ∨ (y + 1) % 100 = 0 → yearStart (y + 1) = yearStart y + 365) := by
  decide +kernel

/-- The year of a day has begun. -/
theorem yearStart_le {doe : ℕ} (h : doe < 146097) : yearStart (yearOfEra doe) ≤ doe := by
  obtain ⟨-, hbefore, hlt, -⟩ := yearOfEra_yearStart _ (yearOfEra_lt h)
  by_contra hle
  rw [not_le] at hle
  have hpos : 0 < yearOfEra doe := by
    refine Nat.pos_of_ne_zero fun hzero => ?_
    rw [hzero] at hle
    exact Nat.not_lt_zero _ hle
  -- an earlier day than the year's first would be of an earlier year
  have hmono : yearOfEra doe ≤ yearOfEra (yearStart (yearOfEra doe) - 1) :=
    yearOfEra_mono (by omega) (by omega)
  exact absurd (hbefore hpos) (not_lt.mpr hmono)

/-- The year after has not, unless the era ends before it. -/
theorem lt_yearStart_succ {doe : ℕ} (h : doe < 146097) (hy : yearOfEra doe < 399) :
    doe < yearStart (yearOfEra doe + 1) := by
  by_contra hle
  rw [not_lt] at hle
  obtain ⟨hself, -⟩ := yearOfEra_yearStart (yearOfEra doe + 1) (by omega)
  have hmono := yearOfEra_mono hle h
  omega

/-- A year of an era has at most three hundred and sixty-six days. -/
theorem dayOfYear_le {doe : ℕ} (h : doe < 146097) :
    doe - yearStart (yearOfEra doe) ≤ 365 := by
  have hy := yearOfEra_lt h
  obtain ⟨-, -, -, hlong, -⟩ := yearOfEra_yearStart _ hy
  obtain hlast | hlast : yearOfEra doe = 399 ∨ yearOfEra doe < 399 := by omega
  · have hstart : yearStart 399 = 145731 := rfl
    rw [hlast, hstart]
    omega
  · have := lt_yearStart_succ h hlast
    omega

theorem monthIndex_civilOfDays (days : ℕ) : monthIndex (civilOfDays days) =
    (days + 719468) / 146097 * 4800 + monthOfEra ((days + 719468) % 146097) + 2 := by
  have hdays := dayOfYear_le (Nat.mod_lt (days + 719468) (by decide : 146097 > 0))
  unfold monthIndex civilOfDays monthOfEra
  dsimp only
  generalize (days + 719468) % 146097 = doe at *
  generalize (days + 719468) / 146097 = era
  have hyear : (doe - doe / 1460 + doe / 36524 - doe / 146096) / 365 = yearOfEra doe := rfl
  rw [hyear]
  generalize yearOfEra doe = y at *
  have hstart : 365 * y + y / 4 - y / 100 = yearStart y := rfl
  rw [hstart]
  have hmonth : (5 * (doe - yearStart y) + 2) / 153 ≤ 11 := by omega
  generalize (5 * (doe - yearStart y) + 2) / 153 = mp at *
  split <;> split <;> omega

theorem monthOfEra_lt {doe : ℕ} (h : doe < 146097) : monthOfEra doe < 4800 := by
  have hy := yearOfEra_lt h
  have hd := dayOfYear_le h
  unfold monthOfEra
  omega

theorem monthOfEra_mono {a b : ℕ} (hab : a ≤ b) (hb : b < 146097) :
    monthOfEra a ≤ monthOfEra b := by
  have hy := yearOfEra_mono hab hb
  have hd := dayOfYear_le (lt_of_le_of_lt hab hb)
  unfold monthOfEra
  rcases hy.lt_or_eq with hlt | heq
  · omega
  · rw [heq]
    omega

/-- **Months never go back.** -/
theorem monthOf_mono (offset : ℕ) : Monotone (monthOf offset) := by
  intro s t hst
  have hdays : (s + offset) / day ≤ (t + offset) / day := Nat.div_le_div_right (by omega)
  unfold monthOf
  rw [monthIndex_civilOfDays, monthIndex_civilOfDays]
  generalize (s + offset) / day = a at hdays ⊢
  generalize (t + offset) / day = b at hdays ⊢
  have ha := monthOfEra_lt (Nat.mod_lt (a + 719468) (by decide : 146097 > 0))
  rcases Nat.lt_or_ge ((a + 719468) / 146097) ((b + 719468) / 146097) with hera | hera
  · omega
  · have hmono : monthOfEra ((a + 719468) % 146097) ≤ monthOfEra ((b + 719468) % 146097) := by
      apply monthOfEra_mono
      · omega
      · exact Nat.mod_lt _ (by decide)
    omega

end Calendar

end Lib
