import Calevate.Lib.Months
import Calevate.Lib.Reference
import Calevate.Trials.Coverage

/-!
# The periods of a number's rental

A number renews a month at a time from the day it was recorded, the day clamped to the
month's last, always counted from the anchor. The renewal dates climb through the months
one by one, so every day from the anchor on lies between two of them, and the month a
period starts in names it.
-/

namespace Calevate.Rentals

open Lib Lib.Reference
open Lib.Calendar hiding addMonths
open Trials (istDate istOffset addMonths rentalPeriodStart)

/-! ## Renewal dates -/

section Dates

variable {anchor date s : ℕ}

/-- The month of a day. -/
def monthOfDay (date : ℕ) : ℕ := monthIndex (civilOfDays date)

/-- `charge_number_rental`'s check: the day is a renewal date of the number. -/
def IsPeriod (anchor s : ℕ) : Prop := rentalPeriodStart anchor s = some s

instance (anchor s : ℕ) : Decidable (IsPeriod anchor s) := inferInstanceAs (Decidable (_ = _))

/-- The day lies in the period: from its first day to the next period's. -/
def InPeriod (anchor s date : ℕ) : Prop :=
  IsPeriod anchor s ∧ s ≤ date ∧ ∀ next, IsPeriod anchor next → s < next → date < next

theorem monthDays_pos (i : ℕ) : 0 < monthDays i := by
  unfold monthDays daysInMonth
  split_ifs <;> decide

theorem addMonths_eq (anchor k : ℕ) : addMonths anchor k =
    firstDay (monthOfDay anchor + k) +
      (min (civilOfDays anchor).dom (monthDays (monthOfDay anchor + k)) - 1) := by
  obtain ⟨hlo, hhi⟩ := civilOfDays_month anchor
  have hepoch := epochMonth_le anchor
  have hpos := monthDays_pos (monthOfDay anchor + k)
  have hdom : 1 ≤ (civilOfDays anchor).dom := Nat.succ_pos _
  unfold monthOfDay monthIndex epochMonth at *
  have hyear : (civilOfDays anchor).year + ((civilOfDays anchor).month - 1 + k) / 12 =
      ((civilOfDays anchor).year * 12 + ((civilOfDays anchor).month - 1) + k) / 12 := by omega
  have hmonth : ((civilOfDays anchor).month - 1 + k) % 12 =
      ((civilOfDays anchor).year * 12 + ((civilOfDays anchor).month - 1) + k) % 12 := by omega
  have hwall : anchor * day / day = anchor := Nat.mul_div_cancel anchor (by decide)
  have hrest : anchor * day % day = 0 := Nat.mul_mod_left anchor day
  unfold addMonths Calendar.addMonths
  dsimp only
  rw [Nat.add_zero, hwall, hrest, Nat.add_zero, Nat.sub_zero,
    Nat.mul_div_cancel _ (by decide : 0 < day), hyear, hmonth]
  generalize (civilOfDays anchor).year * 12 + ((civilOfDays anchor).month - 1) + k = i at *
  have hclamp : min (civilOfDays anchor).dom (daysInMonth (i / 12) (i % 12 + 1)) =
      min (civilOfDays anchor).dom (monthDays i) := rfl
  have hyears : 1970 ≤ i / 12 := by
    clear hwall hrest
    omega
  rw [hclamp, daysOfCivil_day hyears (Nat.succ_pos _) (le_min hdom hpos)]
  rfl

/-- **A renewal date is in the month it is counted to.** -/
theorem monthOfDay_addMonths (anchor k : ℕ) :
    monthOfDay (addMonths anchor k) = monthOfDay anchor + k := by
  have hpos := monthDays_pos (monthOfDay anchor + k)
  rw [addMonths_eq]
  exact month_of_clamped ((epochMonth_le anchor).trans (Nat.le_add_right ..)) (by omega)

theorem addMonths_zero (anchor : ℕ) : addMonths anchor 0 = anchor := by
  have hday := day_eq_firstDay anchor
  have hdom := civilOfDays_dom_le anchor
  rw [← monthDays_monthIndex] at hdom
  rw [addMonths_eq, Nat.add_zero, monthOfDay, min_eq_left hdom]
  exact hday.symm

theorem monthOfDay_mono {a b : ℕ} (h : a ≤ b) : monthOfDay a ≤ monthOfDay b := by
  have hday : ∀ n, monthOf 0 (n * day) = monthOfDay n := by
    intro n
    unfold monthOf monthOfDay
    rw [Nat.add_zero, Nat.mul_div_cancel n (by decide)]
  rw [← hday, ← hday]
  exact monthOf_mono 0 (Nat.mul_le_mul_right day h)

theorem addMonths_strictMono (anchor : ℕ) : StrictMono (addMonths anchor) := by
  intro k l hkl
  by_contra hle
  have hmonths := monthOfDay_mono (not_lt.mp hle)
  rw [monthOfDay_addMonths, monthOfDay_addMonths] at hmonths
  omega

/-- **The period of a day** is the last renewal date by it. -/
theorem rentalPeriodStart_spec (h : anchor ≤ date) : ∃ k,
    rentalPeriodStart anchor date = some (addMonths anchor k) ∧
      addMonths anchor k ≤ date ∧ date < addMonths anchor (k + 1) := by
  have hmonth := monthOfDay_mono h
  have hbefore : ∀ k, monthOfDay date < monthOfDay anchor + k → date < addMonths anchor k := by
    intro k hk
    by_contra hle
    have := monthOfDay_mono (not_lt.mp hle)
    rw [monthOfDay_addMonths] at this
    omega
  unfold rentalPeriodStart
  rw [if_neg (by omega)]
  change ∃ k, some (if addMonths anchor (monthOfDay date - monthOfDay anchor) ≤ date
    then addMonths anchor (monthOfDay date - monthOfDay anchor)
    else addMonths anchor (monthOfDay date - monthOfDay anchor - 1)) = _ ∧ _
  by_cases hstart : addMonths anchor (monthOfDay date - monthOfDay anchor) ≤ date
  · rw [if_pos hstart]
    exact ⟨_, rfl, hstart, hbefore _ (by omega)⟩
  · rw [if_neg hstart]
    -- the month's renewal date is still to come, so the anchor is in an earlier month
    have hlater : monthOfDay date - monthOfDay anchor ≠ 0 := by
      intro hzero
      rw [hzero, addMonths_zero] at hstart
      omega
    have hsame : monthOfDay date - monthOfDay anchor - 1 + 1 =
        monthOfDay date - monthOfDay anchor := by omega
    refine ⟨monthOfDay date - monthOfDay anchor - 1, rfl, ?_, ?_⟩
    · by_contra hgt
      have := monthOfDay_mono (not_le.mp hgt).le
      rw [monthOfDay_addMonths] at this
      omega
    · rw [hsame]
      omega

theorem isPeriod_addMonths (anchor k : ℕ) : IsPeriod anchor (addMonths anchor k) := by
  have hanchor : anchor ≤ addMonths anchor k := by
    have := (addMonths_strictMono anchor).monotone (Nat.zero_le k)
    rwa [addMonths_zero] at this
  obtain ⟨l, hstart, hle, hlt⟩ := rentalPeriodStart_spec hanchor
  have hkl : l = k := by
    have hle' := (addMonths_strictMono anchor).le_iff_le.mp hle
    have hlt' := (addMonths_strictMono anchor).lt_iff_lt.mp hlt
    omega
  rw [IsPeriod, hstart, hkl]

/-- **The renewal dates** are the anchor moved by months. -/
theorem isPeriod_iff : IsPeriod anchor s ↔ ∃ k, s = addMonths anchor k := by
  constructor
  · intro h
    have hanchor : anchor ≤ s := by
      by_contra hlt
      unfold IsPeriod rentalPeriodStart at h
      rw [if_pos (not_le.mp hlt)] at h
      cases h
    obtain ⟨k, hstart, -⟩ := rentalPeriodStart_spec hanchor
    exact ⟨k, Option.some.inj (h.symm.trans hstart)⟩
  · rintro ⟨k, rfl⟩
    exact isPeriod_addMonths anchor k

/-- **A day is in the period `rental_period_start` answers, and in no other.** -/
theorem inPeriod_iff (h : anchor ≤ date) :
    InPeriod anchor s date ↔ rentalPeriodStart anchor date = some s := by
  obtain ⟨k, hstart, hle, hlt⟩ := rentalPeriodStart_spec h
  have hmono := addMonths_strictMono anchor
  constructor
  · rintro ⟨hperiod, hles, hnext⟩
    obtain ⟨l, rfl⟩ := (isPeriod_iff).mp hperiod
    have hlk : l < k + 1 := hmono.lt_iff_lt.mp (hles.trans_lt hlt)
    by_cases hkl : l = k
    · rw [hstart, hkl]
    · have := hnext _ (isPeriod_addMonths anchor k) (hmono (by omega))
      omega
  · intro hs
    rw [hstart] at hs
    obtain rfl := Option.some.inj hs
    refine ⟨isPeriod_addMonths anchor k, hle, ?_⟩
    rintro next hnext hgt
    obtain ⟨l, rfl⟩ := (isPeriod_iff).mp hnext
    have hkl : k + 1 ≤ l := hmono.lt_iff_lt.mp hgt
    exact hlt.trans_le (hmono.monotone hkl)

/-- Two renewal dates of one number are in two months. -/
theorem IsPeriod.eq_of_month {t : ℕ} (hs : IsPeriod anchor s) (ht : IsPeriod anchor t)
    (h : monthOfDay s = monthOfDay t) : s = t := by
  obtain ⟨k, rfl⟩ := (isPeriod_iff).mp hs
  obtain ⟨l, rfl⟩ := (isPeriod_iff).mp ht
  rw [monthOfDay_addMonths, monthOfDay_addMonths] at h
  rw [show k = l by omega]

end Dates

/-! ## The key -/

/-- A month of the year in two figures. -/
def twoFigures (m : ℕ) : String := if m < 10 then "0" ++ toString m else toString m

/-- `billing_month_of_ist_date`; what `parse_billing_month` refuses is no date's month. -/
def billingMonthOfIstDate (date : ℕ) : String :=
  toString (civilOfDays date).year ++ ("-" ++ twoFigures (civilOfDays date).month)

/-- `phone_numbers.id` as `str` writes it. -/
abbrev NumberId := { id : String // id.length = 36 }

/-- `RENTAL_REF_PREFIX`. -/
def rentalRefPrefix : String := "number_rental:"

/-- **`rental_ref`**, the key of a number's month. -/
def rentalRef (number : NumberId) (month : String) : String :=
  rentalRefPrefix ++ (number.val ++ (":" ++ month))

theorem twoFigures_spec {m : ℕ} (h : m ≤ 12) :
    (twoFigures m).toList.length = 2 ∧
      ∀ n ≤ 12, (twoFigures m).toList = (twoFigures n).toList → m = n := by
  revert m
  decide +kernel

/-- **A month is known by its text.** -/
theorem monthOfDay_of_text {s t : ℕ} (h : billingMonthOfIstDate s = billingMonthOfIstDate t) :
    monthOfDay s = monthOfDay t := by
  obtain ⟨-, hs⟩ := civilOfDays_month s
  obtain ⟨-, ht⟩ := civilOfDays_month t
  have hlist := congrArg String.toList h
  unfold billingMonthOfIstDate at hlist
  simp only [String.toList_append] at hlist
  obtain ⟨hyear, hmonth⟩ := List.append_inj' hlist (by
    rw [List.length_append, List.length_append, (twoFigures_spec hs).1, (twoFigures_spec ht).1])
  have hfigures := (twoFigures_spec hs).2 _ ht (List.append_cancel_left hmonth)
  unfold monthOfDay monthIndex
  rw [toString_inj hyear, hfigures]

theorem rentalRef_inj {a b : NumberId} {m n : String} (h : rentalRef a m = rentalRef b n) :
    a = b ∧ m = n := by
  have hlist := congrArg String.toList h
  unfold rentalRef at hlist
  simp only [String.toList_append] at hlist
  obtain ⟨hid, hrest⟩ := List.append_inj (List.append_cancel_left hlist) (by
    rw [String.length_toList, String.length_toList, a.property, b.property])
  exact ⟨Subtype.ext (String.toList_inj.mp hid),
    String.toList_inj.mp (List.append_cancel_left hrest)⟩

/-- **Distinct periods have distinct keys.** -/
theorem IsPeriod.eq_of_ref {anchor s t : ℕ} {number : NumberId} (hs : IsPeriod anchor s)
    (ht : IsPeriod anchor t) (h : rentalRef number (billingMonthOfIstDate s) =
      rentalRef number (billingMonthOfIstDate t)) : s = t :=
  hs.eq_of_month ht (monthOfDay_of_text (rentalRef_inj h).2)

end Calevate.Rentals
