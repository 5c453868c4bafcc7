import Mathlib.Order.Basic
import Calevate.Lib.Calendar

/-!
# Indian time

The wall clock of `Asia/Kolkata`, with every offset it ever had. Instants are microseconds
since the first of January of year 1, and a wall clock is the instant with its offset added.
A wall clock is turned into an instant as the zone database does it, by the earlier of two
readings where there are two.

Every change of the zone fell on a midnight, and moved the clock by an hour at most. A wall
clock more than an hour from midnight is therefore shown once (`wallClock_instant`), and an
instant is at or past it exactly when its own clock is (`le_wallClock_iff`).
-/

namespace Lib

namespace IndianTime

open Calendar

/-! ## The clock -/

/-- The first microsecond past `datetime.max`. -/
def clockEnd : ℕ := 3652059 * day

/-- The changes of `Asia/Kolkata`: the instant in seconds, the offset before and after. -/
def istChanges : List (ℕ × ℕ × ℕ) :=
  [(58490359592, 21208, 21200), (58979902000, 21200, 19270), (60115891130, 19270, 19800),
    (61244015400, 19800, 23400), (61263538200, 23400, 19800), (61272959400, 19800, 23400),
    (61371451800, 23400, 19800)]

/-- The offset of an instant. -/
def utcOffset (t : ℕ) : ℕ :=
  istChanges.foldl (fun offset c => if c.1 * second ≤ t then c.2.2 * second else offset)
    (21208 * second)

/-- The offset a wall clock is read with, the first of two readings where there are two. -/
def wallOffset (wall : ℕ) : ℕ :=
  istChanges.foldl
    (fun offset c => if (c.1 + max c.2.1 c.2.2) * second ≤ wall then c.2.2 * second else offset)
    (21208 * second)

/-- The wall clock of an instant. -/
def wallClock (t : ℕ) : ℕ := t + utcOffset t

/-- The instant a wall clock is shown at. -/
def instant (wall : ℕ) : ℕ := wall - wallOffset wall

/-! ## Offsets -/

/-- The offset of an instant, written out. -/
theorem utcOffset_eq (t : ℕ) : utcOffset t =
    if 61371451800000000 ≤ t then 19800000000 else
    if 61272959400000000 ≤ t then 23400000000 else
    if 61263538200000000 ≤ t then 19800000000 else
    if 61244015400000000 ≤ t then 23400000000 else
    if 60115891130000000 ≤ t then 19800000000 else
    if 58979902000000000 ≤ t then 19270000000 else
    if 58490359592000000 ≤ t then 21200000000 else
    21208000000 := rfl

/-- The same of a wall clock. -/
theorem wallOffset_eq (wall : ℕ) : wallOffset wall =
    if 61371475200000000 ≤ wall then 19800000000 else
    if 61272982800000000 ≤ wall then 23400000000 else
    if 61263561600000000 ≤ wall then 19800000000 else
    if 61244038800000000 ≤ wall then 23400000000 else
    if 60115910930000000 ≤ wall then 19800000000 else
    if 58979923200000000 ≤ wall then 19270000000 else
    if 58490380800000000 ≤ wall then 21200000000 else
    21208000000 := rfl

/-- What one of eight numbers is, by the bounds that pick it. -/
theorem pick_cases (t a₁ a₂ a₃ a₄ a₅ a₆ a₇ o₀ o₁ o₂ o₃ o₄ o₅ o₆ o₇ : ℕ) {o : ℕ}
    (ho : o = if a₇ ≤ t then o₇ else if a₆ ≤ t then o₆ else if a₅ ≤ t then o₅ else
      if a₄ ≤ t then o₄ else if a₃ ≤ t then o₃ else if a₂ ≤ t then o₂ else
      if a₁ ≤ t then o₁ else o₀) :
    (t < a₁ ∧ o = o₀) ∨ (a₁ ≤ t ∧ t < a₂ ∧ o = o₁) ∨ (a₂ ≤ t ∧ t < a₃ ∧ o = o₂) ∨
      (a₃ ≤ t ∧ t < a₄ ∧ o = o₃) ∨ (a₄ ≤ t ∧ t < a₅ ∧ o = o₄) ∨ (a₅ ≤ t ∧ t < a₆ ∧ o = o₅) ∨
      (a₆ ≤ t ∧ t < a₇ ∧ o = o₆) ∨ (a₇ ≤ t ∧ o = o₇) := by
  by_cases h₇ : a₇ ≤ t
  · rw [if_pos h₇] at ho
    exact .inr (.inr (.inr (.inr (.inr (.inr (.inr ⟨h₇, ho⟩))))))
  rw [if_neg h₇] at ho
  by_cases h₆ : a₆ ≤ t
  · rw [if_pos h₆] at ho
    exact .inr (.inr (.inr (.inr (.inr (.inr (.inl ⟨h₆, Nat.lt_of_not_le h₇, ho⟩))))))
  rw [if_neg h₆] at ho
  by_cases h₅ : a₅ ≤ t
  · rw [if_pos h₅] at ho
    exact .inr (.inr (.inr (.inr (.inr (.inl ⟨h₅, Nat.lt_of_not_le h₆, ho⟩)))))
  rw [if_neg h₅] at ho
  by_cases h₄ : a₄ ≤ t
  · rw [if_pos h₄] at ho
    exact .inr (.inr (.inr (.inr (.inl ⟨h₄, Nat.lt_of_not_le h₅, ho⟩))))
  rw [if_neg h₄] at ho
  by_cases h₃ : a₃ ≤ t
  · rw [if_pos h₃] at ho
    exact .inr (.inr (.inr (.inl ⟨h₃, Nat.lt_of_not_le h₄, ho⟩)))
  rw [if_neg h₃] at ho
  by_cases h₂ : a₂ ≤ t
  · rw [if_pos h₂] at ho
    exact .inr (.inr (.inl ⟨h₂, Nat.lt_of_not_le h₃, ho⟩))
  rw [if_neg h₂] at ho
  by_cases h₁ : a₁ ≤ t
  · rw [if_pos h₁] at ho
    exact .inr (.inl ⟨h₁, Nat.lt_of_not_le h₂, ho⟩)
  rw [if_neg h₁] at ho
  exact .inl ⟨Nat.lt_of_not_le h₁, ho⟩

/-- The offset of an instant, by the changes it is between. -/
theorem utcOffset_cases (t : ℕ) :
    (t < 58490359592000000 ∧ utcOffset t = 21208000000) ∨
    (58490359592000000 ≤ t ∧ t < 58979902000000000 ∧ utcOffset t = 21200000000) ∨
    (58979902000000000 ≤ t ∧ t < 60115891130000000 ∧ utcOffset t = 19270000000) ∨
    (60115891130000000 ≤ t ∧ t < 61244015400000000 ∧ utcOffset t = 19800000000) ∨
    (61244015400000000 ≤ t ∧ t < 61263538200000000 ∧ utcOffset t = 23400000000) ∨
    (61263538200000000 ≤ t ∧ t < 61272959400000000 ∧ utcOffset t = 19800000000) ∨
    (61272959400000000 ≤ t ∧ t < 61371451800000000 ∧ utcOffset t = 23400000000) ∨
    (61371451800000000 ≤ t ∧ utcOffset t = 19800000000) :=
  pick_cases _ _ _ _ _ _ _ _ _ _ _ _ _ _ _ _ (utcOffset_eq t)

/-- The same of a wall clock. -/
theorem wallOffset_cases (wall : ℕ) :
    (wall < 58490380800000000 ∧ wallOffset wall = 21208000000) ∨
    (58490380800000000 ≤ wall ∧ wall < 58979923200000000 ∧ wallOffset wall = 21200000000) ∨
    (58979923200000000 ≤ wall ∧ wall < 60115910930000000 ∧ wallOffset wall = 19270000000) ∨
    (60115910930000000 ≤ wall ∧ wall < 61244038800000000 ∧ wallOffset wall = 19800000000) ∨
    (61244038800000000 ≤ wall ∧ wall < 61263561600000000 ∧ wallOffset wall = 23400000000) ∨
    (61263561600000000 ≤ wall ∧ wall < 61272982800000000 ∧ wallOffset wall = 19800000000) ∨
    (61272982800000000 ≤ wall ∧ wall < 61371475200000000 ∧ wallOffset wall = 23400000000) ∨
    (61371475200000000 ≤ wall ∧ wallOffset wall = 19800000000) :=
  pick_cases _ _ _ _ _ _ _ _ _ _ _ _ _ _ _ _ (wallOffset_eq wall)

/-- A time of the day the clock shows every day once: midnight's own first, or one an hour off. -/
def Regular (clock : ℕ) : Prop := clock = 0 ∨ hour ≤ clock ∧ clock ≤ 23 * hour

/-- **A wall clock divides the instants**: those from its own instant on show it or a later
one, and no earlier one does. -/
theorem le_wallClock_iff {clock : ℕ} (h : Regular clock) (n t : ℕ) :
    n * day + clock ≤ wallClock t ↔ instant (n * day + clock) ≤ t := by
  have hday : day = 86400000000 := rfl
  have hhour : hour = 3600000000 := rfl
  rw [wallClock, instant, hday]
  rw [Regular, hhour] at h
  have hwall := wallOffset_cases (n * 86400000000 + clock)
  -- no change of the zone moved a clock across the time
  rcases utcOffset_cases t with ht | ht | ht | ht | ht | ht | ht | ht <;>
    rcases hwall with hw | hw | hw | hw | hw | hw | hw | hw <;> omega

/-- What a clock has reached it has reached for good. -/
theorem le_wallClock_of_le {clock n t u : ℕ} (h : Regular clock) (ht : n * day + clock ≤ wallClock t)
    (htu : t ≤ u) : n * day + clock ≤ wallClock u :=
  (le_wallClock_iff h n u).mpr (((le_wallClock_iff h n t).mp ht).trans htu)

/-- **The instant of a wall clock shows it**, away from midnight. -/
theorem wallClock_instant {clock n : ℕ} (h : hour ≤ clock ∧ clock ≤ 23 * hour)
    (hn : 6 * hour ≤ n * day + clock) :
    wallClock (instant (n * day + clock)) = n * day + clock := by
  have hday : day = 86400000000 := rfl
  have hhour : hour = 3600000000 := rfl
  rw [hhour] at h
  rw [hday, hhour] at hn
  rw [wallClock, instant, hday]
  have hself := utcOffset_cases (n * 86400000000 + clock - wallOffset (n * 86400000000 + clock))
  rcases wallOffset_cases (n * 86400000000 + clock) with hw | hw | hw | hw | hw | hw | hw | hw <;>
    omega

/-- Away from midnight an instant is the one its wall clock is shown at. -/
theorem eq_instant {clock n t : ℕ} (h : hour ≤ clock ∧ clock < 23 * hour)
    (ht : wallClock t = n * day + clock) : t = instant (n * day + clock) := by
  have hday : day = 86400000000 := rfl
  have hhour : hour = 3600000000 := rfl
  rw [hhour] at h
  rw [wallClock, hday] at ht
  rw [instant, hday]
  have hwall := wallOffset_cases (n * 86400000000 + clock)
  rcases utcOffset_cases t with hu | hu | hu | hu | hu | hu | hu | hu <;>
    rcases hwall with hw | hw | hw | hw | hw | hw | hw | hw <;> omega

/-- What the clock shows later the same day: no change falls in between. -/
theorem wallClock_instant_add {clock n d : ℕ} (h : hour ≤ clock) (hd : clock + d < day)
    (hn : 6 * hour ≤ n * day + clock) :
    wallClock (instant (n * day + clock) + d) = n * day + clock + d := by
  have hday : day = 86400000000 := rfl
  have hhour : hour = 3600000000 := rfl
  rw [hhour] at h
  rw [hday] at hd
  rw [hday, hhour] at hn
  rw [wallClock, instant, hday]
  have hself := utcOffset_cases (n * 86400000000 + clock - wallOffset (n * 86400000000 + clock) + d)
  rcases wallOffset_cases (n * 86400000000 + clock) with hw | hw | hw | hw | hw | hw | hw | hw <;>
    omega

end IndianTime

end Lib
