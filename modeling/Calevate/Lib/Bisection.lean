import Mathlib.Algebra.Group.Nat.Defs
import Mathlib.Data.Nat.Notation
import Mathlib.Order.Basic
import Mathlib.Order.Nat

/-!
# Search by doubling and bisection

The least number at which a condition stops holding, found without a ceiling: the upper end is
doubled until the condition fails there, then the two ends are brought together. The search is
right for a condition that, once it fails, fails for good (`search_least`); that the doubling
ends needs only some power of two at which it fails.
-/

namespace Lib

namespace Bisection

variable (below : ℕ → Bool)

/-- The bracket: the upper end doubled, the lower one following, while the condition holds at
the upper one. -/
def bracket : ℕ → ℕ → ℕ → Option (ℕ × ℕ)
  | 0, _, _ => none
  | fuel + 1, low, high => if below high then bracket fuel high (high * 2) else some (low, high)

/-- The two ends brought together, by the middle rounded up. -/
def bisect (low high : ℕ) : ℕ :=
  if 1 < high - low then
    if below ((low + high + 1) / 2) then bisect ((low + high + 1) / 2) high
    else bisect low ((low + high + 1) / 2)
  else high
termination_by high - low
decreasing_by all_goals omega

/-- **The search**, from nought and one. -/
def search (fuel : ℕ) : Option ℕ := (bracket below fuel 0 1).map fun ends => bisect below ends.1 ends.2

variable {below} {fuel low high : ℕ}

/-- **Doubling ends** at the latest when it comes to a number at which the condition fails. -/
theorem bracket_isSome {k : ℕ} (hfail : below (high * 2 ^ k) = false) (hfuel : k < fuel) :
    (bracket below fuel low high).isSome := by
  induction k generalizing fuel low high with
  | zero =>
    obtain ⟨fuel, rfl⟩ := Nat.exists_eq_add_of_lt hfuel
    rw [Nat.pow_zero, Nat.mul_one] at hfail
    rw [Nat.zero_add, bracket, if_neg (by rw [hfail]; decide)]
    rfl
  | succ k ih =>
    obtain ⟨fuel, rfl⟩ : ∃ f, fuel = f + 1 := ⟨fuel - 1, by omega⟩
    rw [bracket]
    split
    · apply ih _ (by omega)
      rw [Nat.mul_assoc, ← Nat.pow_succ']
      exact hfail
    · rfl

/-- The ends doubling comes to are on either side. -/
theorem bracket_spec {ends : ℕ × ℕ} (hlow : below low = true) (hlt : low < high)
    (h : bracket below fuel low high = some ends) :
    below ends.1 = true ∧ below ends.2 = false ∧ ends.1 < ends.2 := by
  induction fuel generalizing low high with
  | zero => exact nomatch h
  | succ fuel ih =>
    rw [bracket] at h
    split at h
    case isTrue hhigh => exact ih hhigh (by omega) h
    case isFalse hhigh =>
      obtain rfl := Option.some.inj h
      exact ⟨hlow, Bool.eq_false_iff.mpr hhigh, hlt⟩

/-- **The ends meet** at a number where the condition fails, and holds just before. -/
theorem bisect_spec (hlow : below low = true) (hhigh : below high = false) (hlt : low < high) :
    below (bisect below low high) = false ∧ below (bisect below low high - 1) = true ∧
      low < bisect below low high := by
  fun_induction bisect below low high with
  | case1 low high hwide hmid ih =>
    obtain ⟨hfails, hholds, hgt⟩ := ih hmid hhigh (by omega)
    exact ⟨hfails, hholds, by omega⟩
  | case2 low high hwide hmid ih => exact ih hlow (Bool.eq_false_iff.mpr hmid) (by omega)
  | case3 low high hnarrow =>
    have hnext : high - 1 = low := by omega
    rw [hnext]
    exact ⟨hhigh, hlow, hlt⟩

/-- **The search is right.** For a condition that holds at nought, fails for good once it fails,
and fails at some power of two, enough fuel finds the least number at which it fails. -/
theorem search_least {k : ℕ} (hzero : below 0 = true) (hfail : below (2 ^ k) = false)
    (hmono : ∀ u v, u ≤ v → below v = true → below u = true) (hfuel : k < fuel) :
    ∃ r, search below fuel = some r ∧ below r = false ∧ ∀ v, below v = false → r ≤ v := by
  have hsome : (bracket below fuel 0 1).isSome := bracket_isSome (by rwa [Nat.one_mul]) hfuel
  obtain ⟨ends, hends⟩ := Option.isSome_iff_exists.mp hsome
  obtain ⟨hlow, hhigh, hlt⟩ := bracket_spec hzero (by omega) hends
  obtain ⟨hfails, hholds, -⟩ := bisect_spec hlow hhigh hlt
  refine ⟨_, by rw [search, hends]; rfl, hfails, fun v hv => ?_⟩
  by_contra hless
  have hmust := hmono v _ (by omega) hholds
  rw [hv] at hmust
  exact nomatch hmust

/-! ## One pass

A condition that can hold again after it failed is not bisected: every number up to a ceiling is
looked at. -/

/-- The last number from one to a ceiling at which a condition holds, or nought. -/
def lastWhere (holds : ℕ → Bool) (ceiling : ℕ) : ℕ :=
  (List.range ceiling).foldl (fun last i => if holds (i + 1) then i + 1 else last) 0

theorem lastWhere_succ (holds : ℕ → Bool) (ceiling : ℕ) : lastWhere holds (ceiling + 1) =
    if holds (ceiling + 1) then ceiling + 1 else lastWhere holds ceiling := by
  rw [lastWhere, List.range_succ, List.foldl_append]
  rfl

/-- The condition fails past the number a pass comes back with, and holds at it. -/
theorem lastWhere_spec (holds : ℕ → Bool) (ceiling : ℕ) :
    (∀ w, lastWhere holds ceiling < w → w ≤ ceiling → holds w = false) ∧
      (lastWhere holds ceiling = 0 ∨ holds (lastWhere holds ceiling) = true) := by
  induction ceiling with
  | zero => exact ⟨fun w hlt hle => by omega, Or.inl rfl⟩
  | succ n ih =>
    rw [lastWhere_succ]
    split
    case isTrue hholds => exact ⟨fun w hlt hle => by omega, Or.inr hholds⟩
    case isFalse hfails =>
      refine ⟨fun w hlt hle => ?_, ih.2⟩
      rcases Nat.lt_or_eq_of_le hle with hless | rfl
      · exact ih.1 w hlt (by omega)
      · exact Bool.eq_false_iff.mpr hfails

end Bisection

end Lib
