import Mathlib.Algebra.BigOperators.Group.Finset.Piecewise
import Mathlib.Algebra.Order.BigOperators.Group.Finset

/-!
# The part a predicate picks

A table whose rows are numbered in the order they come holds an amount under each number, and
a predicate picks some of the rows. `part` is what the picked rows hold together. Numbers not
given out yet hold nothing, so the part of an older table is read under any later bound, and a
change to the amounts is a change to the part (`part_sub`).
-/

namespace Lib

namespace Part

variable {M : Type*} [AddCommGroup M] {pick pick' : ℕ → Bool} {n m : ℕ} {f g : ℕ → M}

/-- **The part**: what the rows picked among the first `n` hold. -/
def part (pick : ℕ → Bool) (n : ℕ) (f : ℕ → M) : M :=
  ∑ i ∈ Finset.range n, if pick i then f i else 0

theorem part_congr (h : ∀ i < n, pick i = true → f i = g i) : part pick n f = part pick n g := by
  apply Finset.sum_congr rfl
  intro i hi
  by_cases hp : pick i = true
  · rw [if_pos hp, if_pos hp, h i (Finset.mem_range.mp hi) hp]
  · rw [if_neg hp, if_neg hp]

theorem part_add : part pick n (fun i => f i + g i) = part pick n f + part pick n g := by
  unfold part
  rw [← Finset.sum_add_distrib]
  apply Finset.sum_congr rfl
  intro i _
  split
  · rfl
  · rw [add_zero]

theorem part_sub : part pick n (fun i => f i - g i) = part pick n f - part pick n g := by
  unfold part
  rw [← Finset.sum_sub_distrib]
  apply Finset.sum_congr rfl
  intro i _
  split
  · rfl
  · rw [sub_zero]

@[simp] theorem part_zero : part pick n (fun _ => (0 : M)) = 0 := by
  simp [part]

/-- One row. -/
theorem part_single (t : ℕ) (x : M) :
    part pick n (fun i => if i = t then x else 0) = if t < n ∧ pick t = true then x else 0 := by
  unfold part
  have hswap : ∀ i, (if pick i = true then if i = t then x else 0 else 0) =
      if i = t then if pick t = true then x else 0 else 0 := by
    intro i
    by_cases hi : i = t
    · rw [hi, if_pos rfl, if_pos rfl]
    · rw [if_neg hi, if_neg hi, ite_self]
  simp only [hswap, Finset.sum_ite_eq', Finset.mem_range]
  by_cases hn : t < n <;> simp [hn]

/-- **Rows that came later**, and the picking of them, change nothing while they are empty. -/
theorem part_extend (hnm : n ≤ m) (hpick : ∀ i < n, pick' i = pick i)
    (hempty : ∀ i, n ≤ i → f i = 0) : part pick' m f = part pick n f := by
  unfold part
  have hsub : Finset.range n ⊆ Finset.range m := Finset.range_subset_range.mpr hnm
  rw [← Finset.sum_subset hsub]
  · apply Finset.sum_congr rfl
    intro i hi
    rw [hpick i (Finset.mem_range.mp hi)]
  · intro i _ hi
    rw [hempty i (not_lt.mp fun h => hi (Finset.mem_range.mpr h)), ite_self]

theorem part_nonneg [PartialOrder M] [IsOrderedAddMonoid M] (h : ∀ i, 0 ≤ f i) :
    0 ≤ part pick n f := by
  apply Finset.sum_nonneg
  intro i _
  split
  · exact h i
  · exact le_refl _

end Part

end Lib
