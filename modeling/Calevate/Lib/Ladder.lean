import Mathlib.Data.List.Chain
import Mathlib.Data.List.Sort
import Mathlib.Data.Int.Notation
import Mathlib.Order.Lattice

/-!
# Ladders

A list of rungs, each with a key. Two ways a program reads one: a loop that keeps the best rung
seen so far, the first of those that tie (`best`), and a check of each rung against the next
one up, the rungs sorted by their keys (`steps`). `climbs` is what makes the second worth
having: a transitive relation that holds of each step holds of any two rungs whose keys differ.
-/

namespace Lib

namespace Ladder

variable {α : Type*}

/-! ## The best rung -/

section Best

variable (beats : α → α → Prop) [DecidableRel beats]

/-- The rung kept of a first one and those after it: a later rung must beat the one kept. -/
def best (first : α) (rungs : List α) : α :=
  rungs.foldl (fun kept x => if beats x kept then x else kept) first

variable (first : α) (rungs : List α)

theorem best_mem : best beats first rungs ∈ first :: rungs := by
  induction rungs generalizing first with
  | nil => exact List.mem_cons_self
  | cons y rungs ih =>
    rw [best, List.foldl_cons]
    rcases List.mem_cons.mp (ih (if beats y first then y else first)) with h | h
    · rw [best] at h
      rw [h]
      split
      · exact List.mem_cons_of_mem _ List.mem_cons_self
      · exact List.mem_cons_self
    · exact List.mem_cons_of_mem _ (List.mem_cons_of_mem _ h)

/-- **No rung beats the one kept**, when to beat is to come strictly before in some ranking. -/
theorem best_unbeaten (hasymm : ∀ x y, beats x y → ¬ beats y x)
    (htrans : ∀ x y z, ¬ beats x y → ¬ beats y z → ¬ beats x z) :
    ∀ x ∈ first :: rungs, ¬ beats x (best beats first rungs) := by
  induction rungs generalizing first with
  | nil =>
    intro x hx hbeats
    rw [List.mem_singleton.mp hx] at hbeats
    exact hasymm _ _ hbeats hbeats
  | cons y rungs ih =>
    have hkept := ih (if beats y first then y else first)
    have hfirst := hkept _ List.mem_cons_self
    have hboth : ¬ beats first (best beats first (y :: rungs)) ∧
        ¬ beats y (best beats first (y :: rungs)) := by
      rw [best, List.foldl_cons, ← best]
      by_cases hy : beats y first
      · rw [if_pos hy] at hfirst ⊢
        exact ⟨htrans _ _ _ (hasymm _ _ hy) hfirst, hfirst⟩
      · rw [if_neg hy] at hfirst ⊢
        exact ⟨hfirst, htrans _ _ _ hy hfirst⟩
    intro x hx
    rcases List.mem_cons.mp hx with rfl | hx
    · exact hboth.1
    · rcases List.mem_cons.mp hx with rfl | hx
      · exact hboth.2
      · exact hkept x (List.mem_cons_of_mem _ hx)

end Best

/-! ## Each rung against the next -/

/-- Each element with the one after it. -/
def steps (l : List α) : List (α × α) := l.zip l.tail

theorem isChain_of_steps {R : α → α → Prop} {l : List α} (h : ∀ s ∈ steps l, R s.1 s.2) :
    l.IsChain R := by
  induction l with
  | nil => exact List.IsChain.nil
  | cons x l ih =>
    cases l with
    | nil => exact List.isChain_singleton x
    | cons y l =>
      rw [List.isChain_cons_cons]
      exact ⟨h (x, y) List.mem_cons_self, ih fun s hs => h s (List.mem_cons_of_mem _ hs)⟩

/-- **A ladder climbs rung by rung.** What holds of each step of the sorted rungs holds of any
two rungs, the one with the smaller key first. -/
theorem climbs {R : α → α → Prop} (htrans : ∀ x y z, R x y → R y z → R x z) (key : α → ℤ)
    {rungs : List α}
    (h : ∀ s ∈ steps (rungs.insertionSort fun x y => key x ≤ key y), R s.1 s.2)
    {x y : α} (hx : x ∈ rungs) (hy : y ∈ rungs) (hlt : key x < key y) : R x y := by
  have htotal : Std.Total fun x y : α => key x ≤ key y := ⟨fun x y => le_total (key x) (key y)⟩
  have hpre : IsTrans α fun x y => key x ≤ key y := ⟨fun _ _ _ => le_trans⟩
  have htrans' : Trans R R R := ⟨fun hxy hyz => htrans _ _ _ hxy hyz⟩
  have hsorted := List.pairwise_insertionSort (fun x y => key x ≤ key y) rungs
  have hrel := List.isChain_iff_pairwise.mp (isChain_of_steps h)
  have hperm := List.perm_insertionSort (fun x y => key x ≤ key y) rungs
  obtain ⟨i, hi, rfl⟩ := List.mem_iff_getElem.mp (hperm.mem_iff.mpr hx)
  obtain ⟨j, hj, rfl⟩ := List.mem_iff_getElem.mp (hperm.mem_iff.mpr hy)
  rcases Nat.lt_trichotomy i j with hij | rfl | hij
  · exact List.pairwise_iff_getElem.mp hrel i j hi hj hij
  · exact absurd hlt (lt_irrefl _)
  · have hle := List.pairwise_iff_getElem.mp hsorted j i hj hi hij
    omega

end Ladder

end Lib
