import Mathlib.Logic.Basic

/-!
# Lineages

A partial parent function over the nodes of a growing forest, and the descent it gives: `j` is
below `k` when the parents of `j` lead to `k`. A descent can leave one node out, with what is below
it. A node is added under a parent that is there already, or under none; what was below what stays
as it was, and the new node is below what its parent is below.
-/

namespace Lib

namespace Lineage

variable {α : Type*} {parent parent' : α → Option α} {spare : Option α} {j k n : α}

/-- `j` is below `k`, by a way that does not lead through `spare`. -/
inductive Descends (parent : α → Option α) (spare : Option α) (k : α) : α → Prop
  | self : Descends parent spare k k
  | child {i j : α} : parent j = some i → spare ≠ some j → Descends parent spare k i →
      Descends parent spare k j

/-- Leaving a node out leaves fewer below. -/
theorem Descends.unspared (h : Descends parent spare k j) : Descends parent none k j := by
  induction h with
  | self => exact .self
  | child hparent _ _ ih => exact .child hparent nofun ih

/-- What every child has from its parent, everything below has. -/
theorem Descends.inherits {R : α → Prop} (hchild : ∀ j i, parent j = some i → R i → R j)
    (h : Descends parent spare k j) (hk : R k) : R j := by
  induction h with
  | self => exact hk
  | child hparent _ _ ih => exact hchild _ _ hparent ih

/-- What is below a node and is another has come from a child of that node. -/
theorem Descends.eq_or_child (h : Descends parent spare k j) :
    j = k ∨ ∃ c, parent c = some k := by
  induction h with
  | self => exact .inl rfl
  | child hparent _ _ ih =>
    obtain rfl | hchild := ih
    · exact .inr ⟨_, hparent⟩
    · exact .inr hchild

/-- `n` joins the forest: it is no one's parent, and the parents of the others stay. -/
structure Joins (parent parent' : α → Option α) (n : α) : Prop where
  others : ∀ j, j ≠ n → parent' j = parent j
  leaf : ∀ j, parent' j ≠ some n

/-- Among the others nothing changes. -/
theorem Joins.descends_old (hj : Joins parent parent' n) (h : Descends parent' spare k j)
    (hne : j ≠ n) : Descends parent spare k j := by
  induction h with
  | self => exact .self
  | @child i j hparent hspare _ ih =>
    have hi : i ≠ n := fun hi => hj.leaf j (hi ▸ hparent)
    exact .child (hj.others j hne ▸ hparent) hspare (ih hi)

/-- The new node is below what its parent was below. -/
theorem Joins.descends_new (hj : Joins parent parent' n) (h : Descends parent' spare k n)
    (hne : k ≠ n) : spare ≠ some n ∧ ∃ i, parent' n = some i ∧ Descends parent spare k i := by
  cases h with
  | self => exact absurd rfl hne
  | child hparent hspare hdescends =>
    refine ⟨hspare, _, hparent, hj.descends_old hdescends fun hi => hj.leaf n ?_⟩
    exact hi ▸ hparent

end Lineage

end Lib
