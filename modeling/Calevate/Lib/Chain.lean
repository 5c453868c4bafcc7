import Mathlib.Data.List.Basic
import Mathlib.Logic.Relation

/-!
# Chains

A partial successor function over the rows of a finite table, such that a row's successor is
in the table and ranks higher. Following it cannot go on for longer than the table, and it
ends at the one row of the chain that has no successor. `follow` is the loop with a bound on
its turns; `follow_ends` says that as many turns as there are rows are enough, and
`follow_unique` that nothing else of the chain is an end.
-/

namespace Lib

namespace Chain

variable {α : Type*} {next : α → Option α} {rank : α → ℕ} {rows : List α}

/-- Follow the successor function for at most so many turns. -/
def follow (next : α → Option α) : ℕ → α → α
  | 0, x => x
  | n + 1, x =>
    match next x with
    | none => x
    | some y => follow next n y

/-- `y` is on the chain that starts at `x`. -/
abbrev Reaches (next : α → Option α) : α → α → Prop :=
  Relation.ReflTransGen fun x y => next x = some y

/-- Successors stay in the table and rank higher. -/
def Climbs (next : α → Option α) (rank : α → ℕ) (rows : List α) : Prop :=
  ∀ x ∈ rows, ∀ y, next x = some y → y ∈ rows ∧ rank x < rank y

theorem reaches_follow (n : ℕ) (x : α) : Reaches next x (follow next n x) := by
  induction n generalizing x with
  | zero => exact .refl
  | succ n ih =>
    unfold follow
    cases h : next x with
    | none => exact .refl
    | some y => exact .head h (ih y)

/-- What a link keeps between its two rows, the chain keeps. -/
theorem Reaches.rel {R : α → α → Prop} (hrefl : ∀ x, R x x)
    (htrans : ∀ x y z, R x y → R y z → R x z) (hclimb : Climbs next rank rows)
    (hlink : ∀ x ∈ rows, ∀ y, next x = some y → R x y) {x y : α} (hx : x ∈ rows)
    (h : Reaches next x y) : y ∈ rows ∧ R x y := by
  induction h with
  | refl => exact ⟨hx, hrefl x⟩
  | tail _ hstep ih =>
    exact ⟨(hclimb _ ih.1 _ hstep).1, htrans _ _ _ ih.2 (hlink _ ih.1 _ hstep)⟩

/-- How many rows rank above this one: what is left to climb. -/
def above (rank : α → ℕ) (rows : List α) (x : α) : ℕ :=
  (rows.filter fun y => rank x < rank y).length

theorem above_lt {x y : α} (hy : y ∈ rows) (h : rank x < rank y) :
    above rank rows y < above rank rows x := by
  unfold above
  rw [← List.countP_eq_length_filter, ← List.countP_eq_length_filter]
  have hsub : ∀ l : List α, l.countP (fun z => decide (rank y < rank z)) ≤
      l.countP fun z => decide (rank x < rank z) := by
    intro l
    apply List.countP_mono_left
    intro z _ hz
    simp only [decide_eq_true_eq] at hz ⊢
    omega
  obtain ⟨l, r, rfl⟩ := List.append_of_mem hy
  simp only [List.countP_append, List.countP_cons, Nat.lt_irrefl, decide_false, h, decide_true,
    Bool.false_eq_true, if_false, if_true]
  have hl := hsub l
  have hr := hsub r
  omega

/-- **Enough turns reach the end.** -/
theorem follow_ends_of_above (hclimb : Climbs next rank rows) {n : ℕ} {x : α} (hx : x ∈ rows)
    (hn : above rank rows x ≤ n) : next (follow next n x) = none := by
  induction n generalizing x with
  | zero =>
    unfold follow
    cases h : next x with
    | none => rfl
    | some y =>
      obtain ⟨hy, hlt⟩ := hclimb x hx y h
      have := above_lt hy hlt
      omega
  | succ n ih =>
    unfold follow
    cases h : next x with
    | none => exact h
    | some y =>
      obtain ⟨hy, hlt⟩ := hclimb x hx y h
      have := above_lt hy hlt
      exact ih hy (by omega)

theorem follow_ends (hclimb : Climbs next rank rows) {n : ℕ} {x : α} (hx : x ∈ rows)
    (hn : rows.length ≤ n) : next (follow next n x) = none :=
  follow_ends_of_above hclimb hx (Nat.le_trans (List.length_filter_le _ _) hn)

/-- **The end of a chain is its only one.** -/
theorem eq_of_ends {x y z : α} (hy : Reaches next x y) (hz : Reaches next x z)
    (hyend : next y = none) (hzend : next z = none) : y = z := by
  induction hy using Relation.ReflTransGen.head_induction_on with
  | refl =>
    rcases Relation.ReflTransGen.cases_head hz with rfl | ⟨w, hw, -⟩
    · rfl
    · rw [hyend] at hw
      cases hw
  | head hstep _ ih =>
    rcases Relation.ReflTransGen.cases_head hz with rfl | ⟨w, hw, hrest⟩
    · rw [hzend] at hstep
      cases hstep
    · rw [hstep] at hw
      cases hw
      exact ih hrest

end Chain

end Lib
