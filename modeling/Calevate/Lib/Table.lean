import Mathlib.Algebra.BigOperators.Group.List.Basic
import Mathlib.Data.List.Nodup
import Mathlib.Tactic.Ring

/-!
# Tables

A table is a list of rows with a key. `update` is the statement `UPDATE … WHERE`: it
rewrites the rows a predicate picks and leaves the rest. The lemmas say what a keyed
update does to the keys, to membership and to a sum over the rows; a proof about a
stored total never looks at the list.
-/

namespace Lib

namespace Table

variable {α κ : Type} [DecidableEq κ] {key : α → κ}

/-- `UPDATE … SET f WHERE p`. -/
def update (p : α → Bool) (f : α → α) (l : List α) : List α :=
  l.map fun x => if p x then f x else x

/-- `UPDATE … SET f WHERE key = k`. -/
def updateKey (key : α → κ) (k : κ) (f : α → α) (l : List α) : List α :=
  update (fun x => decide (key x = k)) f l

/-- `SELECT … WHERE key = k`, for a key that is unique. -/
def findKey (key : α → κ) (k : κ) (l : List α) : Option α :=
  l.find? fun x => decide (key x = k)

theorem findKey_some {k : κ} {l : List α} {x : α} (h : findKey key k l = some x) :
    x ∈ l ∧ key x = k :=
  ⟨List.mem_of_find?_eq_some h, by simpa using List.find?_some h⟩

theorem findKey_eq_none {k : κ} {l : List α} :
    findKey key k l = none ↔ ∀ x ∈ l, key x ≠ k := by
  simp [findKey]

/-- A unique key finds the row that carries it. -/
theorem findKey_of_mem {l : List α} {x : α} (hnd : (l.map key).Nodup) (hx : x ∈ l) :
    findKey key (key x) l = some x := by
  cases h : findKey key (key x) l with
  | none => exact absurd rfl ((findKey_eq_none).mp h x hx)
  | some y =>
    obtain ⟨hy, hk⟩ := findKey_some h
    rw [List.inj_on_of_nodup_map hnd hy hx hk]

theorem mem_updateKey {k : κ} {f : α → α} {l : List α} {y : α} :
    y ∈ updateKey key k f l ↔ (y ∈ l ∧ key y ≠ k) ∨ ∃ x ∈ l, key x = k ∧ y = f x := by
  simp only [updateKey, update, List.mem_map, decide_eq_true_eq]
  constructor
  · rintro ⟨x, hx, rfl⟩
    by_cases hk : key x = k
    · exact Or.inr ⟨x, hx, hk, by simp [hk]⟩
    · exact Or.inl ⟨by simpa [hk] using hx, by simp [hk]⟩
  · rintro (⟨hy, hk⟩ | ⟨x, hx, hk, rfl⟩)
    · exact ⟨y, hy, by simp [hk]⟩
    · exact ⟨x, hx, by simp [hk]⟩

theorem mem_update {p : α → Bool} {f : α → α} {l : List α} {y : α} :
    y ∈ update p f l ↔ (y ∈ l ∧ p y = false) ∨ ∃ x ∈ l, p x = true ∧ y = f x := by
  simp only [update, List.mem_map]
  constructor
  · rintro ⟨x, hx, rfl⟩
    by_cases hp : p x = true
    · exact Or.inr ⟨x, hx, hp, by simp [hp]⟩
    · exact Or.inl ⟨by simpa [hp] using hx, by simp [hp]⟩
  · rintro (⟨hy, hp⟩ | ⟨x, hx, hp, rfl⟩)
    · exact ⟨y, hy, by simp [hp]⟩
    · exact ⟨x, hx, by simp [hp]⟩

/-- An update that picks no row changes none. -/
theorem update_of_notAny {p : α → Bool} {f : α → α} {l : List α} (h : l.any p = false) :
    update p f l = l := by
  rw [List.any_eq_false] at h
  have hrow : ∀ x ∈ l, (if p x = true then f x else x) = x := by
    intro x hx
    rw [if_neg (h x hx)]
  simp only [update]
  calc l.map (fun x => if p x = true then f x else x) = l.map id := List.map_congr_left hrow
    _ = l := List.map_id l

/-- An update that leaves a column alone leaves the whole column. -/
theorem map_update {β : Type} {p : α → Bool} {f : α → α} {l : List α} {g : α → β}
    (hf : ∀ x, g (f x) = g x) : (update p f l).map g = l.map g := by
  simp only [update, List.map_map]
  apply List.map_congr_left
  intro x _
  by_cases hp : p x = true
  · simp [hp, hf x]
  · simp [hp]

/-- An update that keeps a column keeps the whole column. -/
theorem map_updateKey {β : Type} {k : κ} {f : α → α} {l : List α} {g : α → β}
    (hf : ∀ x ∈ l, key x = k → g (f x) = g x) : (updateKey key k f l).map g = l.map g := by
  simp only [updateKey, update, List.map_map]
  apply List.map_congr_left
  intro x hx
  by_cases hk : key x = k
  · simp [hk, hf x hx hk]
  · simp [hk]

theorem updateKey_of_notMem {k : κ} {f : α → α} {l : List α} (h : ∀ x ∈ l, key x ≠ k) :
    updateKey key k f l = l := by
  simp only [updateKey, update]
  calc l.map (fun x => if decide (key x = k) = true then f x else x) = l.map id := by
        apply List.map_congr_left
        intro x hx
        simp [h x hx]
    _ = l := List.map_id l

/-- A keyed update rewrites its one row where it stands. -/
theorem updateKey_append_cons {f : α → α} {l r : List α} {x : α}
    (hnd : ((l ++ x :: r).map key).Nodup) :
    updateKey key (key x) f (l ++ x :: r) = l ++ f x :: r := by
  rw [List.map_append, List.map_cons, List.nodup_append, List.nodup_cons] at hnd
  obtain ⟨-, ⟨hr, -⟩, hl⟩ := hnd
  have hleft : updateKey key (key x) f l = l := by
    apply updateKey_of_notMem
    intro z hz hzk
    exact hl _ (List.mem_map_of_mem hz) _ List.mem_cons_self hzk
  have hright : updateKey key (key x) f r = r := by
    apply updateKey_of_notMem
    intro z hz hzk
    exact hr (hzk ▸ List.mem_map_of_mem hz)
  calc updateKey key (key x) f (l ++ x :: r)
      = updateKey key (key x) f l ++ f x :: updateKey key (key x) f r := by
        simp [updateKey, update]
    _ = l ++ f x :: r := by rw [hleft, hright]

/-- **A keyed update moves a total by what it does to its one row.** -/
theorem sum_updateKey {g : α → ℤ} {f : α → α} {l : List α} {x : α}
    (hnd : (l.map key).Nodup) (hx : x ∈ l) :
    ((updateKey key (key x) f l).map g).sum = (l.map g).sum - g x + g (f x) := by
  induction l with
  | nil => simp at hx
  | cons y l ih =>
    rw [List.map_cons, List.nodup_cons] at hnd
    obtain ⟨hy, hnd⟩ := hnd
    by_cases hk : key y = key x
    · -- the row is the head, and no other row carries its key
      have hxy : y = x := by
        rcases List.mem_cons.mp hx with rfl | hx
        · rfl
        · exact absurd (hk ▸ List.mem_map_of_mem hx) hy
      subst hxy
      have hrest : updateKey key (key y) f l = l := by
        apply updateKey_of_notMem
        intro z hz hzk
        exact hy (hzk ▸ List.mem_map_of_mem hz)
      have hcons : updateKey key (key y) f (y :: l) = f y :: updateKey key (key y) f l := by
        simp [updateKey, update]
      rw [hcons, hrest]
      simp only [List.map_cons, List.sum_cons]
      ring
    · have hx : x ∈ l := by
        rcases List.mem_cons.mp hx with rfl | hx
        · exact absurd rfl hk
        · exact hx
      have hcons : updateKey key (key x) f (y :: l) = y :: updateKey key (key x) f l := by
        simp [updateKey, update, hk]
      rw [hcons]
      simp only [List.map_cons, List.sum_cons, ih hnd hx]
      ring

/-- A total over picked rows does not grow where the rows picked afterwards were picked
before, at their old weight. -/
theorem sum_filter_map_le {p q : α → Bool} {f : α → α} {g : α → ℕ} {l : List α}
    (h : ∀ x ∈ l, p (f x) = true → q x = true ∧ g (f x) = g x) :
    (((l.map f).filter p).map g).sum ≤ ((l.filter q).map g).sum := by
  induction l with
  | nil => simp
  | cons x l ih =>
    have hl := ih fun y hy => h y (List.mem_cons_of_mem x hy)
    rw [List.map_cons]
    by_cases hp : p (f x) = true
    · obtain ⟨hq, hg⟩ := h x List.mem_cons_self hp
      rw [List.filter_cons_of_pos hp, List.filter_cons_of_pos hq, List.map_cons, List.map_cons,
        List.sum_cons, List.sum_cons, hg]
      omega
    · rw [List.filter_cons_of_neg hp]
      by_cases hq : q x = true
      · rw [List.filter_cons_of_pos hq, List.map_cons, List.sum_cons]
        omega
      · rw [List.filter_cons_of_neg hq]
        exact hl

end Table

end Lib
