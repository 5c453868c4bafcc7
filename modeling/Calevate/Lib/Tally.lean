import Mathlib.Algebra.BigOperators.Group.List.Basic
import Mathlib.Data.List.Induction
import Mathlib.Data.List.Nodup
import Mathlib.Tactic.Tauto

/-!
# Tallies

A list of labelled items is folded into one figure a label, the labels in the order they
first occur: `GROUP BY` of a query, and the loop that adds rows into a dictionary. A figure
is read through a measure `φ` that adds what an item weighs, `ψ`, each time one is filed;
how the rest of the figure is combined does not matter to it.

`sumOn_tally` says a tally loses and doubles nothing: whatever labels are picked, the
figures under them weigh what the items under them did. A tally of a tally is read by
applying it twice.
-/

namespace Lib

namespace Tally

variable {κ ι α β M : Type*}

/-- One item filed under its label. -/
def file [DecidableEq κ] (add : β → α → β) (zero : β) (k : κ) (a : α) : List (κ × β) → List (κ × β)
  | [] => [(k, add zero a)]
  | (j, b) :: t => if j = k then (j, add b a) :: t else (j, b) :: file add zero k a t

/-- **The tally**: every item filed, in order. -/
def tally [DecidableEq κ] (add : β → α → β) (zero : β) (items : List (κ × α)) : List (κ × β) :=
  items.foldl (fun t p => file add zero p.1 p.2 t) []

/-- What the items under the picked labels weigh. -/
def sumOn [AddCommMonoid M] (pick : κ → Prop) [DecidablePred pick] (φ : β → M)
    (items : List (κ × β)) : M :=
  (items.map fun p => if pick p.1 then φ p.2 else 0).sum

section Labels

variable [DecidableEq κ] (add : β → α → β) (zero : β)

theorem mem_file_labels {k : κ} {a : α} {t : List (κ × β)} {j : κ} :
    j ∈ (file add zero k a t).map Prod.fst ↔ j = k ∨ j ∈ t.map Prod.fst := by
  induction t with
  | nil => simp [file]
  | cons q t ih =>
    obtain ⟨i, b⟩ := q
    by_cases hi : i = k
    · simp [file, hi]
    · rw [file, if_neg hi, List.map_cons, List.mem_cons, ih, List.map_cons, List.mem_cons]
      tauto

theorem file_nodup {k : κ} {a : α} {t : List (κ × β)} (h : (t.map Prod.fst).Nodup) :
    ((file add zero k a t).map Prod.fst).Nodup := by
  induction t with
  | nil => simp [file]
  | cons q t ih =>
    obtain ⟨i, b⟩ := q
    rw [List.map_cons, List.nodup_cons] at h
    by_cases hi : i = k
    · rw [file, if_pos hi, List.map_cons, List.nodup_cons]
      exact h
    · rw [file, if_neg hi, List.map_cons, List.nodup_cons, mem_file_labels]
      exact ⟨by rintro (hik | hmem); exacts [hi hik, h.1 hmem], ih h.2⟩

theorem tally_append (items : List (κ × α)) (p : κ × α) :
    tally add zero (items ++ [p]) = file add zero p.1 p.2 (tally add zero items) := by
  rw [tally, List.foldl_append]
  rfl

theorem mem_tally_labels {items : List (κ × α)} {k : κ} :
    k ∈ (tally add zero items).map Prod.fst ↔ k ∈ items.map Prod.fst := by
  induction items using List.reverseRecOn with
  | nil => rfl
  | append_singleton items p ih =>
    rw [tally_append, mem_file_labels, ih, List.map_append, List.mem_append]
    simp [or_comm]

/-- Every label has one figure. -/
theorem tally_nodup (items : List (κ × α)) : ((tally add zero items).map Prod.fst).Nodup := by
  induction items using List.reverseRecOn with
  | nil => exact List.nodup_nil
  | append_singleton items p ih =>
    rw [tally_append]
    exact file_nodup add zero ih

end Labels

section Weights

variable [AddCommMonoid M] {add : β → α → β} {zero : β} {φ : β → M} {ψ : α → M}
variable (pick : κ → Prop) [DecidablePred pick]

@[simp] theorem sumOn_nil : sumOn pick φ [] = 0 := rfl

@[simp] theorem sumOn_cons (p : κ × β) (t : List (κ × β)) :
    sumOn pick φ (p :: t) = (if pick p.1 then φ p.2 else 0) + sumOn pick φ t := by
  simp [sumOn]

theorem sumOn_append (s t : List (κ × β)) :
    sumOn pick φ (s ++ t) = sumOn pick φ s + sumOn pick φ t := by
  simp [sumOn]

theorem sumOn_file [DecidableEq κ] (hadd : ∀ b a, φ (add b a) = φ b + ψ a)
    (hzero : φ zero = 0) (k : κ) (a : α) (t : List (κ × β)) :
    sumOn pick φ (file add zero k a t) = sumOn pick φ t + if pick k then ψ a else 0 := by
  induction t with
  | nil => simp [file, hadd, hzero]
  | cons q t ih =>
    obtain ⟨i, b⟩ := q
    by_cases hi : i = k
    · subst hi
      rw [file, if_pos rfl, sumOn_cons, sumOn_cons]
      by_cases hp : pick i
      · simp only [if_pos hp, hadd]
        rw [add_assoc, add_comm (ψ a), ← add_assoc]
      · simp only [if_neg hp, add_zero]
    · rw [file, if_neg hi, sumOn_cons, ih, sumOn_cons, add_assoc]

/-- **A tally loses and doubles nothing.** -/
theorem sumOn_tally [DecidableEq κ] (hadd : ∀ b a, φ (add b a) = φ b + ψ a) (hzero : φ zero = 0)
    (items : List (κ × α)) : sumOn pick φ (tally add zero items) = sumOn pick ψ items := by
  induction items using List.reverseRecOn with
  | nil => rfl
  | append_singleton items p ih =>
    rw [tally_append, sumOn_file pick hadd hzero, ih, sumOn_append, sumOn_cons, sumOn_nil,
      add_zero]

theorem sumOn_eq_zero {t : List (κ × β)} (h : ∀ p ∈ t, ¬ pick p.1) : sumOn pick φ t = 0 := by
  induction t with
  | nil => rfl
  | cons q t ih =>
    rw [sumOn_cons, if_neg (h q (by simp)), zero_add,
      ih fun p hp => h p (List.mem_cons_of_mem q hp)]

/-- Under distinct labels a label's items are its one figure. -/
theorem sumOn_label [DecidableEq κ] {t : List (κ × β)} (hnd : (t.map Prod.fst).Nodup)
    {k : κ} {b : β} (h : (k, b) ∈ t) : sumOn (· = k) φ t = φ b := by
  induction t with
  | nil => cases h
  | cons q t ih =>
    rw [List.map_cons, List.nodup_cons] at hnd
    rw [sumOn_cons]
    rcases List.mem_cons.mp h with rfl | hmem
    · have hrest : sumOn (· = k) φ t = 0 := by
        apply sumOn_eq_zero
        intro p hp hpk
        exact hnd.1 (List.mem_map.mpr ⟨p, hp, hpk⟩)
      rw [if_pos rfl, hrest, add_zero]
    · have hne : q.1 ≠ k := by
        intro hqk
        exact hnd.1 (List.mem_map.mpr ⟨(k, b), hmem, hqk.symm⟩)
      rw [if_neg hne, zero_add, ih hnd.2 hmem]

theorem sum_ite_label [DecidableEq κ] {ks : List κ} (hnd : ks.Nodup) {j : κ} (hj : j ∈ ks) (x : M) :
    (ks.map fun k => if j = k then x else 0).sum = x := by
  induction ks with
  | nil => cases hj
  | cons i ks ih =>
    rw [List.nodup_cons] at hnd
    rw [List.map_cons, List.sum_cons]
    by_cases hji : j = i
    · have hrest : (ks.map fun k => if j = k then x else 0).sum = 0 := by
        apply List.sum_eq_zero
        intro y hy
        obtain ⟨k, hk, rfl⟩ := List.mem_map.mp hy
        have hne : j ≠ k := by
          rintro rfl
          exact hnd.1 (hji ▸ hk)
        exact if_neg hne
      rw [if_pos hji, hrest, add_zero]
    · have hmem : j ∈ ks := (List.mem_cons.mp hj).resolve_left hji
      rw [if_neg hji, zero_add, ih hnd.2 hmem]

/-- The labels of a list without repetition weigh all the items together. -/
theorem sum_sumOn [DecidableEq κ] {ks : List κ} (hnd : ks.Nodup) {items : List (κ × β)}
    (hks : ∀ p ∈ items, p.1 ∈ ks) :
    (ks.map fun k => sumOn (· = k) φ items).sum = (items.map fun p => φ p.2).sum := by
  induction items with
  | nil => simp
  | cons q items ih =>
    have hq : q.1 ∈ ks := hks q (by simp)
    simp only [sumOn_cons, List.sum_map_add, List.map_cons, List.sum_cons]
    rw [sum_ite_label hnd hq, ih fun p hp => hks p (List.mem_cons_of_mem q hp)]

end Weights

/-- Relabelling first and picking after is picking by the new label. -/
theorem sumOn_relabel [AddCommMonoid M] (pick : ι → Prop) [DecidablePred pick]
    (f : κ → ι) (φ : β → M) (items : List (κ × β)) :
    sumOn pick φ (items.map fun p => (f p.1, p.2)) = sumOn (fun k => pick (f k)) φ items := by
  simp [sumOn, List.map_map, Function.comp_def]

end Tally

end Lib
