import Mathlib.Data.List.Chain
import Mathlib.Logic.Basic

/-!
# Crossings of a line

A quantity that moves is watched through a predicate, and each move is judged by its two
ends alone. `turns` are the verdicts of the moves that change the predicate; they alternate,
and the last of them is the predicate now (`turns_alternate`, `turns_last`), so acting on
them needs no state. A stretch on which the predicate holds is entered by one move and no
other (`enters_stretch`).
-/

namespace Lib

namespace Crossing

variable {α : Type*}

/-- The moves through a list of values, from one to the next. -/
def moves : α → List α → List (α × α)
  | _, [] => []
  | x, y :: ys => (x, y) :: moves y ys

theorem moves_append (x : α) (ys zs : List α) :
    moves x (ys ++ zs) = moves x ys ++ moves (ys.getLastD x) zs := by
  induction ys generalizing x with
  | nil => rfl
  | cons y ys ih =>
    rw [List.cons_append, moves, ih, moves, List.cons_append, List.getLastD_cons]

theorem moves_concat (x : α) (ys : List α) (y : α) :
    moves x (ys ++ [y]) = moves x ys ++ [(ys.getLastD x, y)] :=
  moves_append x ys [y]

/-- The moves of a part are a part of the moves. -/
theorem moves_infix {x b : α} {ys before part after : List α}
    (h : x :: ys = before ++ b :: part ++ after) : moves b part <:+: moves x ys := by
  cases before with
  | nil =>
    simp only [List.nil_append, List.cons_append, List.cons.injEq] at h
    obtain ⟨rfl, rfl⟩ := h
    rw [moves_append]
    exact (List.prefix_append _ _).isInfix
  | cons p before =>
    simp only [List.cons_append, List.append_assoc, List.cons.injEq] at h
    obtain ⟨rfl, rfl⟩ := h
    rw [moves_append, moves, moves_append]
    refine ⟨moves x before ++ [(before.getLastD x, b)], moves (part.getLastD b) after, ?_⟩
    simp

variable (P : α → Prop) [DecidablePred P]

/-- The verdict of one move: what the predicate has become, if that is a change. -/
def turn (m : α × α) : Option Bool :=
  if (P m.1 ↔ P m.2) then none else some (decide (P m.2))

/-- The verdicts of all the moves. -/
def turns (x : α) (ys : List α) : List Bool := (moves x ys).filterMap (turn P)

/-- **Verdicts alternate**, the first being other than what held at the start. -/
theorem turns_alternate (x : α) (ys : List α) :
    (decide (P x) :: turns P x ys).IsChain (· ≠ ·) := by
  induction ys generalizing x with
  | nil => exact List.isChain_singleton _
  | cons y ys ih =>
    by_cases h : P x ↔ P y
    · have hsame : decide (P x) = decide (P y) := by simp [h]
      have hturn : turn P (x, y) = none := if_pos h
      rw [turns, moves, List.filterMap_cons_none hturn, hsame]
      exact ih y
    · have hturn : turn P (x, y) = some (decide (P y)) := if_neg h
      rw [turns, moves, List.filterMap_cons_some hturn, List.isChain_cons_cons]
      exact ⟨by simpa using h, ih y⟩

/-- **The last verdict is what holds now.** -/
theorem turns_last (x : α) (ys : List α) :
    (decide (P x) :: turns P x ys).getLast? = some (decide (P (ys.getLastD x))) := by
  induction ys generalizing x with
  | nil => rfl
  | cons y ys ih =>
    by_cases h : P x ↔ P y
    · have hsame : decide (P x) = decide (P y) := by simp [h]
      have hturn : turn P (x, y) = none := if_pos h
      rw [turns, moves, List.filterMap_cons_none hturn, hsame, List.getLastD_cons]
      exact ih y
    · have hturn : turn P (x, y) = some (decide (P y)) := if_neg h
      rw [turns, moves, List.filterMap_cons_some hturn, List.getLast?_cons_cons,
        List.getLastD_cons]
      exact ih y

/-- The move enters the stretch. -/
def Enters (m : α × α) : Prop := ¬ P m.1 ∧ P m.2

instance : DecidablePred (Enters P) := fun m => inferInstanceAs (Decidable (¬ P m.1 ∧ P m.2))

/-- A stretch one is in already is not entered. -/
theorem enters_inside {x : α} {ys : List α} (h : ∀ z ∈ x :: ys, P z) :
    (moves x ys).filter (fun m => Enters P m) = [] := by
  induction ys generalizing x with
  | nil => rfl
  | cons y ys ih =>
    have hx : ¬ Enters P (x, y) := fun he => he.1 (h x (by simp))
    rw [moves, List.filter_cons_of_neg (by simpa using hx)]
    exact ih fun z hz => h z (List.mem_cons_of_mem x hz)

/-- **A stretch is entered once**, by the move into it. -/
theorem enters_stretch {x y : α} {ys : List α} (hx : ¬ P x) (h : ∀ z ∈ y :: ys, P z) :
    (moves x (y :: ys)).filter (fun m => Enters P m) = [(x, y)] := by
  have hy : Enters P (x, y) := ⟨hx, h y (by simp)⟩
  rw [moves, List.filter_cons_of_pos (by simpa using hy), enters_inside P h]

end Crossing

end Lib
