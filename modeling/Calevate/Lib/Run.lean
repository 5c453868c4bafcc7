import Mathlib.Data.List.Basic

/-!
# Runs

A system is a step function over a state and an input, and a run is a fold of it over a
list of inputs. `foldl_inv` is the induction every invariant of a run goes through. A
*guarded* run takes each step in a state that meets a condition, which is how a property
that holds only under an assumption on the schedule is stated; its rules also carry the
inputs seen so far, for an invariant that speaks of the history. A run whose every step
pays for what it costs with a rise of a rank costs no more than the rank can rise.
-/

namespace Lib

namespace Run

variable {σ ι : Type*} {step : σ → ι → σ}

/-- What every step keeps, every run keeps. -/
theorem foldl_inv {Inv : σ → Prop} (hstep : ∀ s i, Inv s → Inv (step s i)) {s : σ} (h : Inv s)
    (is : List ι) : Inv (is.foldl step s) := by
  induction is generalizing s with
  | nil => exact h
  | cons i is ih => exact ih (hstep s i h)

/-- Each step is taken in a state that meets the condition. -/
def Guarded (step : σ → ι → σ) (cond : σ → ι → Prop) : σ → List ι → Prop
  | _, [] => True
  | s, i :: is => cond s i ∧ Guarded step cond (step s i) is

instance Guarded.decidable {cond : σ → ι → Prop} [∀ s i, Decidable (cond s i)] :
    ∀ (s : σ) (is : List ι), Decidable (Guarded step cond s is)
  | _, [] => isTrue trivial
  | s, i :: is =>
    have : Decidable (Guarded step cond (step s i) is) := Guarded.decidable (step s i) is
    inferInstanceAs (Decidable (_ ∧ _))

/-- A guarded run meets its condition at each of its steps. -/
theorem Guarded.at {cond : σ → ι → Prop} {s : σ} {before after : List ι} {i : ι}
    (h : Guarded step cond s (before ++ i :: after)) : cond (before.foldl step s) i := by
  induction before generalizing s with
  | nil => exact h.1
  | cons j before ih => exact ih h.2

/-- A run that meets the condition at each of its steps is guarded. -/
theorem Guarded.of_at {cond : σ → ι → Prop} {s : σ} {is : List ι}
    (h : ∀ before i after, is = before ++ i :: after → cond (before.foldl step s) i) :
    Guarded step cond s is := by
  induction is generalizing s with
  | nil => trivial
  | cons i is ih =>
    refine ⟨h [] i is rfl, ih fun before j after hsplit => ?_⟩
    exact h (i :: before) j after (congrArg (i :: ·) hsplit)

/-- What a guarded run begins with is a guarded run. -/
theorem Guarded.begins {cond : σ → ι → Prop} {s : σ} {before after : List ι}
    (h : Guarded step cond s (before ++ after)) : Guarded step cond s before := by
  induction before generalizing s with
  | nil => trivial
  | cons i before ih => exact ⟨h.1, ih h.2⟩

/-- A guarded run goes on with another. -/
theorem Guarded.append {cond : σ → ι → Prop} {s : σ} {before after : List ι}
    (h : Guarded step cond s before) (hafter : Guarded step cond (before.foldl step s) after) :
    Guarded step cond s (before ++ after) := by
  induction before generalizing s with
  | nil => exact hafter
  | cons i before ih => exact ⟨h.1, ih h.2 hafter⟩

/-- What every guarded step keeps, every guarded run keeps. -/
theorem Guarded.inv {cond : σ → ι → Prop} {Inv : σ → Prop}
    (hstep : ∀ s i, Inv s → cond s i → Inv (step s i)) {s : σ} {is : List ι} (h : Inv s)
    (hg : Guarded step cond s is) : Inv (is.foldl step s) := by
  induction is generalizing s with
  | nil => exact h
  | cons i is ih => exact ih (hstep s i h hg.1) hg.2

/-- The same for an invariant of the inputs seen so far and the state they led to. -/
theorem Guarded.inv_seen {cond : σ → ι → Prop} {Inv : List ι → σ → Prop}
    (hstep : ∀ seen s i, Inv seen s → cond s i → Inv (seen ++ [i]) (step s i))
    {s : σ} {seen is : List ι} (h : Inv seen s) (hg : Guarded step cond s is) :
    Inv (seen ++ is) (is.foldl step s) := by
  induction is generalizing s seen with
  | nil => simpa using h
  | cons i is ih =>
    have := ih (hstep seen s i h hg.1) hg.2
    simpa using this

/-! ## What a run costs -/

/-- What the steps of a run cost together. -/
def cost (step : σ → ι → σ) (price : σ → ι → ℕ) : σ → List ι → ℕ
  | _, [] => 0
  | s, i :: is => price s i + cost step price (step s i) is

/-- A run costs no more than its steps raise a rank by. -/
theorem cost_add_rank_le {Inv : σ → Prop} {price : σ → ι → ℕ} {rank : σ → ℕ}
    (hstep : ∀ s i, Inv s → Inv (step s i) ∧ price s i + rank s ≤ rank (step s i))
    {s : σ} (h : Inv s) (is : List ι) :
    cost step price s is + rank s ≤ rank (is.foldl step s) := by
  induction is generalizing s with
  | nil => simp [cost]
  | cons i is ih =>
    have hrest := ih (hstep s i h).1
    have hone := (hstep s i h).2
    simp only [cost, List.foldl_cons]
    omega

end Run

end Lib
