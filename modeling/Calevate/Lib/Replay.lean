import Mathlib.Data.Set.Basic

/-!
# Redelivery

A sender that never learns whether its request arrived sends it again. A run here is a list of
deliveries, each the first of its request or a repeat of one that was applied before, in any
order and any number. When what an applied request leaves behind stays there, and a request
that finds it does nothing, the repeats can be struck out of every run (`run_eq_firsts`).
-/

namespace Lib

namespace Replay

variable {σ ρ : Type}

/-- A request as it arrives. -/
inductive Delivery (ρ : Type)
  | first (request : ρ)
  | again (request : ρ)

/-- The request that arrived. -/
def Delivery.request : Delivery ρ → ρ
  | .first r => r
  | .again r => r

/-- The deliveries that repeat nothing. -/
def firsts : List (Delivery ρ) → List ρ
  | [] => []
  | .first r :: ds => r :: firsts ds
  | .again _ :: ds => firsts ds

/-- The receiver cannot tell a repeat: it runs the same step. -/
def run (step : σ → ρ → σ) (ds : List (Delivery ρ)) (s : σ) : σ :=
  ds.foldl (fun t d => step t d.request) s

/-- **Every repeat is of a request that was applied before.** `applied` are those so far. -/
def Repeats (step : σ → ρ → σ) (Applies : σ → ρ → Prop) : σ → Set ρ → List (Delivery ρ) → Prop
  | _, _, [] => True
  | s, applied, .first r :: ds =>
    Repeats step Applies (step s r) (applied ∪ {x | x = r ∧ Applies s r}) ds
  | s, applied, .again r :: ds => r ∈ applied ∧ Repeats step Applies (step s r) applied ds

/-- What makes a receiver safe under redelivery: an applied request leaves something behind that
stays, and a request that finds it does nothing. -/
structure Safe (step : σ → ρ → σ) (Applies Settled : σ → ρ → Prop) (Inv : σ → Prop) : Prop where
  inv : ∀ {s} r, Inv s → Inv (step s r)
  settles : ∀ {s r}, Inv s → Applies s r → Settled (step s r) r
  stays : ∀ {s r} q, Inv s → Settled s r → Settled (step s q) r
  idle : ∀ {s r}, Inv s → Settled s r → step s r = s

section Safe

variable {step : σ → ρ → σ} {Applies Settled : σ → ρ → Prop} {Inv : σ → Prop}

/-- **The repeats can be struck out of every run.** -/
theorem run_eq_firsts (h : Safe step Applies Settled Inv) {ds : List (Delivery ρ)} {s : σ}
    {applied : Set ρ} (hs : Inv s) (happlied : ∀ r ∈ applied, Settled s r)
    (hds : Repeats step Applies s applied ds) : run step ds s = (firsts ds).foldl step s := by
  induction ds generalizing s applied with
  | nil => rfl
  | cons d ds ih =>
    cases d with
    | first r =>
      refine ih (h.inv r hs) (fun x hx => ?_) hds
      rcases hx with hx | ⟨rfl, hwrote⟩
      · exact h.stays r hs (happlied x hx)
      · exact h.settles hs hwrote
    | again r =>
      have hidle : step s r = s := h.idle hs (happlied r hds.1)
      have hrest := hds.2
      rw [hidle] at hrest
      show run step ds (step s r) = (firsts ds).foldl step s
      rw [hidle]
      exact ih hs happlied hrest

/-- And a repeat does nothing where it arrives. -/
theorem repeat_idle (h : Safe step Applies Settled Inv) {before after : List (Delivery ρ)} {r : ρ}
    {s : σ} {applied : Set ρ} (hs : Inv s) (happlied : ∀ x ∈ applied, Settled s x)
    (hds : Repeats step Applies s applied (before ++ .again r :: after)) :
    step (run step before s) r = run step before s := by
  induction before generalizing s applied with
  | nil => exact h.idle hs (happlied r hds.1)
  | cons d before ih =>
    cases d with
    | first q =>
      refine ih (h.inv q hs) (fun x hx => ?_) hds
      rcases hx with hx | ⟨rfl, hwrote⟩
      · exact h.stays q hs (happlied x hx)
      · exact h.settles hs hwrote
    | again q => exact ih (h.inv q hs) (fun x hx => h.stays q hs (happlied x hx)) hds.2

end Safe

end Replay

end Lib
