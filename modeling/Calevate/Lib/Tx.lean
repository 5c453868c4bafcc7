import Mathlib.Logic.Basic
import Mathlib.Order.Defs.Unbundled

/-!
# Transactions

A transaction reads and writes one state and may raise. `Tx σ ε α` is the
state-and-exception monad in that order, so a raise loses the written state: this
is rollback, and `commit` is what the outside sees of a transaction.

Two kinds of rule are given. The `_ok` lemmas invert a successful run one
statement at a time, so a proof about a long transaction peels it with `obtain`
and never unfolds the monad. `Within R` says that whatever the transaction does
stays inside the relation `R`; for a preorder `R` it follows from the same fact
about the statements, which is how a frame condition or an invariant reaches a
whole transaction.
-/

namespace Lib

/-- What a computation that may raise returned, one step at a time. -/
theorem Except.bind_ok {ε α β : Type} {x : Except ε α} {f : α → Except ε β} {b : β} :
    (x >>= f) = .ok b ↔ ∃ a, x = .ok a ∧ f a = .ok b := by
  cases x with
  | error e => simp [bind, Except.bind]
  | ok a => simp [bind, Except.bind]

/-- A computation inside one database transaction over a state `σ`. -/
abbrev Tx (σ ε α : Type) := StateT σ (Except ε) α

namespace Tx

variable {σ ε α β : Type}

/-- A value that must be there, or a raise. -/
def ofOption (e : ε) : Option α → Tx σ ε α
  | some a => pure a
  | none => throw e

/-! ## Inversion -/

theorem bind_ok {m : Tx σ ε α} {f : α → Tx σ ε β} {s : σ} {r : β × σ} :
    (m >>= f) s = .ok r ↔ ∃ a s₁, m s = .ok (a, s₁) ∧ f a s₁ = .ok r := by
  show (m s >>= fun p => f p.1 p.2) = .ok r ↔ _
  cases h : m s with
  | error e => simp [bind, Except.bind]
  | ok p =>
    constructor
    · intro hf
      exact ⟨p.1, p.2, rfl, hf⟩
    · rintro ⟨a, s₁, hp, hf⟩
      cases hp
      exact hf

theorem pure_ok {a : α} {s : σ} {r : α × σ} :
    (pure a : Tx σ ε α) s = .ok r ↔ r = (a, s) := by
  show Except.ok (a, s) = Except.ok r ↔ _
  rw [Except.ok.injEq, eq_comm]

@[simp] theorem throw_ok {e : ε} {s : σ} {r : α × σ} :
    ((throw e : Tx σ ε α) s = .ok r) ↔ False := by
  show (Except.error e : Except ε (α × σ)) = Except.ok r ↔ _
  simp

theorem get_ok {s : σ} {r : σ × σ} :
    ((get : Tx σ ε σ) s = .ok r) ↔ r = (s, s) := pure_ok (a := s)

theorem set_ok {t s : σ} {r : PUnit × σ} :
    ((set t : Tx σ ε PUnit) s = .ok r) ↔ r = (⟨⟩, t) := pure_ok (s := t)

theorem modify_ok {f : σ → σ} {s : σ} {r : PUnit × σ} :
    ((modify f : Tx σ ε PUnit) s = .ok r) ↔ r = (⟨⟩, f s) := pure_ok (s := f s)

theorem ite_ok {c : Prop} [Decidable c] {m n : Tx σ ε α} {s : σ} {r : α × σ} :
    (if c then m else n) s = .ok r ↔ (c ∧ m s = .ok r) ∨ (¬ c ∧ n s = .ok r) := by
  by_cases h : c <;> simp [h]

theorem ofOption_ok {e : ε} {o : Option α} {s : σ} {r : α × σ} :
    (ofOption e o : Tx σ ε α) s = .ok r ↔ ∃ a, o = some a ∧ r = (a, s) := by
  cases o with
  | none => simp [ofOption]
  | some a => simp [ofOption, pure_ok]

/-! ## Where a raise comes from -/

theorem bind_error {m : Tx σ ε α} {f : α → Tx σ ε β} {s : σ} {e : ε} :
    (m >>= f) s = .error e ↔
      m s = .error e ∨ ∃ a s₁, m s = .ok (a, s₁) ∧ f a s₁ = .error e := by
  show (m s >>= fun p => f p.1 p.2) = .error e ↔ _
  cases h : m s with
  | error e' => simp [bind, Except.bind]
  | ok p =>
    constructor
    · intro hf
      exact Or.inr ⟨p.1, p.2, rfl, hf⟩
    · rintro (hp | ⟨a, s₁, hp, hf⟩)
      · cases hp
      · cases hp
        exact hf

@[simp] theorem pure_error {a : α} {s : σ} {e : ε} :
    ((pure a : Tx σ ε α) s = .error e) ↔ False := by
  show (Except.ok (a, s) : Except ε (α × σ)) = Except.error e ↔ _
  simp

@[simp] theorem get_error {s : σ} {e : ε} : ((get : Tx σ ε σ) s = .error e) ↔ False :=
  pure_error (a := s)

@[simp] theorem set_error {t s : σ} {e : ε} : ((set t : Tx σ ε PUnit) s = .error e) ↔ False :=
  pure_error (s := t)

theorem throw_error {e e' : ε} {s : σ} : ((throw e : Tx σ ε α) s = .error e') ↔ e = e' := by
  show (Except.error e : Except ε (α × σ)) = Except.error e' ↔ _
  simp

theorem ite_error {c : Prop} [Decidable c] {m n : Tx σ ε α} {s : σ} {e : ε} :
    (if c then m else n) s = .error e ↔ (c ∧ m s = .error e) ∨ (¬ c ∧ n s = .error e) := by
  by_cases h : c <;> simp [h]

/-! ## What the outside sees -/

/-- **A transaction commits or leaves no trace.** -/
def commit (m : Tx σ ε α) (s : σ) : σ :=
  match m s with
  | .ok r => r.2
  | .error _ => s

theorem commit_of_ok {m : Tx σ ε α} {s : σ} {r : α × σ} (h : m s = .ok r) :
    commit m s = r.2 := by simp [commit, h]

theorem commit_of_error {m : Tx σ ε α} {s : σ} {e : ε} (h : m s = .error e) :
    commit m s = s := by simp [commit, h]

/-! ## Staying inside a relation -/

/-- Whatever `m` does when it succeeds relates the two states by `R`. -/
def Within (R : σ → σ → Prop) (m : Tx σ ε α) : Prop :=
  ∀ ⦃s a s'⦄, m s = .ok (a, s') → R s s'

variable {R : σ → σ → Prop}

theorem within_ite {c : Prop} [Decidable c] {m n : Tx σ ε α}
    (hm : Within R m) (hn : Within R n) : Within R (if c then m else n) := by
  split
  · exact hm
  · exact hn

theorem within_pure [Std.Refl R] {a : α} : Within R (pure a : Tx σ ε α) := by
  intro s b s' h
  obtain ⟨-, rfl⟩ := Prod.mk.inj ((pure_ok).mp h)
  exact refl_of R s'

theorem within_get [Std.Refl R] : Within R (get : Tx σ ε σ) := by
  intro s b s' h
  obtain ⟨-, rfl⟩ := Prod.mk.inj ((get_ok).mp h)
  exact refl_of R s'

theorem within_bind [IsTrans σ R] {m : Tx σ ε α} {f : α → Tx σ ε β}
    (hm : Within R m) (hf : ∀ a, Within R (f a)) : Within R (m >>= f) := by
  intro s b s' h
  obtain ⟨a, s₁, h₁, h₂⟩ := (bind_ok).mp h
  exact trans_of R (hm h₁) (hf a h₂)

/-- A relation that a transaction stays inside holds of what it commits. -/
theorem Within.commit [Std.Refl R] {m : Tx σ ε α} (hm : Within R m) (s : σ) :
    R s (commit m s) := by
  cases h : m s with
  | ok r => rw [commit_of_ok h]; exact hm h
  | error e => rw [commit_of_error h]; exact refl_of R s

end Tx

end Lib
