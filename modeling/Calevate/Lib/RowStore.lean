import Mathlib.Algebra.BigOperators.Group.List.Basic
import Mathlib.Logic.Function.Basic
import Mathlib.Tactic.Ring

/-!
# Rows under concurrent transactions

A table of rows written by any number of sessions at once, each inside its own
transaction. A write leaves a *pending* version of the row beside the committed one and
holds the row until the session commits or rolls back; a session sees its own pending
versions and everybody else's committed ones. What a session wrote is remembered with the
version (`writes`) and joins the log when the session commits.

`Accounted` ties the rows to the log: a row's value is the value it was inserted with and
what the log moved, and a pending version adds what its own session wrote. A write that
moves the value of the version *its session sees* by the amount it logs keeps this, and
nothing else is asked of it: no update is lost.
-/

namespace Lib

/-- One write: who made it, to which row, and what it was. -/
structure Write (ω : Type*) where
  session : ℕ
  key : ℕ
  what : ω
  deriving DecidableEq, Repr

/-- The rows, the versions in flight and the log of what was committed. -/
structure RowStore (ρ ω : Type*) where
  committed : ℕ → Option ρ
  pending : ℕ → Option (ℕ × ρ)
  origin : ℕ → Option ρ
  writes : ℕ → List (Write ω)
  log : List (Write ω)
  size : ℕ

namespace RowStore

variable {ρ ω : Type*}

/-- No rows. -/
def empty : RowStore ρ ω where
  committed := fun _ => none
  pending := fun _ => none
  origin := fun _ => none
  writes := fun _ => []
  log := []
  size := 0

/-- The version session `i` sees. -/
def visible (st : RowStore ρ ω) (i k : ℕ) : Option ρ :=
  match st.pending k with
  | some (j, r) => if j = i then some r else st.committed k
  | none => st.committed k

/-- Session `i` may write the row: nobody else holds it. -/
def free (st : RowStore ρ ω) (i k : ℕ) : Bool :=
  match st.pending k with
  | some (j, _) => j = i
  | none => true

/-- Session `i` leaves version `r` of row `k`. -/
def write (st : RowStore ρ ω) (i k : ℕ) (r : ρ) (w : ω) : RowStore ρ ω :=
  { st with
    pending := Function.update st.pending k (some (i, r))
    writes := Function.update st.writes i (st.writes i ++ [⟨i, k, w⟩]) }

/-- Session `i` inserts a row under a new key. -/
def insert (st : RowStore ρ ω) (i : ℕ) (r : ρ) : RowStore ρ ω :=
  { st with
    pending := Function.update st.pending st.size (some (i, r))
    origin := Function.update st.origin st.size (some r)
    size := st.size + 1 }

/-- The versions left when session `i` lets go of its rows. -/
def released (st : RowStore ρ ω) (i : ℕ) : ℕ → Option (ℕ × ρ) :=
  fun k => (st.pending k).filter fun p => p.1 ≠ i

/-- Session `i` commits: what it sees of its own rows is what everybody sees. -/
def commit (st : RowStore ρ ω) (i : ℕ) : RowStore ρ ω :=
  { st with
    committed := st.visible i
    pending := st.released i
    writes := Function.update st.writes i []
    log := st.log ++ st.writes i }

/-- Session `i` rolls back. -/
def rollback (st : RowStore ρ ω) (i : ℕ) : RowStore ρ ω :=
  { st with
    pending := st.released i
    writes := Function.update st.writes i [] }

theorem released_eq {st : RowStore ρ ω} {i j k : ℕ} {r : ρ} (hr : st.released i k = some (j, r)) :
    st.pending k = some (j, r) ∧ j ≠ i := by
  unfold released at hr
  rw [Option.filter_eq_some_iff] at hr
  exact ⟨hr.1, by simpa using hr.2⟩

/-! ## What the log moved -/

/-- The writes to one row. -/
def writesTo (k : ℕ) (l : List (Write ω)) : List (Write ω) := l.filter fun w => w.key = k

/-- What a list of writes moved a row by. -/
def moved (amount : ω → ℤ) (l : List (Write ω)) (k : ℕ) : ℤ :=
  ((writesTo k l).map fun w => amount w.what).sum

theorem moved_append (amount : ω → ℤ) (l l' : List (Write ω)) (k : ℕ) :
    moved amount (l ++ l') k = moved amount l k + moved amount l' k := by
  simp [moved, writesTo]

theorem moved_eq_zero (amount : ω → ℤ) {l : List (Write ω)} {k : ℕ} (h : ∀ w ∈ l, w.key ≠ k) :
    moved amount l k = 0 := by
  have hnil : writesTo k l = [] := by
    rw [writesTo, List.filter_eq_nil_iff]
    intro w hw
    simpa using h w hw
  rw [moved, hnil]
  rfl

theorem moved_single (amount : ω → ℤ) (i k : ℕ) (w : ω) : moved amount [⟨i, k, w⟩] k = amount w := by
  simp [moved, writesTo]

/-! ## The rows and the log agree -/

section Accounted

variable (val : ρ → ℤ) (amount : ω → ℤ)

/-- **Every row is worth what it was inserted with and what was written to it since.** -/
structure Accounted (st : RowStore ρ ω) : Prop where
  committed : ∀ k r, st.committed k = some r →
    ∃ r₀, st.origin k = some r₀ ∧ val r = val r₀ + moved amount st.log k
  pending : ∀ k i r, st.pending k = some (i, r) → ∃ r₀, st.origin k = some r₀ ∧
    val r = val r₀ + moved amount st.log k + moved amount (st.writes i) k
  logged : ∀ w ∈ st.log, st.committed w.key ≠ none
  held : ∀ i, ∀ w ∈ st.writes i, ∃ r, st.pending w.key = some (i, r)
  fresh : ∀ k, st.size ≤ k → st.committed k = none ∧ st.pending k = none

variable {val amount} {st : RowStore ρ ω}

theorem accounted_empty : Accounted val amount (empty : RowStore ρ ω) where
  committed := fun _ _ h => nomatch h
  pending := fun _ _ _ h => nomatch h
  logged := fun _ h => nomatch h
  held := fun _ _ h => nomatch h
  fresh := fun _ _ => ⟨rfl, rfl⟩

namespace Accounted

variable (h : Accounted val amount st)

include h

/-- A session has written nothing to a row it does not hold. -/
theorem moved_of_not_held {i k : ℕ} (hk : ∀ r, st.pending k ≠ some (i, r)) :
    moved amount (st.writes i) k = 0 := by
  apply moved_eq_zero
  rintro w hw rfl
  obtain ⟨r, hr⟩ := h.held i w hw
  exact hk r hr

theorem moved_of_uncommitted {k : ℕ} (hk : st.committed k = none) :
    moved amount st.log k = 0 := by
  apply moved_eq_zero
  rintro w hw rfl
  exact h.logged w hw hk

/-- The version a session sees, against the log and its own writes. -/
theorem visible {i k : ℕ} {r : ρ} (hv : st.visible i k = some r) : ∃ r₀, st.origin k = some r₀ ∧
    val r = val r₀ + moved amount st.log k + moved amount (st.writes i) k := by
  unfold RowStore.visible at hv
  cases hp : st.pending k with
  | none =>
    rw [hp] at hv
    obtain ⟨r₀, ho, hr⟩ := h.committed k r hv
    exact ⟨r₀, ho, by rw [hr, h.moved_of_not_held (fun r => by rw [hp]; exact nofun), add_zero]⟩
  | some p =>
    obtain ⟨j, r'⟩ := p
    rw [hp] at hv
    by_cases hj : j = i
    · subst hj
      simp only [if_pos] at hv
      cases hv
      exact h.pending k j r hp
    · simp only [if_neg hj] at hv
      obtain ⟨r₀, ho, hr⟩ := h.committed k r hv
      refine ⟨r₀, ho, ?_⟩
      rw [hr, h.moved_of_not_held (fun r₁ hr₁ => ?_), add_zero]
      rw [hp] at hr₁
      exact hj (by injection hr₁ with hr₁; injection hr₁)

/-- **A write of the version its session sees**, moved by what it logs. -/
theorem write {i k : ℕ} {r r' : ρ} {w : ω} (hfree : st.free i k = true)
    (hv : st.visible i k = some r) (hval : val r' = val r + amount w) :
    Accounted val amount (st.write i k r' w) where
  committed := h.committed
  pending := by
    intro k₁ j r₁ hp
    change Function.update st.pending k (some (i, r')) k₁ = _ at hp
    change ∃ r₀, st.origin k₁ = some r₀ ∧ _ = _ + moved amount st.log k₁ +
      moved amount (Function.update st.writes i (st.writes i ++ [⟨i, k, w⟩]) j) k₁
    by_cases hk : k₁ = k
    · subst hk
      rw [Function.update_self] at hp
      injection hp with hp
      injection hp with hi hr
      subst hi
      subst hr
      obtain ⟨r₀, ho, hr⟩ := h.visible hv
      refine ⟨r₀, ho, ?_⟩
      rw [Function.update_self, moved_append, moved_single, hval, hr]
      ring
    · rw [Function.update_of_ne hk] at hp
      obtain ⟨r₀, ho, hr⟩ := h.pending k₁ j r₁ hp
      refine ⟨r₀, ho, ?_⟩
      by_cases hj : j = i
      · subst hj
        have hone : moved amount [(⟨j, k, w⟩ : Write ω)] k₁ = 0 :=
          moved_eq_zero amount (by simpa using Ne.symm hk)
        rw [Function.update_self, moved_append, hone, add_zero]
        exact hr
      · rw [Function.update_of_ne hj]
        exact hr
  logged := h.logged
  held := by
    intro j w' hw'
    change w' ∈ Function.update st.writes i _ j at hw'
    change ∃ r, Function.update st.pending k (some (i, r')) w'.key = some (j, r)
    by_cases hk : w'.key = k
    · -- nobody but this session can have written the row it writes now
      have hj : j = i := by
        by_contra hne
        rw [Function.update_of_ne hne] at hw'
        obtain ⟨r₁, hr₁⟩ := h.held j w' hw'
        rw [hk] at hr₁
        unfold free at hfree
        rw [hr₁] at hfree
        exact hne (of_decide_eq_true hfree)
      subst hj
      exact ⟨r', by rw [hk, Function.update_self]⟩
    · rw [Function.update_of_ne hk]
      by_cases hj : j = i
      · subst hj
        rw [Function.update_self, List.mem_append, List.mem_singleton] at hw'
        rcases hw' with hold | rfl
        · exact h.held j w' hold
        · exact absurd rfl hk
      · rw [Function.update_of_ne hj] at hw'
        exact h.held j w' hw'
  fresh := by
    intro k₁ hk₁
    have hne : k₁ ≠ k := by
      rintro rfl
      obtain ⟨hc, hp⟩ := h.fresh k₁ hk₁
      unfold RowStore.visible at hv
      rw [hp, hc] at hv
      exact nomatch hv
    exact ⟨(h.fresh k₁ hk₁).1, by
      change Function.update st.pending k _ k₁ = none
      rw [Function.update_of_ne hne]
      exact (h.fresh k₁ hk₁).2⟩

theorem insert (i : ℕ) (r : ρ) : Accounted val amount (st.insert i r) where
  committed := by
    intro k r₁ hc
    have hne : k ≠ st.size := by
      rintro rfl
      rw [show (st.insert i r).committed = st.committed from rfl, (h.fresh _ (le_refl _)).1] at hc
      exact nomatch hc
    obtain ⟨r₀, ho, hr⟩ := h.committed k r₁ hc
    exact ⟨r₀, by change Function.update st.origin _ _ k = _; rw [Function.update_of_ne hne, ho], hr⟩
  pending := by
    intro k j r₁ hp
    change Function.update st.pending st.size (some (i, r)) k = _ at hp
    by_cases hk : k = st.size
    · subst hk
      rw [Function.update_self] at hp
      injection hp with hp
      injection hp with hi hr
      subst hi
      subst hr
      obtain ⟨hc, hp₀⟩ := h.fresh _ (le_refl st.size)
      refine ⟨r, Function.update_self _ _ _, ?_⟩
      change val r = val r + moved amount st.log st.size + moved amount (st.writes i) st.size
      rw [h.moved_of_uncommitted hc, h.moved_of_not_held (fun r₁ => by rw [hp₀]; exact nofun)]
      ring
    · rw [Function.update_of_ne hk] at hp
      obtain ⟨r₀, ho, hr⟩ := h.pending k j r₁ hp
      exact ⟨r₀, by change Function.update st.origin _ _ k = _; rw [Function.update_of_ne hk, ho], hr⟩
  logged := h.logged
  held := by
    intro j w hw
    obtain ⟨r₁, hr₁⟩ := h.held j w hw
    refine ⟨r₁, ?_⟩
    have hne : w.key ≠ st.size := by
      intro hk
      rw [hk, (h.fresh _ (le_refl _)).2] at hr₁
      exact nomatch hr₁
    change Function.update st.pending _ _ w.key = _
    rw [Function.update_of_ne hne, hr₁]
  fresh := by
    intro k hk
    have hk' : st.size + 1 ≤ k := hk
    obtain ⟨hc, hp⟩ := h.fresh k (by omega)
    refine ⟨hc, ?_⟩
    change Function.update st.pending _ _ k = _
    rw [Function.update_of_ne (by omega), hp]

theorem released_held {i j : ℕ} (hj : j ≠ i) {w : Write ω} (hw : w ∈ st.writes j) :
    ∃ r, st.released i w.key = some (j, r) := by
  obtain ⟨r, hr⟩ := h.held j w hw
  exact ⟨r, by rw [released, hr]; simp [Option.filter, hj]⟩

theorem commit (i : ℕ) : Accounted val amount (st.commit i) where
  committed := by
    intro k r hv
    obtain ⟨r₀, ho, hr⟩ := h.visible (i := i) (k := k) hv
    refine ⟨r₀, ho, ?_⟩
    change _ = _ + moved amount (st.log ++ st.writes i) k
    rw [hr, moved_append, add_assoc]
  pending := by
    intro k j r hp
    obtain ⟨hp', hj⟩ := released_eq hp
    obtain ⟨r₀, ho, hr⟩ := h.pending k j r hp'
    refine ⟨r₀, ho, ?_⟩
    change _ = _ + moved amount (st.log ++ st.writes i) k +
      moved amount (Function.update st.writes i [] j) k
    -- the committing session wrote nothing to a row another session holds
    rw [Function.update_of_ne hj, moved_append, h.moved_of_not_held (i := i) (k := k), add_zero]
    · exact hr
    · intro r₁ hr₁
      rw [hp'] at hr₁
      injection hr₁ with hr₁
      injection hr₁ with hji
      exact hj hji
  logged := by
    intro w hw
    change st.visible i w.key ≠ none
    unfold RowStore.visible
    rcases List.mem_append.mp hw with hlog | hown
    · have hc := h.logged w hlog
      split
      · split
        · exact nofun
        · exact hc
      · exact hc
    · obtain ⟨r, hr⟩ := h.held i w hown
      rw [hr]
      simp
  held := by
    intro j w hw
    change w ∈ Function.update st.writes i [] j at hw
    by_cases hj : j = i
    · subst hj
      rw [Function.update_self] at hw
      exact nomatch hw
    · rw [Function.update_of_ne hj] at hw
      exact h.released_held hj hw
  fresh := by
    intro k hk
    obtain ⟨hc, hp⟩ := h.fresh k hk
    exact ⟨by change st.visible i k = none; rw [RowStore.visible, hp]; exact hc,
      by change st.released i k = none; rw [released, hp]; rfl⟩

theorem rollback (i : ℕ) : Accounted val amount (st.rollback i) where
  committed := h.committed
  pending := by
    intro k j r hp
    obtain ⟨hp', hj⟩ := released_eq hp
    obtain ⟨r₀, ho, hr⟩ := h.pending k j r hp'
    refine ⟨r₀, ho, ?_⟩
    change _ = _ + moved amount st.log k + moved amount (Function.update st.writes i [] j) k
    rw [Function.update_of_ne hj]
    exact hr
  logged := h.logged
  held := by
    intro j w hw
    change w ∈ Function.update st.writes i [] j at hw
    by_cases hj : j = i
    · subst hj
      rw [Function.update_self] at hw
      exact nomatch hw
    · rw [Function.update_of_ne hj] at hw
      exact h.released_held hj hw
  fresh := by
    intro k hk
    obtain ⟨hc, hp⟩ := h.fresh k hk
    exact ⟨hc, by change st.released i k = none; rw [released, hp]; rfl⟩

end Accounted

end Accounted

end RowStore

end Lib
