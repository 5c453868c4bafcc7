import Calevate.Lib.RowStore

/-!
# Statements under READ COMMITTED

An `UPDATE … SET f WHERE p` of one session, cut where others can come between. The statement
finds its rows among those committed when it starts (`found`), then takes them one at a time:
a row that another session holds is waited for, and once it is free the statement looks at
its newest version and leaves it alone if it matches no longer (`updateRow`). A row inserted
or made to match in the meantime is not found.
-/

namespace Lib

namespace RowStore

variable {ρ ω : Type*} {st st' : RowStore ρ ω} {i j k : ℕ} {r : ρ}

/-- The rows a statement of session `i` finds when it starts. -/
def found (st : RowStore ρ ω) (i : ℕ) (p : ρ → Bool) : List ℕ :=
  (List.range st.size).filter fun k => (st.visible i k).any p

/-- One row of a statement: nothing while another session holds it; else the rows behind it and
whether it still matched. -/
def updateRow (st : RowStore ρ ω) (i k : ℕ) (p : ρ → Bool) (f : ρ → ρ) (w : ω) :
    Option (RowStore ρ ω × Option ρ) :=
  if st.free i k then
    match st.visible i k with
    | some r => if p r then some (st.write i k (f r) w, some (f r)) else some (st, none)
    | none => some (st, none)
  else none

/-- A statement about the one row `k`: a row that does not match is not waited for. -/
def updateKey (st : RowStore ρ ω) (i k : ℕ) (p : ρ → Bool) (f : ρ → ρ) (w : ω) :
    Option (RowStore ρ ω × Option ρ) :=
  if (st.visible i k).any p then st.updateRow i k p f w else some (st, none)

theorem found_nodup (st : RowStore ρ ω) (i : ℕ) (p : ρ → Bool) : (st.found i p).Nodup :=
  List.nodup_range.filter _

theorem mem_found {p : ρ → Bool} :
    k ∈ st.found i p ↔ k < st.size ∧ ∃ r, st.visible i k = some r ∧ p r = true := by
  rw [found, List.mem_filter, List.mem_range, Option.any_eq_true]

/-- **What one row of a statement came to.** -/
theorem updateRow_ok {p : ρ → Bool} {f : ρ → ρ} {w : ω} {hit : Option ρ}
    (h : st.updateRow i k p f w = some (st', hit)) : st.free i k = true ∧
      ((∃ r, st.visible i k = some r ∧ p r = true ∧ st' = st.write i k (f r) w ∧
          hit = some (f r)) ∨
        (st' = st ∧ hit = none ∧ ∀ r, st.visible i k = some r → p r = false)) := by
  unfold updateRow at h
  split at h
  · next hfree =>
    refine ⟨hfree, ?_⟩
    cases hv : st.visible i k with
    | none =>
      rw [hv] at h
      cases h
      exact .inr ⟨rfl, rfl, fun r hr => nomatch hr⟩
    | some r =>
      simp only [hv] at h
      split at h
      · next hp =>
        cases h
        exact .inl ⟨r, rfl, hp, rfl, rfl⟩
      · next hp =>
        cases h
        refine .inr ⟨rfl, rfl, fun r' hr' => ?_⟩
        rw [← Option.some.inj hr']
        exact Bool.eq_false_iff.mpr hp
  · exact nomatch h

theorem updateRow_committed {p : ρ → Bool} {f : ρ → ρ} {w : ω} {hit : Option ρ}
    (h : st.updateRow i k p f w = some (st', hit)) : st'.committed = st.committed := by
  obtain ⟨-, ⟨r, -, -, rfl, -⟩ | ⟨rfl, -, -⟩⟩ := updateRow_ok h
  · rfl
  · rfl

/-- **What a statement about one row came to.** -/
theorem updateKey_ok {p : ρ → Bool} {f : ρ → ρ} {w : ω} {hit : Option ρ}
    (h : st.updateKey i k p f w = some (st', hit)) :
    (∃ r, st.free i k = true ∧ st.visible i k = some r ∧ p r = true ∧
        st' = st.write i k (f r) w ∧ hit = some (f r)) ∨
      (st' = st ∧ hit = none ∧ ∀ r, st.visible i k = some r → p r = false) := by
  unfold updateKey at h
  split at h
  · obtain ⟨hfree, ⟨r, hv, hp, hst, hhit⟩ | hnone⟩ := updateRow_ok h
    · exact .inl ⟨r, hfree, hv, hp, hst, hhit⟩
    · exact .inr hnone
  · next hno =>
    cases h
    refine .inr ⟨rfl, rfl, fun r hr => ?_⟩
    rw [hr] at hno
    exact Bool.eq_false_iff.mpr hno

/-! ## What each statement leaves of the versions -/

theorem free_iff : st.free i k = true ↔ ∀ j r, st.pending k = some (j, r) → j = i := by
  unfold free
  cases hp : st.pending k with
  | none => simp
  | some p => simp [Prod.ext_iff]

/-- A session's own version is the one it sees. -/
theorem visible_of_pending (h : st.pending k = some (i, r)) : st.visible i k = some r := by
  simp [visible, h]

/-- Of a row it does not hold, a session sees the committed version. -/
theorem visible_of_not_held (h : ∀ r, st.pending k ≠ some (i, r)) :
    st.visible i k = st.committed k := by
  unfold visible
  cases hp : st.pending k with
  | none => rfl
  | some p =>
    obtain ⟨j, r⟩ := p
    have hj : j ≠ i := by
      rintro rfl
      exact h r hp
    simp [hj]

theorem visible_cases (h : st.visible i k = some r) :
    st.pending k = some (i, r) ∨
      ((∀ r', st.pending k ≠ some (i, r')) ∧ st.committed k = some r) := by
  by_cases hheld : ∃ r', st.pending k = some (i, r')
  · obtain ⟨r', hr'⟩ := hheld
    rw [visible_of_pending hr'] at h
    exact .inl (Option.some.inj h ▸ hr')
  · have hnot : ∀ r', st.pending k ≠ some (i, r') := fun r' hr' => hheld ⟨r', hr'⟩
    rw [visible_of_not_held hnot] at h
    exact .inr ⟨hnot, h⟩

section Fields

variable {r' : ρ} {w : ω}

@[simp] theorem write_committed : (st.write i k r w).committed = st.committed := rfl

@[simp] theorem write_size : (st.write i k r w).size = st.size := rfl

@[simp] theorem write_log : (st.write i k r w).log = st.log := rfl

@[simp] theorem insert_committed : (st.insert i r).committed = st.committed := rfl

@[simp] theorem insert_size : (st.insert i r).size = st.size + 1 := rfl

@[simp] theorem insert_log : (st.insert i r).log = st.log := rfl

@[simp] theorem insert_writes : (st.insert i r).writes = st.writes := rfl

@[simp] theorem rollback_committed : (st.rollback i).committed = st.committed := rfl

@[simp] theorem rollback_size : (st.rollback i).size = st.size := rfl

@[simp] theorem rollback_log : (st.rollback i).log = st.log := rfl

@[simp] theorem commit_size : (st.commit i).size = st.size := rfl

theorem write_pending_self : (st.write i k r w).pending k = some (i, r) :=
  Function.update_self ..

theorem write_pending_ne {m : ℕ} (h : m ≠ k) : (st.write i k r w).pending m = st.pending m :=
  Function.update_of_ne h ..

/-- A version in flight behind a write: the one just left, or one that was there. -/
theorem write_pending_cases {m : ℕ} (h : (st.write i k r w).pending m = some (j, r')) :
    (m = k ∧ j = i ∧ r' = r) ∨ (m ≠ k ∧ st.pending m = some (j, r')) := by
  by_cases hm : m = k
  · rw [hm, write_pending_self] at h
    cases h
    exact .inl ⟨hm, rfl, rfl⟩
  · rw [write_pending_ne hm] at h
    exact .inr ⟨hm, h⟩

/-- A write leaves the other sessions their versions. -/
theorem write_pending_other {m : ℕ} (hfree : st.free i k = true) (hji : j ≠ i) :
    (st.write i k r w).pending m = some (j, r') ↔ st.pending m = some (j, r') := by
  constructor
  · intro hp
    rcases write_pending_cases hp with ⟨-, rfl, -⟩ | ⟨-, hp⟩
    · exact absurd rfl hji
    · exact hp
  · intro hp
    have hmk : m ≠ k := by
      rintro rfl
      exact hji ((free_iff).mp hfree j r' hp)
    rw [write_pending_ne hmk]
    exact hp

theorem insert_pending_self : (st.insert i r).pending st.size = some (i, r) :=
  Function.update_self ..

theorem insert_pending_ne {m : ℕ} (h : m ≠ st.size) : (st.insert i r).pending m = st.pending m :=
  Function.update_of_ne h ..

theorem insert_pending_cases {m : ℕ} (h : (st.insert i r).pending m = some (j, r')) :
    (m = st.size ∧ j = i ∧ r' = r) ∨ (m ≠ st.size ∧ st.pending m = some (j, r')) := by
  by_cases hm : m = st.size
  · rw [hm, insert_pending_self] at h
    cases h
    exact .inl ⟨hm, rfl, rfl⟩
  · rw [insert_pending_ne hm] at h
    exact .inr ⟨hm, h⟩

/-- So does an insert, the row's key being new. -/
theorem insert_pending_other {m : ℕ} (hnew : st.pending st.size = none) (hji : j ≠ i) :
    (st.insert i r).pending m = some (j, r') ↔ st.pending m = some (j, r') := by
  constructor
  · intro hp
    rcases insert_pending_cases hp with ⟨-, rfl, -⟩ | ⟨-, hp⟩
    · exact absurd rfl hji
    · exact hp
  · intro hp
    have hm : m ≠ st.size := by
      rintro rfl
      rw [hnew] at hp
      cases hp
    rw [insert_pending_ne hm]
    exact hp

/-- A session that lets go leaves the others their versions. -/
theorem released_iff : st.released i k = some (j, r) ↔ st.pending k = some (j, r) ∧ j ≠ i := by
  unfold released
  rw [Option.filter_eq_some_iff]
  simp

theorem commit_pending_iff :
    (st.commit i).pending k = some (j, r) ↔ st.pending k = some (j, r) ∧ j ≠ i := released_iff

theorem rollback_pending_iff :
    (st.rollback i).pending k = some (j, r) ↔ st.pending k = some (j, r) ∧ j ≠ i := released_iff

theorem commit_committed_of (h : st.pending k = some (i, r)) : (st.commit i).committed k = some r :=
  visible_of_pending h

theorem commit_committed_ne (h : ∀ r, st.pending k ≠ some (i, r)) :
    (st.commit i).committed k = st.committed k := visible_of_not_held h

/-- A row committed behind a commit: the session's version, or the one that was committed. -/
theorem commit_committed_cases (h : (st.commit i).committed k = some r) :
    st.pending k = some (i, r) ∨
      ((∀ r', st.pending k ≠ some (i, r')) ∧ st.committed k = some r) := visible_cases h

end Fields

end RowStore

end Lib
