import Mathlib.Data.List.Induction
import Calevate.Compliance.Erasures

/-!
# A certificate is issued once

At any moment at most one request for a number is open, and a completed one has a proof and no
number, in every order of the statements. That a completed request stays as it is takes more:
a run completes its request by id alone, at the end of the transaction that read it open, and
another run or the erasure of the account may have completed it in between. Certificates
last in exactly the runs where that never happens (`certificates_last_iff`).
-/

namespace Calevate

namespace Compliance

open Lib

namespace Erasures

variable {Facts : Type} (subjectRef : ℕ → ℕ)

/-! ## What a step can do -/

/-- One step of session `i`, with what it found. -/
inductive Turn (s : Erasures Facts) (i : ℕ) : Erasures Facts → Prop
  | begin {stage : ErasureStage Facts} (hat : s.stage i = .unbegun)
      (hto : (∃ phone now, stage = .locking phone now) ∨
        (∃ row now facts, stage = .reading row now facts) ∨
        ∃ now facts, stage = .toClose now facts) : Turn s i (s.goto i s.store stage)
  | lock {phone now : ℕ} (hat : s.stage i = .locking phone now)
      (hfree : ∀ j, s.lock (subjectRef phone) = some j → j = i) :
      Turn s i { s with
        lock := Function.update s.lock (subjectRef phone) (some i)
        stage := Function.update s.stage i (.looking phone now) }
  | seen {phone now row : ℕ} (hat : s.stage i = .looking phone now) :
      Turn s i (s.goto i s.store (.filed phone (some row)))
  | unseen {phone now : ℕ} (hat : s.stage i = .looking phone now)
      (hnone : s.store.found i (DeletionRequest.openFor phone) = []) :
      Turn s i (s.goto i s.store (.filing phone now))
  | insert {phone now : ℕ} (hat : s.stage i = .filing phone now) :
      Turn s i (s.goto i (s.store.insert i (.filed subjectRef phone now))
        (.filed phone (some s.store.size)))
  | read {row now phone : ℕ} {facts : Facts} (hat : s.stage i = .reading row now facts) :
      Turn s i (s.goto i s.store (.erasing row now phone facts))
  | refuse {row now : ℕ} {facts : Facts} (hat : s.stage i = .reading row now facts) :
      Turn s i (s.goto i s.store .returned)
  | complete {row now phone : ℕ} {facts : Facts} {r : DeletionRequest Facts}
      {proof : ErasureProof Facts} (hat : s.stage i = .erasing row now phone facts)
      (hfree : s.store.free i row = true) (hv : s.store.visible i row = some r) :
      Turn s i (s.goto i (s.store.write i row (r.complete now proof) .completed)
        (.completed row now proof))
  | completeNone {row now phone : ℕ} {facts : Facts} {proof : ErasureProof Facts}
      (hat : s.stage i = .erasing row now phone facts) :
      Turn s i (s.goto i s.store (.completed row now proof))
  | find {now : ℕ} {facts : Facts} (hat : s.stage i = .toClose now facts) :
      Turn s i (s.goto i s.store
        (.closing now facts (s.store.found i DeletionRequest.toClose)))
  | close {now k : ℕ} {facts : Facts} {rows : List ℕ} {r : DeletionRequest Facts}
      (hat : s.stage i = .closing now facts (k :: rows)) (hfree : s.store.free i k = true)
      (hv : s.store.visible i k = some r) :
      Turn s i (s.goto i (s.store.write i k (r.close now facts) .closed)
        (.closing now facts rows))
  | closeNone {now k : ℕ} {facts : Facts} {rows : List ℕ}
      (hat : s.stage i = .closing now facts (k :: rows)) :
      Turn s i (s.goto i s.store (.closing now facts rows))
  | closed {now : ℕ} {facts : Facts} (hat : s.stage i = .closing now facts []) :
      Turn s i (s.goto i s.store .returned)
  | commit (hat : done (s.stage i) = true) :
      Turn s i { s.goto i (s.store.commit i) .ended with lock := s.unlock i }
  | rollback : Turn s i { s.goto i (s.store.rollback i) .ended with lock := s.unlock i }

theorem advance_turns (s : Erasures Facts) (i : ℕ) :
    s.advance subjectRef i = s ∨ Turn subjectRef s i (s.advance subjectRef i) := by
  unfold advance
  split
  case h_1 phone now hat =>
    split
    · next hfree =>
      refine .inr (.lock hat fun j hj => ?_)
      simpa [hj] using hfree
    · exact .inl rfl
  case h_2 phone now hat =>
    split
    · exact .inr (.seen hat)
    · next hnone => exact .inr (.unseen hat hnone)
  case h_3 phone now hat => exact .inr (.insert hat)
  case h_4 row now facts hat =>
    split
    · exact .inr (.refuse hat)
    · split
      · exact .inr (.read hat)
      · exact .inr (.refuse hat)
  case h_5 row now phone facts hat =>
    dsimp only
    split
    · exact .inl rfl
    · next store hit hrow =>
      obtain ⟨hfree, ⟨r, hv, -, rfl, -⟩ | ⟨rfl, -, -⟩⟩ := RowStore.updateRow_ok hrow
      · exact .inr (.complete hat hfree hv)
      · exact .inr (.completeNone hat)
  case h_6 now facts hat => exact .inr (.find hat)
  case h_7 now facts k rows hat =>
    split
    · exact .inl rfl
    · next store hit hrow =>
      obtain ⟨hfree, ⟨r, hv, -, rfl, -⟩ | ⟨rfl, -, -⟩⟩ := RowStore.updateRow_ok hrow
      · exact .inr (.close hat hfree hv)
      · exact .inr (.closeNone hat)
  case h_8 now facts hat => exact .inr (.closed hat)
  case h_9 => exact .inl rfl

/-- The session an action is one of. -/
def actor : ErasureAction Facts → ℕ
  | .requestErasure i _ _ | .executeDeletionRequest i _ _ _ | .executeTenantErasure i _ _ => i
  | .advance i | .commit i | .rollback i => i

theorem beginAt_turns (s : Erasures Facts) (i : ℕ) {stage : ErasureStage Facts}
    (hto : (∃ phone now, stage = .locking phone now) ∨
      (∃ row now facts, stage = .reading row now facts) ∨ ∃ now facts, stage = .toClose now facts) :
    s.beginAt i stage = s ∨ Turn subjectRef s i (s.beginAt i stage) := by
  unfold beginAt
  split
  · next hat => exact .inr (.begin hat hto)
  · exact .inl rfl

/-- **Everything a step can do.** -/
theorem step_turns (s : Erasures Facts) (a : ErasureAction Facts) :
    step subjectRef s a = s ∨ Turn subjectRef s (actor a) (step subjectRef s a) := by
  cases a with
  | requestErasure i phone now => exact beginAt_turns _ s i (.inl ⟨phone, now, rfl⟩)
  | executeDeletionRequest i row now facts =>
    exact beginAt_turns _ s i (.inr (.inl ⟨row, now, facts, rfl⟩))
  | executeTenantErasure i now facts => exact beginAt_turns _ s i (.inr (.inr ⟨now, facts, rfl⟩))
  | advance i => exact advance_turns subjectRef s i
  | commit i =>
    simp only [step, commit]
    split
    · next hat => exact .inr (.commit hat)
    · exact .inl rfl
  | rollback i => exact .inr .rollback

/-! ## What a session holds -/

/-- No request for the number is open. -/
def NoneOpen (st : RowStore (DeletionRequest Facts) ErasureMark) (phone : ℕ) : Prop :=
  ∀ k c, st.committed k = some c → c.openFor phone = false

/-- The versions session `i` has in flight, by its stage: a new open request where none was, or
completed versions of requests that exist. -/
def Owns (st : RowStore (DeletionRequest Facts) ErasureMark) (i : ℕ) :
    ErasureStage Facts → Prop
  | .filing phone _ => (∀ k r, st.pending k ≠ some (i, r)) ∧ NoneOpen st phone
  | .filed phone _ => ∀ k r, st.pending k = some (i, r) →
      st.committed k = none ∧ r.phoneE164 = some phone ∧ r.completedAt = none ∧
        NoneOpen st phone ∧ ∀ m r', st.pending m = some (i, r') → m = k
  | .completed row now proof => ∀ k r, st.pending k = some (i, r) → k = row ∧
      r.completedAt = some now ∧ r.proof = some proof ∧ st.committed k ≠ none
  | .closing _ _ _ | .returned => ∀ k r, st.pending k = some (i, r) → r.completedAt ≠ none ∧
      ∃ c, st.committed k = some c ∧
        (c.completedAt ≠ none → r.completedAt = c.completedAt ∧ r.proof = c.proof)
  | _ => ∀ k r, st.pending k ≠ some (i, r)

/-- The number whose subject's lock a session holds. -/
def holds : ErasureStage Facts → Option ℕ
  | .looking phone _ | .filing phone _ | .filed phone _ => some phone
  | _ => none

/-- A session keeps what it holds where others leave its versions, the rows under them, and the
numbers it has locked. -/
theorem Owns.congr {st st' : RowStore (DeletionRequest Facts) ErasureMark} {j : ℕ}
    {stage : ErasureStage Facts} (h : Owns st j stage)
    (hpending : ∀ k r, st'.pending k = some (j, r) ↔ st.pending k = some (j, r))
    (hheld : ∀ k r, st.pending k = some (j, r) → st'.committed k = st.committed k)
    (hnone : ∀ phone, holds stage = some phone → NoneOpen st phone → NoneOpen st' phone) :
    Owns st' j stage := by
  have hquiet : (∀ k r, st.pending k ≠ some (j, r)) → ∀ k r, st'.pending k ≠ some (j, r) :=
    fun hq k r hp => hq k r ((hpending k r).mp hp)
  cases stage with
  | filing phone now => exact ⟨hquiet h.1, hnone phone rfl h.2⟩
  | filed phone row =>
    intro k r hp
    have hp := (hpending k r).mp hp
    obtain ⟨hc, hphone, hopen, hno, hone⟩ := h k r hp
    exact ⟨(hheld k r hp).trans hc, hphone, hopen, hnone phone rfl hno,
      fun m r' hm => hone m r' ((hpending m r').mp hm)⟩
  | completed row now proof =>
    intro k r hp
    have hp := (hpending k r).mp hp
    obtain ⟨hk, hat, hproof, hc⟩ := h k r hp
    exact ⟨hk, hat, hproof, by rw [hheld k r hp]; exact hc⟩
  | closing now facts rows =>
    intro k r hp
    have hp := (hpending k r).mp hp
    obtain ⟨hdone, c, hc, hkept⟩ := h k r hp
    exact ⟨hdone, c, (hheld k r hp).trans hc, hkept⟩
  | returned =>
    intro k r hp
    have hp := (hpending k r).mp hp
    obtain ⟨hdone, c, hc, hkept⟩ := h k r hp
    exact ⟨hdone, c, (hheld k r hp).trans hc, hkept⟩
  | _ => exact hquiet h

/-- A completed request has a proof and no number. -/
def Certified (r : DeletionRequest Facts) : Prop :=
  r.completedAt ≠ none → r.phoneE164 = none ∧ r.proof ≠ none

/-- **What holds in every run**: one open request a number, completed ones certified, and what
keeps it so. -/
structure Sound (s : Erasures Facts) : Prop where
  fresh : ∀ k, s.store.size ≤ k → s.store.committed k = none ∧ s.store.pending k = none
  certified : ∀ k c, s.store.committed k = some c → Certified c
  drafted : ∀ k i r, s.store.pending k = some (i, r) → Certified r
  oneOpen : ∀ phone j k c d, s.store.committed j = some c → s.store.committed k = some d →
    c.openFor phone = true → d.openFor phone = true → j = k
  locked : ∀ i phone, holds (s.stage i) = some phone → s.lock (subjectRef phone) = some i
  owns : ∀ i, Owns s.store i (s.stage i)

theorem sound_start : Sound subjectRef (start : Erasures Facts) where
  fresh := fun _ _ => ⟨rfl, rfl⟩
  certified := by intros; contradiction
  drafted := by intros; contradiction
  oneOpen := by intros; contradiction
  locked := by intros; contradiction
  owns := fun _ _ _ => nofun

variable {subjectRef}

namespace Sound

variable {s : Erasures Facts} {i : ℕ}

theorem lt_size (h : Sound subjectRef s) {k : ℕ} {c : DeletionRequest Facts}
    (hc : s.store.committed k = some c) : k < s.store.size := by
  by_contra hk
  rw [(h.fresh k (Nat.le_of_not_lt hk)).1] at hc
  cases hc

/-- A step within a session that leaves what is committed and what the others hold. -/
theorem goto {store : RowStore (DeletionRequest Facts) ErasureMark} {stage : ErasureStage Facts}
    (h : Sound subjectRef s) (hcommitted : store.committed = s.store.committed)
    (hfresh : ∀ k, store.size ≤ k → store.pending k = none ∧ s.store.size ≤ k)
    (hothers : ∀ j k r, j ≠ i →
      (store.pending k = some (j, r) ↔ s.store.pending k = some (j, r)))
    (hdrafted : ∀ k r, store.pending k = some (i, r) → Certified r)
    (hholds : holds stage = none ∨ holds stage = holds (s.stage i))
    (howns : Owns store i stage) : Sound subjectRef (s.goto i store stage) where
  fresh k hk := by
    obtain ⟨hp, hlt⟩ := hfresh k hk
    exact ⟨by rw [← (h.fresh k hlt).1]; exact congrFun hcommitted k, hp⟩
  certified k c hc := h.certified k c (by rw [← hc]; exact (congrFun hcommitted k).symm)
  drafted k j r hp := by
    by_cases hji : j = i
    · subst hji
      exact hdrafted k r hp
    · exact h.drafted k j r ((hothers j k r hji).mp hp)
  oneOpen phone j k c d hc hd := by
    refine h.oneOpen phone j k c d ?_ ?_
    · rw [← hc]
      exact (congrFun hcommitted j).symm
    · rw [← hd]
      exact (congrFun hcommitted k).symm
  locked j phone hj := by
    by_cases hji : j = i
    · subst hji
      simp only [Erasures.goto, Function.update_self] at hj
      rcases hholds with hnone | hsame
      · rw [hnone] at hj
        cases hj
      · exact h.locked j phone (hsame ▸ hj)
    · simp only [Erasures.goto, Function.update_of_ne hji] at hj
      exact h.locked j phone hj
  owns j := by
    by_cases hji : j = i
    · subst hji
      simpa only [Erasures.goto, Function.update_self] using howns
    · simp only [Erasures.goto, Function.update_of_ne hji]
      refine (h.owns j).congr (fun k r => hothers j k r hji) (fun k r _ => congrFun hcommitted k)
        fun phone _ hno k c hc => hno k c ?_
      rw [← hc]
      exact (congrFun hcommitted k).symm

/-- A step that writes nothing. -/
theorem move {stage : ErasureStage Facts} (h : Sound subjectRef s)
    (hholds : holds stage = none ∨ holds stage = holds (s.stage i))
    (howns : Owns s.store i stage) : Sound subjectRef (s.goto i s.store stage) :=
  h.goto rfl (fun k hk => ⟨(h.fresh k hk).2, hk⟩) (fun _ _ _ _ => Iff.rfl)
    (fun k r hp => h.drafted k i r hp) hholds howns

/-- The row a session writes is one it can see, and so one that is there. -/
theorem write {stage : ErasureStage Facts} {k : ℕ} {r r' : DeletionRequest Facts}
    {w : ErasureMark} (h : Sound subjectRef s) (hfree : s.store.free i k = true)
    (hv : s.store.visible i k = some r) (hcert : Certified r') (hholds : holds stage = none)
    (howns : Owns (s.store.write i k r' w) i stage) :
    Sound subjectRef (s.goto i (s.store.write i k r' w) stage) := by
  refine h.goto rfl (fun m hm => ?_) (fun j m r₁ hji => ?_) (fun m r₁ hp => ?_) (.inl hholds) howns
  · have hlt : k < s.store.size := by
      rcases RowStore.visible_cases hv with hp | ⟨-, hc⟩
      · by_contra hk
        rw [(h.fresh k (Nat.le_of_not_lt hk)).2] at hp
        cases hp
      · exact h.lt_size hc
    have hle : s.store.size ≤ m := hm
    have hmk : m ≠ k := by omega
    refine ⟨?_, hm⟩
    rw [RowStore.write_pending_ne hmk]
    exact (h.fresh m hm).2
  · exact RowStore.write_pending_other hfree hji
  · rcases RowStore.write_pending_cases hp with ⟨-, -, rfl⟩ | ⟨-, hp⟩
    · exact hcert
    · exact h.drafted m i r₁ hp

/-- An open request behind a commit was open before it, or is the one the session filed, the
number having had none. -/
theorem commit_open (h : Sound subjectRef s) {phone k : ℕ} {c : DeletionRequest Facts}
    (hc : (s.store.commit i).committed k = some c) (hopen : c.openFor phone = true) :
    s.store.committed k = some c ∨ (∃ row, s.stage i = .filed phone row) ∧
      NoneOpen s.store phone ∧ ∀ m r, s.store.pending m = some (i, r) → m = k := by
  rcases RowStore.commit_committed_cases hc with hp | ⟨-, hc⟩
  · have howns := h.owns i
    simp only [DeletionRequest.openFor, decide_eq_true_eq] at hopen
    cases hstage : s.stage i with
    | filed phone' row =>
      rw [hstage] at howns
      obtain ⟨-, hphone, -, hno, hone⟩ := howns k c hp
      have heq : phone' = phone := Option.some.inj (hphone.symm.trans hopen.1)
      subst heq
      exact .inr ⟨⟨row, rfl⟩, hno, hone⟩
    | filing phone' now =>
      rw [hstage] at howns
      exact absurd hp (howns.1 k c)
    | completed row now proof =>
      rw [hstage] at howns
      obtain ⟨-, hat, -⟩ := howns k c hp
      rw [hopen.2] at hat
      cases hat
    | closing now facts rows =>
      rw [hstage] at howns
      exact absurd hopen.2 (howns k c hp).1
    | returned =>
      rw [hstage] at howns
      exact absurd hopen.2 (howns k c hp).1
    | _ =>
      rw [hstage] at howns
      exact absurd hp (howns k c)
  · exact .inl hc

theorem commit (h : Sound subjectRef s) :
    Sound subjectRef { s.goto i (s.store.commit i) .ended with lock := s.unlock i } where
  fresh k hk := by
    obtain ⟨hc, hp⟩ := h.fresh k hk
    refine ⟨?_, by simp [Erasures.goto, RowStore.commit, RowStore.released, hp]⟩
    exact (RowStore.commit_committed_ne (by simp [hp])).trans hc
  certified k c hc := by
    rcases RowStore.commit_committed_cases hc with hp | ⟨-, hc⟩
    · exact h.drafted k i c hp
    · exact h.certified k c hc
  drafted k j r hp := h.drafted k j r (RowStore.commit_pending_iff.mp hp).1
  oneOpen phone j k c d hc hd hcopen hdopen := by
    have hfiled : ∀ {m m' : ℕ} {e e' : DeletionRequest Facts},
        (s.store.commit i).committed m = some e → e.openFor phone = true →
        NoneOpen s.store phone → (∀ n r, s.store.pending n = some (i, r) → n = m') → m = m' := by
      intro m m' e e' he heopen hno hone
      rcases RowStore.commit_committed_cases he with hp | ⟨-, he⟩
      · exact hone m e hp
      · rw [hno m e he] at heopen
        cases heopen
    rcases h.commit_open hc hcopen with hc' | ⟨-, hno, hone⟩
    · rcases h.commit_open hd hdopen with hd' | ⟨-, hno, hone⟩
      · exact h.oneOpen phone j k c d hc' hd' hcopen hdopen
      · exact @hfiled j k c d hc hcopen hno hone
    · exact (@hfiled k j d c hd hdopen hno hone).symm
  locked j phone hj := by
    by_cases hji : j = i
    · subst hji
      simp [Erasures.goto, holds] at hj
    · simp only [Erasures.goto, Function.update_of_ne hji] at hj
      simp [Erasures.unlock, h.locked j phone hj, hji]
  owns j := by
    by_cases hji : j = i
    · subst hji
      simp only [Erasures.goto, Function.update_self]
      exact fun k r hp => (RowStore.commit_pending_iff.mp hp).2 rfl
    · simp only [Erasures.goto, Function.update_of_ne hji]
      refine (h.owns j).congr
        (fun k r => RowStore.commit_pending_iff.trans (and_iff_left hji)) (fun k r hp => ?_)
        fun phone hholds hno k c hc => ?_
      · refine RowStore.commit_committed_ne fun r' hr' => ?_
        rw [hp] at hr'
        cases hr'
        exact hji rfl
      · -- whoever filed a request for a number another session has locked would hold that lock
        by_contra hopen
        rcases h.commit_open hc (Bool.not_eq_false _ ▸ hopen) with hc' | ⟨⟨row, hfiled⟩, -, -⟩
        · exact hopen (hno k c hc')
        · have hmine := h.locked i phone (by rw [hfiled]; rfl)
          rw [h.locked j phone hholds] at hmine
          exact hji (Option.some.inj hmine)

theorem rollback (h : Sound subjectRef s) :
    Sound subjectRef { s.goto i (s.store.rollback i) .ended with lock := s.unlock i } where
  fresh k hk := by
    obtain ⟨hc, hp⟩ := h.fresh k hk
    exact ⟨hc, by simp [Erasures.goto, RowStore.rollback, RowStore.released, hp]⟩
  certified := h.certified
  drafted k j r hp := h.drafted k j r (RowStore.rollback_pending_iff.mp hp).1
  oneOpen := h.oneOpen
  locked j phone hj := by
    by_cases hji : j = i
    · subst hji
      simp [Erasures.goto, holds] at hj
    · simp only [Erasures.goto, Function.update_of_ne hji] at hj
      simp [Erasures.unlock, h.locked j phone hj, hji]
  owns j := by
    by_cases hji : j = i
    · subst hji
      simp only [Erasures.goto, Function.update_self]
      exact fun k r hp => (RowStore.rollback_pending_iff.mp hp).2 rfl
    · simp only [Erasures.goto, Function.update_of_ne hji]
      exact (h.owns j).congr
        (fun k r => RowStore.rollback_pending_iff.trans (and_iff_left hji)) (fun _ _ _ => rfl)
        fun _ _ hno => hno

theorem takeLock (h : Sound subjectRef s) {phone now : ℕ} (hat : s.stage i = .locking phone now)
    (hfree : ∀ j, s.lock (subjectRef phone) = some j → j = i) :
    Sound subjectRef { s with
      lock := Function.update s.lock (subjectRef phone) (some i)
      stage := Function.update s.stage i (.looking phone now) } where
  fresh := h.fresh
  certified := h.certified
  drafted := h.drafted
  oneOpen := h.oneOpen
  locked j other hj := by
    by_cases hji : j = i
    · subst hji
      simp only [Function.update_self, holds, Option.some.injEq] at hj
      simp [← hj]
    · simp only [Function.update_of_ne hji] at hj
      have hmine := h.locked j other hj
      by_cases hkey : subjectRef other = subjectRef phone
      · rw [hkey] at hmine
        exact absurd (hfree j hmine) hji
      · simpa [Function.update_of_ne hkey] using hmine
  owns j := by
    by_cases hji : j = i
    · subst hji
      have howns := h.owns j
      rw [hat] at howns
      simp only [Function.update_self]
      exact howns
    · simpa only [Function.update_of_ne hji] using h.owns j

theorem insert (h : Sound subjectRef s) {phone now : ℕ} (hat : s.stage i = .filing phone now) :
    Sound subjectRef (s.goto i (s.store.insert i (.filed subjectRef phone now))
      (.filed phone (some s.store.size))) := by
  have howns := h.owns i
  rw [hat] at howns
  have hown : ∀ k r, (s.store.insert i (.filed subjectRef phone now)).pending k = some (i, r) →
      k = s.store.size ∧ r = .filed subjectRef phone now := by
    intro k r hp
    rcases RowStore.insert_pending_cases hp with ⟨hk, -, hr⟩ | ⟨-, hp⟩
    · exact ⟨hk, hr⟩
    · exact absurd hp (howns.1 k r)
  refine h.goto rfl (fun k hk => ?_) (fun j k r hji => RowStore.insert_pending_other
    (h.fresh _ le_rfl).2 hji) (fun k r hp => ?_) (.inr (by rw [hat]; rfl)) fun k r hp => ?_
  · have hlt : s.store.size < k := hk
    rw [RowStore.insert_pending_ne hlt.ne']
    exact ⟨(h.fresh k hlt.le).2, hlt.le⟩
  · rw [(hown k r hp).2]
    exact fun hdone => absurd rfl hdone
  · obtain ⟨rfl, rfl⟩ := hown k r hp
    exact ⟨(h.fresh _ le_rfl).1, rfl, rfl, howns.2, fun m r' hm => (hown m r' hm).1⟩

end Sound

theorem certified_complete (now : ℕ) (proof : ErasureProof Facts) (r : DeletionRequest Facts) :
    Certified (r.complete now proof) := fun _ => ⟨rfl, nofun⟩

theorem certified_close {r : DeletionRequest Facts} (h : Certified r) (now : ℕ) (facts : Facts) :
    Certified (r.close now facts) := by
  refine fun _ => ⟨rfl, ?_⟩
  by_cases hopen : r.completedAt = none
  · simp [DeletionRequest.close, hopen]
  · simpa [DeletionRequest.close, hopen] using (h hopen).2

/-- **Every step keeps it.** -/
theorem Turn.sound {s s' : Erasures Facts} {i : ℕ} (h : Sound subjectRef s)
    (ht : Turn subjectRef s i s') : Sound subjectRef s' := by
  have howns := h.owns i
  cases ht
  case begin stage hat hto =>
    rw [hat] at howns
    rcases hto with ⟨phone, now, rfl⟩ | ⟨row, now, facts, rfl⟩ | ⟨now, facts, rfl⟩ <;>
      exact h.move (.inl rfl) howns
  case lock phone now hat hfree => exact h.takeLock hat hfree
  case seen phone now row hat =>
    rw [hat] at howns
    exact h.move (.inr (by rw [hat]; rfl)) fun k r hp => absurd hp (howns k r)
  case unseen phone now hat hnone =>
    rw [hat] at howns
    refine h.move (.inr (by rw [hat]; rfl)) ⟨howns, fun k c hc => ?_⟩
    by_contra hopen
    have hin : k ∈ s.store.found i (DeletionRequest.openFor phone) := by
      refine RowStore.mem_found.mpr ⟨h.lt_size hc, c, ?_, Bool.not_eq_false _ ▸ hopen⟩
      rw [RowStore.visible_of_not_held (howns k)]
      exact hc
    rw [hnone] at hin
    cases hin
  case insert phone now hat => exact h.insert hat
  case read row now phone facts hat =>
    rw [hat] at howns
    exact h.move (.inl rfl) howns
  case refuse row now facts hat =>
    rw [hat] at howns
    exact h.move (.inl rfl) fun k r hp => absurd hp (howns k r)
  case complete row now phone facts r proof hat hfree hv =>
    rw [hat] at howns
    refine h.write hfree hv (certified_complete now proof r) rfl fun k r' hp => ?_
    rcases RowStore.write_pending_cases hp with ⟨rfl, -, rfl⟩ | ⟨-, hp⟩
    · refine ⟨rfl, rfl, rfl, ?_⟩
      rw [RowStore.visible_of_not_held (howns k)] at hv
      simp [hv]
    · exact absurd hp (howns k r')
  case completeNone row now phone facts proof hat =>
    rw [hat] at howns
    exact h.move (.inl rfl) fun k r hp => absurd hp (howns k r)
  case find now facts hat =>
    rw [hat] at howns
    exact h.move (.inl rfl) fun k r hp => absurd hp (howns k r)
  case close now k facts rows r hat hfree hv =>
    rw [hat] at howns
    have hr : Certified r := by
      rcases RowStore.visible_cases hv with hp | ⟨-, hc⟩
      · exact h.drafted k i r hp
      · exact h.certified k r hc
    refine h.write hfree hv (certified_close hr now facts) rfl fun m r' hp => ?_
    rcases RowStore.write_pending_cases hp with ⟨rfl, -, rfl⟩ | ⟨-, hp⟩
    · refine ⟨nofun, ?_⟩
      rcases RowStore.visible_cases hv with hp | ⟨-, hc⟩
      · obtain ⟨hdone, c, hc, hkept⟩ := howns m r hp
        refine ⟨c, hc, fun hcdone => ?_⟩
        obtain ⟨hat', hproof⟩ := hkept hcdone
        obtain ⟨t, ht⟩ := Option.ne_none_iff_exists'.mp hdone
        simp only [DeletionRequest.close, if_neg hdone, hproof, and_true]
        rw [← hat', ht]
        rfl
      · refine ⟨r, hc, fun hdone => ?_⟩
        obtain ⟨t, ht⟩ := Option.ne_none_iff_exists'.mp hdone
        simp [DeletionRequest.close, ht]
    · exact howns m r' hp
  case closeNone now k facts rows hat =>
    rw [hat] at howns
    exact h.move (.inl rfl) howns
  case closed now facts hat =>
    rw [hat] at howns
    exact h.move (.inl rfl) howns
  case commit hat => exact h.commit
  case rollback => exact h.rollback

theorem sound_step {s : Erasures Facts} (h : Sound subjectRef s) (a : ErasureAction Facts) :
    Sound subjectRef (step subjectRef s a) := by
  rcases step_turns subjectRef s a with hsame | ht
  · rw [hsame]
    exact h
  · exact ht.sound h

variable (subjectRef)

theorem sound_run (actions : List (ErasureAction Facts)) :
    Sound subjectRef (actions.foldl (step subjectRef) start) :=
  @Run.foldl_inv _ _ (step subjectRef) (Sound subjectRef) (fun _ a hs => sound_step hs a) _
    (sound_start subjectRef) actions

variable {subjectRef}

/-! ## Certificates that last -/

/-- At most one request for a number is open, and a completed one has a proof and no number. -/
def OneOpen (s : Erasures Facts) : Prop :=
  (∀ phone j k c d, s.store.committed j = some c → s.store.committed k = some d →
    c.openFor phone = true → d.openFor phone = true → j = k) ∧
  ∀ k c, s.store.committed k = some c → c.completedAt ≠ none →
    c.phoneE164 = none ∧ c.proof ≠ none

/-- Completed requests stay completed, as of the same instant and with the same proof. -/
def Lasts (s s' : Erasures Facts) : Prop :=
  ∀ k c, s.store.committed k = some c → c.completedAt ≠ none →
    ∃ c', s'.store.committed k = some c' ∧ c'.completedAt = c.completedAt ∧ c'.proof = c.proof

theorem Lasts.refl (s : Erasures Facts) : Lasts s s := fun _ c hc _ => ⟨c, hc, rfl, rfl⟩

theorem Lasts.trans {s s' s'' : Erasures Facts} (h : Lasts s s') (h' : Lasts s' s'') :
    Lasts s s'' := by
  intro k c hc hdone
  obtain ⟨c', hc', hat, hproof⟩ := h k c hc hdone
  obtain ⟨c'', hc'', hat', hproof'⟩ := h' k c' hc' (hat ▸ hdone)
  exact ⟨c'', hc'', hat'.trans hat, hproof'.trans hproof⟩

/-- The completion a session is about to commit. -/
def completing : ErasureStage Facts → Option (ℕ × ℕ × ErasureProof Facts)
  | .completed row now proof => some (row, now, proof)
  | _ => none

/-- A run that completes a request finds it open still, or completed just as it would. -/
def FindsOpen (s : Erasures Facts) : ErasureAction Facts → Prop
  | .commit i => ∀ row now proof, completing (s.stage i) = some (row, now, proof) →
      ∀ r c, s.store.pending row = some (i, r) → s.store.committed row = some c →
        c.completedAt = none ∨ (c.completedAt = some now ∧ c.proof = some proof)
  | _ => True

/-- Only a commit changes what is committed. -/
theorem step_committed {s : Erasures Facts} {a : ErasureAction Facts}
    (hnot : ∀ i, a ≠ .commit i) : (step subjectRef s a).store.committed = s.store.committed := by
  cases a with
  | requestErasure i phone now | executeDeletionRequest i row now facts
  | executeTenantErasure i now facts =>
    simp only [step, beginAt]
    split <;> rfl
  | advance i =>
    simp only [step, advance]
    split
    case h_5 row now phone facts hat =>
      split
      · rfl
      · next hrow => exact RowStore.updateRow_committed hrow
    case h_7 now facts k rows hat =>
      split
      · rfl
      · next hrow => exact RowStore.updateRow_committed hrow
    case h_4 row now facts hat =>
      split
      · rfl
      · split <;> rfl
    all_goals first | rfl | (split <;> rfl)
  | commit i => exact absurd rfl (hnot i)
  | rollback i => rfl

/-- What a commit does to a completed request: nothing, unless the session completes it again. -/
theorem commit_kept {s : Erasures Facts} (h : Sound subjectRef s) {i k : ℕ}
    {c : DeletionRequest Facts} (hc : s.store.committed k = some c) (hdone : c.completedAt ≠ none)
    (hnot : ∀ now proof, completing (s.stage i) = some (k, now, proof) →
      ∀ r, s.store.pending k ≠ some (i, r)) :
    ∃ c', (s.store.commit i).committed k = some c' ∧ c'.completedAt = c.completedAt ∧
      c'.proof = c.proof := by
  by_cases hown : ∃ r, s.store.pending k = some (i, r)
  · obtain ⟨r, hp⟩ := hown
    refine ⟨r, RowStore.commit_committed_of hp, ?_⟩
    have howns := h.owns i
    have hclosed : r.completedAt ≠ none ∧ (∃ c, s.store.committed k = some c ∧
        (c.completedAt ≠ none → r.completedAt = c.completedAt ∧ r.proof = c.proof)) →
        r.completedAt = c.completedAt ∧ r.proof = c.proof := by
      rintro ⟨-, c₀, hc₀, hkept⟩
      rw [hc] at hc₀
      cases hc₀
      exact hkept hdone
    cases hstage : s.stage i with
    | completed row now proof =>
      rw [hstage] at howns hnot
      obtain ⟨rfl, -⟩ := howns k r hp
      exact absurd hp (hnot now proof rfl r)
    | closing now facts rows =>
      rw [hstage] at howns
      exact hclosed (howns k r hp)
    | returned =>
      rw [hstage] at howns
      exact hclosed (howns k r hp)
    | filed phone row =>
      rw [hstage] at howns
      rw [(howns k r hp).1] at hc
      cases hc
    | filing phone now =>
      rw [hstage] at howns
      exact absurd hp (howns.1 k r)
    | _ =>
      rw [hstage] at howns
      exact absurd hp (howns k r)
  · refine ⟨c, ?_, rfl, rfl⟩
    rw [RowStore.commit_committed_ne fun r hr => hown ⟨r, hr⟩]
    exact hc

/-- **A step leaves the certificates alone just where it finds open what it completes.** -/
theorem step_lasts_iff {s : Erasures Facts} (h : Sound subjectRef s) (a : ErasureAction Facts) :
    Lasts s (step subjectRef s a) ↔ FindsOpen s a := by
  by_cases hcommit : ∃ i, a = .commit i
  · obtain ⟨i, rfl⟩ := hcommit
    have hrow : ∀ {row now proof r}, completing (s.stage i) = some (row, now, proof) →
        s.store.pending row = some (i, r) → s.stage i = .completed row now proof ∧
          r.completedAt = some now ∧ r.proof = some proof := by
      intro row now proof r hstage hp
      have howns := h.owns i
      cases hat : s.stage i with
      | completed row' now' proof' =>
        rw [hat] at hstage howns
        cases hstage
        obtain ⟨-, hnow, hproof, -⟩ := howns row r hp
        exact ⟨rfl, hnow, hproof⟩
      | _ =>
        rw [hat] at hstage
        cases hstage
    constructor
    · intro hlasts row now proof hstage r c hp hc
      by_cases hdone : c.completedAt = none
      · exact .inl hdone
      obtain ⟨hat, hnow, hproof⟩ := hrow hstage hp
      obtain ⟨c', hc', hsame, hsameProof⟩ := hlasts row c hc hdone
      rw [step, Erasures.commit, hat] at hc'
      have hr : (s.store.commit i).committed row = some r := RowStore.commit_committed_of hp
      rw [show (s.store.commit i).committed row = some c' from hc'] at hr
      cases hr
      exact .inr ⟨hsame.symm.trans hnow, hsameProof.symm.trans hproof⟩
    · intro hfinds k c hc hdone
      simp only [step, Erasures.commit]
      split
      · by_cases hagain : ∃ now proof r, completing (s.stage i) = some (k, now, proof) ∧
            s.store.pending k = some (i, r)
        · obtain ⟨now, proof, r, hstage, hp⟩ := hagain
          obtain ⟨-, hnow, hproof⟩ := hrow hstage hp
          obtain ⟨hat, hcert⟩ := (hfinds k now proof hstage r c hp hc).resolve_left hdone
          exact ⟨r, RowStore.commit_committed_of hp, hnow.trans hat.symm, hproof.trans hcert.symm⟩
        · exact commit_kept h hc hdone fun now proof hstage r hp =>
            hagain ⟨now, proof, r, hstage, hp⟩
      · exact ⟨c, hc, rfl, rfl⟩
  · have hnot : ∀ i, a ≠ .commit i := fun i ha => hcommit ⟨i, ha⟩
    have hfinds : FindsOpen s a := by
      cases a with
      | commit i => exact absurd rfl (hnot i)
      | _ => trivial
    refine iff_of_true (fun k c hc hdone => ⟨c, ?_, rfl, rfl⟩) hfinds
    rw [step_committed hnot]
    exact hc

/-- **A certificate is issued once just where runs find open what they complete.** At every moment
at most one request for a number is open and a completed one has a proof and no number; and
completed requests never change again if and only if every run that commits a completion
finds the request open still, or completed just as it would. -/
theorem certificates_last_iff (subjectRef : ℕ → ℕ) (actions : List (ErasureAction Facts)) :
    OneOpen (actions.foldl (step subjectRef) start) ∧
      ((∀ before during after, actions = before ++ during ++ after →
          Lasts (before.foldl (step subjectRef) start)
            ((before ++ during).foldl (step subjectRef) start)) ↔
        Run.Guarded (step subjectRef) FindsOpen start actions) := by
  refine ⟨⟨(sound_run subjectRef actions).oneOpen, (sound_run subjectRef actions).certified⟩, ?_⟩
  constructor
  · intro hlasts
    refine Run.Guarded.of_at fun before a after hsplit => ?_
    refine (step_lasts_iff (sound_run subjectRef before) a).mp ?_
    have hone := hlasts before [a] after (by rw [hsplit]; simp)
    rwa [List.foldl_append] at hone
  · intro hg before during after hsplit
    rw [List.foldl_append]
    -- the induction is on what comes in between, one step at a time from the end
    induction during using List.reverseRecOn generalizing after with
    | nil => exact Lasts.refl _
    | append_singleton during a ih =>
      rw [List.foldl_append]
      refine (ih (a :: after) (by rw [hsplit]; simp)).trans ?_
      have hat : Run.Guarded (step subjectRef) FindsOpen start
          ((before ++ during) ++ a :: after) := by
        rw [hsplit] at hg
        simpa using hg
      rw [← List.foldl_append]
      exact (step_lasts_iff (sound_run subjectRef (before ++ during)) a).mpr hat.at

/-- A request for a number, a run that has read it open, and the erasure of the whole account
committed before that run completes it. -/
def closedMeanwhile : List (ErasureAction ℕ) :=
  [.requestErasure 0 919876543210 10, .advance 0, .advance 0, .advance 0, .commit 0,
    .executeDeletionRequest 1 0 20 700, .advance 1,
    .executeTenantErasure 2 30 800, .advance 2, .advance 2, .advance 2, .commit 2]

/-- The run then completes the request, at its own earlier instant and with its own proof. -/
def completedAgain : List (ErasureAction ℕ) := [.advance 1, .commit 1]

/-- **A certificate that was read is replaced.** -/
theorem completed_twice : ¬ ∀ before during after : List (ErasureAction ℕ),
    closedMeanwhile ++ completedAgain = before ++ during ++ after →
      Lasts (before.foldl (step id) start) ((before ++ during).foldl (step id) start) := by
  intro h
  have hlasts := h closedMeanwhile completedAgain [] (by simp)
  have hread : ((closedMeanwhile.foldl (step id) start).store.committed 0).bind
      DeletionRequest.completedAt = some 30 ∧
      (((closedMeanwhile ++ completedAgain).foldl (step id) start).store.committed 0).bind
        DeletionRequest.completedAt = some 20 := by decide +kernel
  obtain ⟨c, hc, hat⟩ := Option.bind_eq_some_iff.mp hread.1
  obtain ⟨c', hc', hsame, -⟩ := hlasts 0 c hc (by simp [hat])
  have hagain := hread.2
  rw [hc', Option.bind_some, hsame, hat] at hagain
  cases hagain

end Erasures

end Compliance

end Calevate
