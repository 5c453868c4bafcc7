import Calevate.Authn.OneTimeCodes

/-!
# The versions of a challenge

`Move` is everything a step of a session can do. From it: what a version in flight can differ in
from the committed one, and that a challenge is accepted once (`Move.versions`), whatever
sessions run beside each other.
-/

namespace Calevate

namespace Authn

open Lib

/-! ## What a step can do -/

/-- One step of session `i`, with what it found. -/
inductive Move (s : State) (i : ℕ) : State → Prop
  | begin {stage : Stage} (hat : s.stage i = .unbegun)
      (hto : (∃ call, stage = .locking call) ∨ ∃ guess, stage = .toAccept guess) :
      Move s i (s.goto i s.store stage)
  | lock {call : Issue} (hat : s.stage i = .locking call)
      (hfree : ∀ j, s.lock call.slot.lockKey = some j → j = i) :
      Move s i { s with
        lock := Function.update s.lock call.slot.lockKey (some i)
        stage := Function.update s.stage i (.toRetire call) }
  | find {call : Issue} (hat : s.stage i = .toRetire call) :
      Move s i (s.goto i s.store
        (.retiring call (s.store.found i (Challenge.liveIn call.slot))))
  | retire {call : Issue} {k : ℕ} {rows : List ℕ} {c : Challenge}
      (hat : s.stage i = .retiring call (k :: rows)) (hfree : s.store.free i k = true)
      (hv : s.store.visible i k = some c) (hlive : c.liveIn call.slot = true) :
      Move s i (s.goto i (s.store.write i k (c.consume call.now) .retired) (.retiring call rows))
  | retireNone {call : Issue} {k : ℕ} {rows : List ℕ}
      (hat : s.stage i = .retiring call (k :: rows))
      (hv : ∀ c, s.store.visible i k = some c → c.liveIn call.slot = false) :
      Move s i (s.goto i s.store (.retiring call rows))
  | mint {call : Issue} (hat : s.stage i = .retiring call []) :
      Move s i (s.goto i (s.store.insert i call.challenge) (.minted call s.store.size))
  | compare {guess : Guess} (hat : s.stage i = .toAccept guess) :
      Move s i { s.goto i s.store (.accepting guess (s.store.found i guess.accepts) false) with
        compared := s.compared ++ (s.store.found i guess.open).map fun k => (i, k) }
  | accept {guess : Guess} {k : ℕ} {rows : List ℕ} {hit : Bool} {c : Challenge}
      (hat : s.stage i = .accepting guess (k :: rows) hit) (hfree : s.store.free i k = true)
      (hv : s.store.visible i k = some c) (hlive : guess.accepts c = true) :
      Move s i (s.goto i (s.store.write i k (c.consume guess.now) .accepted)
        (.accepting guess rows true))
  | acceptNone {guess : Guess} {k : ℕ} {rows : List ℕ} {hit : Bool}
      (hat : s.stage i = .accepting guess (k :: rows) hit) :
      Move s i (s.goto i s.store (.accepting guess rows hit))
  | accepted {guess : Guess} (hat : s.stage i = .accepting guess [] true) :
      Move s i (s.goto i s.store (.answered guess .accepted))
  | missed {guess : Guess} (hat : s.stage i = .accepting guess [] false) :
      Move s i (s.goto i s.store (.toCharge guess))
  | findCharged {guess : Guess} (hat : s.stage i = .toCharge guess) :
      Move s i (s.goto i s.store
        (.charging guess (s.store.found i (Challenge.liveIn guess.slot)) none))
  | charge {guess : Guess} {k : ℕ} {rows : List ℕ} {expired expired' : Option Bool} {c : Challenge}
      (hat : s.stage i = .charging guess (k :: rows) expired) (hfree : s.store.free i k = true)
      (hv : s.store.visible i k = some c) (hlive : c.liveIn guess.slot = true) :
      Move s i (s.goto i (s.store.write i k c.charge .charged) (.charging guess rows expired'))
  | chargeNone {guess : Guess} {k : ℕ} {rows : List ℕ} {expired expired' : Option Bool}
      (hat : s.stage i = .charging guess (k :: rows) expired)
      (hv : ∀ c, s.store.visible i k = some c → c.liveIn guess.slot = false) :
      Move s i (s.goto i s.store (.charging guess rows expired'))
  | refused {guess : Guess} {expired : Option Bool} {outcome : CodeOutcome}
      (hat : s.stage i = .charging guess [] expired) (hno : outcome ≠ .accepted) :
      Move s i (s.goto i s.store (.answered guess outcome))
  | commit {outcome : Option CodeOutcome} (hat : State.returned (s.stage i) = some outcome) :
      Move s i { s.goto i (s.store.commit i) (.committed outcome) with lock := s.unlock i }
  | rollback (hat : (s.stage i).running = true) :
      Move s i { s.goto i (s.store.rollback i) .rolledBack with lock := s.unlock i }

theorem advance_moves (s : State) (i : ℕ) : s.advance i = s ∨ Move s i (s.advance i) := by
  unfold State.advance
  split
  case h_1 call hat =>
    split
    · next hfree =>
      refine .inr (.lock hat fun j hj => ?_)
      simpa [hj] using hfree
    · exact .inl rfl
  case h_2 call hat => exact .inr (.find hat)
  case h_3 call k rows hat =>
    split
    · exact .inl rfl
    · next store row hrow =>
      obtain ⟨hfree, ⟨c, hv, hlive, rfl, rfl⟩ | ⟨rfl, rfl, hv⟩⟩ := RowStore.updateRow_ok hrow
      · exact .inr (.retire hat hfree hv hlive)
      · exact .inr (.retireNone hat hv)
  case h_4 call hat => exact .inr (.mint hat)
  case h_5 guess hat => exact .inr (.compare hat)
  case h_6 guess k rows hit hat =>
    split
    · exact .inl rfl
    · next store row hrow =>
      obtain ⟨hfree, ⟨c, hv, hlive, rfl, rfl⟩ | ⟨rfl, rfl, hv⟩⟩ := RowStore.updateRow_ok hrow
      · rw [Option.isSome_some, Bool.or_true]
        exact .inr (.accept hat hfree hv hlive)
      · rw [Option.isSome_none, Bool.or_false]
        exact .inr (.acceptNone hat)
  case h_7 guess hit hat =>
    cases hit with
    | true => exact .inr (.accepted hat)
    | false => exact .inr (.missed hat)
  case h_8 guess hat => exact .inr (.findCharged hat)
  case h_9 guess k rows expired hat =>
    split
    · exact .inl rfl
    · next store row hrow =>
      obtain ⟨hfree, ⟨c, hv, hlive, rfl, rfl⟩ | ⟨rfl, rfl, hv⟩⟩ := RowStore.updateRow_ok hrow
      · exact .inr (.charge hat hfree hv hlive)
      · exact .inr (.chargeNone hat hv)
  case h_10 guess expired hat =>
    refine .inr (.refused hat ?_)
    unfold State.refusal
    split <;> nofun
  case h_11 => exact .inl rfl

def Action.session : Action → ℕ
  | .issue i _ | .check i _ | .advance i | .commit i | .rollback i => i

/-- **Everything a step can do.** -/
theorem step_moves (s : State) (a : Action) : step s a = s ∨ Move s a.session (step s a) := by
  cases a with
  | issue i call =>
    simp only [step]
    split
    · next hat => exact .inr (.begin hat (.inl ⟨call, rfl⟩))
    · exact .inl rfl
  | check i guess =>
    simp only [step]
    split
    · next hat => exact .inr (.begin hat (.inr ⟨guess, rfl⟩))
    · exact .inl rfl
  | advance i => exact advance_moves s i
  | commit i =>
    simp only [step, State.commit]
    split
    · exact .inl rfl
    · next hat => exact .inr (.commit hat)
  | rollback i =>
    simp only [step, State.rollback]
    split
    · next hat => exact .inr (.rollback hat)
    · exact .inl rfl

/-! ## The versions of a challenge -/

/-- How often a list of writes accepted a challenge. -/
def acceptances (k : ℕ) (l : List (Write Mark)) : ℕ :=
  (RowStore.writesTo k l).countP fun w => w.what = .accepted

theorem acceptances_append (k : ℕ) (l l' : List (Write Mark)) :
    acceptances k (l ++ l') = acceptances k l + acceptances k l' := by
  simp [acceptances, RowStore.writesTo, List.countP_append]

theorem acceptances_single (k i m : ℕ) (w : Mark) :
    acceptances k [⟨i, m, w⟩] = if m = k ∧ w = .accepted then 1 else 0 := by
  by_cases hm : m = k
  · by_cases hw : w = .accepted <;> simp [acceptances, RowStore.writesTo, hm, hw]
  · simp [acceptances, RowStore.writesTo, hm]

/-- **What a version in flight can differ in from the committed one**, and how often a challenge
was accepted: never while it is live, once after, and in flight only by the session that
holds it consumed. -/
structure Versions (st : RowStore Challenge Mark) : Prop where
  fresh : ∀ k, st.size ≤ k → st.committed k = none ∧ st.pending k = none
  slot : ∀ k i r c, st.pending k = some (i, r) → st.committed k = some c → r.slot = c.slot
  live : ∀ k i r c, st.pending k = some (i, r) → st.committed k = some c →
    r.consumedAt = none → c.consumedAt = none
  attempts : ∀ k i r c, st.pending k = some (i, r) → st.committed k = some c →
    c.attempts ≤ r.attempts
  once : ∀ k, acceptances k st.log ≤ 1
  consumed : ∀ k, acceptances k st.log ≠ 0 → ∃ c, st.committed k = some c ∧ c.consumedAt ≠ none
  onceHeld : ∀ k i, acceptances k (st.writes i) ≤ 1
  held : ∀ k i, acceptances k (st.writes i) ≠ 0 →
    acceptances k st.log = 0 ∧ ∃ r, st.pending k = some (i, r) ∧ r.consumedAt ≠ none

namespace Versions

variable {st : RowStore Challenge Mark}

theorem empty : Versions RowStore.empty where
  fresh := fun _ _ => ⟨rfl, rfl⟩
  slot := by intros; contradiction
  live := by intros; contradiction
  attempts := by intros; contradiction
  once := fun _ => Nat.zero_le _
  consumed := fun _ h => absurd rfl h
  onceHeld := fun _ _ => Nat.zero_le _
  held := fun _ _ h => absurd rfl h

/-- A session that ends forgets its own writes and leaves the others theirs. -/
theorem writes_commit {i j m : ℕ}
    (hne : acceptances m (Function.update st.writes i [] j) ≠ 0) :
    j ≠ i ∧ acceptances m (st.writes j) ≠ 0 := by
  by_cases hj : j = i
  · subst hj
    rw [Function.update_self] at hne
    exact absurd rfl hne
  · rw [Function.update_of_ne hj] at hne
    exact ⟨hj, hne⟩

theorem writes_of_ended {i j m : ℕ} (h : ∀ j m, acceptances m (st.writes j) ≤ 1) :
    acceptances m (Function.update st.writes i [] j) ≤ 1 := by
  by_cases hne : acceptances m (Function.update st.writes i [] j) = 0
  · omega
  · rw [Function.update_of_ne (writes_commit hne).1]
    exact h j m

variable (h : Versions st)

include h

theorem lt_size {k : ℕ} {c : Challenge} (hc : st.committed k = some c) : k < st.size := by
  by_contra hk
  rw [(h.fresh k (Nat.le_of_not_lt hk)).1] at hc
  cases hc

theorem pending_lt_size {k i : ℕ} {r : Challenge} (hp : st.pending k = some (i, r)) :
    k < st.size := by
  by_contra hk
  rw [(h.fresh k (Nat.le_of_not_lt hk)).2] at hp
  cases hp

/-- The version a session sees, against the committed one. -/
theorem visible {k i : ℕ} {r c : Challenge} (hv : st.visible i k = some r)
    (hc : st.committed k = some c) : r.slot = c.slot ∧
      (r.consumedAt = none → c.consumedAt = none) ∧ c.attempts ≤ r.attempts := by
  rcases RowStore.visible_cases hv with hp | ⟨-, hc'⟩
  · exact ⟨h.slot k i r c hp hc, h.live k i r c hp hc, h.attempts k i r c hp hc⟩
  · rw [hc] at hc'
    cases hc'
    exact ⟨rfl, id, le_rfl⟩

/-- A live challenge, as its session sees it, has been accepted by nobody. -/
theorem unaccepted {k i : ℕ} {r : Challenge} (hv : st.visible i k = some r)
    (hlive : r.consumedAt = none) :
    acceptances k st.log = 0 ∧ acceptances k (st.writes i) = 0 := by
  constructor
  · by_contra hne
    obtain ⟨c, hc, hconsumed⟩ := h.consumed k hne
    exact hconsumed ((h.visible hv hc).2.1 hlive)
  · by_contra hne
    obtain ⟨-, r', hr', hconsumed⟩ := h.held k i hne
    rw [RowStore.visible_of_pending hr'] at hv
    cases hv
    exact hconsumed hlive

/-- **A write to a live challenge**: it keeps its slot and its attempts, and is consumed if it is
accepted. -/
theorem write {k i : ℕ} {r r' : Challenge} {w : Mark} (hfree : st.free i k = true)
    (hv : st.visible i k = some r) (hlive : r.consumedAt = none) (hslot : r'.slot = r.slot)
    (hattempts : r.attempts ≤ r'.attempts) (hw : w = .accepted → r'.consumedAt ≠ none) :
    Versions (st.write i k r' w) where
  fresh m hm := by
    refine ⟨(h.fresh m hm).1, ?_⟩
    have hne : m ≠ k := by
      rintro rfl
      rcases RowStore.visible_cases hv with hp | ⟨-, hc⟩
      · exact absurd (h.pending_lt_size hp) (Nat.not_lt.mpr hm)
      · exact absurd (h.lt_size hc) (Nat.not_lt.mpr hm)
    rw [RowStore.write_pending_ne hne]
    exact (h.fresh m hm).2
  slot m j r₁ c hp hc := by
    rcases RowStore.write_pending_cases hp with ⟨rfl, rfl, rfl⟩ | ⟨-, hp⟩
    · exact hslot.trans (h.visible hv hc).1
    · exact h.slot m j r₁ c hp hc
  live m j r₁ c hp hc hnone := by
    rcases RowStore.write_pending_cases hp with ⟨rfl, rfl, rfl⟩ | ⟨-, hp⟩
    · exact (h.visible hv hc).2.1 hlive
    · exact h.live m j r₁ c hp hc hnone
  attempts m j r₁ c hp hc := by
    rcases RowStore.write_pending_cases hp with ⟨rfl, rfl, rfl⟩ | ⟨-, hp⟩
    · exact (h.visible hv hc).2.2.trans hattempts
    · exact h.attempts m j r₁ c hp hc
  once := h.once
  consumed := h.consumed
  onceHeld m j := by
    change acceptances m (Function.update st.writes i (st.writes i ++ [⟨i, k, w⟩]) j) ≤ 1
    by_cases hj : j = i
    · subst hj
      rw [Function.update_self, acceptances_append, acceptances_single]
      have hold := h.onceHeld m j
      split
      · next hm =>
        rw [← hm.1, (h.unaccepted hv hlive).2]
      · exact hold
    · rw [Function.update_of_ne hj]
      exact h.onceHeld m j
  held m j hne := by
    change acceptances m (Function.update st.writes i (st.writes i ++ [⟨i, k, w⟩]) j) ≠ 0 at hne
    change acceptances m st.log = 0 ∧ _
    by_cases hm : m = k
    · subst hm
      -- the row is held by nobody else, and its own session has not accepted it before
      have hji : j = i := by
        by_contra hji
        rw [Function.update_of_ne hji] at hne
        obtain ⟨-, r₁, hp, -⟩ := h.held m j hne
        exact hji (RowStore.free_iff.mp hfree j r₁ hp)
      subst hji
      obtain ⟨hlog, hnone⟩ := h.unaccepted hv hlive
      rw [Function.update_self, acceptances_append, acceptances_single, hnone] at hne
      refine ⟨hlog, r', RowStore.write_pending_self, hw ?_⟩
      by_contra hother
      simp [hother] at hne
    · have hold : acceptances m (st.writes j) ≠ 0 := by
        by_cases hji : j = i
        · subst hji
          rw [Function.update_self, acceptances_append, acceptances_single,
            if_neg (fun heq => hm heq.1.symm), add_zero] at hne
          exact hne
        · rwa [Function.update_of_ne hji] at hne
      obtain ⟨hlog, r₁, hp, hconsumed⟩ := h.held m j hold
      exact ⟨hlog, r₁, by rw [RowStore.write_pending_ne hm]; exact hp, hconsumed⟩

theorem insert (i : ℕ) (r : Challenge) : Versions (st.insert i r) where
  fresh m hm := by
    have hlt : st.size < m := hm
    rw [RowStore.insert_pending_ne hlt.ne']
    exact h.fresh m hlt.le
  slot m j r₁ c hp hc := by
    rcases RowStore.insert_pending_cases hp with ⟨rfl, -, -⟩ | ⟨-, hp⟩
    · rw [RowStore.insert_committed, (h.fresh _ le_rfl).1] at hc
      cases hc
    · exact h.slot m j r₁ c hp hc
  live m j r₁ c hp hc := by
    rcases RowStore.insert_pending_cases hp with ⟨rfl, -, -⟩ | ⟨-, hp⟩
    · rw [RowStore.insert_committed, (h.fresh _ le_rfl).1] at hc
      cases hc
    · exact h.live m j r₁ c hp hc
  attempts m j r₁ c hp hc := by
    rcases RowStore.insert_pending_cases hp with ⟨rfl, -, -⟩ | ⟨-, hp⟩
    · rw [RowStore.insert_committed, (h.fresh _ le_rfl).1] at hc
      cases hc
    · exact h.attempts m j r₁ c hp hc
  once := h.once
  consumed := h.consumed
  onceHeld := h.onceHeld
  held m j hne := by
    obtain ⟨hlog, r₁, hp, hconsumed⟩ := h.held m j hne
    refine ⟨hlog, r₁, ?_, hconsumed⟩
    rw [RowStore.insert_pending_ne (h.pending_lt_size hp).ne]
    exact hp

theorem commit (i : ℕ) : Versions (st.commit i) where
  fresh m hm := by
    obtain ⟨hc, hp⟩ := h.fresh m hm
    refine ⟨?_, ?_⟩
    · rw [RowStore.commit_committed_ne (by simp [hp])]
      exact hc
    · simp [RowStore.commit, RowStore.released, hp]
  slot m j r c hp hc := by
    obtain ⟨hp, hj⟩ := RowStore.commit_pending_iff.mp hp
    rcases RowStore.commit_committed_cases hc with hown | ⟨-, hc⟩
    · rw [hp] at hown
      cases hown
      exact absurd rfl hj
    · exact h.slot m j r c hp hc
  live m j r c hp hc := by
    obtain ⟨hp, hj⟩ := RowStore.commit_pending_iff.mp hp
    rcases RowStore.commit_committed_cases hc with hown | ⟨-, hc⟩
    · rw [hp] at hown
      cases hown
      exact absurd rfl hj
    · exact h.live m j r c hp hc
  attempts m j r c hp hc := by
    obtain ⟨hp, hj⟩ := RowStore.commit_pending_iff.mp hp
    rcases RowStore.commit_committed_cases hc with hown | ⟨-, hc⟩
    · rw [hp] at hown
      cases hown
      exact absurd rfl hj
    · exact h.attempts m j r c hp hc
  once m := by
    change acceptances m (st.log ++ st.writes i) ≤ 1
    rw [acceptances_append]
    by_cases hne : acceptances m (st.writes i) = 0
    · rw [hne]
      exact h.once m
    · rw [(h.held m i hne).1, zero_add]
      exact h.onceHeld m i
  consumed m hne := by
    change acceptances m (st.log ++ st.writes i) ≠ 0 at hne
    rw [acceptances_append] at hne
    by_cases hown : ∃ r, st.pending m = some (i, r)
    · obtain ⟨r, hp⟩ := hown
      refine ⟨r, RowStore.commit_committed_of hp, ?_⟩
      by_cases hwrites : acceptances m (st.writes i) = 0
      · obtain ⟨c, hc, hconsumed⟩ := h.consumed m (by omega)
        exact fun hlive => hconsumed (h.live m i r c hp hc hlive)
      · obtain ⟨-, r', hp', hconsumed⟩ := h.held m i hwrites
        rw [hp] at hp'
        cases hp'
        exact hconsumed
    · have hnot : ∀ r, st.pending m ≠ some (i, r) := fun r hr => hown ⟨r, hr⟩
      have hwrites : acceptances m (st.writes i) = 0 := by
        by_contra hwrites
        obtain ⟨-, r, hp, -⟩ := h.held m i hwrites
        exact hnot r hp
      rw [RowStore.commit_committed_ne hnot]
      exact h.consumed m (by omega)
  onceHeld m j := writes_of_ended fun j m => h.onceHeld m j
  held m j hne := by
    obtain ⟨hj, hwrites⟩ := writes_commit hne
    obtain ⟨hlog, r, hp, hconsumed⟩ := h.held m j hwrites
    refine ⟨?_, r, RowStore.commit_pending_iff.mpr ⟨hp, hj⟩, hconsumed⟩
    change acceptances m (st.log ++ st.writes i) = 0
    have hother : acceptances m (st.writes i) = 0 := by
      by_contra hother
      obtain ⟨-, r', hp', -⟩ := h.held m i hother
      rw [hp] at hp'
      cases hp'
      exact hj rfl
    rw [acceptances_append, hlog, hother]

theorem rollback (i : ℕ) : Versions (st.rollback i) where
  fresh m hm := by
    obtain ⟨hc, hp⟩ := h.fresh m hm
    exact ⟨hc, by simp [RowStore.rollback, RowStore.released, hp]⟩
  slot m j r c hp := h.slot m j r c (RowStore.rollback_pending_iff.mp hp).1
  live m j r c hp := h.live m j r c (RowStore.rollback_pending_iff.mp hp).1
  attempts m j r c hp := h.attempts m j r c (RowStore.rollback_pending_iff.mp hp).1
  once := h.once
  consumed := h.consumed
  onceHeld m j := writes_of_ended fun j m => h.onceHeld m j
  held m j hne := by
    obtain ⟨hj, hwrites⟩ := writes_commit hne
    obtain ⟨hlog, r, hp, hconsumed⟩ := h.held m j hwrites
    exact ⟨hlog, r, RowStore.rollback_pending_iff.mpr ⟨hp, hj⟩, hconsumed⟩

end Versions

/-- What a predicate on live challenges finds is live and of the slot. -/
theorem liveIn_iff {slot : Slot} {c : Challenge} :
    c.liveIn slot = true ↔ c.slot = slot ∧ c.consumedAt = none := by
  simp [Challenge.liveIn]

theorem Guess.live_of_open {guess : Guess} {c : Challenge} (h : guess.open c = true) :
    c.liveIn guess.slot = true := by
  simp only [Guess.open, decide_eq_true_eq] at h
  exact h.1

theorem Guess.open_of_accepts {guess : Guess} {c : Challenge} (h : guess.accepts c = true) :
    guess.open c = true := by
  simp only [Guess.accepts, decide_eq_true_eq] at h
  exact h.1

theorem Move.versions {s s' : State} {i : ℕ} (h : Versions s.store) (hm : Move s i s') :
    Versions s'.store := by
  cases hm
  case retire call k rows c hat hfree hv hlive =>
    exact h.write hfree hv ((liveIn_iff).mp hlive).2 rfl le_rfl nofun
  case mint call hat => exact h.insert i _
  case accept guess k rows hit c hat hfree hv hlive =>
    have hlive := Guess.live_of_open (Guess.open_of_accepts hlive)
    exact h.write hfree hv ((liveIn_iff).mp hlive).2 rfl le_rfl nofun
  case charge guess k rows expired expired' c hat hfree hv hlive =>
    exact h.write hfree hv ((liveIn_iff).mp hlive).2 rfl (Nat.le_succ _) nofun
  case commit outcome hat => exact h.commit i
  case rollback hat => exact h.rollback i
  all_goals exact h

end Authn

end Calevate
