import Calevate.Authn.ChallengeVersions

/-!
# One live challenge

An issue retires the live challenges of its slot and then inserts its own, under the lock of its
subject: what it found live it holds retired until it commits, and nobody else inserts
meanwhile. So one challenge of a slot is live at any moment (`Serial.oneLive`).
-/

namespace Calevate

namespace Authn

open Lib

/-! ## One live challenge -/

/-- The slot a session's statements name. -/
def Stage.slot : Stage → Option Slot
  | .locking call | .toRetire call | .retiring call _ | .minted call _ => some call.slot
  | .toAccept guess | .accepting guess _ _ | .toCharge guess | .charging guess _ _
  | .answered guess _ => some guess.slot
  | _ => none

/-- The call of `issue_challenge` that holds its subject's lock. -/
def Stage.issuing : Stage → Option Issue
  | .toRetire call | .retiring call _ | .minted call _ => some call
  | _ => none

/-- The live challenges of an issue's slot, as far as it has retired them: those it still has to
look at, and those it holds retired. -/
def Stage.Retires (st : RowStore Challenge Mark) (i : ℕ) : Stage → Prop
  | .retiring call rows => ∀ k c, st.committed k = some c → c.liveIn call.slot = true →
      k ∈ rows ∨ ∃ r, st.pending k = some (i, r) ∧ r.consumedAt ≠ none
  | .minted call _ => ∀ k c, st.committed k = some c → c.liveIn call.slot = true →
      ∃ r, st.pending k = some (i, r) ∧ r.consumedAt ≠ none
  | _ => True

/-- **One live challenge a slot**, and what keeps it so: an issue holds its subject's lock from
before it retires until it has committed, and only an issue's own row is new. -/
structure Serial (s : State) : Prop where
  oneLive : ∀ j k c d, s.store.committed j = some c → s.store.committed k = some d →
    c.consumedAt = none → d.consumedAt = none → c.slot = d.slot → j = k
  locked : ∀ i call, (s.stage i).issuing = some call → s.lock call.slot.lockKey = some i
  slot : ∀ k i r, s.store.pending k = some (i, r) → (s.stage i).slot = some r.slot
  unborn : ∀ k i r, s.store.pending k = some (i, r) → s.store.committed k = none →
    ∃ call, s.stage i = .minted call k
  retires : ∀ i, (s.stage i).Retires s.store i

theorem serial_start : Serial start where
  oneLive := by intros; contradiction
  locked := by intros; contradiction
  slot := by intros; contradiction
  unborn := by intros; contradiction
  retires := fun _ => trivial

/-- The same rows committed and held by the same sessions: a stage that retires still does. -/
theorem Stage.Retires.congr {st st' : RowStore Challenge Mark} {i : ℕ} {stage : Stage}
    (h : stage.Retires st i) (hc : st'.committed = st.committed)
    (hp : ∀ k r, st.pending k = some (i, r) → r.consumedAt ≠ none →
      ∃ r', st'.pending k = some (i, r') ∧ r'.consumedAt ≠ none) : stage.Retires st' i := by
  cases stage with
  | retiring call rows =>
    intro k c hk hlive
    rw [hc] at hk
    rcases h k c hk hlive with hin | ⟨r, hr, hconsumed⟩
    · exact .inl hin
    · exact .inr (hp k r hr hconsumed)
  | minted call row =>
    intro k c hk hlive
    rw [hc] at hk
    obtain ⟨r, hr, hconsumed⟩ := h k c hk hlive
    exact hp k r hr hconsumed
  | _ => trivial

namespace Serial

variable {s : State} {i : ℕ}

/-- A session that goes on within its call, the rows as they were. -/
theorem goto {stage : Stage} (h : Serial s) (hissuing : stage.issuing = (s.stage i).issuing)
    (hslot : stage.slot = (s.stage i).slot ∨ ∀ k r, s.store.pending k ≠ some (i, r))
    (hminted : ∀ call k, s.stage i = .minted call k → stage = s.stage i)
    (hretires : stage.Retires s.store i) : Serial (s.goto i s.store stage) where
  oneLive := h.oneLive
  locked j call hj := by
    by_cases hji : j = i
    · subst hji
      simp only [State.goto, Function.update_self, hissuing] at hj
      exact h.locked j call hj
    · simp only [State.goto, Function.update_of_ne hji] at hj
      exact h.locked j call hj
  slot k j r hp := by
    by_cases hji : j = i
    · subst hji
      simp only [State.goto, Function.update_self]
      rcases hslot with hslot | hnone
      · rw [hslot]
        exact h.slot k j r hp
      · exact absurd hp (hnone k r)
    · simp only [State.goto, Function.update_of_ne hji]
      exact h.slot k j r hp
  unborn k j r hp hc := by
    obtain ⟨call, hcall⟩ := h.unborn k j r hp hc
    by_cases hji : j = i
    · subst hji
      exact ⟨call, by simp [State.goto, hminted call k hcall, hcall]⟩
    · exact ⟨call, by simpa [State.goto, Function.update_of_ne hji] using hcall⟩
  retires j := by
    by_cases hji : j = i
    · subst hji
      simpa [State.goto] using hretires
    · simpa [State.goto, Function.update_of_ne hji] using h.retires j

/-- A session's write to a live challenge of its slot. -/
theorem write {stage : Stage} {k : ℕ} {r r' : Challenge} {w : Mark} (h : Serial s)
    (hfree : s.store.free i k = true) (hv : s.store.visible i k = some r)
    (hr' : (s.stage i).slot = some r'.slot) (hslot : stage.slot = (s.stage i).slot)
    (hissuing : stage.issuing = (s.stage i).issuing)
    (hnot : ∀ call m, s.stage i ≠ .minted call m)
    (hretires : stage.Retires (s.store.write i k r' w) i) :
    Serial (s.goto i (s.store.write i k r' w) stage) where
  oneLive := h.oneLive
  locked j call hj := by
    by_cases hji : j = i
    · subst hji
      simp only [State.goto, Function.update_self, hissuing] at hj
      exact h.locked j call hj
    · simp only [State.goto, Function.update_of_ne hji] at hj
      exact h.locked j call hj
  slot m j r₁ hp := by
    by_cases hji : j = i
    · subst hji
      simp only [State.goto, Function.update_self, hslot]
      rcases RowStore.write_pending_cases hp with ⟨-, -, rfl⟩ | ⟨-, hp⟩
      · exact hr'
      · exact h.slot m j r₁ hp
    · simp only [State.goto, Function.update_of_ne hji]
      rcases RowStore.write_pending_cases hp with ⟨-, rfl, -⟩ | ⟨-, hp⟩
      · exact absurd rfl hji
      · exact h.slot m j r₁ hp
  unborn m j r₁ hp hc := by
    rcases RowStore.write_pending_cases hp with ⟨rfl, rfl, rfl⟩ | ⟨-, hp⟩
    · rcases RowStore.visible_cases hv with hp | ⟨-, hc'⟩
      · obtain ⟨call, hcall⟩ := h.unborn m j r hp hc
        exact absurd hcall (hnot call m)
      · have hnone : s.store.committed m = none := hc
        rw [hnone] at hc'
        cases hc'
    · obtain ⟨call, hcall⟩ := h.unborn m j r₁ hp hc
      by_cases hji : j = i
      · subst hji
        exact absurd hcall (hnot call m)
      · exact ⟨call, by simpa [State.goto, Function.update_of_ne hji] using hcall⟩
  retires j := by
    by_cases hji : j = i
    · subst hji
      simpa [State.goto] using hretires
    · have hothers : (s.stage j).Retires (s.store.write i k r' w) j := by
        refine (h.retires j).congr rfl fun m r₁ hp hconsumed => ⟨r₁, ?_, hconsumed⟩
        have hmk : m ≠ k := by
          rintro rfl
          exact hji (RowStore.free_iff.mp hfree j r₁ hp)
        rw [RowStore.write_pending_ne hmk]
        exact hp
      simpa [State.goto, Function.update_of_ne hji] using hothers

/-- A live challenge behind a commit was live before it, or is the one the session minted. -/
theorem commit_live (h : Serial s) (hv : Versions s.store) {k : ℕ} {c : Challenge}
    (hc : (s.store.commit i).committed k = some c) (hlive : c.consumedAt = none) :
    (∃ c₀, s.store.committed k = some c₀ ∧ c₀.consumedAt = none ∧ c₀.slot = c.slot) ∨
      ∃ call, s.stage i = .minted call k ∧ call.slot = c.slot := by
  rcases RowStore.commit_committed_cases hc with hp | ⟨-, hc⟩
  · cases hold : s.store.committed k with
    | some c₀ => exact .inl ⟨c₀, rfl, hv.live k i c c₀ hp hold hlive, (hv.slot k i c c₀ hp hold).symm⟩
    | none =>
      obtain ⟨call, hcall⟩ := h.unborn k i c hp hold
      have hslot := h.slot k i c hp
      rw [hcall] at hslot
      exact .inr ⟨call, hcall, Option.some.inj hslot⟩
  · exact .inl ⟨c, hc, hlive, rfl⟩

/-- Behind the commit of an issue, the live challenges of its slot are its own. -/
theorem commit_minted (h : Serial s) {call : Issue} {row k : ℕ}
    (hat : s.stage i = .minted call row) {c c₀ : Challenge}
    (hc : (s.store.commit i).committed k = some c) (hlive : c.consumedAt = none)
    (hold : s.store.committed k = some c₀) (hlive₀ : c₀.consumedAt = none)
    (hslot : c₀.slot = call.slot) : False := by
  have hretired := h.retires i
  rw [hat] at hretired
  obtain ⟨r, hp, hconsumed⟩ := hretired k c₀ hold (liveIn_iff.mpr ⟨hslot, hlive₀⟩)
  rw [RowStore.commit_committed_of hp] at hc
  cases hc
  exact hconsumed hlive

theorem commit (h : Serial s) (hv : Versions s.store) {outcome : Option CodeOutcome}
    (hat : State.returned (s.stage i) = some outcome) :
    Serial { s.goto i (s.store.commit i) (.committed outcome) with lock := s.unlock i } where
  oneLive j k c d hj hk hcl hdl hslot := by
    rcases h.commit_live hv hj hcl with ⟨c₀, hc₀, hcl₀, hcs⟩ | ⟨call, hcall, hcs⟩
    · rcases h.commit_live hv hk hdl with ⟨d₀, hd₀, hdl₀, hds⟩ | ⟨call, hcall, hds⟩
      · exact h.oneLive j k c₀ d₀ hc₀ hd₀ hcl₀ hdl₀ (hcs.trans (hslot.trans hds.symm))
      · exact (h.commit_minted hcall hj hcl hc₀ hcl₀
          (hcs.trans (hslot.trans hds.symm))).elim
    · rcases h.commit_live hv hk hdl with ⟨d₀, hd₀, hdl₀, hds⟩ | ⟨call', hcall', -⟩
      · exact (h.commit_minted hcall hk hdl hd₀ hdl₀
          (hds.trans (hslot.symm.trans hcs.symm))).elim
      · rw [hcall] at hcall'
        injection hcall'
  locked j call hj := by
    by_cases hji : j = i
    · subst hji
      simp [State.goto, Stage.issuing] at hj
    · simp only [State.goto, Function.update_of_ne hji] at hj
      simp [State.unlock, h.locked j call hj, hji]
  slot k j r hp := by
    obtain ⟨hp, hji⟩ := RowStore.commit_pending_iff.mp hp
    simpa [State.goto, Function.update_of_ne hji] using h.slot k j r hp
  unborn k j r hp hc := by
    obtain ⟨hp, hji⟩ := RowStore.commit_pending_iff.mp hp
    have hnot : ∀ r', s.store.pending k ≠ some (i, r') := by
      intro r' hp'
      rw [hp] at hp'
      cases hp'
      exact hji rfl
    have hnone : (s.store.commit i).committed k = none := hc
    rw [RowStore.commit_committed_ne hnot] at hnone
    obtain ⟨call, hcall⟩ := h.unborn k j r hp hnone
    exact ⟨call, by simpa [State.goto, Function.update_of_ne hji] using hcall⟩
  retires j := by
    by_cases hji : j = i
    · subst hji
      simp [State.goto, Stage.Retires]
    simp only [State.goto, Function.update_of_ne hji]
    -- a live challenge of the slot was live before: who minted another would hold the lock
    have hbefore : ∀ call, (s.stage j).issuing = some call → ∀ k c,
        (s.store.commit i).committed k = some c → c.liveIn call.slot = true →
          ∃ c₀, s.store.committed k = some c₀ ∧ c₀.liveIn call.slot = true := by
      intro call hcall k c hc hlive
      obtain ⟨hslot, hnone⟩ := liveIn_iff.mp hlive
      rcases h.commit_live hv hc hnone with ⟨c₀, hc₀, hlive₀, hslot₀⟩ | ⟨call', hcall', hslot'⟩
      · exact ⟨c₀, hc₀, liveIn_iff.mpr ⟨hslot₀.trans hslot, hlive₀⟩⟩
      · have hmine := h.locked i call' (by rw [hcall']; rfl)
        have htheirs := h.locked j call hcall
        rw [hslot', hslot, htheirs] at hmine
        exact absurd (Option.some.inj hmine) hji
    have hkept : ∀ k r, s.store.pending k = some (j, r) →
        (s.store.commit i).pending k = some (j, r) :=
      fun k r hp => RowStore.commit_pending_iff.mpr ⟨hp, hji⟩
    have hretires := h.retires j
    cases hstage : s.stage j with
    | retiring call rows =>
      intro k c hc hlive
      rw [hstage] at hretires
      obtain ⟨c₀, hc₀, hlive₀⟩ := hbefore call (by rw [hstage]; rfl) k c hc hlive
      rcases hretires k c₀ hc₀ hlive₀ with hin | ⟨r, hp, hconsumed⟩
      · exact .inl hin
      · exact .inr ⟨r, hkept k r hp, hconsumed⟩
    | minted call row =>
      intro k c hc hlive
      rw [hstage] at hretires
      obtain ⟨c₀, hc₀, hlive₀⟩ := hbefore call (by rw [hstage]; rfl) k c hc hlive
      obtain ⟨r, hp, hconsumed⟩ := hretires k c₀ hc₀ hlive₀
      exact ⟨r, hkept k r hp, hconsumed⟩
    | _ => trivial

theorem rollback (h : Serial s) :
    Serial { s.goto i (s.store.rollback i) .rolledBack with lock := s.unlock i } where
  oneLive := h.oneLive
  locked j call hj := by
    by_cases hji : j = i
    · subst hji
      simp [State.goto, Stage.issuing] at hj
    · simp only [State.goto, Function.update_of_ne hji] at hj
      simp [State.unlock, h.locked j call hj, hji]
  slot k j r hp := by
    obtain ⟨hp, hji⟩ := RowStore.rollback_pending_iff.mp hp
    simpa [State.goto, Function.update_of_ne hji] using h.slot k j r hp
  unborn k j r hp hc := by
    obtain ⟨hp, hji⟩ := RowStore.rollback_pending_iff.mp hp
    obtain ⟨call, hcall⟩ := h.unborn k j r hp hc
    exact ⟨call, by simpa [State.goto, Function.update_of_ne hji] using hcall⟩
  retires j := by
    by_cases hji : j = i
    · subst hji
      simp [State.goto, Stage.Retires]
    · have hothers : (s.stage j).Retires (s.store.rollback i) j :=
        (h.retires j).congr rfl fun k r hp hconsumed =>
          ⟨r, RowStore.rollback_pending_iff.mpr ⟨hp, hji⟩, hconsumed⟩
      simpa [State.goto, Function.update_of_ne hji] using hothers

theorem lock {call : Issue} (h : Serial s) (hat : s.stage i = .locking call)
    (hfree : ∀ j, s.lock call.slot.lockKey = some j → j = i) :
    Serial { s with
      lock := Function.update s.lock call.slot.lockKey (some i)
      stage := Function.update s.stage i (.toRetire call) } where
  oneLive := h.oneLive
  locked j other hj := by
    by_cases hji : j = i
    · subst hji
      simp only [Function.update_self, Stage.issuing, Option.some.injEq] at hj
      simp [← hj]
    · simp only [Function.update_of_ne hji] at hj
      have hmine := h.locked j other hj
      by_cases hkey : other.slot.lockKey = call.slot.lockKey
      · rw [hkey] at hmine
        exact absurd (hfree j hmine) hji
      · simpa [Function.update_of_ne hkey] using hmine
  slot k j r hp := by
    by_cases hji : j = i
    · subst hji
      have hslot := h.slot k j r hp
      rw [hat] at hslot
      simpa [Stage.slot] using hslot
    · simpa [Function.update_of_ne hji] using h.slot k j r hp
  unborn k j r hp hc := by
    obtain ⟨other, hother⟩ := h.unborn k j r hp hc
    have hji : j ≠ i := by
      rintro rfl
      rw [hat] at hother
      cases hother
    exact ⟨other, by simpa [Function.update_of_ne hji] using hother⟩
  retires j := by
    by_cases hji : j = i
    · subst hji
      simp [Stage.Retires]
    · simpa [Function.update_of_ne hji] using h.retires j

theorem mint {call : Issue} (h : Serial s) (hv : Versions s.store)
    (hat : s.stage i = .retiring call []) :
    Serial (s.goto i (s.store.insert i call.challenge) (.minted call s.store.size)) where
  oneLive := h.oneLive
  locked j other hj := by
    by_cases hji : j = i
    · subst hji
      simp only [State.goto, Function.update_self] at hj
      exact h.locked j other (by rw [hat]; exact hj)
    · simp only [State.goto, Function.update_of_ne hji] at hj
      exact h.locked j other hj
  slot k j r hp := by
    by_cases hji : j = i
    · subst hji
      simp only [State.goto, Function.update_self]
      rcases RowStore.insert_pending_cases hp with ⟨-, -, rfl⟩ | ⟨-, hp⟩
      · rfl
      · have hslot := h.slot k j r hp
        rw [hat] at hslot
        exact hslot
    · simp only [State.goto, Function.update_of_ne hji]
      rcases RowStore.insert_pending_cases hp with ⟨-, rfl, -⟩ | ⟨-, hp⟩
      · exact absurd rfl hji
      · exact h.slot k j r hp
  unborn k j r hp hc := by
    rcases RowStore.insert_pending_cases hp with ⟨rfl, rfl, -⟩ | ⟨-, hp⟩
    · exact ⟨call, by simp [State.goto]⟩
    · obtain ⟨other, hother⟩ := h.unborn k j r hp hc
      have hji : j ≠ i := by
        rintro rfl
        rw [hat] at hother
        cases hother
      exact ⟨other, by simpa [State.goto, Function.update_of_ne hji] using hother⟩
  retires j := by
    have hkept : ∀ k r, s.store.pending k = some (j, r) →
        (s.store.insert i call.challenge).pending k = some (j, r) := by
      intro k r hp
      rw [RowStore.insert_pending_ne (hv.pending_lt_size hp).ne]
      exact hp
    by_cases hji : j = i
    · subst hji
      simp only [State.goto, Function.update_self]
      intro k c hc hlive
      have hretired := h.retires j
      rw [hat] at hretired
      obtain ⟨r, hp, hconsumed⟩ := (hretired k c hc hlive).resolve_left List.not_mem_nil
      exact ⟨r, hkept k r hp, hconsumed⟩
    · have hothers : (s.stage j).Retires (s.store.insert i call.challenge) j :=
        (h.retires j).congr rfl fun k r hp hconsumed => ⟨r, hkept k r hp, hconsumed⟩
      simpa [State.goto, Function.update_of_ne hji] using hothers

end Serial

/-- A session that has written nothing yet. -/
def Stage.clean : Stage → Bool
  | .unbegun | .locking _ | .toRetire _ | .toAccept _ | .accepting _ _ false | .toCharge _ => true
  | .committed _ | .rolledBack => true
  | _ => false

def Clean (s : State) : Prop :=
  ∀ i, (s.stage i).clean = true → ∀ k r, s.store.pending k ≠ some (i, r)

theorem Clean.goto {s : State} {i : ℕ} {store : RowStore Challenge Mark} {stage : Stage}
    (h : Clean s) (hothers : ∀ j k r, j ≠ i → store.pending k = some (j, r) →
      ∃ k r, s.store.pending k = some (j, r))
    (hown : stage.clean = true → ∀ k r, store.pending k ≠ some (i, r)) :
    Clean (s.goto i store stage) := by
  intro j hclean k r hp
  by_cases hji : j = i
  · subst hji
    simp only [State.goto, Function.update_self] at hclean
    exact hown hclean k r hp
  · simp only [State.goto, Function.update_of_ne hji] at hclean
    obtain ⟨k', r', hp'⟩ := hothers j k r hji hp
    exact h j hclean k' r' hp'

theorem Move.clean {s s' : State} {i : ℕ} (h : Clean s) (hm : Move s i s') : Clean s' := by
  have hwrite : ∀ {k : ℕ} {c : Challenge} {w : Mark} {j m : ℕ} {r : Challenge}, j ≠ i →
      (s.store.write i k c w).pending m = some (j, r) →
      ∃ k r, s.store.pending k = some (j, r) := by
    intro k c w j m r hji hp
    rcases RowStore.write_pending_cases hp with ⟨-, rfl, -⟩ | ⟨-, hp⟩
    · exact absurd rfl hji
    · exact ⟨m, r, hp⟩
  cases hm
  case lock call hat hfree =>
    have hgo : Clean (s.goto i s.store (.toRetire call)) :=
      h.goto (fun j k r _ hp => ⟨k, r, hp⟩) fun _ => h i (by rw [hat]; rfl)
    exact hgo
  case begin stage hat hto => exact h.goto (fun j k r _ hp => ⟨k, r, hp⟩) fun _ => h i (by rw [hat]; rfl)
  case compare guess hat =>
    have hgo : Clean (s.goto i s.store (.accepting guess (s.store.found i guess.accepts) false)) :=
      h.goto (fun j k r _ hp => ⟨k, r, hp⟩) fun _ => h i (by rw [hat]; rfl)
    exact hgo
  case acceptNone guess k rows hit hat =>
    refine h.goto (fun j k r _ hp => ⟨k, r, hp⟩) fun hclean => h i ?_
    rw [hat]
    cases hit with
    | false => rfl
    | true => exact hclean
  case missed guess hat => exact h.goto (fun j k r _ hp => ⟨k, r, hp⟩) fun _ => h i (by rw [hat]; rfl)
  case retire => exact h.goto (fun j k r hji hp => hwrite hji hp) nofun
  case accept => exact h.goto (fun j k r hji hp => hwrite hji hp) nofun
  case charge => exact h.goto (fun j k r hji hp => hwrite hji hp) nofun
  case mint call hat =>
    refine h.goto (fun j k r hji hp => ?_) nofun
    rcases RowStore.insert_pending_cases hp with ⟨-, rfl, -⟩ | ⟨-, hp⟩
    · exact absurd rfl hji
    · exact ⟨k, r, hp⟩
  case commit outcome hat =>
    have hgo : Clean (s.goto i (s.store.commit i) (.committed outcome)) :=
      h.goto (fun j k r _ hp => ⟨k, r, (RowStore.commit_pending_iff.mp hp).1⟩)
        fun _ k r hp => (RowStore.commit_pending_iff.mp hp).2 rfl
    exact hgo
  case rollback hat =>
    have hgo : Clean (s.goto i (s.store.rollback i) .rolledBack) :=
      h.goto (fun j k r _ hp => ⟨k, r, (RowStore.rollback_pending_iff.mp hp).1⟩)
        fun _ k r hp => (RowStore.rollback_pending_iff.mp hp).2 rfl
    exact hgo
  all_goals exact h.goto (fun j k r _ hp => ⟨k, r, hp⟩) nofun

/-- The rows a retiring statement finds are all the live ones of the slot. -/
theorem retires_found {s : State} {i : ℕ} (hv : Versions s.store)
    (hclean : ∀ k r, s.store.pending k ≠ some (i, r)) (call : Issue) :
    (Stage.retiring call (s.store.found i (Challenge.liveIn call.slot))).Retires s.store i := by
  intro k c hc hlive
  refine .inl (RowStore.mem_found.mpr ⟨hv.lt_size hc, c, ?_, hlive⟩)
  rw [RowStore.visible_of_not_held (hclean k)]
  exact hc

theorem Move.serial {s s' : State} {i : ℕ} (hv : Versions s.store) (hclean : Clean s)
    (h : Serial s) (hm : Move s i s') : Serial s' := by
  cases hm
  case begin stage hat hto =>
    have hnone := hclean i (by rw [hat]; rfl)
    rcases hto with ⟨call, rfl⟩ | ⟨guess, rfl⟩ <;>
      exact h.goto (by rw [hat]; rfl) (.inr hnone) (by simp [hat]) trivial
  case lock call hat hfree => exact h.lock hat hfree
  case find call hat =>
    exact h.goto (by rw [hat]; rfl) (.inl (by rw [hat]; rfl)) (by simp [hat])
      (retires_found hv (hclean i (by rw [hat]; rfl)) call)
  case retire call k rows c hat hfree hvis hlive =>
    have hslot := (liveIn_iff.mp hlive).1
    refine h.write hfree hvis (by rw [hat]; exact congrArg some hslot.symm) (by rw [hat]; rfl)
      (by rw [hat]; rfl) (by simp [hat]) fun m d hd hdlive => ?_
    by_cases hmk : m = k
    · subst hmk
      exact .inr ⟨_, RowStore.write_pending_self, nofun⟩
    · have hretires := h.retires i
      rw [hat] at hretires
      rw [RowStore.write_pending_ne hmk]
      rcases hretires m d hd hdlive with hin | hheld
      · exact .inl (List.mem_of_ne_of_mem hmk hin)
      · exact .inr hheld
  case retireNone call k rows hat hnone =>
    refine h.goto (by rw [hat]; rfl) (.inl (by rw [hat]; rfl)) (by simp [hat])
      fun m d hd hdlive => ?_
    have hretires := h.retires i
    rw [hat] at hretires
    rcases hretires m d hd hdlive with hin | hheld
    · rcases List.mem_cons.mp hin with rfl | hin
      · -- the row is skipped, so the version the session sees is its own, retired one
        by_cases hown : ∃ r, s.store.pending m = some (i, r)
        · obtain ⟨r, hp⟩ := hown
          refine .inr ⟨r, hp, fun hlive => ?_⟩
          have hskip := hnone r (RowStore.visible_of_pending hp)
          have hslot := hv.slot m i r d hp hd
          rw [liveIn_iff.mpr ⟨hslot.trans (liveIn_iff.mp hdlive).1, hlive⟩] at hskip
          cases hskip
        · have hskip := hnone d (by
            rw [RowStore.visible_of_not_held fun r hr => hown ⟨r, hr⟩]
            exact hd)
          rw [hdlive] at hskip
          cases hskip
      · exact .inl hin
    · exact .inr hheld
  case mint call hat => exact h.mint hv hat
  case compare guess hat =>
    have hgo : Serial (s.goto i s.store (.accepting guess (s.store.found i guess.accepts) false)) :=
      h.goto (by rw [hat]; rfl) (.inl (by rw [hat]; rfl)) (by simp [hat]) trivial
    exact { hgo with }
  case accept guess k rows hit c hat hfree hvis hlive =>
    have hslot := (liveIn_iff.mp (Guess.live_of_open (Guess.open_of_accepts hlive))).1
    exact h.write hfree hvis (by rw [hat]; exact congrArg some hslot.symm) (by rw [hat]; rfl)
      (by rw [hat]; rfl) (by simp [hat]) trivial
  case charge guess k rows expired expired' c hat hfree hvis hlive =>
    have hslot := (liveIn_iff.mp hlive).1
    exact h.write hfree hvis (by rw [hat]; exact congrArg some hslot.symm) (by rw [hat]; rfl)
      (by rw [hat]; rfl) (by simp [hat]) trivial
  case commit outcome hat => exact h.commit hv hat
  case rollback hat => exact h.rollback
  case acceptNone guess k rows hit hat =>
    exact h.goto (by rw [hat]; rfl) (.inl (by rw [hat]; rfl)) (by simp [hat]) trivial
  case accepted guess hat =>
    exact h.goto (by rw [hat]; rfl) (.inl (by rw [hat]; rfl)) (by simp [hat]) trivial
  case missed guess hat =>
    exact h.goto (by rw [hat]; rfl) (.inl (by rw [hat]; rfl)) (by simp [hat]) trivial
  case findCharged guess hat =>
    exact h.goto (by rw [hat]; rfl) (.inl (by rw [hat]; rfl)) (by simp [hat]) trivial
  case chargeNone guess k rows expired expired' hat hnone =>
    exact h.goto (by rw [hat]; rfl) (.inl (by rw [hat]; rfl)) (by simp [hat]) trivial
  case refused guess expired outcome hat hno =>
    exact h.goto (by rw [hat]; rfl) (.inl (by rw [hat]; rfl)) (by simp [hat]) trivial

end Authn

end Calevate
