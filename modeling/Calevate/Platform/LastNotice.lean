import Calevate.Platform.WindowNotices

/-!
# What the last notice tells

One claim queues one notice per client, whatever the order of the statements. That the notice
queued last tells the window as it is takes more: the tick that claims it must have read the
window as it still is, and an amendment must have judged what clients can see on the row it
writes. In the runs where both hold, no change of an announced window goes unannounced.
-/

namespace Calevate

namespace Platform

open Lib

namespace Notices

/-- A notice that tells of the window before it begins. -/
def Notice.about (n : Notice) (windowId : ℕ) : Bool :=
  n.windowId = windowId ∧ n.kind.announces = true

/-- The advance or amended notice of a window that was queued last. -/
def lastNotice (outbox : List Notice) (windowId : ℕ) : Option Notice :=
  (outbox.filter (Notice.about · windowId)).getLast?

/-- No tick is between its claim and its commit: then the last notice of an announced window that
owes none tells the window as it is. -/
def LastDescribes (s : State) : Prop :=
  (∀ i, (s.stage i).midClaim = false) → ∀ k w, s.store.committed k = some w → w.open = true →
    w.announced = true → w.amendedNoticeAt ≠ none →
      ∃ n, lastNotice s.outbox k = some n ∧ n.told = w.told

/-- Between the two states, an announced window became another to its clients. -/
def Retold (s s' : State) (k : ℕ) : Prop :=
  ∃ w w', s.store.committed k = some w ∧ s'.store.committed k = some w' ∧ w.announced = true ∧
    w'.told ≠ w.told

/-- A notice of the window is owed, or one was queued behind the first `length` of them. -/
def Announced (s : State) (k length : ℕ) : Prop :=
  ∀ w, s.store.committed k = some w →
    w.amendedNoticeAt = none ∨ ∃ n ∈ s.outbox.drop length, Notice.about n k = true

/-- A tick that claims a notice has read what the row still tells, and finds a client to tell it
to; an amendment that changes what the row tells has counted that as visible. -/
def FreshAt (s : State) (i : ℕ) : Prop :=
  match s.stage i with
  | .claiming tick kind => kind.announces = true → s.store.free i tick.windowId = true →
      ∀ w, s.store.visible i tick.windowId = some w → w.stamp kind = none →
        w.told = tick.window.told
  | .claimed _ kind => kind.announces = true → s.clients ≠ []
  | .amending call seen => s.store.free i call.windowId = true →
      ∀ w, s.store.visible i call.windowId = some w → w.state = seen.state →
        call.clientVisible seen = true ∨ call.retold w.told = w.told
  | _ => True

def Fresh (s : State) : Action → Prop
  | .advance i _ => FreshAt s i
  | _ => True

/-! ## What a session leaves of the row it holds -/

/-- What an amendment, or nothing at all, makes of a window. -/
structure Amended (w w' : MaintenanceWindow) : Prop where
  advance : w'.advanceNoticeAt = w.advanceNoticeAt
  amended : w'.amendedNoticeAt = none ∨ w'.amendedNoticeAt = w.amendedNoticeAt
  retold : w.announced = true → w'.told ≠ w.told → w'.amendedNoticeAt = none

theorem Moved.amended' {w w' : MaintenanceWindow} (h : Moved w w') : Amended w w' where
  advance := h.advance
  amended := .inr h.amended
  retold := fun _ hne => absurd h.told hne

/-- A claim of an announcing kind tells what the row tells; another changes nothing of that. -/
structure Claimed (tick : Tick) (kind : NoticeKind) (w w' : MaintenanceWindow) : Prop where
  told : w'.told = w.told
  fresh : kind.announces = true → w.told = tick.window.told
  moved : kind.announces = false → Moved w w'

/-- What the version a session holds is to the committed one. -/
def Stage.Behind : Stage → ℕ → MaintenanceWindow → MaintenanceWindow → Prop
  | .claiming tick _, k, w, w' => k = tick.windowId ∧ Moved w w'
  | .claimed tick kind, k, w, w' => k = tick.windowId ∧ Claimed tick kind w w'
  | .sent tick kind tenants, k, w, w' => k = tick.windowId ∧ Claimed tick kind w w' ∧
      (kind.announces = true → tenants ≠ [])
  | .lost _ _, _, w, w' => Moved w w'
  | .moved _, _, w, w' => Moved w w'
  | .written, _, w, w' => Amended w w'
  | _, _, _, _ => False

/-- The window whose row a tick has claimed a notice of. -/
def Stage.claimOf : Stage → Option ℕ
  | .claimed tick _ | .sent tick _ _ => some tick.windowId
  | _ => none

structure Sound (s : State) : Prop where
  bounded : ∀ k w, s.store.committed k = some w → k < s.store.size
  behind : ∀ k i w', s.store.pending k = some (i, w') →
    ∃ w, s.store.committed k = some w ∧ (s.stage i).Behind k w w'
  held : ∀ i k, (s.stage i).claimOf = some k → ∃ w', s.store.pending k = some (i, w')

theorem sound_start : Sound start where
  bounded := fun _ _ h => nomatch h
  behind := fun _ _ _ h => nomatch h
  held := fun _ _ h => nomatch h

theorem quiet_not_behind {stage : Stage} {k : ℕ} {w w' : MaintenanceWindow}
    (hq : stage.quiet = true) : ¬ stage.Behind k w w' := by
  cases stage <;> first | exact id | cases hq

theorem quiet_claimOf {stage : Stage} (hq : stage.quiet = true) : stage.claimOf = none := by
  cases stage <;> first | rfl | cases hq

theorem claimOf_of_midClaim {stage : Stage} (hm : stage.midClaim = false) :
    stage.claimOf = none := by
  cases stage <;> first | rfl | cases hm

namespace Sound

variable {s : State} {i k : ℕ}

/-- A session at a quiet stage holds no row. -/
theorem not_held (h : Sound s) (hq : (s.stage i).quiet = true) (k : ℕ) (w' : MaintenanceWindow) :
    s.store.pending k ≠ some (i, w') := by
  intro hp
  obtain ⟨w, -, hb⟩ := h.behind k i w' hp
  exact quiet_not_behind hq hb

/-- The version a session sees is the committed one or one it left there. -/
theorem visible {w' : MaintenanceWindow} (h : Sound s) (hv : s.store.visible i k = some w') :
    ∃ w, s.store.committed k = some w ∧ (w' = w ∨ (s.stage i).Behind k w w') := by
  rcases RowStore.visible_cases hv with hp | ⟨-, hc⟩
  · obtain ⟨w, hw, hb⟩ := h.behind k i w' hp
    exact ⟨w, hw, .inr hb⟩
  · exact ⟨w', hc, .inl rfl⟩

/-- A session goes on without a write. -/
theorem goto {stage : Stage} (h : Sound s)
    (hb : ∀ k w w', s.store.committed k = some w → (s.stage i).Behind k w w' → stage.Behind k w w')
    (hheld : ∀ k, stage.claimOf = some k → ∃ w', s.store.pending k = some (i, w')) :
    Sound (s.goto i s.store stage) where
  bounded := h.bounded
  behind := fun k j w' hp => by
    obtain ⟨w, hw, hbehind⟩ := h.behind k j w' hp
    refine ⟨w, hw, ?_⟩
    by_cases hji : j = i
    · subst hji
      rw [State.goto_stage_self]
      exact hb k w w' hw hbehind
    · rw [State.goto_stage_of_ne s hji]
      exact hbehind
  held := fun j k hj => by
    by_cases hji : j = i
    · subst hji
      rw [State.goto_stage_self] at hj
      exact hheld k hj
    · rw [State.goto_stage_of_ne s hji] at hj
      exact h.held j k hj

/-- A session writes one row and goes on. -/
theorem write {stage : Stage} {w w' : MaintenanceWindow} (h : Sound s)
    (hfree : s.store.free i k = true) (hw : s.store.committed k = some w)
    (hnew : stage.Behind k w w')
    (hothers : ∀ m v v', m ≠ k → (s.stage i).Behind m v v' → stage.Behind m v v')
    (hclaim : ∀ m, stage.claimOf = some m → m = k) :
    Sound (s.goto i (s.store.write i k w' ()) stage) where
  bounded := h.bounded
  behind := fun m j v' hp => by
    rcases RowStore.write_pending_cases hp with ⟨rfl, rfl, rfl⟩ | ⟨hmk, hp⟩
    · refine ⟨w, hw, ?_⟩
      rw [State.goto_stage_self]
      exact hnew
    · obtain ⟨v, hv, hb⟩ := h.behind m j v' hp
      refine ⟨v, hv, ?_⟩
      by_cases hji : j = i
      · subst hji
        rw [State.goto_stage_self]
        exact hothers m v v' hmk hb
      · rw [State.goto_stage_of_ne s hji]
        exact hb
  held := fun j m hj => by
    by_cases hji : j = i
    · subst hji
      rw [State.goto_stage_self] at hj
      rw [hclaim m hj]
      exact ⟨w', RowStore.write_pending_self⟩
    · rw [State.goto_stage_of_ne s hji] at hj
      obtain ⟨v', hv'⟩ := h.held j m hj
      exact ⟨v', (RowStore.write_pending_other hfree hji).mpr hv'⟩

/-- A session lets go of its rows, having made them everybody's or not. -/
theorem letGo {store : RowStore MaintenanceWindow Unit} {stage : Stage} (h : Sound s)
    (hq : stage.quiet = true) (hsize : store.size = s.store.size)
    (hpending : ∀ k j w, store.pending k = some (j, w) ↔
      s.store.pending k = some (j, w) ∧ j ≠ i)
    (hcommitted : ∀ k j w, s.store.pending k = some (j, w) → j ≠ i →
      store.committed k = s.store.committed k)
    (hbounded : ∀ k w, store.committed k = some w → ∃ w', s.store.committed k = some w') :
    Sound (s.goto i store stage) where
  bounded := fun k w hw => by
    obtain ⟨w', hw'⟩ := hbounded k w hw
    exact (h.bounded k w' hw').trans_eq hsize.symm
  behind := fun k j w' hp => by
    obtain ⟨hp, hji⟩ := (hpending k j w').mp hp
    obtain ⟨w, hw, hb⟩ := h.behind k j w' hp
    refine ⟨w, (hcommitted k j w' hp hji).trans hw, ?_⟩
    rw [State.goto_stage_of_ne s hji]
    exact hb
  held := fun j k hj => by
    by_cases hji : j = i
    · subst hji
      rw [State.goto_stage_self] at hj
      rw [quiet_claimOf hq] at hj
      cases hj
    · rw [State.goto_stage_of_ne s hji] at hj
      obtain ⟨w', hw'⟩ := h.held j k hj
      exact ⟨w', (hpending k j w').mpr ⟨hw', hji⟩⟩

theorem commit {stage : Stage} (h : Sound s) (hq : stage.quiet = true) :
    Sound (s.goto i (s.store.commit i) stage) := by
  refine h.letGo hq rfl (fun _ _ _ => RowStore.commit_pending_iff) ?_ ?_
  · intro k j w hp hji
    refine RowStore.commit_committed_ne fun r hr => hji ?_
    rw [hp] at hr
    exact congrArg Prod.fst (Option.some.inj hr)
  · intro k w hw
    rcases RowStore.commit_committed_cases hw with hp | ⟨-, hc⟩
    · obtain ⟨w', hw', -⟩ := h.behind k i w hp
      exact ⟨w', hw'⟩
    · exact ⟨w, hc⟩

theorem rollback {stage : Stage} (h : Sound s) (hq : stage.quiet = true) :
    Sound (s.goto i (s.store.rollback i) stage) :=
  h.letGo hq rfl (fun _ _ _ => RowStore.rollback_pending_iff) (fun _ _ _ _ _ => rfl)
    fun _ w hw => ⟨w, hw⟩

/-- Behind a scheduled window: the new row, and the others as they were. -/
theorem scheduled_committed (h : Sound s) (hat : s.stage i = .idle) (w : MaintenanceWindow) :
    ((s.store.insert i w).commit i).committed s.store.size = some w ∧
      ∀ k, k ≠ s.store.size →
        ((s.store.insert i w).commit i).committed k = s.store.committed k := by
  refine ⟨RowStore.commit_committed_of RowStore.insert_pending_self, fun k hk => ?_⟩
  rw [RowStore.commit_committed_ne, RowStore.insert_committed]
  intro r hr
  rw [RowStore.insert_pending_ne hk] at hr
  exact h.not_held (by rw [hat]; rfl) k r hr

theorem schedule (h : Sound s) (hat : s.stage i = .idle) (w : MaintenanceWindow) :
    Sound { s with store := (s.store.insert i w).commit i } := by
  obtain ⟨hself, hrest⟩ := h.scheduled_committed hat w
  have hpending : ∀ k j r, ((s.store.insert i w).commit i).pending k = some (j, r) ↔
      s.store.pending k = some (j, r) := by
    intro k j r
    rw [RowStore.commit_pending_iff]
    constructor
    · rintro ⟨hp, hji⟩
      rcases RowStore.insert_pending_cases hp with ⟨-, rfl, -⟩ | ⟨-, hp⟩
      · exact absurd rfl hji
      · exact hp
    · intro hp
      obtain ⟨v, hv, hb⟩ := h.behind k j r hp
      have hk : k ≠ s.store.size := (h.bounded k v hv).ne
      refine ⟨(RowStore.insert_pending_ne hk).trans hp, ?_⟩
      rintro rfl
      exact h.not_held (by rw [hat]; rfl) k r hp
  constructor
  · intro k v hv
    by_cases hk : k = s.store.size
    · rw [hk]
      exact Nat.lt_succ_self _
    · exact Nat.lt_succ_of_lt (h.bounded k v ((hrest k hk).symm.trans hv))
  · intro k j r hp
    obtain ⟨v, hv, hb⟩ := h.behind k j r ((hpending k j r).mp hp)
    exact ⟨v, (hrest k (h.bounded k v hv).ne).trans hv, hb⟩
  · intro j k hj
    obtain ⟨r, hr⟩ := h.held j k hj
    exact ⟨r, (hpending k j r).mpr hr⟩

end Sound

theorem claim_told (kind : NoticeKind) (now : ℕ) (w : MaintenanceWindow) :
    (w.claim kind now).told = w.told := by
  cases kind <;> rfl

theorem claim_moved {kind : NoticeKind} (hk : kind.announces = false) (now : ℕ)
    (w : MaintenanceWindow) : Moved w (w.claim kind now) := by
  cases kind
  case advance => cases hk
  case amended => cases hk
  case active => exact ⟨rfl, rfl, rfl⟩
  case ended => exact ⟨rfl, rfl, rfl⟩

/-- What an amendment makes of the row it writes, if what it changes counts as visible. -/
theorem apply_amended {call : Amendment} {seen w : MaintenanceWindow}
    (hvisible : call.clientVisible seen = true ∨ call.retold w.told = w.told) :
    Amended w (call.apply (call.clientVisible seen) w) where
  advance := rfl
  amended := by
    simp only [Amendment.apply]
    split
    · exact .inl rfl
    · exact .inr rfl
  retold := fun hann hne => by
    have hcounted := hvisible.resolve_right hne
    simp [Amendment.apply, hcounted, hann]

/-- A fresh statement keeps the rows and the sessions in step. -/
theorem Turn.sound {s s' : State} {i : ℕ} (ht : Turn s i s') (h : Sound s)
    (hfresh : (s'.stage i).quiet = false → FreshAt s i) : Sound s' := by
  cases ht with
  | @goes stage hat hto =>
    refine h.goto (fun k w w' _ hb => absurd hb (quiet_not_behind hat)) fun k hk => ?_
    rw [claimOf_of_midClaim hto] at hk
    cases hk
  | @moves tick v w' next hat hfree hv hmoved hnext =>
    have hquiet : (s.stage i).quiet = true := by rw [hat]; rfl
    obtain ⟨w, hw, rfl | hb⟩ := h.visible hv
    · rcases hnext with rfl | ⟨kind, rfl⟩
      · exact h.write hfree hw hmoved (fun m v v' _ hb => absurd hb (quiet_not_behind hquiet)) nofun
      · exact h.write hfree hw ⟨rfl, hmoved⟩
          (fun m v v' _ hb => absurd hb (quiet_not_behind hquiet)) nofun
    · exact absurd hb (quiet_not_behind hquiet)
  | @claims tick kind v now hat hfree hv hstamp =>
    have hfresh := hfresh (by rw [State.goto_stage_self]; rfl)
    rw [FreshAt, hat] at hfresh
    obtain ⟨w, hw, hvw⟩ := h.visible hv
    -- the version it sees is the committed one, or the one its own transition left
    have hmoved : Moved w v := by
      rcases hvw with rfl | hb
      · exact ⟨rfl, rfl, rfl⟩
      · rw [hat] at hb
        exact hb.2
    refine h.write hfree hw ⟨rfl, ?_, ?_, ?_⟩ ?_ ?_
    · exact (claim_told kind now v).trans hmoved.told
    · exact fun hann => hmoved.told.symm.trans (hfresh hann hfree v hv hstamp)
    · exact fun hno => hmoved.trans (claim_moved hno now v)
    · intro m u u' hne hb
      rw [hat] at hb
      exact absurd hb.1 hne
    · intro m hm
      exact (Option.some.inj hm).symm
  | @loses tick kind hat =>
    refine h.goto (fun k w w' _ hb => ?_) nofun
    rw [hat] at hb
    exact hb.2
  | @enqueues tick kind hat =>
    have hfresh := hfresh (by rw [State.goto_stage_self]; rfl)
    rw [FreshAt, hat] at hfresh
    refine h.goto (fun k w w' _ hb => ?_) fun k hk => ?_
    · rw [hat] at hb
      exact ⟨hb.1, hb.2, hfresh⟩
    · refine h.held i k ?_
      rw [hat]
      exact hk
  | @amends call seen v hat hfree hv hstate =>
    have hfresh := hfresh (by rw [State.goto_stage_self]; rfl)
    rw [FreshAt, hat] at hfresh
    have hquiet : (s.stage i).quiet = true := by rw [hat]; rfl
    obtain ⟨w, hw, rfl | hb⟩ := h.visible hv
    · exact h.write hfree hw (apply_amended (hfresh hfree _ hv hstate))
        (fun m v v' _ hb => absurd hb (quiet_not_behind hquiet)) nofun
    · exact absurd hb (quiet_not_behind hquiet)
  | @cancels windowId now v hat hfree hv =>
    obtain ⟨w, hw, rfl | hb⟩ := h.visible hv
    · exact h.write hfree hw (Moved.amended' ⟨rfl, rfl, rfl⟩)
        (fun m v v' _ hb => absurd hb (quiet_not_behind hat)) nofun
    · exact absurd hb (quiet_not_behind hat)
  | @sends tick kind tenants hat =>
    have hgo : Sound (s.goto i (s.store.commit i) (State.afterFanOut tick kind)) :=
      h.commit (quiet_afterFanOut tick kind)
    exact { hgo with }
  | commits hat hto => exact h.commit hto
  | fails => exact h.rollback rfl
  | schedules hat => exact h.schedule hat _

/-! ## What a step makes of the committed rows -/

/-- What a step that queues `ns` makes of the row of window `k`. -/
inductive Change (k : ℕ) (ns : List Notice) : Option MaintenanceWindow → MaintenanceWindow → Prop
  | scheduled {old : Option MaintenanceWindow} {w' : MaintenanceWindow}
      (hns : ns = []) (hann : w'.announced = false) (ham : w'.amendedNoticeAt = none) :
      Change k ns old w'
  | amended {w w' : MaintenanceWindow} (hns : ∀ n ∈ ns, Notice.about n k = false)
      (h : Amended w w') : Change k ns (some w) w'
  | announced {w w' : MaintenanceWindow} (hne : ns ≠ [])
      (hns : ∀ n ∈ ns, Notice.about n k = true ∧ n.told = w'.told) (htold : w'.told = w.told) :
      Change k ns (some w) w'

theorem Amended.refl (w : MaintenanceWindow) : Amended w w := Moved.amended' ⟨rfl, rfl, rfl⟩

theorem Change.kept {k : ℕ} {ns : List Notice} {old : Option MaintenanceWindow}
    {w : MaintenanceWindow} (hns : ∀ n ∈ ns, Notice.about n k = false) (hold : old = some w) :
    Change k ns old w := by
  rw [hold]
  exact .amended hns (Amended.refl w)

/-- What a commit makes of a row: the version the session left, or nothing. -/
theorem Sound.commit_change {s : State} {i k : ℕ} {ns : List Notice} {w' : MaintenanceWindow}
    (h : Sound s) (hc : (s.store.commit i).committed k = some w')
    (hleft : ∀ w, (s.stage i).Behind k w w' → Change k ns (some w) w')
    (hns : (∀ w, s.store.pending k ≠ some (i, w)) → ∀ n ∈ ns, Notice.about n k = false) :
    Change k ns (s.store.committed k) w' := by
  rcases RowStore.commit_committed_cases hc with hp | ⟨hno, hc⟩
  · obtain ⟨w, hw, hb⟩ := h.behind k i w' hp
    rw [hw]
    exact hleft w hb
  · exact .kept (hns hno) hc

/-- The notices of one fan-out are about its window, if they are of an announcing kind. -/
theorem about_of_fanOut {tick : Tick} {kind : NoticeKind} {tenants : List ℕ} {n : Notice}
    (hn : n ∈ tenants.map fun t => (⟨t, kind, tick.windowId, tick.window.told⟩ : Notice)) (k : ℕ) :
    Notice.about n k = (decide (tick.windowId = k) && kind.announces) ∧ n.told = tick.window.told := by
  obtain ⟨t, -, rfl⟩ := List.mem_map.mp hn
  exact ⟨by simp [Notice.about], rfl⟩

theorem Turn.change {s s' : State} {i : ℕ} (ht : Turn s i s') (h : Sound s) :
    ∃ ns, s'.outbox = s.outbox ++ ns ∧ ∀ k w', s'.store.committed k = some w' →
      Change k ns (s.store.committed k) w' := by
  have hnone : ∀ k, ∀ n ∈ ([] : List Notice), Notice.about n k = false :=
    fun _ n hn => absurd hn List.not_mem_nil
  have hsame : ∀ {stage : Stage} {store : RowStore MaintenanceWindow Unit},
      store.committed = s.store.committed → ∃ ns, (s.goto i store stage).outbox = s.outbox ++ ns ∧
        ∀ k w', (s.goto i store stage).store.committed k = some w' →
          Change k ns (s.store.committed k) w' := by
    intro stage store hstore
    refine ⟨[], (List.append_nil _).symm, fun k w' hc => .kept (hnone k) ?_⟩
    rw [← hstore]
    exact hc
  cases ht with
  | goes hat hto => exact hsame rfl
  | moves hat hfree hv hmoved hnext => exact hsame rfl
  | claims hat hfree hv hstamp => exact hsame rfl
  | loses hat => exact hsame rfl
  | enqueues hat => exact hsame rfl
  | amends hat hfree hv hstate => exact hsame rfl
  | cancels hat hfree hv => exact hsame rfl
  | fails => exact hsame rfl
  | @sends tick kind tenants hat =>
    refine ⟨_, rfl, fun k w' hc => h.commit_change hc (fun w hb => ?_) fun hno n hn => ?_⟩
    · rw [hat] at hb
      obtain ⟨rfl, hclaimed, htenants⟩ := hb
      cases hk : kind.announces with
      | true =>
        refine .announced ?_ (fun n hn => ?_) hclaimed.told
        · intro hnil
          exact htenants hk (List.map_eq_nil_iff.mp hnil)
        · obtain ⟨habout, htold⟩ := about_of_fanOut hn tick.windowId
          refine ⟨by simp [habout, hk], ?_⟩
          exact htold.trans ((hclaimed.told.trans (hclaimed.fresh hk)).symm)
      | false =>
        refine .amended (fun n hn => ?_) (hclaimed.moved hk).amended'
        simp [(about_of_fanOut hn tick.windowId).1, hk]
    · obtain ⟨w, hw⟩ := h.held i tick.windowId (by rw [hat]; rfl)
      have hne : tick.windowId ≠ k := by
        rintro rfl
        exact hno w hw
      simp [(about_of_fanOut hn k).1, hne]
  | @commits stage hat hto =>
    refine ⟨[], (List.append_nil _).symm, fun k w' hc => ?_⟩
    refine h.commit_change hc (fun w hb => .amended (hnone k) ?_) fun _ => hnone k
    rcases hat with ⟨tick, kind, hat⟩ | ⟨tick, hat⟩ | hat
    · rw [hat] at hb
      exact Moved.amended' hb
    · rw [hat] at hb
      exact Moved.amended' hb
    · rw [hat] at hb
      exact hb
  | @schedules call hat =>
    obtain ⟨hself, hrest⟩ := h.scheduled_committed hat call.window
    refine ⟨[], (List.append_nil _).symm, fun k w' hc => ?_⟩
    by_cases hk : k = s.store.size
    · rw [hk] at hc
      obtain rfl := Option.some.inj (hself.symm.trans hc)
      exact .scheduled rfl rfl rfl
    · exact .kept (hnone k) ((hrest k hk).symm.trans hc)

/-! ## The last notice -/

theorem lastNotice_append_of_not {outbox ns : List Notice} {k : ℕ}
    (hns : ∀ n ∈ ns, Notice.about n k = false) :
    lastNotice (outbox ++ ns) k = lastNotice outbox k := by
  have hnil : ns.filter (Notice.about · k) = [] := List.filter_eq_nil_iff.mpr fun n hn => by
    simp [hns n hn]
  rw [lastNotice, List.filter_append, hnil, List.append_nil, lastNotice]

theorem lastNotice_append {outbox ns : List Notice} {k : ℕ} (hne : ns ≠ [])
    (hns : ∀ n ∈ ns, Notice.about n k = true) :
    ∃ n ∈ ns, lastNotice (outbox ++ ns) k = some n := by
  have hall : ns.filter (Notice.about · k) = ns := List.filter_eq_self.mpr hns
  refine ⟨ns.getLast hne, List.getLast_mem hne, ?_⟩
  rw [lastNotice, List.filter_append, hall, List.getLast?_append_of_ne_nil _ hne,
    List.getLast?_eq_some_getLast hne]

/-- Every announced window that owes no notice is what its last notice tells. -/
def Current (s : State) : Prop :=
  ∀ k w, s.store.committed k = some w → w.announced = true → w.amendedNoticeAt ≠ none →
    ∃ n, lastNotice s.outbox k = some n ∧ n.told = w.told

theorem Turn.current {s s' : State} {i : ℕ} (ht : Turn s i s') (h : Sound s) (hc : Current s) :
    Current s' := by
  intro k w' hw' hann ham
  obtain ⟨ns, hout, hchange⟩ := ht.change h
  have hch := hchange k w' hw'
  generalize hold : s.store.committed k = old at hch
  cases hch with
  | scheduled hns hno _ =>
    rw [hno] at hann
    cases hann
  | @amended w _ hns hamended =>
    have hannw : w.announced = true := by
      rw [MaintenanceWindow.announced, ← hamended.advance]
      exact hann
    have htold : w'.told = w.told := by
      by_contra hne
      exact ham (hamended.retold hannw hne)
    obtain ⟨n, hn, hnw⟩ := hc k w hold hannw
      (hamended.amended.resolve_left ham ▸ ham)
    refine ⟨n, ?_, hnw.trans htold.symm⟩
    rw [hout, lastNotice_append_of_not hns]
    exact hn
  | announced hne hns htold =>
    obtain ⟨n, hn, hlast⟩ := lastNotice_append hne fun n hn => (hns n hn).1
    refine ⟨n, ?_, (hns n hn).2⟩
    rw [hout]
    exact hlast

/-- A change behind which a notice is owed or queued leaves one owed or queued. -/
theorem Turn.announced {s s' : State} {i k length : ℕ} (ht : Turn s i s') (h : Sound s)
    (hlength : length ≤ s.outbox.length) (ha : Announced s k length) : Announced s' k length := by
  intro w' hw'
  obtain ⟨ns, hout, hchange⟩ := ht.change h
  have hdrop : s'.outbox.drop length = s.outbox.drop length ++ ns := by
    rw [hout, List.drop_append_of_le_length hlength]
  have hch := hchange k w' hw'
  generalize hold : s.store.committed k = old at hch
  cases hch with
  | scheduled _ _ ham => exact .inl ham
  | @amended w _ _ hamended =>
    rcases hamended.amended with hnone | heq
    · exact .inl hnone
    · refine (ha w hold).imp heq.trans ?_
      rintro ⟨n, hn, habout⟩
      exact ⟨n, hdrop ▸ List.mem_append_left _ hn, habout⟩
  | announced hne hns _ =>
    obtain ⟨n, hn⟩ := List.exists_mem_of_ne_nil ns hne
    exact .inr ⟨n, hdrop ▸ List.mem_append_right _ hn, (hns n hn).1⟩

/-- A client-visible change of an announced window leaves a notice owed. -/
theorem Turn.retold {s s' : State} {i k : ℕ} (ht : Turn s i s') (h : Sound s)
    (hr : Retold s s' k) : Announced s' k s'.outbox.length := by
  obtain ⟨w, w', hw, hw', hann, hne⟩ := hr
  obtain ⟨ns, -, hchange⟩ := ht.change h
  have hch := hchange k w' hw'
  rw [hw] at hch
  have ham : w'.amendedNoticeAt = none := by
    cases hch with
    | scheduled _ _ ham => exact ham
    | amended _ hamended => exact hamended.retold hann hne
    | announced _ _ htold => exact absurd htold hne
  intro v hv
  obtain rfl := Option.some.inj (hw'.symm.trans hv)
  exact .inl ham

/-! ## Runs -/

/-- What a fresh run keeps. -/
structure Holds (s : State) : Prop where
  sound : Sound s
  current : Current s

theorem Holds.step {s : State} (h : Holds s) {a : Action} (hf : Fresh s a) : Holds (step s a) := by
  rcases step_turns s a with heq | ⟨tenants, rfl⟩ | ⟨i, ht, hat⟩
  · rw [heq]
    exact h
  · exact ⟨{ h.sound with }, h.current⟩
  · refine ⟨ht.sound h.sound fun hquiet => ?_, ht.current h.sound h.current⟩
    rcases hat with ⟨now, rfl⟩ | hat
    · exact hf
    · rw [hat] at hquiet
      cases hquiet

theorem holds_run {actions : List Action} (hg : Run.Guarded step Fresh start actions) :
    Holds (actions.foldl step start) :=
  hg.inv (fun _ _ h hf => h.step hf) ⟨sound_start, fun _ _ h => nomatch h⟩

/-- Behind a change of an announced window, in every state of a fresh run. -/
theorem announced_run {s : State} {actions : List Action} {k length : ℕ} (h : Holds s)
    (hlength : length ≤ s.outbox.length) (ha : Announced s k length)
    (hg : Run.Guarded step Fresh s actions) : Announced (actions.foldl step s) k length := by
  induction actions generalizing s with
  | nil => exact ha
  | cons a actions ih =>
    have hstep : length ≤ (step s a).outbox.length ∧ Announced (step s a) k length := by
      rcases step_turns s a with heq | ⟨tenants, rfl⟩ | ⟨i, ht, -⟩
      · rw [heq]
        exact ⟨hlength, ha⟩
      · exact ⟨hlength, ha⟩
      · obtain ⟨ns, hout, -⟩ := ht.change h.sound
        refine ⟨?_, ht.announced h.sound hlength ha⟩
        rw [hout, List.length_append]
        omega
    exact ih (h.step hg.1) hstep.1 hstep.2 hg.2

/-- **What the last notice tells.** In every run a claim queues one notice per open client. In a run
whose claims and amendments are fresh, no tick between its claim and its commit, the last notice
of an announced window that owes none tells the window as it is; and behind every step that
changes what an announced window tells, a notice is owed or has been queued since. -/
theorem last_notice_describes (actions : List Action) :
    OnePerClient (actions.foldl step start) ∧
      (Run.Guarded step Fresh start actions → LastDescribes (actions.foldl step start) ∧
        ∀ before a after k, actions = before ++ a :: after →
          Retold (before.foldl step start) (step (before.foldl step start) a) k →
            Announced (actions.foldl step start) k
              (step (before.foldl step start) a).outbox.length) := by
  refine ⟨(directories_run actions).toOnePerClient, fun hg => ⟨?_, ?_⟩⟩
  · intro _ k w hw _ hann ham
    exact (holds_run hg).current k w hw hann ham
  · rintro before a after k rfl hr
    have hbefore := holds_run hg.begins
    have hfresh : Fresh (before.foldl step start) a := hg.at
    have hafter : Run.Guarded step Fresh (step (before.foldl step start) a) after := by
      have hsplit : before ++ a :: after = (before ++ [a]) ++ after := by simp
      rw [hsplit] at hg
      refine Run.Guarded.of_at fun seen b rest heq => ?_
      rw [heq, ← List.append_assoc] at hg
      simpa [List.foldl_append] using hg.at
    rw [List.foldl_append, List.foldl_cons]
    refine announced_run (hbefore.step hfresh) le_rfl ?_ hafter
    rcases step_turns (before.foldl step start) a with heq | ⟨tenants, rfl⟩ | ⟨i, ht, -⟩
    · obtain ⟨w, w', hw, hw', -, hne⟩ := hr
      rw [heq, hw] at hw'
      cases hw'
      exact absurd rfl hne
    · obtain ⟨w, w', hw, hw', -, hne⟩ := hr
      rw [step, hw] at hw'
      cases hw'
      exact absurd rfl hne
    · exact ht.retold hbefore.sound hr

/-- A window is moved by an hour between a tick's reading of it and the claim of its announcement. -/
def movedMeanwhile : List Action :=
  [.portals [7], .schedule 0 ⟨⟨"Database upgrade", 1000000, 1007200⟩, 60, 0⟩,
    .tick 1 950000 86400 false .normal,
    .amend 2
      { windowId := 0, startsAt := some 1003600, endsAt := some 1010800, now := 950000 },
    .advance 2 950000, .commit 2, .advance 1 950001, .advance 1 950001, .advance 1 950001,
    .advance 1 950001, .commit 1]

/-- Clients were announced a time that the window had already left, and nothing is owed. -/
theorem announced_late :
    ¬ ∀ actions : List Action, LastDescribes (actions.foldl step start) := by
  intro h
  have hrow : ∃ w ∈ (movedMeanwhile.foldl step start).store.committed 0, w.open = true ∧
      w.announced = true ∧ w.amendedNoticeAt ≠ none ∧ w.told.startsAt = 1003600 ∧
      (lastNotice (movedMeanwhile.foldl step start).outbox 0).map (·.told.startsAt) =
        some 1000000 := by
    decide +kernel
  have hidle : ∀ i, ((movedMeanwhile.foldl step start).stage i).midClaim = false := by
    rintro (_ | _ | _ | i)
    · decide +kernel
    · decide +kernel
    · decide +kernel
    · rfl
  obtain ⟨w, hw, hopen, hann, ham, hstarts, hlast⟩ := hrow
  obtain ⟨n, hn, htold⟩ := h movedMeanwhile hidle 0 w hw hopen hann ham
  rw [hn] at hlast
  have hearly : n.told.startsAt = 1000000 := Option.some.inj hlast
  rw [htold, hstarts] at hearly
  cases hearly

end Notices

end Platform

end Calevate
