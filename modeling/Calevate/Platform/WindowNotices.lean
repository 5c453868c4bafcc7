import Mathlib.Data.List.Dedup
import Calevate.Lib.Run
import Calevate.Platform.Maintenance

/-!
# The notices of a maintenance window

A tick reads the open window in one transaction and fans its notices out in others: the claim
looks only at a stamp, and the notices tell what was read. An amendment reads the window as
well, decides whether clients can see the change, and re-opens the claim if they can and the
row it writes was announced.

Ticks run on any number of workers beside the operator's calls. A session is cut before each
of its statements and before each commit, a statement waits for a row that another session
holds, and a session can be lost at any point.
-/

namespace Calevate

namespace Platform

open Lib

/-- A row of the outbox that `_fan_out` writes. -/
structure Notice where
  tenantId : ℕ
  kind : NoticeKind
  windowId : ℕ
  told : Told
  deriving DecidableEq, Repr

/-- A claim that was committed, with the clients whose portal was open. -/
structure FanOut where
  windowId : ℕ
  kind : NoticeKind
  tenants : List ℕ
  deriving DecidableEq, Repr

namespace Notices

inductive Stage where
  | idle
  | read (tick : Tick)
  | atArm (tick : Tick)
  | claiming (tick : Tick) (kind : NoticeKind)
  | claimed (tick : Tick) (kind : NoticeKind)
  | sent (tick : Tick) (kind : NoticeKind) (tenants : List ℕ)
  | lost (tick : Tick) (kind : NoticeKind)
  | moved (tick : Tick)
  | amending (call : Amendment) (seen : MaintenanceWindow)
  | cancelling (windowId now : ℕ)
  | written
  deriving DecidableEq, Repr

/-- A tick between its claim and its commit. -/
def Stage.midClaim : Stage → Bool
  | .claimed _ _ | .sent _ _ _ => true
  | _ => false

/-- The windows, where each session is, the clients whose portal is open, the notices queued and
the claims they came from. -/
structure State where
  store : RowStore MaintenanceWindow Unit
  stage : ℕ → Stage
  clients : List ℕ
  outbox : List Notice
  fanOuts : List FanOut

def start : State where
  store := RowStore.empty
  stage := fun _ => .idle
  clients := []
  outbox := []
  fanOuts := []

namespace State

/-- Session `i` goes on at `stage`, and leaves the rows as they then are. -/
def goto (s : State) (i : ℕ) (store : RowStore MaintenanceWindow Unit) (stage : Stage) : State :=
  { s with store, stage := Function.update s.stage i stage }

@[simp] theorem goto_stage_self (s : State) (i : ℕ) (store : RowStore MaintenanceWindow Unit)
    (stage : Stage) : (s.goto i store stage).stage i = stage := Function.update_self ..

theorem goto_stage_of_ne (s : State) {i j : ℕ} (h : j ≠ i)
    (store : RowStore MaintenanceWindow Unit) (stage : Stage) :
    (s.goto i store stage).stage j = s.stage j := Function.update_of_ne h ..

/-- `read_open_window` -/
def openWindow (s : State) : Option (ℕ × MaintenanceWindow) :=
  (List.range s.store.size).findSome? fun k =>
    ((s.store.committed k).filter MaintenanceWindow.open).map (k, ·)

/-- A compare-and-swap on the state of the tick's window. -/
def transition (s : State) (i : ℕ) (tick : Tick) (fromStates : List MaintenanceState)
    (set : MaintenanceWindow → MaintenanceWindow) (next : Stage) : State :=
  match s.store.updateKey i tick.windowId (fun w => w.state ∈ fromStates) set () with
  | none => s
  | some (store, hit) => s.goto i store (if hit.isSome then next else .moved tick)

/-- The next statement of session `i`, at the server's clock `now`. -/
def advance (s : State) (i now : ℕ) : State :=
  match s.stage i with
  | .read tick =>
    s.goto i s.store (if tick.owesAmended then .claiming tick .amended else .atArm tick)
  | .atArm tick =>
    match tick.arm with
    | .nothing => s.goto i s.store .idle
    | .announce => s.goto i s.store (.claiming tick .advance)
    | .beginDrain =>
      s.transition i tick [.scheduled]
        (MaintenanceWindow.beginDrain tick.window.maxDrainMinutes now) (.moved tick)
    | .activate =>
      s.transition i tick [.draining]
        (MaintenanceWindow.activate (tick.window.drainOverdue tick.now && !tick.drained)
          tick.restoreMode now) (.claiming tick .active)
    | .complete =>
      s.transition i tick [.draining, .active] (MaintenanceWindow.complete now)
        (.claiming tick .ended)
  | .claiming tick kind =>
    match s.store.updateKey i tick.windowId (fun w => (w.stamp kind).isNone)
      (MaintenanceWindow.claim kind now) () with
    | none => s
    | some (store, hit) =>
      s.goto i store (if hit.isSome then .claimed tick kind else .lost tick kind)
  | .claimed tick kind => s.goto i s.store (.sent tick kind s.clients)
  | .amending call seen =>
    match s.store.updateKey i call.windowId (fun w => w.state = seen.state)
      (call.apply (call.clientVisible seen)) () with
    | none => s
    | some (store, hit) => s.goto i store (if hit.isSome then .written else .idle)
  | .cancelling windowId cancelledAt =>
    match s.store.updateKey i windowId (fun w => w.state = .scheduled)
      (MaintenanceWindow.cancel cancelledAt) () with
    | none => s
    | some (store, _) => s.goto i store .written
  | _ => s

/-- Where a tick goes on behind a fan-out. -/
def afterFanOut (tick : Tick) (kind : NoticeKind) : Stage :=
  if kind = .amended then .atArm tick else .idle

def commit (s : State) (i : ℕ) : State :=
  match s.stage i with
  | .sent tick kind tenants =>
    { s.goto i (s.store.commit i) (afterFanOut tick kind) with
      outbox := s.outbox ++ tenants.map fun t => ⟨t, kind, tick.windowId, tick.window.told⟩
      fanOuts := s.fanOuts ++ [⟨tick.windowId, kind, tenants⟩] }
  | .lost tick kind => s.goto i (s.store.commit i) (afterFanOut tick kind)
  | .moved _ | .written => s.goto i (s.store.commit i) .idle
  | _ => s

end State

inductive Action where
  | schedule (i : ℕ) (call : Schedule)
  | tick (i now lead : ℕ) (drained : Bool) (mode : LoadShedMode)
  | amend (i : ℕ) (call : Amendment)
  | cancel (i windowId now : ℕ)
  | advance (i now : ℕ)
  | commit (i : ℕ)
  | rollback (i : ℕ)
  | portals (tenants : List ℕ)
  deriving DecidableEq, Repr

def step (s : State) : Action → State
  | .schedule i call =>
    if s.stage i = .idle then
      match call.check s.openWindow.isSome with
      | .ok _ => { s with store := (s.store.insert i call.window).commit i }
      | .error _ => s
    else s
  | .tick i now lead drained mode =>
    match s.stage i, s.openWindow with
    | .idle, some (k, w) => s.goto i s.store (.read ⟨k, w, now, lead, drained, mode⟩)
    | _, _ => s
  | .amend i call =>
    match s.stage i, s.store.committed call.windowId with
    | .idle, some w =>
      match call.check w with
      | .ok _ => s.goto i s.store (.amending call w)
      | .error _ => s
    | _, _ => s
  | .cancel i windowId now =>
    if s.stage i = .idle then s.goto i s.store (.cancelling windowId now) else s
  | .advance i now => s.advance i now
  | .commit i => s.commit i
  | .rollback i => s.goto i (s.store.rollback i) .idle
  | .portals tenants => { s with clients := tenants.dedup }

/-! ## What a step can do -/

/-- Stages at which a session holds no row. -/
def Stage.quiet : Stage → Bool
  | .idle | .read _ | .atArm _ | .amending _ _ | .cancelling _ _ => true
  | _ => false

/-- Nothing that announcing turns on was changed. -/
structure Moved (w w' : MaintenanceWindow) : Prop where
  told : w'.told = w.told
  advance : w'.advanceNoticeAt = w.advanceNoticeAt
  amended : w'.amendedNoticeAt = w.amendedNoticeAt

theorem Moved.trans {w w' w'' : MaintenanceWindow} (h : Moved w w') (h' : Moved w' w'') :
    Moved w w'' where
  told := h'.told.trans h.told
  advance := h'.advance.trans h.advance
  amended := h'.amended.trans h.amended

/-- One step of session `i`, with what it found. -/
inductive Turn (s : State) (i : ℕ) : State → Prop
  | goes {stage : Stage} (hat : (s.stage i).quiet = true)
      (hto : stage.midClaim = false) : Turn s i (s.goto i s.store stage)
  | moves {tick : Tick} {w w' : MaintenanceWindow} {next : Stage} (hat : s.stage i = .atArm tick)
      (hfree : s.store.free i tick.windowId = true)
      (hv : s.store.visible i tick.windowId = some w) (hmoved : Moved w w')
      (hnext : next = .moved tick ∨ ∃ kind, next = .claiming tick kind) :
      Turn s i (s.goto i (s.store.write i tick.windowId w' ()) next)
  | claims {tick : Tick} {kind : NoticeKind} {w : MaintenanceWindow} {now : ℕ}
      (hat : s.stage i = .claiming tick kind) (hfree : s.store.free i tick.windowId = true)
      (hv : s.store.visible i tick.windowId = some w) (hstamp : w.stamp kind = none) :
      Turn s i (s.goto i (s.store.write i tick.windowId (w.claim kind now) ())
        (.claimed tick kind))
  | loses {tick : Tick} {kind : NoticeKind} (hat : s.stage i = .claiming tick kind) :
      Turn s i (s.goto i s.store (.lost tick kind))
  | enqueues {tick : Tick} {kind : NoticeKind} (hat : s.stage i = .claimed tick kind) :
      Turn s i (s.goto i s.store (.sent tick kind s.clients))
  | amends {call : Amendment} {seen w : MaintenanceWindow} (hat : s.stage i = .amending call seen)
      (hfree : s.store.free i call.windowId = true)
      (hv : s.store.visible i call.windowId = some w) (hstate : w.state = seen.state) :
      Turn s i (s.goto i (s.store.write i call.windowId (call.apply (call.clientVisible seen) w) ())
        .written)
  | cancels {windowId now : ℕ} {w : MaintenanceWindow} (hat : (s.stage i).quiet = true)
      (hfree : s.store.free i windowId = true) (hv : s.store.visible i windowId = some w) :
      Turn s i (s.goto i (s.store.write i windowId (w.cancel now) ()) .written)
  | sends {tick : Tick} {kind : NoticeKind} {tenants : List ℕ}
      (hat : s.stage i = .sent tick kind tenants) :
      Turn s i { s.goto i (s.store.commit i) (State.afterFanOut tick kind) with
        outbox := s.outbox ++ tenants.map fun t => ⟨t, kind, tick.windowId, tick.window.told⟩
        fanOuts := s.fanOuts ++ [⟨tick.windowId, kind, tenants⟩] }
  | commits {stage : Stage} (hat : (∃ tick kind, s.stage i = .lost tick kind) ∨
        (∃ tick, s.stage i = .moved tick) ∨ s.stage i = .written) (hto : stage.quiet = true) :
      Turn s i (s.goto i (s.store.commit i) stage)
  | fails : Turn s i (s.goto i (s.store.rollback i) .idle)
  | schedules {call : Schedule} (hat : s.stage i = .idle) :
      Turn s i { s with store := (s.store.insert i call.window).commit i }

theorem quiet_afterFanOut (tick : Tick) (kind : NoticeKind) :
    (State.afterFanOut tick kind).quiet = true := by
  cases kind <;> rfl

theorem transition_turns {s : State} {i : ℕ} {tick : Tick} {fromStates : List MaintenanceState}
    {set : MaintenanceWindow → MaintenanceWindow} {next : Stage} (hat : s.stage i = .atArm tick)
    (hset : ∀ w, Moved w (set w)) (hnext : next = .moved tick ∨ ∃ kind, next = .claiming tick kind) :
    s.transition i tick fromStates set next = s ∨
      Turn s i (s.transition i tick fromStates set next) := by
  unfold State.transition
  split
  · exact .inl rfl
  · next store hit h =>
    right
    obtain ⟨w, hfree, hv, -, rfl, rfl⟩ | ⟨rfl, rfl, -⟩ := RowStore.updateKey_ok h
    · exact .moves hat hfree hv (hset w) hnext
    · exact .goes (by rw [hat]; rfl) rfl

theorem advance_turns (s : State) (i now : ℕ) :
    s.advance i now = s ∨ Turn s i (s.advance i now) := by
  unfold State.advance
  split
  case h_1 tick hat =>
    right
    apply Turn.goes (by rw [hat]; rfl)
    split <;> rfl
  case h_2 tick hat =>
    split
    · exact .inr (.goes (by rw [hat]; rfl) rfl)
    · exact .inr (.goes (by rw [hat]; rfl) rfl)
    · exact transition_turns hat (fun _ => ⟨rfl, rfl, rfl⟩) (.inl rfl)
    · exact transition_turns hat (fun _ => ⟨rfl, rfl, rfl⟩) (.inr ⟨_, rfl⟩)
    · exact transition_turns hat (fun _ => ⟨rfl, rfl, rfl⟩) (.inr ⟨_, rfl⟩)
  case h_3 tick kind hat =>
    split
    · exact .inl rfl
    · next store hit h =>
      right
      obtain ⟨w, hfree, hv, hp, rfl, rfl⟩ | ⟨rfl, rfl, -⟩ := RowStore.updateKey_ok h
      · exact .claims hat hfree hv (Option.isNone_iff_eq_none.mp hp)
      · exact .loses hat
  case h_4 tick kind hat => exact .inr (.enqueues hat)
  case h_5 call seen hat =>
    split
    · exact .inl rfl
    · next store hit h =>
      right
      obtain ⟨w, hfree, hv, hp, rfl, rfl⟩ | ⟨rfl, rfl, -⟩ := RowStore.updateKey_ok h
      · exact .amends hat hfree hv (of_decide_eq_true hp)
      · exact .goes (by rw [hat]; rfl) rfl
  case h_6 windowId cancelledAt hat =>
    split
    · exact .inl rfl
    · next store hit h =>
      right
      have hquiet : (s.stage i).quiet = true := by rw [hat]; rfl
      obtain ⟨w, hfree, hv, -, rfl, -⟩ | ⟨rfl, -, -⟩ := RowStore.updateKey_ok h
      · exact .cancels hquiet hfree hv
      · exact .goes hquiet rfl
  case h_7 => exact .inl rfl

/-- A step is a session's turn or changes who has a portal; only `advance` leaves a session at a
stage where it holds a row. -/
theorem step_turns (s : State) (a : Action) :
    step s a = s ∨ (∃ tenants, a = .portals tenants) ∨
      ∃ i, Turn s i (step s a) ∧
        ((∃ now, a = .advance i now) ∨ ((step s a).stage i).quiet = true) := by
  have hgoes : ∀ {i : ℕ} {stage : Stage}, s.stage i = .idle → stage.quiet = true →
      stage.midClaim = false → Turn s i (s.goto i s.store stage) ∧
        ((∃ now, a = .advance i now) ∨ ((s.goto i s.store stage).stage i).quiet = true) := by
    intro i stage hat hquiet hmid
    refine ⟨.goes (by rw [hat]; rfl) hmid, .inr ?_⟩
    rw [State.goto_stage_self]
    exact hquiet
  cases a with
  | schedule i call =>
    simp only [step]
    split
    · next hat =>
      split
      · exact .inr (.inr ⟨i, .schedules hat, .inr (by rw [hat]; rfl)⟩)
      · exact .inl rfl
    · exact .inl rfl
  | tick i now lead drained mode =>
    simp only [step]
    split
    · next hat _ => exact .inr (.inr ⟨i, hgoes hat rfl rfl⟩)
    · exact .inl rfl
  | amend i call =>
    simp only [step]
    split
    · next hat _ =>
      split
      · exact .inr (.inr ⟨i, hgoes hat rfl rfl⟩)
      · exact .inl rfl
    · exact .inl rfl
  | cancel i windowId now =>
    simp only [step]
    split
    · next hat => exact .inr (.inr ⟨i, hgoes hat rfl rfl⟩)
    · exact .inl rfl
  | advance i now =>
    rcases advance_turns s i now with heq | ht
    · exact .inl heq
    · exact .inr (.inr ⟨i, ht, .inl ⟨now, rfl⟩⟩)
  | commit i =>
    have hquiet : ∀ {store} {stage : Stage}, stage.quiet = true →
        ((s.goto i store stage).stage i).quiet = true := by
      intro store stage hstage
      rw [State.goto_stage_self]
      exact hstage
    simp only [step, State.commit]
    split
    · next hat =>
      exact .inr (.inr ⟨i, .sends hat,
        .inr (@hquiet (s.store.commit i) _ (quiet_afterFanOut ..))⟩)
    · next hat =>
      exact .inr (.inr ⟨i, .commits (.inl ⟨_, _, hat⟩) (quiet_afterFanOut ..),
        .inr (hquiet (quiet_afterFanOut ..))⟩)
    · next hat => exact .inr (.inr ⟨i, .commits (.inr (.inl ⟨_, hat⟩)) rfl, .inr (hquiet rfl)⟩)
    · next hat => exact .inr (.inr ⟨i, .commits (.inr (.inr hat)) rfl, .inr (hquiet rfl)⟩)
    · exact .inl rfl
  | rollback i =>
    refine .inr (.inr ⟨i, .fails, .inr ?_⟩)
    rw [step, State.goto_stage_self]
    rfl
  | portals tenants => exact .inr (.inl ⟨tenants, rfl⟩)

/-! ## One notice per client -/

/-- The notices queued are those of the claims, one for each client that was open. -/
structure OnePerClient (s : State) : Prop where
  queued : s.outbox.map (fun n => (n.windowId, n.kind, n.tenantId)) =
    s.fanOuts.flatMap fun f => f.tenants.map fun t => (f.windowId, f.kind, t)
  nodup : ∀ f ∈ s.fanOuts, f.tenants.Nodup

/-- The same, with the directories that were read and not yet queued. -/
structure Directories (s : State) : Prop extends OnePerClient s where
  clients : s.clients.Nodup
  read : ∀ i tick kind tenants, s.stage i = .sent tick kind tenants → tenants.Nodup

theorem directories_start : Directories start where
  queued := rfl
  nodup := fun _ hf => absurd hf List.not_mem_nil
  clients := List.nodup_nil
  read := fun _ _ _ _ h => nomatch h

theorem Directories.goto {s : State} (h : Directories s) (i : ℕ)
    {store : RowStore MaintenanceWindow Unit} {stage : Stage}
    (hstage : ∀ tick kind tenants, stage = .sent tick kind tenants → tenants.Nodup) :
    Directories (s.goto i store stage) where
  queued := h.queued
  nodup := h.nodup
  clients := h.clients
  read := fun j tick kind tenants hj => by
    by_cases hji : j = i
    · rw [hji] at hj
      rw [State.goto_stage_self] at hj
      exact hstage tick kind tenants hj
    · rw [State.goto_stage_of_ne s hji] at hj
      exact h.read j tick kind tenants hj

theorem Turn.directories {s s' : State} {i : ℕ} (ht : Turn s i s') (h : Directories s) :
    Directories s' := by
  have hno : ∀ {store} {stage : Stage}, stage.midClaim = false →
      Directories (s.goto i store stage) := by
    intro store stage hstage
    refine h.goto i fun tick kind tenants heq => ?_
    rw [heq] at hstage
    cases hstage
  have hquiet : ∀ {stage : Stage}, stage.quiet = true → stage.midClaim = false := by
    intro stage hstage
    cases stage <;> first | rfl | cases hstage
  cases ht with
  | goes hat hto => exact hno hto
  | moves hat hfree hv hmoved hnext =>
    rcases hnext with rfl | ⟨kind, rfl⟩
    · exact hno rfl
    · exact hno rfl
  | claims hat hfree hv hstamp =>
    exact h.goto i fun tick kind tenants heq => nomatch heq
  | loses hat => exact hno rfl
  | enqueues hat =>
    refine h.goto i fun tick kind tenants heq => ?_
    cases heq
    exact h.clients
  | amends hat hfree hv hstate => exact hno rfl
  | cancels hat hfree hv => exact hno rfl
  | @sends tick kind tenants hat =>
    have hgo : Directories (s.goto i (s.store.commit i) (State.afterFanOut tick kind)) :=
      hno (hquiet (quiet_afterFanOut tick kind))
    refine { hgo with queued := ?_, nodup := ?_ }
    · simp only [List.map_append, List.flatMap_append, h.queued, List.map_map,
        List.flatMap_cons, List.flatMap_nil, List.append_nil]
      rfl
    · intro f hf
      rcases List.mem_append.mp hf with hf | hf
      · exact h.nodup f hf
      · rw [List.mem_singleton.mp hf]
        exact h.read i tick kind tenants hat
  | commits hat hto => exact hno (hquiet hto)
  | fails => exact hno rfl
  | schedules hat => exact { h with }

theorem directories_run (actions : List Action) : Directories (actions.foldl step start) := by
  refine Run.foldl_inv (fun s a h => ?_) directories_start actions
  rcases step_turns s a with heq | ⟨tenants, rfl⟩ | ⟨i, ht, -⟩
  · rw [heq]
    exact h
  · exact { h with clients := List.nodup_dedup _ }
  · exact ht.directories h

end Notices

end Platform

end Calevate
