import Calevate.Campaigns.Pausing
import Calevate.Lib.Run
import Calevate.Platform.Maintenance

/-!
# Ticks over a maintenance window

`maintenance_tick` takes the open window one step further and then works through what the step
owes: behind the drain the pauses of the fleet's campaigns, behind the activation the mode that
shuts the clients out, behind the completion the mode as it was and the campaigns as they were.
Each of these is a transaction of its own, one for each tenant of a walk.

Ticks run on any number of workers at once beside the operator and the clients, and a tick can
stop behind any of its transactions: the process is lost, or the budget of a walk is spent.
`modeBefore`, `operatorSince` and `looked` are not the platform's: they remember what its
promise to clients speaks of.
-/

namespace Calevate

namespace Platform

open Lib

/-- `_restore_mode` -/
def restoreMode : Option LoadShedMode → LoadShedMode
  | some .reduced => .reduced
  | some .emergency => .emergency
  | _ => .normal

theorem restoreMode_ne (stored : Option LoadShedMode) : restoreMode stored ≠ .maintenance := by
  unfold restoreMode
  split <;> nofun

theorem restoreMode_some {mode : LoadShedMode} (h : mode ≠ .maintenance) :
    restoreMode (some mode) = mode := by
  cases mode
  case maintenance => exact absurd rfl h
  all_goals rfl

namespace Course

/-- Where a tick is behind its last transaction, or an amendment behind its read. -/
inductive Stage where
  | idle
  | atArm (tick : Tick)
  | amending (call : Amendment) (seen : MaintenanceWindow)
  | toPause (tick : Tick)
  | pausing (tick : Tick) (tenants : List ℕ)
  | activating (tick : Tick)
  | shedding (tick : Tick)
  | restoring (tick : Tick)
  | toResume (tick : Tick)
  | resuming (tick : Tick) (tenants : List ℕ)
  deriving DecidableEq, Repr

/-- A tick that has completed a window and not yet put everything back. -/
def Stage.puttingBack : Stage → Bool
  | .restoring _ | .toResume _ | .resuming _ _ => true
  | _ => false

/-- The windows, the load-shed mode, the campaigns, the tenants of `engine_agent_routes` and
where each tick is; the mode in force when the last window was scheduled or began to drain,
whether an operator has set one since, and whether a tick has found no window open since the
last one closed. -/
structure State where
  windows : ℕ → Option MaintenanceWindow
  size : ℕ
  mode : LoadShedMode
  campaigns : Campaigns.Pausing.World
  callable : List ℕ
  stage : ℕ → Stage
  modeBefore : LoadShedMode
  operatorSince : Bool
  looked : Bool

def start : State where
  windows := fun _ => none
  size := 0
  mode := .normal
  campaigns := .empty
  callable := []
  stage := fun _ => .idle
  modeBefore := .normal
  operatorSince := false
  looked := false

namespace State

def goto (s : State) (i : ℕ) (stage : Stage) : State :=
  { s with stage := Function.update s.stage i stage }

@[simp] theorem goto_stage_self (s : State) (i : ℕ) (stage : Stage) :
    (s.goto i stage).stage i = stage := Function.update_self ..

theorem goto_stage_of_ne (s : State) {i j : ℕ} (h : j ≠ i) (stage : Stage) :
    (s.goto i stage).stage j = s.stage j := Function.update_of_ne h ..

def setWindow (s : State) (k : ℕ) (w : MaintenanceWindow) : State :=
  { s with windows := Function.update s.windows k (some w) }

@[simp] theorem setWindow_self (s : State) (k : ℕ) (w : MaintenanceWindow) :
    (s.setWindow k w).windows k = some w := Function.update_self ..

theorem setWindow_of_ne (s : State) {k m : ℕ} (h : m ≠ k) (w : MaintenanceWindow) :
    (s.setWindow k w).windows m = s.windows m := Function.update_of_ne h ..

/-- Behind a write: the window just written, or one that was there. -/
theorem setWindow_cases {s : State} {k m : ℕ} {w v : MaintenanceWindow}
    (h : (s.setWindow k w).windows m = some v) :
    (m = k ∧ v = w) ∨ (m ≠ k ∧ s.windows m = some v) := by
  by_cases hm : m = k
  · rw [hm, setWindow_self] at h
    exact .inl ⟨hm, (Option.some.inj h).symm⟩
  · rw [setWindow_of_ne s hm] at h
    exact .inr ⟨hm, h⟩

/-- `read_open_window` -/
def openWindow (s : State) : Option (ℕ × MaintenanceWindow) :=
  (List.range s.size).findSome? fun k =>
    ((s.windows k).filter MaintenanceWindow.open).map (k, ·)

/-- `begin_drain`, and the walk it starts. -/
def beginDrain (s : State) (i : ℕ) (tick : Tick) (now : ℕ) : State :=
  match s.windows tick.windowId with
  | some w =>
    if w.state = .scheduled then
      { (s.setWindow tick.windowId (w.beginDrain tick.window.maxDrainMinutes now)).goto i
          (.toPause tick) with
        modeBefore := s.mode
        operatorSince := false }
    else s.goto i .idle
  | none => s.goto i .idle

/-- `activate` -/
def activate (s : State) (i : ℕ) (tick : Tick) (now : ℕ) : State :=
  match s.windows tick.windowId with
  | some w =>
    if w.state = .draining then
      (s.setWindow tick.windowId (w.activate
        (tick.window.drainOverdue tick.now && !tick.drained) tick.restoreMode now)).goto i
          (.shedding tick)
    else s.goto i .idle
  | none => s.goto i .idle

/-- `complete_window` -/
def complete (s : State) (i : ℕ) (tick : Tick) (now : ℕ) : State :=
  match s.windows tick.windowId with
  | some w =>
    if w.state = .draining ∨ w.state = .active then
      { (s.setWindow tick.windowId (w.complete now)).goto i (.restoring tick) with
        looked := false }
    else s.goto i .idle
  | none => s.goto i .idle

/-- The statement of `amend_window`. -/
def amend (s : State) (i : ℕ) (call : Amendment) (seen : MaintenanceWindow) : State :=
  match s.windows call.windowId with
  | some w =>
    if w.state = seen.state then
      (s.setWindow call.windowId (call.apply (call.clientVisible seen) w)).goto i .idle
    else s.goto i .idle
  | none => s.goto i .idle

/-- The next transaction of session `i`; `seen` is the mode that `get_platform_status` answers
from its copies. -/
def advance (s : State) (i now : ℕ) (seen : LoadShedMode) : State :=
  match s.stage i with
  | .atArm tick =>
    match tick.arm with
    | .nothing =>
      if tick.window.state = .active ∧ seen ≠ .maintenance then s.goto i (.shedding tick)
      else s.goto i .idle
    | .announce => s.goto i .idle
    | .beginDrain => s.beginDrain i tick now
    | .activate => s.goto i (.activating { tick with mode := s.mode })
    | .complete => s.complete i tick now
  | .amending call seen => s.amend i call seen
  | .toPause tick => s.goto i (.pausing tick s.callable)
  | .pausing tick (t :: ts) =>
    { s.goto i (.pausing tick ts) with
      campaigns := s.campaigns.pauseForMaintenance t tick.windowId }
  | .activating tick => s.activate i tick now
  | .shedding _ => { s.goto i .idle with mode := .maintenance }
  | .restoring tick =>
    { s.goto i (.toResume tick) with mode := restoreMode tick.window.restoreLoadShedMode }
  | .toResume tick => s.goto i (.resuming tick s.callable)
  | .resuming tick (t :: ts) =>
    { s.goto i (.resuming tick ts) with
      campaigns := s.campaigns.resumeAfterMaintenance t tick.windowId }
  | _ => s.goto i .idle

/-- An amendment reads the window and is held to its rules. -/
def readAmended (s : State) (i : ℕ) (call : Amendment) : State :=
  match s.stage i, s.windows call.windowId with
  | .idle, some w =>
    match call.check w with
    | .ok _ => s.goto i (.amending call w)
    | .error _ => s
  | _, _ => s

end State

inductive Action where
  | schedule (call : Schedule)
  | cancel (windowId now : ℕ)
  | amend (i : ℕ) (call : Amendment)
  | endNow (i windowId now : ℕ)
  | tick (i now lead : ℕ) (drained : Bool)
  | advance (i now : ℕ) (seen : LoadShedMode)
  | stop (i : ℕ)
  | operator (mode : LoadShedMode)
  | campaign (action : Campaigns.Pausing.Action)
  | route (tenants : List ℕ)

def step (s : State) : Action → State
  | .schedule call =>
    match call.check s.openWindow.isSome with
    | .ok _ =>
      { s.setWindow s.size call.window with
        size := s.size + 1
        modeBefore := s.mode
        operatorSince := false }
    | .error _ => s
  | .cancel windowId now =>
    match s.windows windowId with
    | some w =>
      if w.state = .scheduled then { s.setWindow windowId (w.cancel now) with looked := false }
      else s
    | none => s
  | .amend i call => s.readAmended i call
  | .endNow i windowId now =>
    match s.windows windowId with
    | some w =>
      if w.open = true ∧ w.state ≠ .scheduled then
        s.readAmended i { windowId := windowId, endsAt := some now, now := now }
      else s
    | none => s
  | .tick i now lead drained =>
    match s.stage i, s.openWindow with
    | .idle, some (k, w) => s.goto i (.atArm ⟨k, w, now, lead, drained, s.mode⟩)
    | .idle, none => { s with looked := true }
    | _, _ => s
  | .advance i now seen => s.advance i now seen
  | .stop i => s.goto i .idle
  | .operator mode => { s with mode := mode, operatorSince := true }
  | .campaign (.pauseForMaintenance _ _) => s
  | .campaign action => { s with campaigns := s.campaigns.step action }
  | .route tenants => { s with callable := tenants.dedup }

end Course

end Platform

end Calevate
