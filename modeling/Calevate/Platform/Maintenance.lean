import Calevate.Lib.Statement
import Calevate.Platform.LoadShed

/-!
# Maintenance windows

A row of `platform_maintenance_windows`, the statements that write it and what a tick makes of
the row it read. Every change of state is a compare-and-swap on the state, every notice a claim
of a stamp that is still null, and an amendment a compare-and-swap on the state that was read
before its rules were applied. Instants and spans are in seconds.
-/

namespace Calevate

namespace Platform

open Lib

/-- `MAINTENANCE_STATES` -/
inductive MaintenanceState where
  | scheduled
  | draining
  | active
  | completed
  | cancelled
  deriving DecidableEq, Repr

/-- `MAINTENANCE_OPEN_STATES` -/
def MaintenanceState.open : MaintenanceState → Bool
  | .scheduled | .draining | .active => true
  | .completed | .cancelled => false

/-- `NOTICE_COLUMNS` -/
inductive NoticeKind where
  | advance
  | amended
  | active
  | ended
  deriving DecidableEq, Repr

/-- The kinds that tell clients of a window to come. -/
def NoticeKind.announces : NoticeKind → Bool
  | .advance | .amended => true
  | .active | .ended => false

/-- What of a window its notices tell. -/
structure Told where
  reason : String
  startsAt : ℕ
  endsAt : ℕ
  deriving DecidableEq, Repr

structure MaintenanceWindow where
  told : Told
  state : MaintenanceState := .scheduled
  maxDrainMinutes : ℕ
  drainingSince : Option ℕ := none
  drainDeadlineAt : Option ℕ := none
  activatedAt : Option ℕ := none
  forced : Bool := false
  endedAt : Option ℕ := none
  cancelledAt : Option ℕ := none
  restoreLoadShedMode : Option LoadShedMode := none
  advanceNoticeAt : Option ℕ := none
  amendedNoticeAt : Option ℕ := none
  activeNoticeAt : Option ℕ := none
  endedNoticeAt : Option ℕ := none
  deriving DecidableEq, Repr

/-- `MIN_WINDOW` -/
def minWindow : ℕ := 5 * 60

/-- `MAX_LEAD_TIME` -/
def maxLeadTime : ℕ := 90 * 86400

/-- The refusals of `schedule_window` and `amend_window`, by their codes. -/
inductive MaintenanceRefusal where
  | startsInThePast
  | windowTooShort
  | tooFarAhead
  | windowExists
  | windowClosed
  | started
  deriving DecidableEq, Repr

/-- `_validate_span` -/
def validateSpan (startsAt endsAt now : ℕ) : Except MaintenanceRefusal Unit :=
  if startsAt ≤ now then throw .startsInThePast
  else if endsAt < startsAt + minWindow then throw .windowTooShort
  else if now + maxLeadTime < startsAt then throw .tooFarAhead
  else pure ()

def MaintenanceWindow.open (w : MaintenanceWindow) : Bool := w.state.open

namespace MaintenanceWindow

def announced (w : MaintenanceWindow) : Bool := w.advanceNoticeAt.isSome

/-- `drain_overdue` -/
def drainOverdue (w : MaintenanceWindow) (now : ℕ) : Bool :=
  w.state = .draining ∧ w.drainDeadlineAt.any (· ≤ now)

/-- The stamp that a notice of the kind is claimed by. -/
def stamp (w : MaintenanceWindow) : NoticeKind → Option ℕ
  | .advance => w.advanceNoticeAt
  | .amended => w.amendedNoticeAt
  | .active => w.activeNoticeAt
  | .ended => w.endedNoticeAt

/-- The `SET` of `claim_notice`: the advance claim settles the amendment's with it. -/
def claim (kind : NoticeKind) (now : ℕ) (w : MaintenanceWindow) : MaintenanceWindow :=
  match kind with
  | .advance => { w with advanceNoticeAt := some now, amendedNoticeAt := some now }
  | .amended => { w with amendedNoticeAt := some now }
  | .active => { w with activeNoticeAt := some now }
  | .ended => { w with endedNoticeAt := some now }

/-- The `SET` of `begin_drain`. -/
def beginDrain (maxDrainMinutes now : ℕ) (w : MaintenanceWindow) : MaintenanceWindow :=
  { w with
    state := .draining
    drainingSince := some now
    drainDeadlineAt := some (now + 60 * maxDrainMinutes) }

/-- The `SET` of `activate`. -/
def activate (forced : Bool) (restoreMode : LoadShedMode) (now : ℕ) (w : MaintenanceWindow) :
    MaintenanceWindow :=
  { w with
    state := .active
    activatedAt := some now
    forced := forced
    restoreLoadShedMode := some restoreMode }

/-- The `SET` of `complete_window`. -/
def complete (now : ℕ) (w : MaintenanceWindow) : MaintenanceWindow :=
  { w with state := .completed, endedAt := some now }

/-- The `SET` of `cancel_window`. -/
def cancel (now : ℕ) (w : MaintenanceWindow) : MaintenanceWindow :=
  { w with state := .cancelled, cancelledAt := some now }

end MaintenanceWindow

/-! ## Amendments -/

/-- A call of `amend_window`. -/
structure Amendment where
  windowId : ℕ
  reason : Option String := none
  startsAt : Option ℕ := none
  endsAt : Option ℕ := none
  maxDrainMinutes : Option ℕ := none
  now : ℕ
  deriving DecidableEq, Repr

namespace Amendment

variable (call : Amendment)

/-- The rules an amendment is held to, on the window it read. -/
def check (seen : MaintenanceWindow) : Except MaintenanceRefusal Unit := do
  if !seen.open then throw .windowClosed
  if call.startsAt.any (· ≠ seen.told.startsAt) && seen.state ≠ .scheduled then throw .started
  let newStart := call.startsAt.getD seen.told.startsAt
  let newEnd := call.endsAt.getD seen.told.endsAt
  if newEnd ≤ newStart then throw .windowTooShort
  if seen.state = .scheduled && call.startsAt.isSome then
    validateSpan newStart newEnd call.now

/-- `client_visible`: against the window that was read. -/
def clientVisible (seen : MaintenanceWindow) : Bool :=
  call.reason.any (· ≠ seen.told.reason) || call.endsAt.any (· ≠ seen.told.endsAt) ||
    call.startsAt.any (· ≠ seen.told.startsAt)

/-- What clients are told once the row is written. -/
def retold (told : Told) : Told where
  reason := call.reason.getD told.reason
  startsAt := call.startsAt.getD told.startsAt
  endsAt := call.endsAt.getD told.endsAt

/-- The `SET` of the one statement; whether the window was announced is read from the row. -/
def apply (clientVisible : Bool) (w : MaintenanceWindow) : MaintenanceWindow :=
  { w with
    told := call.retold w.told
    maxDrainMinutes := call.maxDrainMinutes.getD w.maxDrainMinutes
    drainDeadlineAt :=
      match w.drainingSince with
      | none => w.drainDeadlineAt
      | some since => some (since + 60 * call.maxDrainMinutes.getD w.maxDrainMinutes)
    amendedNoticeAt := if clientVisible && w.announced then none else w.amendedNoticeAt }

end Amendment

/-- A call of `schedule_window`. -/
structure Schedule where
  told : Told
  maxDrainMinutes : ℕ
  now : ℕ
  deriving DecidableEq, Repr

/-- The row that `schedule_window` inserts. -/
def Schedule.window (call : Schedule) : MaintenanceWindow :=
  { told := call.told, maxDrainMinutes := call.maxDrainMinutes }

/-- The rules of `schedule_window`, given whether it found a window open. -/
def Schedule.check (call : Schedule) (existing : Bool) : Except MaintenanceRefusal Unit := do
  validateSpan call.told.startsAt call.told.endsAt call.now
  if existing then throw .windowExists

/-! ## Ticks -/

/-- A run of `maintenance_tick`, with the window it read, its clock, the notice lead, whether its
probe finds the platform drained and the mode it reads before activating. -/
structure Tick where
  windowId : ℕ
  window : MaintenanceWindow
  now : ℕ
  lead : ℕ
  drained : Bool
  mode : LoadShedMode
  deriving DecidableEq, Repr

/-- What a tick goes on to do with the window. -/
inductive Arm where
  | nothing
  | announce
  | beginDrain
  | activate
  | complete
  deriving DecidableEq, Repr

namespace Tick

variable (tick : Tick)

/-- An amended notice is owed. -/
def owesAmended : Bool := tick.window.announced && tick.window.amendedNoticeAt.isNone

/-- `_tick_scheduled`, `_tick_draining` and `_tick_active`, up to their next statement. -/
def arm : Arm :=
  match tick.window.state with
  | .scheduled =>
    if tick.now < tick.window.told.startsAt then
      if tick.window.told.startsAt ≤ tick.now + tick.lead then .announce else .nothing
    else .beginDrain
  | .draining =>
    if tick.window.told.endsAt ≤ tick.now then .complete
    else if !tick.drained && !tick.window.drainOverdue tick.now then .nothing
    else .activate
  | _ => if tick.now < tick.window.told.endsAt then .nothing else .complete

/-- The mode that `_tick_draining` stores to be put back. -/
def restoreMode : LoadShedMode := if tick.mode ≠ .maintenance then tick.mode else .normal

end Tick

end Platform

end Calevate
