import Calevate.Lib.Run
import Calevate.Campaigns.Schedule

/-!
# The scheduler and its client

One campaign row, the dispatch ticks that read it as due and fire it later, and the client
who changes it in between. Every action is one statement, or the statements of one
transaction that holds the row's lock: the recurring path of `fire_schedule` claims the row
`FOR UPDATE` first and is a single action, while its one-time path and `POST /launch` read
the gate and compare-and-swap afterwards, so each is two actions with anything between.

`version` and `fired` are not in the database. The first counts the writes to the
`schedule` column, so that a read can be compared with the row it is fired at; the second
remembers what the scheduler did, with the row it did it to.
-/

namespace Calevate.Campaigns

open Lib

/-- An occurrence a tick read as due, with the tick's clock. -/
structure Read where
  due : DueSchedule
  now : ℕ
  version : ℕ
  deriving DecidableEq, Repr

/-- A launch past its gate, by a tick or by the client, and a refusal not yet recorded. -/
inductive Flight where
  | launching (read : Option Read)
  | blocking (rules : List String)
  deriving DecidableEq, Repr

/-- What the scheduler did to a row. -/
inductive Effect where
  | launched
  | expired
  | skipped
  deriving DecidableEq, Repr

/-- The scheduler acted on what it had read, and this was the row. -/
structure Fired where
  effect : Effect
  read : Read
  row : Campaign
  version : ℕ
  deriving DecidableEq, Repr

/-- The row, the reads that have not been fired, the launches in flight, and the record. -/
structure State where
  row : Campaign
  version : ℕ
  reads : List Read
  flights : List Flight
  fired : List Fired
  deriving DecidableEq, Repr

/-- A new campaign is a draft. -/
def start : State where
  row := { status := .draft, schedule := none, archived := false }
  version := 0
  reads := []
  flights := []
  fired := []

namespace State

/-- The row after a statement that leaves the schedule's start alone. -/
def keep (s : State) (row : Campaign) : State := { s with row := row }

/-- The row after a write to the `schedule` column. -/
def write (s : State) (row : Campaign) : State := { s with row := row, version := s.version + 1 }

/-- A client's request: the row it wrote, or the problem it was answered with. -/
def request (s : State) (answer : Except Problem Campaign) : State :=
  match answer with
  | .ok row => s.write row
  | .error _ => s

/-- The scheduler acted on `read`. -/
def record (s : State) (effect : Effect) (read : Read) : State :=
  { s with fired := s.fired ++ [⟨effect, read, s.row, s.version⟩] }

/-- The `k`-th read is taken up. -/
def takeRead (s : State) (k : ℕ) : State := { s with reads := s.reads.eraseIdx k }

/-- The `k`-th flight lands. -/
def land (s : State) (k : ℕ) : State := { s with flights := s.flights.eraseIdx k }

/-- A launch has passed its gate. -/
def takeOff (s : State) (flight : Flight) : State := { s with flights := s.flights ++ [flight] }

end State

/-! ## `fire_schedule` -/

/-- The one-time path: past the grace it expires, else it asks the gate. -/
def fireOneTime (s : State) (read : Read) (others : List String) : State :=
  if read.due.startAt + grace < read.now then
    match expireCas s.row with
    | none => s
    | some row => (s.record .expired read).write row
  else if launchBlockers s.row others = [] then s.takeOff (.launching (some read))
  else if s.row.status = .scheduled then
    s.takeOff (.blocking (launchBlockers s.row others))
  else s

/-- `_fire_recurrence`, under the row's lock. -/
def fireRecurrence (s : State) (read : Read) (rule : Recurrence) (others : List String) : State :=
  match claimOccurrence s.row read.due.startAt with
  | none => s
  | some stored =>
    if read.due.startAt + recurrenceCatchup < read.now then
      (s.record .skipped read).write (rewriteSchedule s.row stored (rule.nextAfter read.now))
    else if launchBlockers s.row others = [] then
      match launchCas s.row with
      | none => s
      | some row =>
        (s.record .launched read).write
          (rewriteSchedule row stored (rule.nextAfter read.due.startAt))
    else s.keep (recordBlock s.row (launchBlockers s.row others))

/-- **`fire_schedule`.** -/
def fireSchedule (s : State) (read : Read) (others : List String) : State :=
  match read.due.recurrence with
  | none => fireOneTime s read others
  | some rule => fireRecurrence s read rule others

/-- The second half of a launch or of a refusal. -/
def proceed (s : State) (flight : Flight) : State :=
  match flight with
  | .blocking rules => s.keep (recordBlock s.row rules)
  | .launching read =>
    match launchCas s.row with
    | none => s
    | some row =>
      match read with
      | none => s.keep row
      | some read => (s.record .launched read).keep row

/-! ## The schedule of events -/

/-- What can happen next. `others` are the launch rules about the world outside the row. -/
inductive Action where
  | scheduleCampaign (startAt now : ℕ)
  | scheduleRecurrence (days : List ℕ) (atMinute : ℕ) (ends : Option ℕ) (now : ℕ)
  | unscheduleCampaign
  | launchCampaign (others : List String)
  | proceed (k : ℕ)
  | setStatus (toStatus : CampaignStatus) (fromStatuses : List CampaignStatus)
  | archive
  | restore
  | readDue (now : ℕ)
  | fire (k : ℕ) (others : List String)
  | completeOrRearm
  deriving DecidableEq, Repr

/-- The calls of `set_campaign_status` there are: pause, resume and cancel a draft. -/
def statusCalls : List (CampaignStatus × List CampaignStatus) :=
  [(.paused, [.running]), (.running, [.paused]), (.cancelled, [.draft])]

/-- One step. -/
def step (s : State) : Action → State
  | .scheduleCampaign startAt now => s.request (scheduleCampaign s.row startAt now)
  | .scheduleRecurrence days atMinute ends now =>
    s.request (scheduleRecurrence s.row days atMinute ends now)
  | .unscheduleCampaign => s.request (unscheduleCampaign s.row)
  | .launchCampaign others =>
    if launchBlockers s.row others = [] then s.takeOff (.launching none) else s
  | .proceed k =>
    match s.flights[k]? with
    | none => s
    | some flight => proceed (s.land k) flight
  | .setStatus toStatus fromStatuses =>
    if (toStatus, fromStatuses) ∈ statusCalls then
      match setCampaignStatus s.row toStatus fromStatuses with
      | .ok row => s.keep row
      | .error _ => s
    else s
  | .archive => if s.row.archived then s else s.request (archiveCampaign s.row)
  | .restore => s.keep (restoreCampaign s.row)
  | .readDue now =>
    { s with reads := s.reads ++ (dueSchedules s.row now).map fun due => ⟨due, now, s.version⟩ }
  | .fire k others =>
    match s.reads[k]? with
    | none => s
    | some read => fireSchedule (s.takeRead k) read others
  | .completeOrRearm => s.keep (completeOrRearm s.row)

/-- The state a sequence of actions leads to. -/
def run (actions : List Action) : State := actions.foldl step start

end Calevate.Campaigns
