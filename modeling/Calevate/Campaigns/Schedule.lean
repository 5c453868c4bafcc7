import Mathlib.Data.List.Dedup
import Mathlib.Data.List.Sort
import Calevate.Lib.Calendar

/-!
# A campaign's schedule

Two columns of a campaign say when it starts: `status` and `schedule`. The functions here
are the statements that write them, each as what it does to the row or the problem it
raises. `schedule` holds the next occurrence under one key for both kinds, so `startAt` is
the identity of an occurrence whether it is a single start or a slot of a repeat.

Instants are microseconds of UTC. The stored texts (`isoformat`, `HH:MM`) are kept as the
values they spell: both spellings are one-to-one on what this module writes.
-/

namespace Calevate.Campaigns

open Lib

/-- `CAMPAIGN_STATUSES`. -/
inductive CampaignStatus where
  | draft
  | scheduled
  | running
  | paused
  | completed
  | cancelled
  deriving DecidableEq, Repr

/-- The problems the statements of this module raise. -/
inductive Problem where
  | scheduleInPast
  | scheduleTooFar
  | recurrenceNoDays
  | recurrenceDayOutOfRange
  | recurrenceOutsideCallingHours
  | recurrenceEndsBeforeItStarts
  | recurrenceEndTooFar
  | notSchedulable (status : CampaignStatus)
  | notScheduled (status : CampaignStatus)
  | launchBlocked (rules : List String)
  | invalidStatusTransition (found : CampaignStatus)
  deriving DecidableEq, Repr

/-! ## Repeats -/

/-- The offset of Indian time. -/
def istOffset : ℕ := 5 * Calendar.hour + 30 * Calendar.minute

/-- Monday is one. -/
def isoWeekday (days : ℕ) : ℕ := (days + 3) % 7 + 1

/-- `_ISO_WEEKDAYS`. -/
def isoWeekdays : List ℕ := [1, 2, 3, 4, 5, 6, 7]

/-- `Recurrence`: the days of the week, the minute of the Indian day, and an end. -/
structure Recurrence where
  days : List ℕ
  atMinute : ℕ
  ends : Option ℕ
  deriving DecidableEq, Repr

/-- **`Recurrence.next_after`**: the first occurrence strictly after `moment`, or none once
the end has passed. -/
def Recurrence.nextAfter (rule : Recurrence) (moment : ℕ) : Option ℕ :=
  let wall := moment + istOffset
  let slot := fun offset => (wall / Calendar.day + offset) * Calendar.day +
    rule.atMinute * Calendar.minute
  match (List.range 8).find? fun offset =>
      isoWeekday (wall / Calendar.day + offset) ∈ rule.days ∧ wall < slot offset with
  | none => none
  | some offset =>
    let candidate := slot offset - istOffset
    if rule.ends.any fun ends => decide (ends < candidate) then none else some candidate

/-! ## The stored column -/

/-- `ONE_TIME` and `RECURRING`. -/
inductive ScheduleKind where
  | oneTime
  | recurring
  deriving DecidableEq, Repr

/-- The `rule` object of a stored repeat. -/
structure StoredRule where
  days : List ℕ
  atMinute : ℕ
  deriving DecidableEq, Repr

/-- The `schedule` column. -/
structure StoredSchedule where
  kind : ScheduleKind
  startAt : ℕ
  rule : Option StoredRule
  ends : Option ℕ
  lastBlocked : Option (List String)
  deriving DecidableEq, Repr

/-- `DueSchedule`: an occurrence and, for a repeat, the rule behind it. -/
structure DueSchedule where
  startAt : ℕ
  recurrence : Option Recurrence
  deriving DecidableEq, Repr

/-- `_rule_from`: a rule without a usable weekday is not read. -/
def ruleFrom (raw : Option StoredRule) (ends : Option ℕ) : Option Recurrence :=
  match raw with
  | none => none
  | some rule =>
    let days := rule.days.dedup.insertionSort (· ≤ ·)
    if days = [] ∨ ∃ day ∈ days, day ∉ isoWeekdays then none
    else some { days := days, atMinute := rule.atMinute, ends := ends }

/-- **`_parse_schedule`.** -/
def parseSchedule (raw : StoredSchedule) : Option DueSchedule :=
  match raw.kind with
  | .oneTime => some { startAt := raw.startAt, recurrence := none }
  | .recurring =>
    match ruleFrom raw.rule raw.ends with
    | none => none
    | some rule => some { startAt := raw.startAt, recurrence := some rule }

/-- A row of `campaigns`, as far as its start is concerned. -/
structure Campaign where
  status : CampaignStatus
  schedule : Option StoredSchedule
  archived : Bool
  deriving DecidableEq, Repr

/-- Write the status. -/
def Campaign.setStatus (c : Campaign) (status : CampaignStatus) : Campaign :=
  { c with status := status }

/-- Write the schedule. -/
def Campaign.setSchedule (c : Campaign) (schedule : Option StoredSchedule) : Campaign :=
  { c with schedule := schedule }

/-- `status IN ('draft', 'scheduled')`. -/
def Campaign.waiting (c : Campaign) : Bool := c.status = .draft ∨ c.status = .scheduled

/-! ## The client's writes -/

/-- `MAX_HORIZON`. -/
def maxHorizon : ℕ := 180 * Calendar.day

/-- `DEFAULT_WINDOW`, in minutes of the Indian day. -/
def defaultWindow : ℕ × ℕ := (9 * 60, 21 * 60)

/-- The `UPDATE` both kinds of schedule end in. -/
def Campaign.arm (c : Campaign) (payload : StoredSchedule) : Except Problem Campaign :=
  if c.waiting then .ok ((c.setSchedule (some payload)).setStatus .scheduled)
  else .error (.notSchedulable c.status)

/-- **`schedule_campaign`.** -/
def scheduleCampaign (c : Campaign) (startAt now : ℕ) : Except Problem Campaign :=
  if startAt ≤ now then .error .scheduleInPast
  else if now + maxHorizon < startAt then .error .scheduleTooFar
  else
    c.arm { kind := .oneTime, startAt := startAt, rule := none, ends := none, lastBlocked := none }

/-- `_validated_rule`. -/
def validatedRule (days : List ℕ) (atMinute : ℕ) (ends : Option ℕ) (now : ℕ) :
    Except Problem Recurrence :=
  let unique := days.dedup.insertionSort (· ≤ ·)
  if unique = [] then .error .recurrenceNoDays
  else if ∃ day ∈ unique, day ∉ isoWeekdays then .error .recurrenceDayOutOfRange
  else if ¬ (defaultWindow.1 ≤ atMinute ∧ atMinute < defaultWindow.2) then
    .error .recurrenceOutsideCallingHours
  else if ends.any fun ends => decide (now + maxHorizon < ends) then .error .recurrenceEndTooFar
  else .ok { days := unique, atMinute := atMinute, ends := ends }

/-- `_recurrence_payload`. -/
def recurrencePayload (rule : Recurrence) (nextAt : ℕ) : StoredSchedule where
  kind := .recurring
  startAt := nextAt
  rule := some { days := rule.days, atMinute := rule.atMinute }
  ends := rule.ends
  lastBlocked := none

/-- **`schedule_recurrence`.** -/
def scheduleRecurrence (c : Campaign) (days : List ℕ) (atMinute : ℕ) (ends : Option ℕ)
    (now : ℕ) : Except Problem Campaign :=
  match validatedRule days atMinute ends now with
  | .error problem => .error problem
  | .ok rule =>
    match rule.nextAfter now with
    | none => .error .recurrenceEndsBeforeItStarts
    | some first => c.arm (recurrencePayload rule first)

/-- **`unschedule_campaign`**: one stop for both kinds. A campaign that was waiting is a
draft again, one that runs goes on. -/
def unscheduleCampaign (c : Campaign) : Except Problem Campaign :=
  match c.schedule with
  | none => .error (.notScheduled c.status)
  | some _ =>
    .ok ((c.setSchedule none).setStatus (if c.status = .scheduled then .draft else c.status))

/-- `set_campaign_status` over `transition_status`: already there is a success. -/
def setCampaignStatus (c : Campaign) (toStatus : CampaignStatus)
    (fromStatuses : List CampaignStatus) : Except Problem Campaign :=
  if c.status ∈ fromStatuses then .ok (c.setStatus toStatus)
  else if c.status = toStatus then .ok c
  else .error (.invalidStatusTransition c.status)

/-- Put the row away; its schedule goes with it. -/
def Campaign.putAway (c : Campaign) : Campaign := { c with archived := true, schedule := none }

/-- **`archive_campaign`.** -/
def archiveCampaign (c : Campaign) : Except Problem Campaign :=
  if c.archived then .ok c
  else
    match c.status with
    | .running => (setCampaignStatus c .paused [.running]).map Campaign.putAway
    | .scheduled => (unscheduleCampaign c).map Campaign.putAway
    | _ => .ok c.putAway

/-- `restore_campaign`. -/
def restoreCampaign (c : Campaign) : Campaign := { c with archived := false }

/-! ## Launching -/

/-- `launch_blockers`: the two rules about this row, before the rules about the world. -/
def launchBlockers (c : Campaign) (others : List String) : List String :=
  (if c.waiting then [] else ["status"]) ++ (if c.archived then ["campaign_archived"] else []) ++
    others

/-- The compare-and-swap `launch_campaign` ends in. `none` is no row. -/
def launchCas (c : Campaign) : Option Campaign :=
  if c.waiting ∧ c.archived = false then some (c.setStatus .running) else none

/-! ## The scheduler's writes -/

/-- `GRACE`. -/
def grace : ℕ := 24 * Calendar.hour

/-- `RECURRENCE_CATCHUP`. -/
def recurrenceCatchup : ℕ := Calendar.hour

/-- **`due_schedules`**, of this campaign. -/
def dueSchedules (c : Campaign) (now : ℕ) : List DueSchedule :=
  if c.status = .scheduled then
    match c.schedule.bind parseSchedule with
    | none => []
    | some due => if due.startAt ≤ now then [due] else []
  else []

/-- `_record_block`: once for each set of rules. -/
def recordBlock (c : Campaign) (rules : List String) : Campaign :=
  if c.status = .scheduled then
    c.setSchedule (c.schedule.map fun raw =>
      if raw.lastBlocked = some rules then raw else { raw with lastBlocked := some rules })
  else c

/-- The `UPDATE` of `_expire`. -/
def expireCas (c : Campaign) : Option Campaign :=
  if c.status = .scheduled then some ((c.setSchedule none).setStatus .draft) else none

/-- `_claim_occurrence`: the stored repeat, if this occurrence is still on the row. -/
def claimOccurrence (c : Campaign) (key : ℕ) : Option StoredSchedule :=
  c.schedule.filter fun raw =>
    c.status = .scheduled ∧ raw.kind = .recurring ∧ raw.startAt = key

/-- `_rewrite_schedule`: on to the next occurrence, or cleared when there is none. -/
def rewriteSchedule (c : Campaign) (stored : StoredSchedule) (nextAt : Option ℕ) : Campaign :=
  c.setSchedule (nextAt.map fun nextAt => { stored with startAt := nextAt, lastBlocked := none })

/-- **`complete_or_rearm`.** -/
def completeOrRearm (c : Campaign) : Campaign :=
  if c.status = .running then
    c.setStatus (if c.schedule.any fun raw => decide (raw.kind = .recurring) then .scheduled
      else .completed)
  else c

end Calevate.Campaigns
