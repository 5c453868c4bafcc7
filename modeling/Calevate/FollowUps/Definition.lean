import Mathlib.Data.Int.Notation
import Mathlib.Data.List.Dedup
import Mathlib.Data.List.Nodup

/-!
# What a follow-up says

A follow-up as data: its trigger, its steps with where each of their exits leads, and its
settings; what a publish refuses in it before any database is asked; and the edits a client
makes to it without a rewrite. An exit that leads nowhere ends the run.
-/

namespace Calevate.FollowUps

/-! ## Keys -/

/-- `^[a-z][a-z0-9_]{0,n-1}$`. -/
def isKey (n : ℕ) (s : String) : Bool :=
  s.length ≤ n &&
    match s.toList with
    | [] => false
    | c :: rest => c.isLower && rest.all fun c => c.isLower || c.isDigit || c = '_'

/-- A key of at most `n` characters. -/
abbrev Key (n : ℕ) := { s : String // isKey n s = true }

/-- `StepId`. -/
abbrev StepId := Key 16

/-- `FieldKey`. -/
abbrev FieldKey := Key 40

/-- `OutcomeKey`. -/
abbrev OutcomeKey := Key 40

/-- `Target`. -/
abbrev Target := Option StepId

/-! ## Triggers -/

/-- `LeadStatus`. -/
inductive LeadStatus where
  | new
  | contacted
  | interested
  | hot
  | won
  | lost
  deriving DecidableEq, Repr

/-- `FieldEquals`. -/
structure FieldEquals where
  key : FieldKey
  equals : String
  deriving DecidableEq, Repr

/-- `OnlyIf`. -/
structure OnlyIf where
  leadStatus : Option (List LeadStatus) := none
  sourceIds : Option (List ℕ) := none
  field : Option FieldEquals := none
  deriving DecidableEq, Repr

/-- The calls a `call_ended` trigger hears. -/
inductive Calls where
  | inbound
  | outbound
  | both
  deriving DecidableEq, Repr

/-- `Trigger`. -/
inductive Trigger where
  | newLead (sourceIds : Option (List ℕ)) (onlyIf : Option OnlyIf)
  | callEnded (agentIds : Option (List ℕ)) (calls : Calls) (outcomes : Option (List OutcomeKey))
      (onlyIf : Option OnlyIf)
  | manual (onlyIf : Option OnlyIf)
  | leadDate (field : FieldKey) (offsetDays : ℤ) (at_ : String) (onlyIf : Option OnlyIf)
  deriving DecidableEq, Repr

namespace Trigger

def onlyIf : Trigger → Option OnlyIf
  | newLead _ o => o
  | callEnded _ _ _ o => o
  | manual o => o
  | leadDate _ _ _ o => o

def isNewLead : Trigger → Bool
  | newLead _ _ => true
  | _ => false

def isCallEnded : Trigger → Bool
  | callEnded _ _ _ _ => true
  | _ => false

end Trigger

/-! ## Steps -/

/-- `CallExits`. -/
structure CallExits where
  answered : Target := none
  notReached : Target := none
  deriving DecidableEq, Repr

/-- `CallStep`. -/
structure CallStep where
  id : StepId
  agentId : Option ℕ := none
  waitMinutes : ℕ := 0
  waitSeconds : Option ℕ := none
  retries : ℕ := 0
  retryMinutes : ℕ := 60
  next : CallExits := {}
  deriving DecidableEq, Repr

/-- `DecideStep`; `on` is a dict, so no key comes twice. -/
structure DecideStep where
  id : StepId
  on : List (OutcomeKey × Target)
  other : Target
  nodup : (on.map Prod.fst).Nodup
  deriving DecidableEq, Repr

/-- `WaitStep`. -/
structure WaitStep where
  id : StepId
  minutes : Option ℕ := none
  hours : Option ℕ := none
  days : Option ℕ := none
  untilField : Option FieldKey := none
  offsetDays : ℤ := 0
  at_ : Option String := none
  next : Target := none
  deriving DecidableEq, Repr

/-- Where a blank of a template is filled from. -/
inductive ValueSource where
  | leadField
  | leadName
  | agentName
  | businessName
  | text
  deriving DecidableEq, Repr

/-- `TemplateValue`. -/
structure TemplateValue where
  source : ValueSource
  key : Option FieldKey := none
  text : Option String := none
  deriving DecidableEq, Repr

/-- `SendExits`. -/
structure SendExits where
  sent : Target := none
  notSent : Target := none
  deriving DecidableEq, Repr

/-- `WhatsAppStep`. -/
structure WhatsAppStep where
  id : StepId
  templateId : ℕ
  values : List TemplateValue := []
  next : SendExits := {}
  deriving DecidableEq, Repr

/-- `AssignStep`. -/
structure AssignStep where
  id : StepId
  userId : ℕ
  next : Target := none
  deriving DecidableEq, Repr

/-- `SetStatusStep`; a step never sets a lead back to new. -/
structure SetStatusStep where
  id : StepId
  status : LeadStatus
  next : Target := none
  settable : status ≠ .new
  deriving DecidableEq, Repr

/-- `TellTeamStep`. -/
structure TellTeamStep where
  id : StepId
  why : String
  next : Target := none
  deriving DecidableEq, Repr

/-- `ActionExits`. -/
structure ActionExits where
  done : Target := none
  failed : Target := none
  deriving DecidableEq, Repr

/-- `ActionStep`. -/
structure ActionStep where
  id : StepId
  actionId : ℕ
  next : ActionExits := {}
  deriving DecidableEq, Repr

/-- `EndStep`. -/
structure EndStep where
  id : StepId
  goal : Bool := false
  deriving DecidableEq, Repr

/-- `Step`. -/
inductive Step where
  | call (s : CallStep)
  | decide (s : DecideStep)
  | wait (s : WaitStep)
  | whatsApp (s : WhatsAppStep)
  | assign (s : AssignStep)
  | setStatus (s : SetStatusStep)
  | tellTeam (s : TellTeamStep)
  | action (s : ActionStep)
  | end_ (s : EndStep)
  deriving DecidableEq, Repr

namespace Step

def id : Step → StepId
  | call s => s.id
  | decide s => s.id
  | wait s => s.id
  | whatsApp s => s.id
  | assign s => s.id
  | setStatus s => s.id
  | tellTeam s => s.id
  | action s => s.id
  | end_ s => s.id

def isCall : Step → Bool
  | call _ => true
  | _ => false

/-- `_needs_a_call`. -/
def needsACall : Step → Bool
  | decide _ => true
  | tellTeam _ => true
  | action _ => true
  | _ => false

end Step

/-! ## Settings -/

/-- May a lead come into the follow-up again? -/
inductive Again where
  | never
  | afterLast
  | after30Days
  deriving DecidableEq, Repr

/-- `Settings`. -/
structure Settings where
  goal : Option OutcomeKey := none
  stopOnReply : Bool := true
  stopOnWonLost : Bool := true
  again : Again := .afterLast
  maxDays : ℕ := 14
  startsPerHour : Option ℕ := none
  deriving DecidableEq, Repr

/-! ## Exits -/

/-- A dict with one entry written: in its place, or behind the others. -/
def setItem (d : List (String × Target)) (key : String) (target : Target) :
    List (String × Target) :=
  if d.any fun e => e.1 = key then d.map fun e => if e.1 = key then (key, target) else e
  else d ++ [(key, target)]

/-- **`exits_of`**, in order. -/
def exitsOf : Step → List (String × Target)
  | .call s => [("answered", s.next.answered), ("not_reached", s.next.notReached)]
  | .whatsApp s => [("sent", s.next.sent), ("not_sent", s.next.notSent)]
  | .action s => [("done", s.next.done), ("failed", s.next.failed)]
  | .decide s => setItem (s.on.map fun e => (e.1.val, e.2)) "other" s.other
  | .end_ _ => []
  | .wait s => [("next", s.next)]
  | .assign s => [("next", s.next)]
  | .setStatus s => [("next", s.next)]
  | .tellTeam s => [("next", s.next)]

/-- `exits_of(step).get(exit_name)`. -/
def exitTarget (step : Step) (exitName : String) : Target :=
  ((exitsOf step).find? fun e => e.1 = exitName).bind Prod.snd

/-- `step_by_id`. -/
def stepById (steps : List Step) (stepId : String) : Option Step :=
  steps.find? fun s => s.id.val = stepId

/-! ## What a publish refuses -/

/-- `Problem`. -/
structure Problem where
  stepId : Option StepId
  code : String
  message : String
  deriving DecidableEq, Repr

/-- `MAX_STEPS`. -/
def maxSteps : ℕ := 30

/-- The first place of an id. -/
def position (steps : List Step) (stepId : String) : Option ℕ :=
  steps.findIdx? fun s => s.id.val = stepId

/-- The ids that come again, each time they do. -/
def repeatedIds : List StepId → List Step → List Problem
  | _, [] => []
  | seen, step :: rest =>
    (if step.id ∈ seen then [⟨some step.id, "step_id_repeated", "Two steps share this id."⟩]
      else []) ++ repeatedIds (step.id :: seen) rest

/-- An exit of the step at an index. -/
def exitProblem (steps : List Step) (index : ℕ) (step : Step) (exitName : String) :
    Target → List Problem
  | none => []
  | some target =>
    match position steps target.val with
    | none =>
      [⟨some step.id, "step_missing", "'" ++ exitName ++ "' leads to a step that is gone."⟩]
    | some place =>
      if place ≤ index then
        [⟨some step.id, "step_goes_back", "'" ++ exitName ++
          "' leads back to an earlier step. Steps only go forward."⟩]
      else []

/-- A wait says one thing to wait for. -/
def waitProblems : Step → List Problem
  | .wait s =>
    (if [s.minutes, s.hours, s.days].countP Option.isSome + s.untilField.toList.length ≠ 1 then
        [⟨some s.id, "wait_unclear",
          "Say how long to wait, or which date on the lead to wait for."⟩]
      else []) ++
    (if s.untilField = none ∧ s.at_ ≠ none then
        [⟨some s.id, "wait_unclear", "A time of day goes with a date to wait for."⟩]
      else [])
  | _ => []

/-- A blank of a message says what fills it; `blank` is a text that `strip` empties. -/
def valueProblems (blank : String → Bool) : Step → List Problem
  | .whatsApp s => s.values.flatMap fun value =>
    (if value.source = .leadField ∧ value.key = none then
        [⟨some s.id, "value_unclear", "Choose which lead detail fills a blank."⟩]
      else []) ++
    (if value.source = .text ∧ blank (value.text.getD "") = true then
        [⟨some s.id, "value_unclear", "Write the text for a blank."⟩]
      else [])
  | _ => []

/-- A decision has outcomes. -/
def decideProblems : Step → List Problem
  | .decide s =>
    if s.on = [] then [⟨some s.id, "decide_empty", "Say which call outcomes lead where."⟩] else []
  | _ => []

/-- The steps from an index on, a call before them or not. -/
def stepProblems (blank : String → Bool) (steps : List Step) :
    ℕ → Bool → List Step → List Problem
  | _, _, [] => []
  | index, callBefore, step :: rest =>
    ((exitsOf step).flatMap fun e => exitProblem steps index step e.1 e.2) ++
      (if step.needsACall ∧ callBefore = false then
          [⟨some step.id, "needs_a_call", "Put a call step before this one."⟩]
        else []) ++
      waitProblems step ++ valueProblems blank step ++ decideProblems step ++
      stepProblems blank steps (index + 1) (callBefore || step.isCall) rest

/-- The goal is an outcome that some step checks. -/
def goalProblems (steps : List Step) (settings : Settings) : List Problem :=
  match settings.goal with
  | none => []
  | some goal =>
    if steps.any fun
        | .decide s => s.on.any fun e => e.1 = goal
        | _ => false
    then []
    else [⟨none, "goal_unused", "The goal must be an outcome one of the steps checks."⟩]

/-- Only a new lead's arrival has a source to check. -/
def sourceProblems (trigger : Trigger) : List Problem :=
  if (trigger.onlyIf.any fun o => o.sourceIds.isSome) ∧ trigger.isNewLead = false then
    [⟨none, "source_needs_new_lead",
      "Only a follow-up that starts when a new lead arrives can check the lead source."⟩]
  else []

/-- **`shape_problems`**. -/
def shapeProblems (blank : String → Bool) (trigger : Trigger) (steps : List Step)
    (settings : Settings) : List Problem :=
  if steps = [] then [⟨none, "no_steps", "Add at least one step."⟩]
  else
    (if maxSteps < steps.length then
        [⟨none, "too_many_steps", "Use at most " ++ toString maxSteps ++ " steps."⟩]
      else []) ++
    repeatedIds [] steps ++ stepProblems blank steps 0 trigger.isCallEnded steps ++
    goalProblems steps settings ++ sourceProblems trigger

/-! ## Edits -/

/-- `StepEdit`. -/
structure StepEdit where
  stepId : String
  waitMinutes : Option ℤ := none
  templateId : Option ℕ := none
  values : Option (List TemplateValue) := none
  agentId : Option ℕ := none
  remove : Bool := false
  deriving DecidableEq, Repr

/-- What an edit raises: `_refuse_edit`, under the field `step_edits.<id>`, or the schema's
refusal of the changed step. -/
inductive EditError where
  | invalid (field detail : String)
  | validation
  deriving DecidableEq, Repr

/-- `_refuse_edit`. -/
def refuseEdit {α : Type} (stepId : String) (detail : String) : Except EditError α :=
  .error (.invalid ("step_edits." ++ stepId) detail)

/-- An exit, once the step it led to is gone. -/
def redirect (gone : StepId) (onward : Target) (target : Target) : Target :=
  if target = some gone then onward else target

/-- **`_repoint`**. -/
def repoint (gone : StepId) (onward : Target) : Step → Step
  | .call s => .call { s with
      next := ⟨redirect gone onward s.next.answered, redirect gone onward s.next.notReached⟩ }
  | .decide s => .decide { s with
      on := s.on.map fun e => (e.1, redirect gone onward e.2)
      other := redirect gone onward s.other
      nodup := by
        have h := s.nodup
        rwa [List.map_map, show Prod.fst ∘ (fun e : OutcomeKey × Target =>
          (e.1, redirect gone onward e.2)) = Prod.fst from rfl] }
  | .wait s => .wait { s with next := redirect gone onward s.next }
  | .whatsApp s => .whatsApp { s with
      next := ⟨redirect gone onward s.next.sent, redirect gone onward s.next.notSent⟩ }
  | .assign s => .assign { s with next := redirect gone onward s.next }
  | .setStatus s => .setStatus { s with next := redirect gone onward s.next }
  | .tellTeam s => .tellTeam { s with next := redirect gone onward s.next }
  | .action s => .action { s with
      next := ⟨redirect gone onward s.next.done, redirect gone onward s.next.failed⟩ }
  | .end_ s => .end_ s

/-- Where the steps that led to a removed step lead: where it led, if that was one step. -/
def onwardOf (step : Step) : Target :=
  match ((exitsOf step).filterMap Prod.snd).dedup with
  | [target] => some target
  | _ => none

/-- The removal of a step. -/
def removeStep (steps : List Step) (step : Step) : List Step :=
  (steps.filter fun other => other.id ≠ step.id).map (repoint step.id (onwardOf step))

/-- `CALL_WAIT_MAX_MINUTES`. -/
def callWaitMaxMinutes : ℤ := 1440

/-- `WAIT_MAX_DAYS`. -/
def waitMaxDays : ℤ := 30

/-- `MAX_VALUES`. -/
def maxValues : ℕ := 10

/-- The wait an edit gives. -/
def changeWait (minutes : ℤ) : Step → Except EditError Step
  | .call s =>
    if callWaitMaxMinutes < minutes then
      refuseEdit s.id.val "A call waits at most a day before its first try."
    else .ok (.call { s with waitMinutes := minutes.toNat, waitSeconds := none })
  | .wait s =>
    if s.untilField ≠ none then refuseEdit s.id.val "This step has no wait to change."
    else if ¬ (1 ≤ minutes ∧ minutes ≤ waitMaxDays * 1440) then
      refuseEdit s.id.val "Wait between a minute and 30 days."
    else .ok (.wait { s with minutes := some minutes.toNat, hours := none, days := none })
  | step => refuseEdit step.id.val "This step has no wait to change."

/-- The agent an edit gives. -/
def changeAgent (agentId : ℕ) : Step → Except EditError Step
  | .call s => .ok (.call { s with agentId := some agentId })
  | step => refuseEdit step.id.val "Only a call step has an agent."

/-- The message an edit gives, if it gives one. -/
def changeMessage (templateId : Option ℕ) (values : Option (List TemplateValue)) (step : Step) :
    Except EditError Step :=
  if templateId.isNone && values.isNone then .ok step
  else match step with
    | .whatsApp s => .ok (.whatsApp { s with
        templateId := templateId.getD s.templateId, values := values.getD s.values })
    | _ => refuseEdit step.id.val "Only a WhatsApp step has a message."

/-- A change, where the edit gives one. -/
def whenGiven {α : Type} (given : Option α) (change : α → Step → Except EditError Step)
    (step : Step) : Except EditError Step :=
  match given with
  | none => .ok step
  | some value => change value step

namespace StepEdit

/-- The edit changes nothing. -/
def isEmpty (edit : StepEdit) : Bool :=
  edit.waitMinutes.isNone && edit.agentId.isNone && edit.templateId.isNone && edit.values.isNone

/-- The edit's fields pass the step's schema. -/
def Valid (edit : StepEdit) (step : Step) : Prop :=
  (step.isCall = true → ∀ minutes ∈ edit.waitMinutes, 0 ≤ minutes) ∧
    ∀ values ∈ edit.values, values.length ≤ maxValues

instance (edit : StepEdit) (step : Step) : Decidable (edit.Valid step) :=
  inferInstanceAs (Decidable ((_ → _) ∧ _))

/-- The step with the edit's fields in. -/
def change (edit : StepEdit) (step : Step) : Except EditError Step := do
  let waited ← whenGiven edit.waitMinutes changeWait step
  let called ← whenGiven edit.agentId changeAgent waited
  let said ← changeMessage edit.templateId edit.values called
  if edit.Valid step then pure said else .error .validation

end StepEdit

/-- **`_apply_edit`**. -/
def applyEdit (steps : List Step) (edit : StepEdit) : Except EditError (List Step) :=
  match stepById steps edit.stepId with
  | none => refuseEdit edit.stepId "That step is not in this follow-up."
  | some step =>
    if edit.remove then .ok (removeStep steps step)
    else if edit.isEmpty then .ok steps
    else do
      let updated ← edit.change step
      pure (steps.map fun s => if s.id = step.id then updated else s)

/-- The edits of one request. -/
def applyEdits (steps : List Step) (edits : List StepEdit) : Except EditError (List Step) :=
  edits.foldlM applyEdit steps

end Calevate.FollowUps
