import Calevate.FollowUps.Definition

/-!
# One lead going through a follow-up

A run stands at one step of its version and is moved by `advance` only: by the exit its step
came to, or by the call that ended. `apply` is what a worker does with a step's outcome, and
the events are all that happens to a run's row, each write guarded by the status it needs.
-/

namespace Calevate.FollowUps

/-- `follow_up_runs.status`. -/
inductive RunStatus where
  | running
  | waiting
  | done
  | stopped
  deriving DecidableEq, Repr

/-- `Run`, and the columns its writes keep. -/
structure Run where
  id : ℕ
  followUpId : ℕ
  status : RunStatus
  stepId : String
  attempt : ℕ := 0
  wakeAt : Option ℕ := none
  waitingCallId : Option ℕ := none
  lastCallId : Option ℕ := none
  goalReached : Bool := false
  endReason : Option String := none
  endedAt : Option ℕ := none
  updatedAt : ℕ
  deriving DecidableEq, Repr

namespace Run

/-- `status IN ('running', 'waiting')`. -/
def Live (run : Run) : Prop := run.status = .running ∨ run.status = .waiting

instance (run : Run) : Decidable run.Live := inferInstanceAs (Decidable (_ ∨ _))

/-- `_finish`. -/
def finish (now : ℕ) (status : RunStatus) (reason : String) (goal : Bool) (run : Run) : Run :=
  if run.Live then
    { run with
      status, endReason := some (String.ofList (reason.toList.take 64)), endedAt := some now
      wakeAt := none, waitingCallId := none, goalReached := run.goalReached || goal
      updatedAt := now }
  else run

/-- The step an exit of the run's step leads to. -/
def leadsTo (steps : List Step) (exitName : String) (run : Run) : Target :=
  (stepById steps run.stepId).bind fun step => exitTarget step exitName

/-- **`advance`**: the row behind it, and the next step's id. -/
def advance (now : ℕ) (steps : List Step) (exitName : String) (goal : Bool)
    (callId : Option ℕ) (run : Run) : Run × Target :=
  match run.leadsTo steps exitName with
  | none => (run.finish now .done (if goal then "goal" else "finished") goal, none)
  | some target =>
    (if run.Live then
        { run with
          status := .waiting, stepId := target.val, attempt := 0, wakeAt := some now
          waitingCallId := none, lastCallId := callId.or run.lastCallId
          goalReached := run.goalReached || goal, updatedAt := now }
      else run, some target)

/-- `wait_on_call`. -/
def waitOnCall (now : ℕ) (callId attempt : Option ℕ) (run : Run) : Run :=
  if run.status = .waiting then
    { run with
      waitingCallId := callId, lastCallId := callId.or run.lastCallId
      attempt := attempt.getD run.attempt, wakeAt := none, updatedAt := now }
  else run

/-- `STALE_CLAIM`, in seconds. -/
def staleClaim : ℕ := 300

/-- `_CLAIM_SQL` of a run whose follow-up is live or not. -/
def claim (now : ℕ) (live : Bool) (run : Run) : Run :=
  if live ∧ ((run.status = .waiting ∧ run.wakeAt.any (· ≤ now) = true) ∨
      (run.status = .running ∧ run.updatedAt + staleClaim < now)) then
    { run with status := .running, updatedAt := now }
  else run

/-- `_RELEASE_SQL`. -/
def release (now : ℕ) (stepId : String) (run : Run) : Run :=
  if run.status = .running ∧ run.stepId = stepId then
    { run with
      status := .waiting, wakeAt := some ((run.wakeAt.map (min · now)).getD now)
      updatedAt := now }
  else run

end Run

/-! ## What a step came to -/

/-- `StepResult`. -/
inductive StepResult where
  | exit (exitName result : String) (goal : Bool)
  | until_ (wake : ℕ)
  | call
  | end_ (reason result : String)
  deriving DecidableEq, Repr

/-- What a call's row says of how it went. -/
structure CallReading where
  businessOutcome : Option String := none
  outcomeTag : Option String := none
  insightsOutcome : Option String := none
  deriving DecidableEq, Repr

/-- `OUTCOME_TAGS`. -/
def outcomeTags : List String :=
  ["call_back_booked", "needs_you", "answered", "transferred", "hung_up_early", "missed"]

/-- `LEGACY_TO_CURRENT`. -/
def legacyToCurrent : List (String × String) :=
  [("resolved", "answered"), ("needs_follow_up", "needs_you"), ("transferred", "transferred"),
    ("dropped", "hung_up_early")]

/-- `normalise`. -/
def normalise (stored : Option String) : Option String :=
  stored.bind fun tag => if tag ∈ outcomeTags then some tag else legacyToCurrent.lookup tag

/-- The outcomes a call has, in the order a decision asks for them. -/
def CallReading.keys (call : CallReading) : List String :=
  ([call.businessOutcome, normalise call.outcomeTag, call.insightsOutcome].filterMap id).filter
    (· ≠ "")

/-- The outcome a decision goes by: the first its table names. -/
def chosenOutcome (step : DecideStep) (reading : Option CallReading) : Option String :=
  ((reading.map CallReading.keys).getD []).find? fun k => step.on.any fun e => e.1.val = k

/-- **`_decide`**, of the run's last call if it has one. -/
def decideOn (step : DecideStep) (goal : Option OutcomeKey) (reading : Option CallReading) :
    StepResult :=
  match chosenOutcome step reading with
  | none => .exit "other" "branch:other" false
  | some chosen => .exit chosen ("branch:" ++ chosen) (goal.any fun g => g.val = chosen)

/-- **`apply`**: the row behind it, and is the next step due now? -/
def Run.apply (now : ℕ) (steps : List Step) (outcome : StepResult) (run : Run) : Run × Bool :=
  match outcome with
  | .until_ wake =>
    (if run.status = .running then
        { run with status := .waiting, wakeAt := some wake, updatedAt := now } else run, false)
  | .call =>
    (if run.status = .running then
        { run with status := .waiting, wakeAt := none, updatedAt := now } else run, false)
  | .end_ reason _ =>
    (run.finish now (if reason = "goal" ∨ reason = "finished" then .done else .stopped) reason
      (reason = "goal"), false)
  | .exit exitName _ goal =>
    ((run.advance now steps exitName goal none).1,
      (run.advance now steps exitName goal none).2.isSome)

/-! ## A run's life -/

/-- What happens to a run's row. -/
inductive RunEvent where
  | claim (now : ℕ) (live : Bool)
  | release (now : ℕ) (stepId : String)
  | apply (now : ℕ) (outcome : StepResult)
  | leave (now : ℕ) (exitName : String) (callId : Option ℕ)
  | waitOnCall (now : ℕ) (callId attempt : Option ℕ)
  | nextTry (now : ℕ) (wakeAt : Option ℕ) (attempt callId : ℕ)
  | wake (now : ℕ)
  | stop (now : ℕ) (reason : String)
  deriving DecidableEq, Repr

/-- The row behind an event. -/
def Run.step (steps : List Step) (run : Run) : RunEvent → Run
  | .claim now live => run.claim now live
  | .release now stepId => run.release now stepId
  | .apply now outcome => (run.apply now steps outcome).1
  | .leave now exitName callId => (run.advance now steps exitName false callId).1
  | .waitOnCall now callId attempt => run.waitOnCall now callId attempt
  | .nextTry now wakeAt attempt callId =>
    if run.status = .waiting then
      { run with
        attempt, waitingCallId := none, lastCallId := some callId
        wakeAt := wakeAt.or run.wakeAt, updatedAt := now }
    else run
  | .wake now => if run.status = .waiting then { run with wakeAt := some now } else run
  | .stop now reason => run.finish now .stopped reason false

/-- The exit an event takes the run's step by. -/
def RunEvent.exitName : RunEvent → Option String
  | .apply _ (.exit exitName _ _) => some exitName
  | .leave _ exitName _ => some exitName
  | _ => none

/-- The moves an event makes: one where a live run's exit leads on, else none. -/
def moves (steps : List Step) (run : Run) (event : RunEvent) : ℕ :=
  if run.Live ∧ (event.exitName.bind fun exitName => run.leadsTo steps exitName).isSome then 1
  else 0

/-! ## Where a run stands -/

namespace Run

theorem finish_stepId (now : ℕ) (status : RunStatus) (reason : String) (goal : Bool)
    (run : Run) : (run.finish now status reason goal).stepId = run.stepId := by
  unfold finish
  split <;> rfl

theorem finish_not_live {run : Run} (now : ℕ) {status : RunStatus} (reason : String)
    (goal : Bool) (h : status = .done ∨ status = .stopped) :
    ¬ (run.finish now status reason goal).Live := by
  unfold finish
  split
  · rcases h with rfl | rfl <;> simp [Live]
  · assumption

/-- An exit that leads nowhere ends the run. -/
theorem advance_none {steps : List Step} {exitName : String} {run : Run}
    (h : run.leadsTo steps exitName = none) (now : ℕ) (goal : Bool) (callId : Option ℕ) :
    ¬ (run.advance now steps exitName goal callId).1.Live := by
  simp only [advance, h]
  exact finish_not_live now _ goal (.inl rfl)

/-- An exit that leads on moves a live run there. -/
theorem advance_some {steps : List Step} {exitName : String} {run : Run} {target : StepId}
    (h : run.leadsTo steps exitName = some target) (hlive : run.Live) (now : ℕ) (goal : Bool)
    (callId : Option ℕ) :
    (run.advance now steps exitName goal callId).1.Live ∧
      (run.advance now steps exitName goal callId).1.stepId = target.val := by
  simp only [advance, h, if_pos hlive]
  exact ⟨.inr rfl, trivial⟩

/-- **Where a run stands behind an exit**: a live run whose exit leads on stands there, and any
other stands where it stood. -/
theorem advance_stepId (now : ℕ) (steps : List Step) (exitName : String) (goal : Bool)
    (callId : Option ℕ) (run : Run) :
    (run.advance now steps exitName goal callId).1.stepId =
      if run.Live then ((run.leadsTo steps exitName).map Subtype.val).getD run.stepId
      else run.stepId := by
  unfold advance
  cases hto : run.leadsTo steps exitName with
  | none => simp [finish_stepId]
  | some target => by_cases hlive : run.Live <;> simp [hlive]

/-- **Where a run stands behind an event.** -/
theorem step_stepId (steps : List Step) (run : Run) (event : RunEvent) :
    (run.step steps event).stepId =
      if run.Live then ((event.exitName.bind fun exitName => run.leadsTo steps exitName).map
        Subtype.val).getD run.stepId
      else run.stepId := by
  cases event with
  | claim now live => simp only [step, claim, RunEvent.exitName]; split <;> simp
  | release now stepId => simp only [step, release, RunEvent.exitName]; split <;> simp
  | apply now outcome =>
    cases outcome with
    | exit exitName result goal =>
      simp [step, apply, advance_stepId, RunEvent.exitName]
    | until_ wake => simp only [step, apply, RunEvent.exitName]; split <;> simp
    | call => simp only [step, apply, RunEvent.exitName]; split <;> simp
    | end_ reason result => simp [step, apply, finish_stepId, RunEvent.exitName]
  | leave now exitName callId => simp [step, advance_stepId, RunEvent.exitName]
  | waitOnCall now callId attempt =>
    simp only [step, waitOnCall, RunEvent.exitName]; split <;> simp
  | nextTry now wakeAt attempt callId =>
    simp only [step, RunEvent.exitName]; split <;> simp
  | wake now => simp only [step, RunEvent.exitName]; split <;> simp
  | stop now reason => simp [step, finish_stepId, RunEvent.exitName]

end Run

end Calevate.FollowUps
