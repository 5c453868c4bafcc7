import Calevate.FollowUps.Runs
import Calevate.Lib.Run

/-!
# Steps that need a call

A decision, a message to the team and an action are about the run's last call. The check of a
definition looks for a call step before them in the list; a run follows the exits, which may pass
the call step by, and a call step is also left where its call was never placed. Runs that leave no
call step so always have the call they need exactly where no exits lead to such a step past every
call step, `neededCall_iff`.
-/

namespace Calevate.FollowUps

open Lib.Run

/-! ## What a run can do -/

/-- What the execution of a step can come to. -/
def Comes (run : Run) : Step → StepResult → Prop
  | .call _, outcome => outcome = .call ∨ ∃ reason result, outcome = .end_ reason result
  | .decide s, outcome => ∃ goal reading, outcome = decideOn s goal reading ∧
      (run.lastCallId = none → reading = none)
  | .wait _, outcome => (∃ wake, outcome = .until_ wake) ∨
      ∃ result, outcome = .exit "next" result false
  | .whatsApp _, outcome => ∃ result, outcome = .exit "sent" result false ∨
      outcome = .exit "not_sent" result false
  | .assign _, outcome => ∃ result, outcome = .exit "next" result false
  | .setStatus _, outcome => ∃ result, outcome = .exit "next" result false
  | .tellTeam _, outcome => ∃ result, outcome = .exit "next" result false
  | .action _, outcome => ∃ result, outcome = .exit "done" result false ∨
      outcome = .exit "failed" result false
  | .end_ s, outcome => outcome = .end_ (if s.goal then "goal" else "finished") "end"

/-- The events that can happen to a run where it stands. A call step is left by the call that
ended, by an answer elsewhere, or as an orphan. -/
def Takes (steps : List Step) (run : Run) : RunEvent → Prop
  | .apply _ outcome => run.status = .running ∧
      ∃ step, stepById steps run.stepId = some step ∧ Comes run step outcome
  | .leave _ exitName _ => run.status = .waiting ∧
      (∃ s, stepById steps run.stepId = some (.call s)) ∧
      (exitName = "answered" ∨ exitName = "not_reached")
  | .waitOnCall _ _ _ => run.status = .waiting
  | .nextTry _ _ _ _ => run.status = .waiting ∧ ∃ s, stepById steps run.stepId = some (.call s)
  | _ => True

/-- A call step is left with a call placed, then or before. -/
def CallPlaced (run : Run) : RunEvent → Prop
  | .leave _ _ callId => callId.isSome = true ∨ run.lastCallId.isSome = true
  | _ => True

/-- `start_run`: at the first step, with the call that started it if one did. -/
structure StartedAt (steps : List Step) (callId : Option ℕ) (run : Run) : Prop where
  first : ∃ step rest, steps = step :: rest ∧ run.stepId = step.id.val
  status : run.status = .waiting
  lastCall : run.lastCallId = callId

/-- A step that needs a call is executed with one. -/
def HasCall (steps : List Step) (run : Run) : Prop :=
  ∀ step, stepById steps run.stepId = some step → step.needsACall = true →
    run.status = .running → run.lastCallId.isSome = true

/-- The steps that exits lead to past every call step, and past every step that needs a call. -/
inductive Callless (steps : List Step) : String → Prop
  | first {step : Step} {rest : List Step} (h : steps = step :: rest) : Callless steps step.id.val
  | onward {id : String} {step : Step} {exitName : String} {target : StepId}
      (h : Callless steps id) (hat : stepById steps id = some step) (hcall : step.isCall = false)
      (hneeds : step.needsACall = false) (hto : exitTarget step exitName = some target) :
      Callless steps target.val

/-- No exits lead to a step that needs a call past every call step. -/
def NoneCallless (steps : List Step) : Prop :=
  ∀ id step, Callless steps id → stepById steps id = some step → step.needsACall = false

/-! ## The last call -/

variable {steps : List Step} {run : Run} {event : RunEvent}

namespace Run

theorem finish_lastCallId (now : ℕ) (status : RunStatus) (reason : String) (goal : Bool)
    (run : Run) : (run.finish now status reason goal).lastCallId = run.lastCallId := by
  unfold finish
  split <;> rfl

/-- Behind an exit a run has the call it left with, or the one it had. -/
theorem advance_lastCallId (now : ℕ) (steps : List Step) (exitName : String) (goal : Bool)
    (callId : Option ℕ) (run : Run) :
    (run.advance now steps exitName goal callId).1.lastCallId =
      if run.Live ∧ (run.leadsTo steps exitName).isSome then callId.or run.lastCallId
      else run.lastCallId := by
  unfold advance
  cases hto : run.leadsTo steps exitName with
  | none => simp [finish_lastCallId]
  | some target => by_cases hlive : run.Live <;> simp [hlive]

/-- A run that has had a call has one for good. -/
theorem step_lastCallId (steps : List Step) (h : run.lastCallId.isSome = true)
    (event : RunEvent) :
    (run.step steps event).lastCallId.isSome = true := by
  cases event with
  | claim now live => simp only [step, claim]; split <;> exact h
  | release now stepId => simp only [step, release]; split <;> exact h
  | apply now outcome =>
    cases outcome with
    | exit exitName result goal =>
      simp only [step, apply, advance_lastCallId]
      split <;> simpa using h
    | until_ wake => simp only [step, apply]; split <;> exact h
    | call => simp only [step, apply]; split <;> exact h
    | end_ reason result => simpa only [step, apply, finish_lastCallId] using h
  | leave now exitName callId =>
    simp only [step, advance_lastCallId]
    split
    · cases callId <;> simp [h]
    · exact h
  | waitOnCall now callId attempt =>
    simp only [step, waitOnCall]
    split
    · cases callId <;> simp [h]
    · exact h
  | nextTry now wakeAt attempt callId =>
    simp only [step]
    split
    · rfl
    · exact h
  | wake now => simp only [step]; split <;> exact h
  | stop now reason => simpa only [step, finish_lastCallId] using h

/-- What is over stays over. -/
theorem step_live (h : (run.step steps event).Live) : run.Live := by
  by_contra hover
  have hfinish : ∀ now status reason goal, run.finish now status reason goal = run := by
    intro now status reason goal
    exact if_neg hover
  obtain ⟨hrunning, hwaiting⟩ := not_or.mp hover
  refine hover ?_
  cases event with
  | claim now live => simpa [step, claim, hrunning, hwaiting] using h
  | release now stepId => simpa [step, release, hrunning] using h
  | apply now outcome =>
    cases outcome with
    | exit exitName result goal =>
      simp only [step, apply, advance, hfinish, if_neg hover] at h
      split at h <;> exact h
    | until_ wake => simpa [step, apply, hrunning] using h
    | call => simpa [step, apply, hrunning] using h
    | end_ reason result => simpa only [step, apply, hfinish] using h
  | leave now exitName callId =>
    simp only [step, advance, hfinish, if_neg hover] at h
    split at h <;> exact h
  | waitOnCall now callId attempt => simpa [step, waitOnCall, hwaiting] using h
  | nextTry now wakeAt attempt callId => simpa [step, hwaiting] using h
  | wake now => simpa [step, hwaiting] using h
  | stop now reason => simpa only [step, hfinish] using h

end Run

/-! ## Runs that leave no call step without a call -/

/-- A live run without a call stands where no call step was passed. -/
def Walks (steps : List Step) (run : Run) : Prop :=
  run.Live → run.lastCallId = none → Callless steps run.stepId

theorem StartedAt.walks (h : StartedAt steps none run) : Walks steps run := by
  obtain ⟨step, rest, hsteps, hid⟩ := h.first
  intro _ _
  rw [hid]
  exact .first hsteps

theorem not_call_of_exit {step : Step} {exitName result : String} {goal : Bool}
    (h : Comes run step (.exit exitName result goal)) : step.isCall = false := by
  cases step with
  | call s => rcases h with h | ⟨_, _, h⟩ <;> cases h
  | _ => rfl

/-- **One event keeps a run without a call on the way past the call steps.** -/
theorem step_walks (hnone : NoneCallless steps) (h : Walks steps run)
    (htakes : Takes steps run event) (hplaced : CallPlaced run event) :
    Walks steps (run.step steps event) := by
  intro hlive' hcall'
  have hlive := Run.step_live hlive'
  have hcall : run.lastCallId = none := by
    cases hcall : run.lastCallId with
    | none => rfl
    | some callId =>
      have hkept := Run.step_lastCallId steps (by rw [hcall]; rfl) event
      rw [hcall'] at hkept
      cases hkept
  have hwalks := h hlive hcall
  rw [Run.step_stepId, if_pos hlive]
  cases hto : event.exitName.bind fun exitName => run.leadsTo steps exitName with
  | none => exact hwalks
  | some target =>
    obtain ⟨exitName, hname, hleads⟩ := Option.bind_eq_some_iff.mp hto
    obtain ⟨step, hat, hexit⟩ := Option.bind_eq_some_iff.mp hleads
    cases event with
    | apply now outcome =>
      cases outcome with
      | exit name result goal =>
        obtain rfl := Option.some.inj hname
        obtain ⟨-, step', hat', hcomes⟩ := htakes
        obtain rfl := Option.some.inj (hat.symm.trans hat')
        exact .onward hwalks hat (not_call_of_exit hcomes) (hnone _ _ hwalks hat) hexit
      | _ => cases hname
    | leave now name callId =>
      obtain rfl := Option.some.inj hname
      -- the run left a call step and has no call: none was placed
      rw [Run.step, Run.advance_lastCallId, if_pos ⟨hlive, hleads ▸ rfl⟩] at hcall'
      rcases hplaced with hplaced | hplaced
      · cases callId with
        | none => cases hplaced
        | some callId => cases hcall'
      · rw [hcall] at hplaced
        cases hplaced
    | _ => cases hname

/-! ## Runs past every call step -/

/-- An exit of a step that is neither a call nor needs one is one it can come to. -/
theorem comes_exit {step : Step} (hcall : step.isCall = false) (hneeds : step.needsACall = false)
    {exitName : String} {target : StepId} (hto : exitTarget step exitName = some target) :
    Comes run step (.exit exitName "" false) := by
  obtain ⟨⟨name, found⟩, hfound, -⟩ := Option.bind_eq_some_iff.mp hto
  have hname : name = exitName := by simpa using List.find?_some hfound
  have hmem := List.mem_of_find?_eq_some hfound
  subst hname
  cases step with
  | call s => cases hcall
  | decide s => cases hneeds
  | tellTeam s => cases hneeds
  | action s => cases hneeds
  | end_ s => cases hmem
  | whatsApp s =>
    refine ⟨"", ?_⟩
    rcases List.mem_cons.mp hmem with heq | hmem
    · obtain ⟨rfl, -⟩ := Prod.mk.inj heq
      exact .inl rfl
    · obtain ⟨rfl, -⟩ := Prod.mk.inj (List.mem_singleton.mp hmem)
      exact .inr rfl
  | wait s =>
    obtain ⟨rfl, -⟩ := Prod.mk.inj (List.mem_singleton.mp hmem)
    exact .inr ⟨"", rfl⟩
  | assign s =>
    obtain ⟨rfl, -⟩ := Prod.mk.inj (List.mem_singleton.mp hmem)
    exact ⟨"", rfl⟩
  | setStatus s =>
    obtain ⟨rfl, -⟩ := Prod.mk.inj (List.mem_singleton.mp hmem)
    exact ⟨"", rfl⟩

/-- The guard of a run that leaves no call step without a call. -/
def Placed (steps : List Step) (run : Run) (event : RunEvent) : Prop :=
  Takes steps run event ∧ CallPlaced run event

/-- The execution of a step leads a run without a call on. -/
theorem exit_onward {exitName : String} {target : StepId} (hstatus : run.status = .running)
    (hlast : run.lastCallId = none) (hleads : run.leadsTo steps exitName = some target) :
    (run.step steps (.apply 0 (.exit exitName "" false))).stepId = target.val ∧
      (run.step steps (.apply 0 (.exit exitName "" false))).status = .waiting ∧
      (run.step steps (.apply 0 (.exit exitName "" false))).wakeAt = some 0 ∧
      (run.step steps (.apply 0 (.exit exitName "" false))).lastCallId = none := by
  simp [Run.step, Run.apply, Run.advance, hleads, Run.Live, hstatus, hlast]

/-- **A run gets to every step past the call steps**, without a call. -/
theorem Callless.exists_run {id : String} (h : Callless steps id) :
    ∃ run events, StartedAt steps none run ∧ Guarded (Run.step steps) (Placed steps) run events ∧
      (events.foldl (Run.step steps) run).stepId = id ∧
      (events.foldl (Run.step steps) run).status = .waiting ∧
      (events.foldl (Run.step steps) run).wakeAt = some 0 ∧
      (events.foldl (Run.step steps) run).lastCallId = none := by
  induction h with
  | first hsteps =>
    refine ⟨{ id := 0, followUpId := 0, status := .waiting, stepId := _, wakeAt := some 0,
              updatedAt := 0 }, [], ⟨⟨_, _, hsteps, rfl⟩, rfl, rfl⟩, trivial, rfl, rfl, rfl, rfl⟩
  | @onward id step exitName target _ hat hcall hneeds hto ih =>
    obtain ⟨run, events, hstarted, hguarded, hid, hstatus, hwake, hlast⟩ := ih
    generalize hstate : events.foldl (Run.step steps) run = here at hid hstatus hwake hlast
    have hclaimed : here.step steps (.claim 0 true) =
        { here with status := .running, updatedAt := 0 } := by
      simp [Run.step, Run.claim, hstatus, hwake]
    have hleads : ({ here with status := .running, updatedAt := 0 } : Run).leadsTo steps
        exitName = some target := by
      simp [Run.leadsTo, hid, hat, hto]
    refine ⟨run, events ++ [.claim 0 true, .apply 0 (.exit exitName "" false)], hstarted,
      hguarded.append ?_, ?_⟩
    · rw [hstate]
      refine ⟨⟨trivial, trivial⟩, ⟨?_, trivial⟩, trivial⟩
      rw [hclaimed]
      exact ⟨rfl, step, hid ▸ hat, comes_exit hcall hneeds hto⟩
    · rw [List.foldl_append, hstate, List.foldl_cons, List.foldl_cons, List.foldl_nil, hclaimed]
      exact exit_onward rfl hlast hleads

/-! ## The claim of a call -/

/-- **Every step that needs a call has one**: in a run that a call started, and in the others, if
they leave no call step without a call, exactly where no exits lead past every call step to a step
that needs one. -/
theorem neededCall_iff (steps : List Step) :
    (∀ run callId events, StartedAt steps (some callId) run →
      Guarded (Run.step steps) (Takes steps) run events →
        HasCall steps (events.foldl (Run.step steps) run)) ∧
    ((∀ run events, StartedAt steps none run → Guarded (Run.step steps) (Placed steps) run events →
        HasCall steps (events.foldl (Run.step steps) run)) ↔ NoneCallless steps) := by
  constructor
  · intro run callId events hstarted _ step _ _ _
    have hcall : run.lastCallId.isSome = true := by
      rw [hstarted.lastCall]
      rfl
    have hkeep : ∀ (run : Run) event, run.lastCallId.isSome = true →
        (run.step steps event).lastCallId.isSome = true :=
      fun run event h => Run.step_lastCallId steps h event
    exact foldl_inv hkeep hcall events
  constructor
  · intro hall id step hcallless hat
    obtain ⟨run, events, hstarted, hguarded, hid, hstatus, hwake, hlast⟩ := hcallless.exists_run
    have hnext : Guarded (Run.step steps) (Placed steps) (events.foldl (Run.step steps) run)
        [.claim 0 true] := ⟨⟨trivial, trivial⟩, trivial⟩
    have hclaim := hall run (events ++ [.claim 0 true]) hstarted (hguarded.append hnext)
    rw [List.foldl_append, List.foldl_cons, List.foldl_nil] at hclaim
    generalize events.foldl (Run.step steps) run = here at *
    have hclaimed : here.step steps (.claim 0 true) =
        { here with status := .running, updatedAt := 0 } := by
      simp [Run.step, Run.claim, hstatus, hwake]
    rw [hclaimed] at hclaim
    by_contra hneeds
    have hcall := hclaim step (hid ▸ hat) (by simpa using hneeds) rfl
    rw [show ({ here with status := .running, updatedAt := 0 } : Run).lastCallId = none from
      hlast] at hcall
    cases hcall
  · intro hnone run events hstarted hguarded step hat hneeds hstatus
    have hwalks : Walks steps (events.foldl (Run.step steps) run) :=
      hguarded.inv (fun s e h hplaced => step_walks hnone h hplaced.1 hplaced.2) hstarted.walks
    cases hlast : (events.foldl (Run.step steps) run).lastCallId with
    | some callId => rfl
    | none =>
      have hcallless := hwalks (.inl hstatus) hlast
      rw [hnone _ _ hcallless hat] at hneeds
      cases hneeds

/-- A message, a call for the leads it does not reach, and word to the team. -/
def messageFirst : List Step :=
  [.whatsApp { id := ⟨"s1", by decide⟩, templateId := 1
               next := ⟨some ⟨"s3", by decide⟩, some ⟨"s2", by decide +kernel⟩⟩ },
   .call { id := ⟨"s2", by decide⟩ },
   .tellTeam { id := ⟨"s3", by decide⟩, why := "Write to them" }]

/-- A call, and word to the team where it does not reach the lead. -/
def callFirst : List Step :=
  [.call { id := ⟨"s1", by decide⟩
           next := ⟨none, some ⟨"s2", by decide⟩⟩ },
   .tellTeam { id := ⟨"s2", by decide⟩, why := "Not reached" }]

/-- A lead at the first step. -/
def newRun : Run :=
  { id := 0, followUpId := 0, status := .waiting, stepId := "s1", wakeAt := some 0, updatedAt := 0 }

/-- A message that was sent leads past the call step; a call whose call-backs were all called off
is left without one. Neither definition has a problem. -/
theorem neededCall_missed :
    (shapeProblems (fun _ => false) (.newLead none none) messageFirst {} = [] ∧
      ∃ run events, StartedAt messageFirst none run ∧
        Guarded (Run.step messageFirst) (Placed messageFirst) run events ∧
        ¬ HasCall messageFirst (events.foldl (Run.step messageFirst) run)) ∧
    shapeProblems (fun _ => false) (.newLead none none) callFirst {} = [] ∧
      ∃ run events, StartedAt callFirst none run ∧
        Guarded (Run.step callFirst) (Takes callFirst) run events ∧
        ¬ HasCall callFirst (events.foldl (Run.step callFirst) run) := by
  refine ⟨⟨by decide, newRun,
    [.claim 0 true, .apply 0 (.exit "sent" "sent" false), .claim 0 true], ?_, ?_, ?_⟩,
    by decide, newRun,
    [.claim 0 true, .apply 0 .call, .leave 0 "not_reached" none, .claim 0 true], ?_, ?_, ?_⟩
  · exact ⟨⟨_, _, rfl, rfl⟩, rfl, rfl⟩
  · exact ⟨⟨trivial, trivial⟩, ⟨⟨rfl, _, rfl, "sent", .inl rfl⟩, trivial⟩, ⟨trivial, trivial⟩,
      trivial⟩
  · intro hcall
    exact absurd (hcall _ rfl rfl rfl) (by decide)
  · exact ⟨⟨_, _, rfl, rfl⟩, rfl, rfl⟩
  · exact ⟨trivial, ⟨rfl, _, rfl, .inl rfl⟩, ⟨rfl, ⟨_, rfl⟩, .inr rfl⟩, trivial, trivial⟩
  · intro hcall
    exact absurd (hcall _ rfl rfl rfl) (by decide)

end Calevate.FollowUps
