import Calevate.FollowUps.Runs
import Calevate.Lib.Run
import Calevate.Lib.Tx

/-!
# Every run ends

A definition without shape problems sends each exit forward (`forward_of_shapeProblems`), and
an edit keeps that: a change leaves the step's exits alone, and a removal sends what led to
the removed step where that step led, which lies behind it (`Forward.removeStep`). A run's
place is then a rank its every move raises (`Run.cost_add_rank_le`), so it ends within as many
moves as there are steps behind its own.

Which step an outcome leads to is another matter. `exits_of` writes a decision's fallback
under the key `other` over whatever its table says there, and `other` is an outcome key like
any other: a business outcome labelled "Other" has it. The exits are the table's just where
no table has `other` leading elsewhere than its fallback.
-/

namespace Calevate.FollowUps

/-! ## Forward exits -/

/-- Every step leads to later ones only, and no id comes twice. -/
def Forward : List Step → Prop
  | [] => True
  | step :: rest =>
    step.id ∉ rest.map Step.id ∧
      (∀ e ∈ exitsOf step, ∀ target ∈ e.2, target ∈ rest.map Step.id) ∧ Forward rest

theorem Forward.nodup {steps : List Step} (h : Forward steps) : (steps.map Step.id).Nodup := by
  induction steps with
  | nil => exact List.nodup_nil
  | cons step rest ih => exact List.nodup_cons.mpr ⟨h.1, ih h.2.2⟩

/-- What is behind a step of a forward list holds its exits' targets. -/
theorem Forward.exits {before rest : List Step} {step : Step}
    (h : Forward (before ++ step :: rest)) :
    ∀ e ∈ exitsOf step, ∀ target ∈ e.2, target ∈ rest.map Step.id := by
  induction before with
  | nil => exact h.2.1
  | cons first before ih => exact ih h.2.2

/-- Only the ids and the exits decide. -/
theorem Forward.congr {steps steps' : List Step}
    (hsame : steps.map (fun s => (s.id, exitsOf s)) = steps'.map (fun s => (s.id, exitsOf s)))
    (h : Forward steps) : Forward steps' := by
  induction steps generalizing steps' with
  | nil =>
    rw [List.map_nil, eq_comm, List.map_eq_nil_iff] at hsame
    rw [hsame]
    trivial
  | cons step rest ih =>
    cases steps' with
    | nil => simp at hsame
    | cons step' rest' =>
      simp only [List.map_cons, List.cons.injEq, Prod.mk.injEq] at hsame
      obtain ⟨⟨hid, hexits⟩, hrest⟩ := hsame
      have hids : rest'.map Step.id = rest.map Step.id := by
        have := congrArg (List.map Prod.fst) hrest.symm
        rwa [List.map_map, List.map_map] at this
      refine ⟨?_, ?_, ih hrest h.2.2⟩
      · rw [hids, ← hid]
        exact h.1
      · rw [hids, ← hexits]
        exact h.2.1

/-! ## From a definition without problems -/

theorem repeatedIds_nil {seen : List StepId} {steps : List Step}
    (h : repeatedIds seen steps = []) :
    (steps.map Step.id).Nodup ∧ ∀ s ∈ seen, s ∉ steps.map Step.id := by
  induction steps generalizing seen with
  | nil => simp
  | cons step rest ih =>
    rw [repeatedIds, List.append_eq_nil_iff] at h
    have hnew : step.id ∉ seen := by
      intro hseen
      simp [hseen] at h
    obtain ⟨hnodup, hdisjoint⟩ := ih h.2
    rw [List.map_cons]
    refine ⟨List.nodup_cons.mpr ⟨hdisjoint _ List.mem_cons_self, hnodup⟩, fun s hs hmem => ?_⟩
    rcases List.mem_cons.mp hmem with rfl | hrest
    · exact hnew hs
    · exact hdisjoint s (List.mem_cons_of_mem _ hs) hrest

/-- The first place of an id that is not among the first ones. -/
theorem position_append {before rest : List Step} {stepId : String} {place : ℕ}
    (h : position (before ++ rest) stepId = some place) (hbehind : before.length ≤ place) :
    stepId ∈ rest.map fun s => s.id.val := by
  rw [position, List.findIdx?_eq_some_iff_getElem] at h
  obtain ⟨hlt, hat, -⟩ := h
  rw [List.getElem_append_right hbehind] at hat
  exact List.mem_map.mpr ⟨_, List.getElem_mem _, of_decide_eq_true hat⟩

theorem exitProblem_nil {before rest : List Step} {step : Step} {exitName : String}
    {target : StepId}
    (h : exitProblem (before ++ step :: rest) before.length step exitName (some target) = []) :
    target ∈ rest.map Step.id := by
  simp only [exitProblem] at h
  cases hplace : position (before ++ step :: rest) target.val with
  | none => simp [hplace] at h
  | some place =>
    have hlater : before.length < place := by
      by_contra hback
      simp [hplace, Nat.le_of_not_lt hback] at h
    rw [List.append_cons] at hplace
    have hmem := position_append hplace (by
      rw [List.length_append, List.length_singleton]
      omega)
    obtain ⟨s, hs, hid⟩ := List.mem_map.mp hmem
    exact List.mem_map.mpr ⟨s, hs, Subtype.ext hid⟩

theorem forward_of_stepProblems {blank : String → Bool} {before steps : List Step}
    {callBefore : Bool} (hnodup : (steps.map Step.id).Nodup)
    (h : stepProblems blank (before ++ steps) before.length callBefore steps = []) :
    Forward steps := by
  induction steps generalizing before callBefore with
  | nil => trivial
  | cons step rest ih =>
    rw [stepProblems] at h
    simp only [List.append_eq_nil_iff, List.flatMap_eq_nil_iff] at h
    obtain ⟨⟨⟨⟨⟨hexits, -⟩, -⟩, -⟩, -⟩, hrest⟩ := h
    obtain ⟨hnew, hnodup⟩ := List.nodup_cons.mp hnodup
    refine ⟨hnew, fun e he target htarget => ?_, ?_⟩
    · have hproblem := hexits e he
      rw [Option.mem_def.mp htarget] at hproblem
      exact exitProblem_nil hproblem
    · rw [List.append_cons, ← List.length_singleton (a := step), ← List.length_append] at hrest
      exact ih hnodup hrest

/-- **A definition without problems leads forward.** -/
theorem forward_of_shapeProblems {blank : String → Bool} {trigger : Trigger}
    {steps : List Step} {settings : Settings}
    (h : shapeProblems blank trigger steps settings = []) : Forward steps := by
  unfold shapeProblems at h
  split at h
  · simp at h
  · simp only [List.append_eq_nil_iff] at h
    obtain ⟨⟨⟨⟨-, hids⟩, hsteps⟩, -⟩, -⟩ := h
    exact @forward_of_stepProblems _ [] _ _ (repeatedIds_nil hids).1 hsteps

/-! ## Edits -/

@[simp] theorem repoint_id (gone : StepId) (onward : Target) (step : Step) :
    (repoint gone onward step).id = step.id := by
  cases step <;> rfl

/-- Writing an entry and then changing every target is changing them first. -/
theorem setItem_map (f : Target → Target) (d : List (String × Target)) (key : String)
    (target : Target) :
    setItem (d.map fun e => (e.1, f e.2)) key (f target) =
      (setItem d key target).map fun e => (e.1, f e.2) := by
  unfold setItem
  have hany : ((d.map fun e => (e.1, f e.2)).any fun e => e.1 = key) =
      d.any fun e => e.1 = key := by
    rw [List.any_map]
    rfl
  rw [hany]
  split
  · rw [List.map_map, List.map_map]
    refine List.map_congr_left fun e _ => ?_
    by_cases he : e.1 = key <;> simp [he]
  · rw [List.map_append]
    rfl

/-- **`_repoint` redirects each exit and does nothing else.** -/
theorem exitsOf_repoint (gone : StepId) (onward : Target) (step : Step) :
    exitsOf (repoint gone onward step) =
      (exitsOf step).map fun e => (e.1, redirect gone onward e.2) := by
  cases step with
  | decide s =>
    simp only [repoint, exitsOf, ← setItem_map, List.map_map]
    rfl
  | call s => rfl
  | wait s => rfl
  | whatsApp s => rfl
  | assign s => rfl
  | setStatus s => rfl
  | tellTeam s => rfl
  | action s => rfl
  | end_ s => rfl

theorem onwardOf_exit {step : Step} {target : StepId} (h : onwardOf step = some target) :
    ∃ e ∈ exitsOf step, e.2 = some target := by
  unfold onwardOf at h
  split at h
  · next only honly =>
    have hmem : only ∈ ((exitsOf step).filterMap Prod.snd).dedup := by
      rw [honly]
      exact List.mem_singleton_self _
    rw [List.mem_dedup, List.mem_filterMap, Option.some.inj h] at hmem
    exact hmem
  · cases h

/-- A step taken out, what led to it led to something behind it. -/
theorem Forward.without {gone : StepId} {onward : Target} {steps : List Step}
    (h : Forward steps)
    (honward : ∀ before step rest, steps = before ++ step :: rest → step.id = gone →
      ∀ target ∈ onward, target ∈ rest.map Step.id) :
    Forward ((steps.filter fun s => s.id ≠ gone).map (repoint gone onward)) := by
  have hids : ∀ (rest : List Step) (target : StepId), target ∈ rest.map Step.id →
      target ≠ gone →
      target ∈ ((rest.filter fun s => s.id ≠ gone).map (repoint gone onward)).map Step.id := by
    intro rest target hmem hne
    obtain ⟨s, hs, rfl⟩ := List.mem_map.mp hmem
    rw [List.map_map]
    refine List.mem_map.mpr ⟨s, List.mem_filter.mpr ⟨hs, by simpa using hne⟩, ?_⟩
    exact repoint_id gone onward s
  induction steps with
  | nil => trivial
  | cons step rest ih =>
    have hrest := ih h.2.2 fun before s after hsplit =>
      honward (step :: before) s after (congrArg (step :: ·) hsplit)
    by_cases hgone : step.id = gone
    · rw [List.filter_cons_of_neg (by simpa using hgone)]
      exact hrest
    · rw [List.filter_cons_of_pos (by simpa using hgone), List.map_cons]
      refine ⟨?_, ?_, hrest⟩
      · rw [repoint_id, List.map_map]
        intro hmem
        obtain ⟨s, hs, hid⟩ := List.mem_map.mp hmem
        rw [Function.comp_apply, repoint_id] at hid
        exact h.1 (List.mem_map.mpr ⟨s, (List.mem_filter.mp hs).1, hid⟩)
      · rw [exitsOf_repoint]
        intro e he target htarget
        obtain ⟨old, hmem, rfl⟩ := List.mem_map.mp he
        have hold := h.2.1 old hmem
        simp only [redirect, Option.mem_def] at htarget
        split at htarget
        · next hto =>
          -- The exit led to the step that is gone: its target now lies behind that step.
          obtain ⟨s, hs, hid⟩ := List.mem_map.mp (hold gone hto)
          obtain ⟨before, after, rfl⟩ := List.append_of_mem hs
          have hbehind := honward (step :: before) s after rfl hid target htarget
          refine hids _ target (by simp [hbehind]) fun heq => ?_
          have hnodup := h.2.2.nodup
          rw [List.map_append, List.map_cons, hid, ← heq] at hnodup
          exact (List.nodup_cons.mp (List.Nodup.of_append_right hnodup)).1 hbehind
        · next hto =>
          refine hids rest target (hold target htarget) ?_
          rintro rfl
          exact hto htarget

theorem Forward.removeStep {steps : List Step} {step : Step} (h : Forward steps)
    (hmem : step ∈ steps) : Forward (removeStep steps step) := by
  refine h.without fun before s rest hsplit hid target htarget => ?_
  have hstep : s = step :=
    List.inj_on_of_nodup_map h.nodup (by simp [hsplit]) hmem hid
  rw [hsplit] at h
  obtain ⟨e, he, hto⟩ := onwardOf_exit htarget
  exact h.exits e (hstep ▸ he) target hto

/-- The id and the exits of a step: what an edit that is no removal leaves alone. -/
def outline (step : Step) : StepId × List (String × Target) := (step.id, exitsOf step)

theorem changeWait_outline {minutes : ℤ} {step step' : Step}
    (h : changeWait minutes step = .ok step') : outline step' = outline step := by
  cases step with
  | call s =>
    simp only [changeWait] at h
    split at h
    · cases h
    · cases h
      rfl
  | wait s =>
    simp only [changeWait] at h
    split at h
    · cases h
    · split at h
      · cases h
      · cases h
        rfl
  | decide s => cases h
  | whatsApp s => cases h
  | assign s => cases h
  | setStatus s => cases h
  | tellTeam s => cases h
  | action s => cases h
  | end_ s => cases h

theorem changeAgent_outline {agentId : ℕ} {step step' : Step}
    (h : changeAgent agentId step = .ok step') : outline step' = outline step := by
  cases step <;> cases h
  rfl

theorem changeMessage_outline {templateId : Option ℕ} {values : Option (List TemplateValue)}
    {step step' : Step} (h : changeMessage templateId values step = .ok step') :
    outline step' = outline step := by
  unfold changeMessage at h
  split at h
  · cases h
    rfl
  · cases step <;> cases h
    rfl

theorem whenGiven_outline {α : Type} {given : Option α}
    {change : α → Step → Except EditError Step} {step step' : Step}
    (hchange : ∀ value, change value step = .ok step' → outline step' = outline step)
    (h : whenGiven given change step = .ok step') : outline step' = outline step := by
  cases given with
  | none =>
    cases h
    rfl
  | some value => exact hchange value h

/-- A change keeps the step's id and its exits. -/
theorem StepEdit.change_outline {edit : StepEdit} {step step' : Step}
    (h : edit.change step = .ok step') : outline step' = outline step := by
  obtain ⟨waited, hwaited, h⟩ := Lib.Except.bind_ok.mp h
  obtain ⟨called, hcalled, h⟩ := Lib.Except.bind_ok.mp h
  obtain ⟨said, hsaid, h⟩ := Lib.Except.bind_ok.mp h
  split at h
  · cases h
    calc outline step' = outline called := changeMessage_outline hsaid
      _ = outline waited := whenGiven_outline (fun _ => changeAgent_outline) hcalled
      _ = outline step := whenGiven_outline (fun _ => changeWait_outline) hwaited
  · cases h

/-- **An edit keeps a definition leading forward.** -/
theorem Forward.applyEdit {steps steps' : List Step} {edit : StepEdit} (h : Forward steps)
    (he : applyEdit steps edit = .ok steps') : Forward steps' := by
  unfold FollowUps.applyEdit at he
  cases hstep : stepById steps edit.stepId with
  | none => simp [hstep, refuseEdit] at he
  | some step =>
    have hmem : step ∈ steps := List.mem_of_find?_eq_some hstep
    simp only [hstep] at he
    split at he
    · cases he
      exact h.removeStep hmem
    · split at he
      · cases he
        exact h
      · obtain ⟨updated, hchange, he⟩ := Lib.Except.bind_ok.mp he
        cases he
        have hsame := StepEdit.change_outline hchange
        refine Forward.congr (Eq.symm ?_) h
        rw [List.map_map]
        refine List.map_congr_left fun s hs => ?_
        by_cases hid : s.id = step.id
        · rw [Function.comp_apply, if_pos hid,
            show s = step from List.inj_on_of_nodup_map h.nodup hs hmem hid]
          exact hsame
        · rw [Function.comp_apply, if_neg hid]

theorem Forward.applyEdits {steps steps' : List Step} {edits : List StepEdit}
    (h : Forward steps) (he : applyEdits steps edits = .ok steps') : Forward steps' := by
  induction edits generalizing steps with
  | nil =>
    cases he
    exact h
  | cons edit edits ih =>
    obtain ⟨between, hone, hrest⟩ := Lib.Except.bind_ok.mp he
    exact ih (h.applyEdit hone) hrest

/-! ## A run's place -/

theorem position_cons (step : Step) (rest : List Step) (stepId : String) :
    position (step :: rest) stepId =
      if step.id.val = stepId then some 0 else (position rest stepId).map (· + 1) := by
  simp [position, List.findIdx?_cons]

theorem position_of_mem {steps : List Step} {target : StepId}
    (h : target ∈ steps.map Step.id) : ∃ place, position steps target.val = some place := by
  obtain ⟨s, hs, rfl⟩ := List.mem_map.mp h
  rw [← Option.isSome_iff_exists, position, List.findIdx?_isSome, List.any_eq_true]
  exact ⟨s, hs, by simp⟩

theorem mem_of_position {steps : List Step} {target : StepId} {place : ℕ}
    (h : position steps target.val = some place) : target ∈ steps.map Step.id := by
  have hmem := @position_append [] _ _ _ h (Nat.zero_le place)
  obtain ⟨s, hs, hid⟩ := List.mem_map.mp hmem
  exact List.mem_map.mpr ⟨s, hs, Subtype.ext hid⟩

theorem position_lt {steps : List Step} {stepId : String} {place : ℕ}
    (h : position steps stepId = some place) : place < steps.length := by
  rw [position, List.findIdx?_eq_some_iff_getElem] at h
  exact h.1

/-- **An exit that leads on leads to a later place.** -/
theorem Forward.later {steps : List Step} (h : Forward steps) {stepId exitName : String}
    {place : ℕ} {target : StepId} (hplace : position steps stepId = some place)
    (hto : ((stepById steps stepId).bind fun step => exitTarget step exitName) = some target) :
    ∃ later, place < later ∧ position steps target.val = some later := by
  induction steps generalizing place with
  | nil => simp [stepById] at hto
  | cons step rest ih =>
    rw [position_cons] at hplace
    by_cases hid : step.id.val = stepId
    · rw [if_pos hid] at hplace
      simp only [stepById, hid, decide_true, List.find?_cons_of_pos, Option.bind_some,
        exitTarget, Option.bind_eq_some_iff] at hto
      obtain ⟨e, he, htarget⟩ := hto
      have hmem := h.2.1 e (List.mem_of_find?_eq_some he) target htarget
      obtain ⟨k, hk⟩ := position_of_mem hmem
      refine ⟨k + 1, by cases hplace; omega, ?_⟩
      rw [position_cons, if_neg, hk, Option.map_some]
      intro heq
      exact h.1 (Subtype.ext heq ▸ hmem)
    · rw [if_neg hid, Option.map_eq_some_iff] at hplace
      obtain ⟨k, hk, rfl⟩ := hplace
      have hrest : stepById (step :: rest) stepId = stepById rest stepId := by
        simp [stepById, hid]
      rw [hrest] at hto
      obtain ⟨later, hlt, hlater⟩ := ih h.2.2 hk hto
      refine ⟨later + 1, by omega, ?_⟩
      rw [position_cons, if_neg, hlater, Option.map_some]
      intro heq
      exact h.1 (Subtype.ext heq ▸ mem_of_position hlater)

/-- Every exit of a live run ends it or moves it to a later step, and a run that stands at a
step moves at most once for each step behind the first. -/
def Ends (steps : List Step) : Prop :=
  (∀ (run : Run) (place : ℕ), run.Live → position steps run.stepId = some place →
    ∀ (now : ℕ) (exitName : String) (goal : Bool) (callId : Option ℕ),
      ¬ (run.advance now steps exitName goal callId).1.Live ∨
        ∃ later, place < later ∧
          position steps (run.advance now steps exitName goal callId).1.stepId = some later) ∧
  ∀ (run : Run) (events : List RunEvent), (position steps run.stepId).isSome →
    Lib.Run.cost (Run.step steps) (moves steps) run events ≤ steps.length - 1

/-- An event keeps a run in its list, and its moves raise the run's place. -/
theorem Forward.step_place {steps : List Step} (h : Forward steps) {run : Run}
    (hin : (position steps run.stepId).isSome) (event : RunEvent) :
    (position steps (run.step steps event).stepId).isSome ∧
      moves steps run event + (position steps run.stepId).getD 0 ≤
        (position steps (run.step steps event).stepId).getD 0 := by
  obtain ⟨place, hplace⟩ := Option.isSome_iff_exists.mp hin
  rw [Run.step_stepId, moves]
  by_cases hlive : run.Live
  · cases hto : event.exitName.bind fun exitName => run.leadsTo steps exitName with
    | none => simp [hlive, hin]
    | some target =>
      obtain ⟨exitName, -, hexit⟩ := Option.bind_eq_some_iff.mp hto
      obtain ⟨later, hlt, hlater⟩ := h.later hplace hexit
      simp [hlive, hplace, hlater]
      omega
  · simp [hlive, hin]

theorem Forward.ends {steps : List Step} (h : Forward steps) : Ends steps := by
  refine ⟨fun run place hlive hplace now exitName goal callId => ?_, fun run events hin => ?_⟩
  · cases hto : run.leadsTo steps exitName with
    | none => exact .inl (Run.advance_none hto now goal callId)
    | some target =>
      refine .inr ?_
      rw [(Run.advance_some hto hlive now goal callId).2]
      exact h.later hplace hto
  · let standing (r : Run) : Prop := (position steps r.stepId).isSome
    have hstep : ∀ r event, standing r → standing (r.step steps event) ∧
        moves steps r event + (position steps r.stepId).getD 0 ≤
          (position steps (r.step steps event).stepId).getD 0 :=
      fun r event hr => h.step_place hr event
    have hrise := Lib.Run.cost_add_rank_le hstep hin events
    have hkept : standing _ := Lib.Run.foldl_inv (fun r event hr => (hstep r event hr).1) hin events
    obtain ⟨last, hlast⟩ := Option.isSome_iff_exists.mp hkept
    have hlt := position_lt hlast
    simp only [hlast, Option.getD_some] at hrise
    omega

/-! ## Where an outcome leads -/

/-- The run stands where an exit leads: at the step, or ended. -/
def Run.LedTo (run : Run) : Target → Prop
  | none => ¬ run.Live
  | some target => run.Live ∧ run.stepId = target.val

theorem Run.LedTo.unique {run : Run} {target target' : Target} (h : run.LedTo target)
    (h' : run.LedTo target') : target = target' := by
  cases target with
  | none =>
    cases target' with
    | none => rfl
    | some t' => exact absurd h'.1 h
  | some t =>
    cases target' with
    | none => exact absurd h.1 h'
    | some t' => rw [Subtype.ext (h.2.symm.trans h'.2)]

/-- An outcome that a decision's table names leads where the table says. -/
def Leads (steps : List Step) : Prop :=
  ∀ s : DecideStep, .decide s ∈ steps → ∀ run : Run, run.Live → run.stepId = s.id.val →
    ∀ (now : ℕ) (goal : Option OutcomeKey) (reading : Option CallReading) (key : OutcomeKey)
      (target : Target), (key, target) ∈ s.on → chosenOutcome s reading = some key.val →
      (run.apply now steps (decideOn s goal reading)).1.LedTo target

theorem Run.advance_ledTo {run : Run} (hlive : run.Live) (now : ℕ) (steps : List Step)
    (exitName : String) (goal : Bool) (callId : Option ℕ) :
    (run.advance now steps exitName goal callId).1.LedTo (run.leadsTo steps exitName) := by
  cases hto : run.leadsTo steps exitName with
  | none => exact advance_none hto now goal callId
  | some target => exact advance_some hto hlive now goal callId

/-- An entry written over does not hide the others. -/
theorem find?_overwrite_ne {d : List (String × Target)} {key k : String} (target : Target)
    (hne : k ≠ key) :
    ((d.map fun e => if e.1 = key then (key, target) else e).find? fun e => e.1 = k) =
      d.find? fun e => e.1 = k := by
  induction d with
  | nil => rfl
  | cons e d ih =>
    rw [List.map_cons, List.find?_cons, List.find?_cons, ih]
    by_cases he : e.1 = key
    · simp [he, Ne.symm hne]
    · simp [he]

theorem find?_overwrite_eq {d : List (String × Target)} {key : String} (target : Target)
    (hany : (d.any fun e => e.1 = key) = true) :
    ((d.map fun e => if e.1 = key then (key, target) else e).find? fun e => e.1 = key) =
      some (key, target) := by
  induction d with
  | nil => simp at hany
  | cons e d ih =>
    by_cases he : e.1 = key
    · simp [he]
    · simp only [List.any_cons, he, decide_false, Bool.false_or] at hany
      simpa [he] using ih hany

/-- **An entry written is read back, and the others as they were.** -/
theorem find?_setItem (d : List (String × Target)) (key k : String) (target : Target) :
    ((setItem d key target).find? fun e => e.1 = k) =
      if k = key then some (key, target) else d.find? fun e => e.1 = k := by
  unfold setItem
  by_cases hk : k = key
  · subst hk
    split
    · next hany => rw [find?_overwrite_eq target hany, if_pos rfl]
    · next hany =>
      have hnone : (d.find? fun e => e.1 = k) = none := by
        rw [List.find?_eq_none]
        intro e he hek
        exact hany (List.any_eq_true.mpr ⟨e, he, hek⟩)
      rw [List.find?_append, hnone]
      simp
  · rw [if_neg hk]
    split
    · exact find?_overwrite_ne target hk
    · rw [List.find?_append]
      simp [Ne.symm hk]

/-- What is found is the one that fits, where only one does. -/
theorem find?_of_unique {α : Type} {p : α → Bool} {l : List α} {a : α} (hmem : a ∈ l)
    (ha : p a = true) (hunique : ∀ b ∈ l, p b = true → b = a) : l.find? p = some a := by
  obtain ⟨b, hb⟩ := Option.isSome_iff_exists.mp (List.find?_isSome.mpr ⟨a, hmem, ha⟩)
  rw [hb, hunique b (List.mem_of_find?_eq_some hb) (List.find?_some hb)]

/-- The exits of a decision: its fallback under `other`, its table under any other key. -/
theorem exitTarget_decide (s : DecideStep) {key : OutcomeKey} {target : Target}
    (hmem : (key, target) ∈ s.on) :
    exitTarget (.decide s) key.val = if key.val = "other" then s.other else target := by
  rw [exitTarget, exitsOf, find?_setItem]
  split
  · rfl
  · have hfound : (s.on.find? fun e => e.1.val = key.val) = some (key, target) :=
      find?_of_unique hmem (by simp) fun e he hkey =>
        List.inj_on_of_nodup_map s.nodup he hmem (Subtype.ext (of_decide_eq_true hkey))
    rw [List.find?_map]
    simp only [Function.comp_def, hfound, Option.map_some, Option.bind_some]

theorem stepById_of_mem {steps : List Step} (hnodup : (steps.map Step.id).Nodup) {step : Step}
    (hmem : step ∈ steps) : stepById steps step.id.val = some step :=
  find?_of_unique hmem (by simp) fun s hs hid =>
    List.inj_on_of_nodup_map hnodup hs hmem (Subtype.ext (of_decide_eq_true hid))

/-- A run at a decision is led by the exits of that decision. -/
theorem leadsTo_decide {steps : List Step} (hnodup : (steps.map Step.id).Nodup)
    {s : DecideStep} (hs : .decide s ∈ steps) {run : Run} (hat : run.stepId = s.id.val)
    (exitName : String) : run.leadsTo steps exitName = exitTarget (.decide s) exitName := by
  rw [Run.leadsTo, hat, show s.id = (Step.decide s).id from rfl, stepById_of_mem hnodup hs,
    Option.bind_some]

theorem decideOn_chosen {s : DecideStep} {reading : Option CallReading} {key : String}
    (h : chosenOutcome s reading = some key) (goal : Option OutcomeKey) :
    decideOn s goal reading =
      .exit key ("branch:" ++ key) (goal.any fun g => g.val = key) := by
  simp only [decideOn, h]

theorem OutcomeKey.ne_empty (key : OutcomeKey) : key.val ≠ "" := by
  intro hempty
  have := key.property
  simp [isKey, hempty] at this

/-- A call may come to any outcome that a table names. -/
theorem chosenOutcome_of_mem {s : DecideStep} {key : OutcomeKey} {target : Target}
    (hmem : (key, target) ∈ s.on) :
    chosenOutcome s (some { businessOutcome := some key.val }) = some key.val := by
  have hon : (s.on.any fun e => e.1.val = key.val) = true :=
    List.any_eq_true.mpr ⟨(key, target), hmem, by simp⟩
  simp [chosenOutcome, CallReading.keys, normalise, key.ne_empty, hon]

/-- A decision's table sends `other`, where it names it, where its fallback leads. -/
def Step.OtherAgrees : Step → Prop
  | .decide s => ∀ e ∈ s.on, e.1.val = "other" → e.2 = s.other
  | _ => True

instance : ∀ step : Step, Decidable step.OtherAgrees
  | .decide s => inferInstanceAs (Decidable (∀ e ∈ s.on, e.1.val = "other" → e.2 = s.other))
  | .call _ | .wait _ | .whatsApp _ | .assign _ | .setStatus _ | .tellTeam _ | .action _
  | .end_ _ => isTrue trivial

/-- **Every run of a checked and edited follow-up ends, and its outcomes lead where the tables
say just where no table has `other` leading elsewhere than the fallback.** -/
theorem runs_end_and_outcomes_lead_iff {blank : String → Bool} {trigger : Trigger}
    {settings : Settings} {first steps : List Step} {edits : List StepEdit}
    (h : shapeProblems blank trigger first settings = [])
    (he : applyEdits first edits = .ok steps) :
    (Ends steps ∧ Leads steps) ↔ ∀ step ∈ steps, step.OtherAgrees := by
  have hforward : Forward steps := (forward_of_shapeProblems h).applyEdits he
  constructor
  · rintro ⟨-, hleads⟩ step hs
    cases step with
    | decide s =>
      rintro ⟨key, target⟩ hmem hother
      let run : Run :=
        { id := 0, followUpId := 0, status := .running, stepId := s.id.val, updatedAt := 0 }
      have hled := hleads s hs run (.inl rfl) rfl 0 none _ key target hmem
        (chosenOutcome_of_mem hmem)
      rw [decideOn_chosen (chosenOutcome_of_mem hmem)] at hled
      have hto := @Run.advance_ledTo run (.inl rfl) 0 steps key.val false none
      rw [leadsTo_decide hforward.nodup hs rfl, exitTarget_decide s hmem, if_pos hother] at hto
      exact hled.unique hto
    | _ => trivial
  · intro hcond
    refine ⟨hforward.ends, fun s hs run hlive hat now goal reading key target hmem hchosen => ?_⟩
    rw [decideOn_chosen hchosen]
    have hto := Run.advance_ledTo hlive now steps key.val (goal.any fun g => g.val = key.val) none
    rw [leadsTo_decide hforward.nodup hs hat, exitTarget_decide s hmem] at hto
    split at hto
    · next hother =>
      rw [show target = s.other from hcond _ hs _ hmem hother]
      exact hto
    · exact hto

/-- A call, a wait, and a decision that tells the team of an interested lead. -/
def plannedSteps : List Step :=
  [.call { id := ⟨"call", by decide⟩
           next := ⟨some ⟨"wait", by decide⟩, none⟩ },
   .wait { id := ⟨"wait", by decide⟩, hours := some 2
           next := some ⟨"sort", by decide⟩ },
   .decide { id := ⟨"sort", by decide⟩
             on := [(⟨"interested", by decide⟩, some ⟨"tell", by decide +kernel⟩)]
             other := none
             nodup := List.nodup_singleton _ },
   .tellTeam { id := ⟨"tell", by decide⟩, why := "Interested" }]

/-- The call leads to the decision once the wait is removed, and every run still ends. -/
theorem waitRemoved_ends_and_leads :
    ∃ steps, applyEdits plannedSteps [{ stepId := "wait", remove := true }] = .ok steps ∧
      Ends steps ∧ Leads steps := by
  have hchecked : shapeProblems (fun _ => false) (.manual none) plannedSteps {} = [] := by
    decide
  have hedited : applyEdits plannedSteps [{ stepId := "wait", remove := true }] = .ok _ := rfl
  refine ⟨_, hedited, (runs_end_and_outcomes_lead_iff hchecked hedited).mpr ?_⟩
  decide

/-- A call, a decision whose table has `other` and an outcome that a business labelled so. -/
def shadowedSteps : List Step :=
  [.call { id := ⟨"call", by decide⟩
           next := ⟨some ⟨"sort", by decide⟩, none⟩ },
   .decide { id := ⟨"sort", by decide⟩
             on := [(⟨"other", by decide⟩, some ⟨"tell", by decide +kernel⟩)]
             other := none
             nodup := List.nodup_singleton _ },
   .tellTeam { id := ⟨"tell", by decide⟩, why := "Wants something else" }]

/-- No problem is found in them, and the call that came to `other` ends the run instead of
telling the team. -/
theorem shadowed_other :
    shapeProblems (fun _ => false) (.manual none) shadowedSteps {} = [] ∧
      ¬ Leads shadowedSteps := by
  refine ⟨by decide, fun hleads => ?_⟩
  let run : Run :=
    { id := 0, followUpId := 0, status := .running, stepId := "sort", updatedAt := 0 }
  have hled := hleads _ (List.mem_cons_of_mem _ List.mem_cons_self) run (.inl rfl) rfl 0 none
    (some { businessOutcome := some "other" }) _ _ List.mem_cons_self (by decide)
  exact absurd hled.1 (by decide)

end Calevate.FollowUps
