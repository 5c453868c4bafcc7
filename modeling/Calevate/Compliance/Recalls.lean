import Calevate.Campaigns.Dispatch
import Calevate.Lib.Run

/-!
# A dial and the recall of its number

A suppression commits the do-not-call row and the message of its recall together, and the
recall pulls back the dials the phone system holds. A dial reads the list before it has a row,
and its row has the phone system's handle only after the call was accepted, so there is a
stretch of it in which neither sees the other. The recall runs until one attempt returns, and
nothing reads the list again: a call accepted after the suppression is stopped or reported if
and only if that attempt's scan comes late enough (`late_call_reported`).
-/

namespace Calevate.Compliance

open Lib

namespace Recall

/-! ## A dial -/

/-- `RecallOutcome`. -/
inductive RecallOutcome where
  | prevented
  | alreadyRunning
  | unknown
  deriving DecidableEq, Repr

/-- How far `dispatch_call` has come, behind the gate. -/
inductive DialStage where
  | fresh
  | refused
  /-- The gate found the number unlisted. -/
  | permitted
  /-- The intent row is committed. -/
  | reserved
  /-- The phone system was asked. -/
  | sent
  /-- Its answer was lost. -/
  | lost
  /-- It placed nothing. -/
  | closed
  /-- `_confirm_dial` has run. -/
  | confirmed
  deriving DecidableEq, Repr

/-- The gate let the dial through, and nothing has come of it yet. -/
def DialStage.passed : DialStage → Bool
  | .permitted | .reserved | .sent | .lost => true
  | _ => false

/-- The row of `calls` that has the phone system's handle, as far as a scan reads it. -/
structure CallRow where
  status : Campaigns.CallStatus
  recallRequested : Bool
  deriving DecidableEq, Repr

/-- `queued_dial_scan` returns the row. -/
def CallRow.scanned (row : CallRow) : Bool :=
  (row.status = .queued ∨ row.status = .ringing) ∧ row.recallRequested = false

/-! ## A recall -/

/-- How far the attempt of `recall_dials_for_dnc` has come, of a message there is. -/
inductive JobStage where
  | none
  | waiting
  /-- The scan returned the dial. -/
  | found
  /-- `end_call` answered. -/
  | asked (outcome : RecallOutcome)
  /-- `end_call` raised. -/
  | refused
  | stamped (outcome : RecallOutcome)
  | returned
  deriving DecidableEq, Repr

structure State where
  listed : Bool
  dial : DialStage
  row : Option CallRow
  job : JobStage
  /-- The phone system accepted the call. -/
  accepted : Bool
  /-- It did so after the suppression. -/
  late : Bool
  /-- A recall asked it to stop the call. -/
  stopped : Bool
  /-- An alarm named the call. -/
  named : Bool
  deriving DecidableEq

inductive Action where
  /-- The do-not-call read of `person_level_refusal`. -/
  | readList
  | reserve
  | send
  | accept
  | decline
  | lose
  /-- `_confirm_dial`: its statement runs, or fails. -/
  | confirm (runs : Bool)
  /-- The call is discovered by the pipeline, with a row of its own. -/
  | discover (status : Campaigns.CallStatus)
  /-- The row's status moves on. -/
  | report (status : Campaigns.CallStatus)
  /-- The list's row and the recall's message commit. -/
  | suppress
  | scan
  /-- `end_call` answers, or raises. -/
  | endCall (outcome : Option RecallOutcome)
  | stamp
  /-- The attempt comes to its end. -/
  | conclude
  /-- The attempt dies, and is retried. -/
  | die
  deriving DecidableEq

namespace State

def start : State := ⟨false, .fresh, none, .none, false, false, false, false⟩

/-- The scan finds the dial. -/
def found (s : State) : Bool := s.row.any CallRow.scanned

/-- `_stamp`: the dial was asked to stop; one that was prevented is closed. -/
def stampRow (row : CallRow) (outcome : RecallOutcome) : CallRow :=
  ⟨if outcome = .prevented then .failed else row.status, true⟩

/-- The attempt reports what it could not prevent. -/
def undetermined : JobStage → Bool
  | .refused => true
  | .stamped outcome => outcome ≠ .prevented
  | _ => false

/-- One step, or nothing where it is nobody's turn. -/
def step (s : State) : Action → State
  | .readList =>
    if s.dial = .fresh then { s with dial := if s.listed then .refused else .permitted } else s
  | .reserve => if s.dial = .permitted then { s with dial := .reserved } else s
  | .send => if s.dial = .reserved then { s with dial := .sent } else s
  | .accept =>
    -- the answer may come when nobody waits for it any more
    if (s.dial = .sent ∨ s.dial = .lost) ∧ s.accepted = false then
      { s with accepted := true, late := s.listed }
    else s
  | .decline =>
    if s.dial = .sent ∧ s.accepted = false then { s with dial := .closed } else s
  | .lose => if s.dial = .sent then { s with dial := .lost } else s
  | .confirm runs =>
    if s.dial = .sent ∧ s.accepted then
      if runs then
        -- a row that has the handle already keeps it
        { s with dial := .confirmed, row := s.row.or (some ⟨.queued, false⟩) }
      else { s with dial := .confirmed, named := true }
    else s
  | .discover status =>
    if s.accepted ∧ s.row = none then { s with row := some ⟨status, false⟩ } else s
  | .report status => { s with row := s.row.map fun row => { row with status := status } }
  | .suppress => if s.listed then s else { s with listed := true, job := .waiting }
  | .scan =>
    if s.job = .waiting then { s with job := if s.found then .found else .returned } else s
  | .endCall outcome =>
    if s.job = .found then
      match outcome with
      | some outcome => { s with job := .asked outcome, stopped := true }
      | none => { s with job := .refused }
    else s
  | .stamp =>
    match s.job with
    | .asked outcome =>
      { s with job := .stamped outcome, row := s.row.map fun row => stampRow row outcome }
    | _ => s
  | .conclude =>
    match s.job with
    | .refused | .stamped _ =>
      { s with job := .returned, named := s.named || undetermined s.job }
    | _ => s
  | .die =>
    match s.job with
    | .found | .asked _ | .refused | .stamped _ => { s with job := .waiting }
    | _ => s

def run (actions : List Action) : State := actions.foldl step start

/-! ## What is promised -/

/-- The recall is over, and a call accepted after the suppression was asked to stop or was
named in an alarm. -/
def Safe (s : State) : Prop := s.job = .returned → s.late = true → s.stopped = true ∨ s.named = true

instance (s : State) : Decidable s.Safe := inferInstanceAs (Decidable (_ → _ → _ ∨ _))

/-- The gate let the dial through, and the phone system may still accept it. -/
def Outstanding (s : State) : Prop := s.dial.passed = true ∧ s.accepted = false

instance (s : State) : Decidable s.Outstanding := inferInstanceAs (Decidable (_ ∧ _))

/-- **The scan comes late enough**: no dial that the gate let through is still to be accepted,
and one accepted after the suppression is found, unless it is stopped or reported already. -/
def Covered (s : State) : Action → Prop
  | .scan => s.job = .waiting → ¬ s.Outstanding ∧
      (s.late = true → s.found = true ∨ s.stopped = true ∨ s.named = true)
  | _ => True

/-! ## Every run -/

variable {s : State}

/-- What holds in every run. -/
structure Lawful (s : State) : Prop where
  listed : s.job ≠ .none → s.listed = true
  row : s.row.isSome = true → s.accepted = true
  late : s.late = true → s.accepted = true
  reached : s.stopped = true ∨ s.named = true → s.accepted = true
  found : s.job = .found → s.accepted = true
  refused : s.job = .refused → s.accepted = true
  asked : ∀ outcome, s.job = .asked outcome ∨ s.job = .stamped outcome → s.stopped = true

theorem start_lawful : start.Lawful := by
  constructor <;> simp [start]

/-- **One step keeps it.** -/
theorem step_lawful (h : s.Lawful) (a : Action) : (s.step a).Lawful := by
  obtain ⟨hlisted, hrow, hlate, hreached, hfound, hrefused, hasked⟩ := h
  cases a with
  | accept =>
    rw [step]
    split
    · exact ⟨hlisted, fun _ => rfl, fun _ => rfl, fun _ => rfl, fun _ => rfl, fun _ => rfl, hasked⟩
    · exact ⟨hlisted, hrow, hlate, hreached, hfound, hrefused, hasked⟩
  | confirm runs =>
    rw [step]
    split
    next hsent =>
      split
      · exact ⟨hlisted, fun _ => hsent.2, hlate, hreached, hfound, hrefused, hasked⟩
      · exact ⟨hlisted, hrow, hlate, fun _ => hsent.2, hfound, hrefused, hasked⟩
    · exact ⟨hlisted, hrow, hlate, hreached, hfound, hrefused, hasked⟩
  | discover status =>
    rw [step]
    split
    next haccepted =>
      exact ⟨hlisted, fun _ => haccepted.1, hlate, hreached, hfound, hrefused, hasked⟩
    · exact ⟨hlisted, hrow, hlate, hreached, hfound, hrefused, hasked⟩
  | report status =>
    refine ⟨hlisted, fun hsome => hrow ?_, hlate, hreached, hfound, hrefused, hasked⟩
    rwa [step, Option.isSome_map] at hsome
  | suppress =>
    rw [step]
    split
    · exact ⟨hlisted, hrow, hlate, hreached, hfound, hrefused, hasked⟩
    · exact ⟨fun _ => rfl, hrow, hlate, hreached, by simp, by simp, by simp⟩
  | scan =>
    rw [step]
    split
    next hwaiting =>
      have hmessage : s.listed = true := hlisted (by simp [hwaiting])
      by_cases hscanned : s.found = true
      · have haccepted : s.accepted = true := by
          obtain ⟨row, hsome, -⟩ := Option.any_eq_true .. |>.mp hscanned
          exact hrow (by rw [hsome]; rfl)
        rw [if_pos hscanned]
        exact ⟨fun _ => hmessage, hrow, hlate, hreached, fun _ => haccepted, fun _ => haccepted,
          by simp⟩
      · rw [if_neg hscanned]
        exact ⟨fun _ => hmessage, hrow, hlate, hreached, by simp, by simp, by simp⟩
    · exact ⟨hlisted, hrow, hlate, hreached, hfound, hrefused, hasked⟩
  | endCall outcome =>
    cases outcome with
    | none =>
      rw [step]
      split
      next hjob =>
        have haccepted := hfound hjob
        exact ⟨fun _ => hlisted (by simp [hjob]), hrow, hlate, hreached, fun _ => haccepted,
          fun _ => haccepted, by simp⟩
      · exact ⟨hlisted, hrow, hlate, hreached, hfound, hrefused, hasked⟩
    | some outcome =>
      rw [step]
      split
      next hjob =>
        have haccepted := hfound hjob
        exact ⟨fun _ => hlisted (by simp [hjob]), hrow, hlate, fun _ => haccepted,
          fun _ => haccepted, fun _ => haccepted, fun _ _ => rfl⟩
      · exact ⟨hlisted, hrow, hlate, hreached, hfound, hrefused, hasked⟩
  | stamp =>
    rw [step]
    split
    next outcome hjob =>
      have hmessage : s.listed = true := hlisted (by simp [hjob])
      have hstopped := hasked outcome (.inl hjob)
      refine ⟨fun _ => hmessage, fun hsome => hrow ?_, hlate, hreached, by simp, by simp,
        fun _ _ => hstopped⟩
      rwa [Option.isSome_map] at hsome
    · exact ⟨hlisted, hrow, hlate, hreached, hfound, hrefused, hasked⟩
  | conclude =>
    rw [step]
    split
    next hjob =>
      have haccepted := hrefused hjob
      exact ⟨fun _ => hlisted (by simp [hjob]), hrow, hlate, fun _ => haccepted, by simp, by simp,
        by simp⟩
    next outcome hjob =>
      have haccepted := hreached (.inl (hasked outcome (.inr hjob)))
      exact ⟨fun _ => hlisted (by simp [hjob]), hrow, hlate, fun _ => haccepted, by simp, by simp,
        by simp⟩
    · exact ⟨hlisted, hrow, hlate, hreached, hfound, hrefused, hasked⟩
  | die =>
    rw [step]
    split
    all_goals first
      | exact ⟨hlisted, hrow, hlate, hreached, hfound, hrefused, hasked⟩
      | exact ⟨fun _ => hlisted (by simp [*]), hrow, hlate, hreached, by simp, by simp, by simp⟩
  | _ =>
    rw [step]
    split <;> exact ⟨hlisted, hrow, hlate, hreached, hfound, hrefused, hasked⟩

theorem run_lawful (actions : List Action) : (run actions).Lawful :=
  @Run.foldl_inv _ _ step Lawful (fun _ a h => step_lawful h a) start start_lawful actions

/-! ## Runs whose scans come late enough -/

/-- The message's attempt has read what it will read. -/
def Scanned (s : State) : Prop := s.job ≠ .none ∧ s.job ≠ .waiting

/-- What holds while every scan comes late enough. -/
structure Swept (s : State) : Prop where
  done : s.Scanned → ¬ s.Outstanding
  safe : s.Safe

theorem start_swept : start.Swept := ⟨fun h => absurd rfl h.1, fun h => nomatch h⟩

/-- A call that was accepted stays so. -/
theorem step_accepted (h : s.accepted = true) (a : Action) : (s.step a).accepted = true := by
  cases a with
  | accept =>
    rw [step]
    split
    · rfl
    · exact h
  | report status => exact h
  | confirm runs =>
    rw [step]
    split
    · split <;> exact h
    · exact h
  | endCall outcome => cases outcome <;> rw [step] <;> split <;> exact h
  | _ =>
    rw [step]
    split <;> exact h

/-- Behind the list's row the gate lets nothing through. -/
theorem step_passed (hlisted : s.listed = true) {a : Action}
    (h : (s.step a).dial.passed = true) : s.dial.passed = true := by
  cases a with
  | readList =>
    rw [step, if_pos hlisted] at h
    split at h
    · cases h
    · exact h
  | reserve =>
    rw [step] at h
    split at h
    next hpermitted => rw [hpermitted]; rfl
    · exact h
  | send =>
    rw [step] at h
    split at h
    next hreserved => rw [hreserved]; rfl
    · exact h
  | decline =>
    rw [step] at h
    split at h
    · cases h
    · exact h
  | lose =>
    rw [step] at h
    split at h
    next hsent => rw [hsent]; rfl
    · exact h
  | confirm runs =>
    rw [step] at h
    split at h
    · split at h <;> cases h
    · exact h
  | report status => exact h
  | endCall outcome => cases outcome <;> rw [step] at h <;> split at h <;> exact h
  | _ =>
    rw [step] at h
    split at h <;> exact h

theorem step_outstanding (hlisted : s.listed = true) {a : Action}
    (h : (s.step a).Outstanding) : s.Outstanding := by
  refine ⟨step_passed hlisted h.1, ?_⟩
  by_contra haccepted
  rw [Bool.not_eq_false] at haccepted
  exact absurd (step_accepted haccepted a) (by rw [h.2]; decide)

/-- Only a scan ends an attempt's waiting. -/
theorem scanned_step {a : Action} (h : (s.step a).Scanned) :
    s.Scanned ∨ (a = .scan ∧ s.job = .waiting) := by
  by_cases hscanned : s.Scanned
  · exact .inl hscanned
  have hjob : s.job = .none ∨ s.job = .waiting := by
    by_contra hneither
    rw [not_or] at hneither
    exact hscanned hneither
  cases a with
  | scan =>
    rcases hjob with hnone | hwaiting
    · simp [step, hnone, Scanned] at h
    · exact .inr ⟨rfl, hwaiting⟩
  | suppress =>
    rw [step] at h
    split at h
    · exact .inl h
    · exact absurd rfl h.2
  | confirm runs =>
    rw [step] at h
    split at h
    · split at h <;> exact .inl h
    · exact .inl h
  | report status => exact .inl h
  | endCall outcome => rcases hjob with hjob | hjob <;> cases outcome <;> simp_all [step]
  | stamp => rcases hjob with hjob | hjob <;> simp_all [step]
  | conclude => rcases hjob with hjob | hjob <;> simp_all [step]
  | die => rcases hjob with hjob | hjob <;> simp_all [step]
  | _ =>
    rw [step] at h
    split at h <;> exact .inl h

/-- What is safe stays safe, if a scan comes late enough. -/
theorem step_safe (hl : s.Lawful) (h : s.Swept) {a : Action} (hc : s.Covered a) :
    (s.step a).Safe := by
  cases a with
  | accept =>
    rw [step]
    split
    next hasked =>
      intro hreturned
      have hscanned : s.Scanned := by
        constructor <;> intro hjob <;> rw [hjob] at hreturned <;> cases hreturned
      refine absurd ⟨?_, hasked.2⟩ (h.done hscanned)
      rcases hasked.1 with hdial | hdial <;> rw [hdial] <;> rfl
    · exact h.safe
  | confirm runs =>
    rw [step]
    split
    · split
      · exact h.safe
      · exact fun _ _ => .inr rfl
    · exact h.safe
  | report status => exact h.safe
  | suppress =>
    rw [step]
    split
    · exact h.safe
    · exact fun hjob => nomatch hjob
  | scan =>
    rw [step]
    split
    next hwaiting =>
      intro hjob hlate
      rcases (hc hwaiting).2 hlate with hfound | hreached
      · simp [hfound] at hjob
      · exact hreached
    · exact h.safe
  | endCall outcome =>
    cases outcome <;> rw [step] <;> split
    · exact fun hjob => nomatch hjob
    · exact h.safe
    · exact fun hjob => nomatch hjob
    · exact h.safe
  | stamp =>
    rw [step]
    split
    · exact fun hjob => nomatch hjob
    · exact h.safe
  | conclude =>
    rw [step]
    split
    next hjob =>
      intro _ _
      simp [hjob, undetermined]
    next outcome hjob => exact fun _ _ => .inl (hl.asked outcome (.inr hjob))
    · exact h.safe
  | die =>
    rw [step]
    split <;> first
      | exact h.safe
      | exact fun hjob => nomatch hjob
  | _ =>
    rw [step]
    split <;> exact h.safe

/-- **One step keeps a swept state.** -/
theorem step_swept (hl : s.Lawful) (h : s.Swept) {a : Action} (hc : s.Covered a) :
    (s.step a).Swept := by
  refine ⟨fun hscanned houtstanding => ?_, step_safe hl h hc⟩
  rcases scanned_step hscanned with hbefore | ⟨rfl, hwaiting⟩
  · exact h.done hbefore (step_outstanding (hl.listed hbefore.1) houtstanding)
  · have hlisted : s.listed = true := hl.listed (by rw [hwaiting]; decide)
    exact (hc hwaiting).1 (step_outstanding hlisted houtstanding)

theorem guarded_swept {actions : List Action} (h : Run.Guarded step Covered start actions) :
    (run actions).Swept := by
  have hboth := @Run.Guarded.inv _ _ step Covered (fun s => s.Lawful ∧ s.Swept)
    (fun s a hs hc => ⟨step_lawful hs.1 a, step_swept hs.1 hs.2 hc⟩) start actions
    ⟨start_lawful, start_swept⟩ h
  exact hboth.2

/-- **A scan that comes too early lets a call ring.** -/
theorem early_scan_unsafe (hl : s.Lawful) (hwaiting : s.job = .waiting)
    (hearly : ¬ s.Covered .scan) :
    ∃ more : List Action, ¬ (more.foldl step (s.step .scan)).Safe := by
  have hlisted : s.listed = true := hl.listed (by rw [hwaiting]; decide)
  by_cases houtstanding : s.Outstanding
  · -- the call has no row to be found by, and is accepted behind the scan
    obtain ⟨hpassed, haccepted⟩ := houtstanding
    have hrow : s.row = none := by
      by_contra hsome
      rw [hl.row (Option.isSome_iff_ne_none.mpr hsome)] at haccepted
      cases haccepted
    have hreached : s.stopped = false ∧ s.named = false := by
      constructor <;> by_contra htrue <;> rw [Bool.not_eq_false] at htrue
      · rw [hl.reached (.inl htrue)] at haccepted
        cases haccepted
      · rw [hl.reached (.inr htrue)] at haccepted
        cases haccepted
    refine ⟨[.reserve, .send, .accept], ?_⟩
    obtain ⟨listed, dial, row, job, accepted, late, stopped, named⟩ := s
    dsimp only at hlisted hwaiting haccepted hrow hreached hpassed
    obtain ⟨rfl, rfl⟩ := hreached
    subst hlisted hwaiting haccepted hrow
    cases dial with
    | permitted | reserved | sent | lost => simp [step, found, Safe]
    | _ => cases hpassed
  · have hmissed : s.late = true ∧ s.found = false ∧ s.stopped = false ∧ s.named = false := by
      by_contra hno
      refine hearly fun _ => ⟨houtstanding, fun hlate => ?_⟩
      by_contra hnone
      simp only [not_or, Bool.not_eq_true] at hnone
      exact hno ⟨hlate, hnone⟩
    obtain ⟨hlate, hfound, hstopped, hnamed⟩ := hmissed
    refine ⟨[], ?_⟩
    simp [step, hwaiting, hfound, Safe, hlate, hstopped, hnamed]

/-- **A call accepted after the suppression is stopped or reported** in every run whose scans
come late enough, and a run whose scan comes too early goes on to one that is not. -/
theorem late_call_reported (actions : List Action) :
    (Run.Guarded step Covered start actions → (run actions).Safe) ∧
      ((run actions).job = .waiting → ¬ (run actions).Covered .scan →
        ∃ more, ¬ (run (actions ++ .scan :: more)).Safe) := by
  refine ⟨fun h => (guarded_swept h).safe, fun hwaiting hearly => ?_⟩
  obtain ⟨more, hunsafe⟩ := early_scan_unsafe (run_lawful actions) hwaiting hearly
  refine ⟨more, ?_⟩
  rw [run, List.foldl_append, List.foldl_cons]
  exact hunsafe

/-! ## A call between the two -/

/-- The number is suppressed and recalled while the dial is on its way to the phone system. -/
def betweenReads : List Action :=
  [.readList, .suppress, .reserve, .scan, .send, .accept, .confirm true]

/-- **The call rings, and nobody is told.** -/
theorem betweenReads_unsafe : ¬ ∀ actions : List Action, (run actions).Safe := by
  intro h
  exact absurd (h betweenReads) (by decide)

end State

end Recall

end Calevate.Compliance
