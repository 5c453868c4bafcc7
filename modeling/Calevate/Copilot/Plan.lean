import Calevate.Lib.Run
import Mathlib.Data.List.Dedup

/-!
# Plans of the copilot

An action over many targets becomes a plan: its targets are frozen with those left out marked, a
hash of it is shown to a person, and what is approved is that hash. Workers run an approved plan
target by target, each in a transaction of its own that locks the target's row, and any number of
them may be at the same plan. A cancellation waits for the targets that are locked.

The model is one plan with its targets and its workers, and an event for every transaction. What a
card reads and no worker does (the counts, the sentence of the result, the reasons) is left out.
-/

namespace Calevate.Copilot

/-! ## The plan -/

inductive PlanStatus
  | proposed
  | approved
  | running
  | done
  | cancelled
  | expired
  deriving DecidableEq

inductive TargetStatus
  | pending
  | done
  | skipped
  | failed
  deriving DecidableEq

/-- `TargetVerdict`. -/
inductive TargetVerdict
  | done
  | skipped
  | failed
  deriving DecidableEq

def TargetVerdict.status : TargetVerdict → TargetStatus
  | done => .done
  | skipped => .skipped
  | failed => .failed

/-- A row of `copilot_plan_targets`. -/
structure PlanTarget (ι : Type*) where
  targetId : ι
  excluded : Bool
  status : TargetStatus
  deriving DecidableEq

/-- A row of `copilot_plans`, with its targets by position. -/
structure PlanRow (ι υ : Type*) where
  userId : υ
  planHash : String
  expiresAt : ℕ
  status : PlanStatus
  targets : List (PlanTarget ι)
  deriving DecidableEq

variable {ι υ : Type*} [DecidableEq ι] [DecidableEq υ]

/-- `dict.fromkeys`: each target where it stands first. -/
def once (prepared : List ι) : List ι := prepared.reverse.dedup.reverse

/-- The rows of the targets. -/
def freeze (exclude : ι → Bool) (targets : List ι) : List (PlanTarget ι) :=
  targets.map fun t => ⟨t, exclude t, if exclude t then .skipped else .pending⟩

/-- `build_plan`, from what was prepared and who is left out, or the refusal of a plan for
nobody. -/
def buildPlan (userId : υ) (planHash : String) (expiresAt : ℕ) (prepared : List ι)
    (exclude : ι → Bool) : Option (PlanRow ι υ) :=
  if once prepared = [] then none
  else some ⟨userId, planHash, expiresAt, .proposed, freeze exclude (once prepared)⟩

/-- Targets still pending are settled. -/
def settleWhere (p : ι → Bool) (v : TargetStatus) (ts : List (PlanTarget ι)) :
    List (PlanTarget ι) :=
  ts.map fun t => if p t.targetId ∧ t.status = .pending then { t with status := v } else t

/-- `record_outcome`: only a target still pending is settled. -/
def recordOutcome (target : ι) (v : TargetVerdict) (ts : List (PlanTarget ι)) :
    List (PlanTarget ι) :=
  settleWhere (fun i => i = target) v.status ts

/-- `skip_rest`. -/
def skipRest (ts : List (PlanTarget ι)) : List (PlanTarget ι) :=
  settleWhere (fun _ => true) .skipped ts

/-- `_expire_if_due`. -/
def expireIfDue (now : ℕ) (p : PlanRow ι υ) : PlanRow ι υ :=
  if p.status ≠ .proposed ∨ now < p.expiresAt then p else { p with status := .expired }

inductive PlanRefusal
  | notFound
  | expired
  | decided
  | changed
  | notCancellable
  deriving DecidableEq

/-- `approve`. -/
def approve (user : υ) (expectedHash : String) (now : ℕ) (p : PlanRow ι υ) :
    Except PlanRefusal (PlanRow ι υ) :=
  if p.userId ≠ user then .error .notFound
  else
    let p := expireIfDue now p
    if p.status = .expired then .error .expired
    else if p.status ≠ .proposed then .error .decided
    else if p.planHash ≠ expectedHash then .error .changed
    else .ok { p with status := .approved }

/-- `cancel`. -/
def cancel (user : υ) (p : PlanRow ι υ) : Except PlanRefusal (PlanRow ι υ) :=
  if p.userId ≠ user then .error .notFound
  else if p.status ≠ .proposed ∧ p.status ≠ .approved ∧ p.status ≠ .running then
    .error .notCancellable
  else .ok { p with status := .cancelled, targets := skipRest p.targets }

/-- `claim_run`. -/
def claimRun (p : PlanRow ι υ) : Option (PlanRow ι υ) :=
  if p.status = .approved ∨ p.status = .running then some { p with status := .running } else none

/-- `finish`. -/
def finish (p : PlanRow ι υ) : PlanRow ι υ :=
  if p.status = .running then { p with status := .done } else p

/-! ## Workers -/

/-- Where a worker is in `run_copilot_plan`. -/
inductive Phase (ι : Type*)
  | idle
  /-- The plan is claimed, and the tool, the member and the role are still to be looked up. -/
  | claimed
  /-- At the head of the loop. -/
  | ready
  /-- With the targets of a batch in hand. -/
  | batch (rest : List ι)
  /-- In the transaction of a target: its row is locked. -/
  | inside (target : ι) (rest : List ι)
  /-- The transaction was rolled back, and the failure is still to be recorded. -/
  | failing (target : ι) (rest : List ι)
  /-- Out of targets. -/
  | finishing
  deriving DecidableEq

/-- The row of a target a worker has locked. -/
def Phase.lock : Phase ι → Option ι
  | .inside target _ => some target
  | _ => none

/-- The plan, the workers that were ever at it, and what has happened: the approvals, and the
targets whose effect was committed. -/
structure Run (ι υ : Type*) where
  plan : PlanRow ι υ
  workers : List (Phase ι)
  approvals : List (υ × String × ℕ)
  ran : List ι
  deriving DecidableEq

def Run.start (p : PlanRow ι υ) : Run ι υ := ⟨p, [], [], []⟩

def Run.locks (s : Run ι υ) : List ι := s.workers.filterMap Phase.lock

/-- A worker goes on. -/
def Run.goto (s : Run ι υ) (w : ℕ) (phase : Phase ι) : Run ι υ :=
  { s with workers := s.workers.set w phase }

def batchSize : ℕ := 25

/-- The pending targets whose row nobody has locked. -/
def Run.free (s : Run ι υ) : List ι :=
  (s.plan.targets.filter fun t => t.status = .pending ∧ t.targetId ∉ s.locks).map
    PlanTarget.targetId

inductive Event (υ : Type*)
  /-- Somebody reads the plan. -/
  | read (now : ℕ)
  | approve (user : υ) (expectedHash : String) (now : ℕ)
  | cancel (user : υ)
  /-- A job is delivered to another worker. -/
  | claim
  /-- The tool is known, and the approver is a member whose role allows it. -/
  | pass (w : ℕ)
  /-- Or not: the rest is skipped. -/
  | close (w : ℕ)
  /-- `still_running`, and `pending_batch`. -/
  | next (w : ℕ)
  | enter (w : ℕ)
  /-- The effect and the outcome of a target are committed. -/
  | settle (w : ℕ) (v : TargetVerdict)
  /-- They are rolled back. -/
  | rollback (w : ℕ)
  | recordFailed (w : ℕ)
  | heartbeat (w : ℕ)
  | finish (w : ℕ)
  | crash (w : ℕ)
  deriving DecidableEq

/-- A transaction of a worker, from where it is. -/
def turn (s : Run ι υ) (w : ℕ) : Event υ → Phase ι → Run ι υ
  | .pass _, .claimed => s.goto w .ready
  | .close _, .claimed =>
    -- the rows that are locked are waited for
    if s.locks = [] then
      { s with plan := finish { s.plan with targets := skipRest s.plan.targets } }.goto w .idle
    else s
  | .next _, .ready =>
    if s.plan.status ≠ .running then s.goto w .idle
    else match s.free.take batchSize with
      | [] => s.goto w .finishing
      | batch => s.goto w (.batch batch)
  | .enter _, .batch (target :: rest) =>
    if target ∈ s.free then s.goto w (.inside target rest) else s.goto w (.batch rest)
  | .settle _ v, .inside target rest =>
    { s with
      plan := { s.plan with targets := recordOutcome target v s.plan.targets }
      ran := s.ran ++ [target] }.goto w (.batch rest)
  | .rollback _, .inside target rest => s.goto w (.failing target rest)
  | .recordFailed _, .failing target rest =>
    if target ∈ s.locks then s
    else { s with
      plan := { s.plan with targets := recordOutcome target .failed s.plan.targets } }.goto w
        (.batch rest)
  | .heartbeat _, .batch [] => s.goto w .ready
  | .finish _, .finishing => { s with plan := finish s.plan }.goto w .idle
  | .crash _, _ => s.goto w .idle
  | _, _ => s

/-- The worker of an event. -/
def Event.worker : Event υ → Option ℕ
  | .read _ | .approve .. | .cancel _ | .claim => none
  | .pass w | .close w | .next w | .enter w | .settle w _ | .rollback w | .recordFailed w
  | .heartbeat w | .finish w | .crash w => some w

/-- **A transaction.** What it has to wait for, and what is not its turn, changes nothing. -/
def step (s : Run ι υ) (e : Event υ) : Run ι υ :=
  match e with
  | .read now => { s with plan := expireIfDue now s.plan }
  | .approve user expectedHash now =>
    match approve user expectedHash now s.plan with
    | .ok p => { s with plan := p, approvals := s.approvals ++ [(user, expectedHash, now)] }
    | .error _ => s
  | .cancel user =>
    -- the rows that are locked are waited for
    if s.locks ≠ [] then s
    else match cancel user s.plan with
      | .ok p => { s with plan := p }
      | .error _ => s
  | .claim =>
    match claimRun s.plan with
    | some p => { s with plan := p, workers := s.workers ++ [.claimed] }
    | none => s
  | e =>
    match e.worker with
    | none => s
    | some w =>
      match s.workers[w]? with
      | none => s
      | some phase => turn s w e phase

end Calevate.Copilot
