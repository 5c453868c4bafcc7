import Mathlib.Order.Basic
import Mathlib.Logic.Function.Basic
import Calevate.Lib.Run

/-!
# Deliveries of a signed webhook

One delivery: its row in `webhook_deliveries`, which keeps the retry schedule, and the outbox
message that carries its body. `deliver_outbound_webhook` makes an attempt and records what came
of it; the wrapper around it, `consume_outbox_once`, records that a run of the message returned
and forgets the message's payload; `retry_outbound_deliveries` takes a row whose next attempt is
due and reads the body back from the message; `resend_delivery` puts a failed row back.

Any number of runs may be going at once, each cut between its transactions and lost at any
point. The message is neither erased nor pruned.
-/

namespace Calevate

namespace Integrations

open Lib

/-- `WEBHOOK_RETRY_SCHEDULE`, in seconds. -/
def webhookRetrySchedule : List ℕ := [5, 300, 1800, 7200, 18000, 36000, 36000]

/-- `WEBHOOK_MAX_ATTEMPTS` -/
def webhookMaxAttempts : ℕ := webhookRetrySchedule.length + 1

/-- `RETRY_CLAIM_LEASE` -/
def retryClaimLease : ℕ := 15 * 60

inductive DeliveryStatus where
  | delivered
  | failed
  | skipped
  | retrying
  deriving DecidableEq, Repr

/-- A row of `webhook_deliveries`; `held` when it names the outbox message. -/
structure Delivery where
  status : DeliveryStatus
  attempts : ℕ
  nextAttemptAt : Option ℕ
  held : Bool
  deriving DecidableEq, Repr

/-- The outbox message: no payload is the `{}` left when it is forgotten. -/
structure Message (Body : Type) where
  payload : Option Body
  consumedAt : Option ℕ := none
  deriving DecidableEq, Repr

/-- `mark_outbox_consumed`: the first writer wins. -/
def Message.markConsumed {Body : Type} (m : Message Body) (now : ℕ) : Message Body :=
  if m.consumedAt = none then { payload := none, consumedAt := some now } else m

/-- What came of an attempt; a run that finds its endpoint gone, or nothing left to send, skips. -/
inductive Answer where
  | delivered
  | transient
  | permanent
  | skipped
  deriving DecidableEq, Repr

/-- A run of `deliver_outbound_webhook`: a body to send, or none to read it from. -/
structure Attempt (Body : Type) where
  payload : Option Body
  attempt : ℕ
  fromOutbox : Bool
  deriving DecidableEq, Repr

/-- `scheduled`: the attempt is worth another and the budget has one. -/
def scheduled (answer : Answer) (attempt : ℕ) : Bool :=
  answer = .transient ∧ attempt < webhookMaxAttempts

/-- The status an attempt is recorded with. -/
def statusOf (answer : Answer) (attempt : ℕ) : DeliveryStatus :=
  match answer with
  | .delivered => .delivered
  | .skipped => .skipped
  | .permanent => .failed
  | .transient => if scheduled answer attempt then .retrying else .failed

/-- When the next attempt is due, if one is scheduled. -/
def nextAttemptAt (answer : Answer) (attempt now : ℕ) : Option ℕ :=
  if scheduled answer attempt then
    (webhookRetrySchedule[attempt - 1]?).map (now + ·)
  else none

/-- `record_delivery`; an attempt that was skipped names no message. -/
def recordDelivery {Body : Type} (row : Option Delivery) (run : Attempt Body) (answer : Answer)
    (now : ℕ) : Delivery where
  status := statusOf answer run.attempt
  attempts := run.attempt
  nextAttemptAt := nextAttemptAt answer run.attempt now
  held := (run.fromOutbox && answer ≠ .skipped) || row.any Delivery.held

/-- Where a run is. -/
inductive Stage (Body : Type) where
  | idle
  | checking (run : Attempt Body)
  | running (run : Attempt Body)
  | answered (run : Attempt Body) (answer : Answer)
  | returned (run : Attempt Body)
  deriving DecidableEq, Repr

/-- The row, the message, the retries the sweep has enqueued and where each run is; and how many
attempts were recorded since the delivery was last sent again. -/
structure State (Body : Type) where
  row : Option Delivery
  message : Message Body
  queue : List (Attempt Body)
  stage : ℕ → Stage Body
  recorded : ℕ

/-- The first attempt's message has been enqueued with its body. -/
def start {Body : Type} (body : Body) : State Body where
  row := none
  message := { payload := some body }
  queue := []
  stage := fun _ => .idle
  recorded := 0

namespace State

variable {Body : Type}

def goto (s : State Body) (i : ℕ) (stage : Stage Body) : State Body :=
  { s with stage := Function.update s.stage i stage }

@[simp] theorem goto_stage_self (s : State Body) (i : ℕ) (stage : Stage Body) :
    (s.goto i stage).stage i = stage := Function.update_self ..

theorem goto_stage_of_ne (s : State Body) {i j : ℕ} (h : j ≠ i) (stage : Stage Body) :
    (s.goto i stage).stage j = s.stage j := Function.update_of_ne h ..

/-- The row's columns that `claim_due_retries` returns for the next attempt: no payload where the
row names no message, else the message's as it then is. -/
def handed (s : State Body) (row : Delivery) : Option (Option Body) :=
  if row.held then some s.message.payload else none

/-- `retry_outbound_deliveries` on the row: it is claimed for the lease and its body enqueued, or
fails if no message is named. -/
def retry (s : State Body) (now : ℕ) : State Body :=
  match s.row with
  | some row =>
    if row.status = .retrying ∧ row.nextAttemptAt.any (· ≤ now) then
      match s.handed row with
      | none =>
        { s with
          row := some { row with status := .failed, nextAttemptAt := some (now + retryClaimLease) } }
      | some payload =>
        { s with
          row := some { row with nextAttemptAt := some (now + retryClaimLease) }
          queue := s.queue ++ [⟨payload, row.attempts + 1, false⟩] }
    else s
  | none => s

/-- `resend_delivery`, on an active endpoint. -/
def resend (s : State Body) (now : ℕ) : State Body :=
  match s.row with
  | some row =>
    if row.status = .failed ∧ row.held = true then
      { s with
        row := some { row with status := .retrying, nextAttemptAt := some now }
        recorded := 0 }
    else s
  | none => s

/-- The next step of run `i`. A run without a body to read raises. -/
def advance (s : State Body) (i now : ℕ) (asked : Bool) (answer : Answer) : State Body :=
  match s.stage i with
  | .checking run =>
    s.goto i (if asked && s.message.consumedAt.isSome then .idle else .running run)
  | .running run => s.goto i (if run.payload.isNone then .idle else .answered run answer)
  | .answered run answer =>
    { s.goto i (if run.fromOutbox then .returned run else .idle) with
      row := some (recordDelivery s.row run answer now)
      recorded := s.recorded + 1 }
  | .returned _ => { s.goto i .idle with message := s.message.markConsumed now }
  | .idle => s

end State

inductive Action where
  | publish (i earlierTries : ℕ)
  | run (i k earlierTries : ℕ)
  | advance (i now : ℕ) (asked : Bool) (answer : Answer)
  | lose (i : ℕ)
  | retry (now : ℕ)
  | resend (now : ℕ)
  deriving DecidableEq, Repr

variable {Body : Type}

/-- The outbox publishes its message, or arq tries a run again: it counts from the attempt the
payload names, the first if none. -/
def step (s : State Body) : Action → State Body
  | .publish i earlierTries =>
    match s.stage i with
    | .idle => s.goto i (.checking ⟨s.message.payload, 1 + earlierTries, true⟩)
    | _ => s
  | .run i k earlierTries =>
    match s.stage i, s.queue[k]? with
    | .idle, some run => s.goto i (.running { run with attempt := run.attempt + earlierTries })
    | _, _ => s
  | .advance i now asked answer => s.advance i now asked answer
  | .lose i => s.goto i .idle
  | .retry now => s.retry now
  | .resend now => s.resend now

end Integrations

end Calevate
