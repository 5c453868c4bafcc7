import Calevate.Reliability.Idempotency

/-!
# The webhook inbox

`claim_inbox_event` gives an event to one consumer and answers its redeliveries
`duplicate`, unless the consumer failed or fell silent. A row carries a status and the
moment of the last write, and nothing says whose claim it is: the three reports name the
row. As with the idempotency keys the machine moves by statements, and the id of a row is
the number of the consumer that inserted it. A consumer may report more than once: what a
worker reports of an event that was handed to it is a report of the consumer's.
-/

namespace Calevate.Reliability

open Lib

/-- The columns of `UNIQUE (provider, event_key)`. -/
structure EventKey where
  provider : String
  eventKey : String
  deriving DecidableEq

/-- `INBOX_STATUSES`. -/
inductive InboxStatus where
  | processing
  | enqueued
  | processed
  | failed
  deriving DecidableEq

/-- A row of `webhook_inbox_events`. -/
structure InboxEvent where
  id : ℕ
  key : EventKey
  payloadHash : String
  status : InboxStatus
  eventName : Option String
  duplicateCount : ℕ
  enqueuedAt : Option ℕ
  processedAt : Option ℕ
  lastError : Option String
  createdAt : ℕ
  updatedAt : ℕ
  deriving DecidableEq

/-- `_INBOX_OPEN`. -/
def InboxEvent.open (r : InboxEvent) : Bool :=
  r.status = .processing ∨ r.status = .enqueued

/-- The `WHERE` of the compare-and-set in `claim_inbox_event`. -/
def InboxEvent.retakable (r : InboxEvent) (now : ℕ) : Bool :=
  r.status = .failed ∨ (r.status = .processing ∧ r.updatedAt + claimLease < now)

/-- A delivery of an event. -/
structure Delivery where
  key : EventKey
  payloadHash : String
  eventName : Option String
  deriving DecidableEq

def payloadMismatch : Problem where
  code := "webhook_payload_mismatch"
  title := "We could not complete that"
  detail := "This event id was already received with different content."
  remediation := none

/-- How far a consumer is. `repeated` is one that is about to count its delivery as a
duplicate. -/
inductive Consumer where
  | idle
  | conflicted (delivery : Delivery) (now : ℕ)
  | looked (delivery : Delivery) (now : ℕ) (found : ℕ)
  | repeated (delivery : Delivery) (now : ℕ) (found : ℕ)
  | claimed (delivery : Delivery) (rowId : ℕ) (takenAt : ℕ)
  | duplicate (delivery : Delivery) (rowId : ℕ)
  | refused (delivery : Delivery) (problem : Problem)
  | reported (delivery : Delivery) (rowId : ℕ)
  deriving DecidableEq

structure Inbox where
  events : List InboxEvent
  consumers : ℕ → Consumer
  clock : ℕ

namespace Inbox

/-- Nothing ever arrived. -/
def init : Inbox := ⟨[], fun _ => .idle, 0⟩

def setConsumer (s : Inbox) (q : ℕ) (consumer : Consumer) : Inbox :=
  { s with consumers := Function.update s.consumers q consumer }

/-- `UPDATE webhook_inbox_events SET f WHERE p`. -/
def updateEvents (s : Inbox) (p : InboxEvent → Bool) (f : InboxEvent → InboxEvent) : Inbox :=
  { s with events := Table.update p f s.events }

/-! ## `claim_inbox_event` -/

/-- The row a claim inserts. -/
def newEvent (q : ℕ) (delivery : Delivery) (now : ℕ) : InboxEvent where
  id := q
  key := delivery.key
  payloadHash := delivery.payloadHash
  status := .processing
  eventName := delivery.eventName
  duplicateCount := 0
  enqueuedAt := none
  processedAt := none
  lastError := none
  createdAt := now
  updatedAt := now

/-- The `INSERT … ON CONFLICT DO NOTHING`. -/
def insert (s : Inbox) (q : ℕ) (delivery : Delivery) (now : ℕ) : Inbox :=
  if s.events.any fun r => r.key = delivery.key then
    s.setConsumer q (.conflicted delivery now)
  else
    { s with events := s.events ++ [newEvent q delivery now] }.setConsumer q
      (.claimed delivery q now)

/-- The `SELECT` after a conflict, and what the answer decides at once. -/
def look (s : Inbox) (q : ℕ) (delivery : Delivery) (now : ℕ) : Inbox :=
  match s.events.find? fun r => r.key = delivery.key with
  | none => s.setConsumer q (.claimed delivery q now)
  | some found =>
    if found.payloadHash ≠ delivery.payloadHash then
      s.setConsumer q (.refused delivery payloadMismatch)
    else if found.status = .failed ∨ found.status = .processing then
      s.setConsumer q (.looked delivery now found.id)
    else s.setConsumer q (.repeated delivery now found.id)

/-- The compare-and-set that takes a row back. -/
def retake (s : Inbox) (q : ℕ) (delivery : Delivery) (now found : ℕ) : Inbox :=
  if s.events.any fun r => r.id = found ∧ r.retakable now then
    (s.updateEvents (fun r => r.id = found ∧ r.retakable now)
      fun r => { r with status := .processing, updatedAt := now }).setConsumer q
        (.claimed delivery found now)
  else s.setConsumer q (.repeated delivery now found)

/-- The delivery counts as a duplicate. A row that is being worked on keeps its stamp, which
is the clock of its lease. -/
def countDuplicate (s : Inbox) (q : ℕ) (delivery : Delivery) (now found : ℕ) : Inbox :=
  (s.updateEvents (fun r => r.id = found) fun r =>
    { r with
      duplicateCount := r.duplicateCount + 1
      updatedAt := if r.status = .processing then r.updatedAt else now }).setConsumer q
        (.duplicate delivery found)

/-! ## Reports -/

/-- `mark_inbox_enqueued`. -/
def markInboxEnqueued (s : Inbox) (rowId now : ℕ) : Inbox :=
  s.updateEvents (fun r => r.id = rowId ∧ r.status = .processing)
    fun r => { r with status := .enqueued, enqueuedAt := some now, updatedAt := now }

/-- `mark_inbox_processed`. -/
def markInboxProcessed (s : Inbox) (rowId now : ℕ) : Inbox :=
  s.updateEvents (fun r => r.id = rowId ∧ r.open)
    fun r => { r with status := .processed, processedAt := some now, updatedAt := now }

/-- `mark_inbox_failed`. The error is the text `_stored_error` makes of it. -/
def markInboxFailed (s : Inbox) (rowId : ℕ) (error : String) (now : ℕ) : Inbox :=
  s.updateEvents (fun r => r.id = rowId ∧ r.open)
    fun r => { r with status := .failed, lastError := some error, updatedAt := now }

/-! ## Runs -/

/-- What a consumer reports of its event. -/
inductive Outcome where
  | enqueued
  | processed
  | failed (error : String)

def Outcome.mark : Outcome → Inbox → ℕ → ℕ → Inbox
  | .enqueued, s, rowId, now => s.markInboxEnqueued rowId now
  | .processed, s, rowId, now => s.markInboxProcessed rowId now
  | .failed error, s, rowId, now => s.markInboxFailed rowId error now

inductive Action where
  | claim (q : ℕ) (delivery : Delivery) (now : ℕ)
  | look (q : ℕ)
  | retake (q : ℕ)
  | countDuplicate (q : ℕ)
  | report (q : ℕ) (outcome : Outcome) (now : ℕ)
  | tick (d : ℕ)

/-- One statement, or nothing where it is nobody's turn. -/
def step (s : Inbox) : Action → Inbox
  | .claim q delivery now =>
    match s.consumers q with
    | .idle => if now ≤ s.clock then s.insert q delivery now else s
    | _ => s
  | .look q =>
    match s.consumers q with
    | .conflicted delivery now => s.look q delivery now
    | _ => s
  | .retake q =>
    match s.consumers q with
    | .looked delivery now found => s.retake q delivery now found
    | _ => s
  | .countDuplicate q =>
    match s.consumers q with
    | .repeated delivery now found => s.countDuplicate q delivery now found
    | _ => s
  | .report q outcome now =>
    match s.consumers q with
    | .claimed delivery rowId _ | .reported delivery rowId =>
      if now ≤ s.clock then (outcome.mark s rowId now).setConsumer q (.reported delivery rowId)
      else s
    | _ => s
  | .tick d => { s with clock := s.clock + d }

/-- A run from the empty inbox. -/
def run (as : List Action) : Inbox := as.foldl step init

/-- The consumer holds the event: it was told `claimed`, has not reported, and was told so no
longer than the lease ago. -/
def holds (s : Inbox) (q : ℕ) (key : EventKey) : Bool :=
  match s.consumers q with
  | .claimed delivery _ takenAt => delivery.key = key ∧ s.clock ≤ takenAt + claimLease
  | _ => false

end Inbox

end Calevate.Reliability
