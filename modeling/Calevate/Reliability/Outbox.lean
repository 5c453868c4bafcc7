import Mathlib.Data.List.Sort
import Calevate.Lib.Run

/-!
# The outbox

A message is claimed by a dispatcher tick, handed to the queue under an id of its own,
marked published, and run by a worker that records its success. Dispatchers, runs, the
sweep and an operator's replay all write it. A claim commits by itself, statement by
statement, on the `now()` its transaction began with; what a tick marks is written when the
tick's own transaction commits, and lost if the tick dies first.

Each message carries what the queue holds for it, and a history of what was done to it that
is not in the database. Rows a transaction of someone else's has locked are skipped by the
statements that say so: `skip` names them. Times are in seconds.
-/

namespace Calevate.Reliability

open Lib

/-! ## Messages -/

/-- `OUTBOX_MAX_ATTEMPTS`. -/
def outboxMaxAttempts : ℕ := 5

/-- `OUTBOX_BATCH`. -/
def outboxBatch : ℕ := 50

/-- `OUTBOX_CLAIM_LEASE`. -/
def outboxClaimLease : ℕ := 2 * 60

/-- `OUTBOX_UNKNOWN_JOB_GRACE`. -/
def outboxUnknownJobGrace : ℕ := 30 * 60

/-- `OUTBOX_CONSUME_DEADLINE`. -/
def outboxConsumeDeadline : ℕ := 2 * 3600

/-- `OUTBOX_RETRY_BACKOFF_S`. -/
def outboxRetryBackoff : ℕ := 30

/-- `OUTBOX_RETRY_BACKOFF_CAP_S`. -/
def outboxRetryBackoffCap : ℕ := 300

/-- `SCRUB_AT_PUBLISH_JOBS`. -/
def scrubAtPublishJobs : List String := ["deliver_auth_email", "send_team_contact_code"]

/-- `'{}'::jsonb`. -/
def scrubbed : String := "\x7b\x7d"

inductive MessageStatus where
  | pending
  | published
  | failed
  deriving DecidableEq

/-- A row of `outbox_messages`. -/
structure Message where
  id : ℕ
  job : String
  payload : String
  status : MessageStatus
  attemptCount : ℕ
  lockedUntil : Option ℕ
  jobId : Option String
  publishedAt : Option ℕ
  consumedAt : Option ℕ
  consumeBy : Option ℕ
  minRevision : Option String
  lastError : Option String
  createdAt : ℕ
  updatedAt : ℕ
  deriving DecidableEq

namespace Message

/-- `locked_until IS NULL OR locked_until <= now()`. -/
def unlocked (m : Message) (now : ℕ) : Bool := m.lockedUntil.all fun t => t ≤ now

/-- The row `enqueue_outbox` inserts. A migration stamps its revision on what it queues. -/
def enqueued (id : ℕ) (job payload : String) (minRevision : Option String) (now : ℕ) :
    Message where
  id := id
  job := job
  payload := payload
  status := .pending
  attemptCount := 0
  lockedUntil := none
  jobId := none
  publishedAt := none
  consumedAt := none
  consumeBy := none
  minRevision := minRevision
  lastError := none
  createdAt := now
  updatedAt := now

/-! ## The claim -/

/-- The `WHERE` of `_dead_letter_exhausted_claims`. -/
def exhausted (m : Message) (now : ℕ) : Bool :=
  m.status = .pending ∧ outboxMaxAttempts ≤ m.attemptCount ∧ m.unlocked now

def deadLetterExhausted (m : Message) (now : ℕ) : Message :=
  { m with
    status := .failed
    lockedUntil := none
    lastError := m.lastError <|> some "claim abandoned; budget spent with no outcome"
    updatedAt := now }

/-- The `WHERE` of `_dead_letter_unknown_jobs`. -/
def unknownJob (m : Message) (known : List String) (now : ℕ) : Bool :=
  m.status = .pending ∧ m.job ∉ known ∧ m.createdAt + outboxUnknownJobGrace < now

def deadLetterUnknownJob (m : Message) (now : ℕ) : Message :=
  { m with
    status := .failed
    lockedUntil := none
    lastError := some ("no worker runs job " ++ m.job)
    updatedAt := now }

/-- The `WHERE` of `claim_outbox_batch`. -/
def claimable (m : Message) (jobs : Option (List String)) (held : List String)
    (revisions : Option (List String)) (now : ℕ) : Bool :=
  m.status = .pending ∧ m.unlocked now ∧ (jobs.all fun known => m.job ∈ known) ∧ m.job ∉ held ∧
    m.minRevision.all fun r => revisions.all fun image => r ∈ image

def claim (m : Message) (now : ℕ) : Message :=
  { m with
    attemptCount := m.attemptCount + 1
    lockedUntil := some (now + outboxClaimLease)
    updatedAt := now }

/-! ## Marks -/

/-- `mark_outbox_published`. -/
def markPublished (m : Message) (jobId : String) (now : ℕ) : Message :=
  { m with
    status := .published
    jobId := some jobId
    payload := if m.job ∈ scrubAtPublishJobs then scrubbed else m.payload
    consumeBy := if m.job ∈ scrubAtPublishJobs then none else some (now + outboxConsumeDeadline)
    publishedAt := some now
    lockedUntil := none
    updatedAt := now }

/-- `_BACKOFF_INTERVAL_SQL`. -/
def backoff (m : Message) : ℕ := min (outboxRetryBackoff * max m.attemptCount 1) outboxRetryBackoffCap

/-- `mark_outbox_failed`, which is told the attempt count by the caller. -/
def markFailed (m : Message) (error : String) (attemptCount now : ℕ) : Message :=
  { m with
    status := if outboxMaxAttempts ≤ attemptCount then .failed else .pending
    lastError := some error
    lockedUntil := if outboxMaxAttempts ≤ attemptCount then none else some (now + m.backoff)
    updatedAt := now }

/-- `defer_outbox_claim`. -/
def deferClaim (m : Message) (error : String) (now : ℕ) : Message :=
  { m with lockedUntil := some (now + m.backoff), lastError := some error, updatedAt := now }

/-- `mark_outbox_consumed`. -/
def markConsumed (m : Message) (now : ℕ) : Message :=
  { m with consumedAt := some now, payload := scrubbed }

/-- The `WHERE` of `sweep_unconsumed_outbox`. -/
def unconsumed (m : Message) (now : ℕ) : Bool :=
  m.status = .published ∧ m.consumedAt = none ∧ m.consumeBy.any fun t => t < now

def giveBack (m : Message) (now : ℕ) : Message :=
  { m with
    status := if outboxMaxAttempts ≤ m.attemptCount then .failed else .pending
    lastError := some ("published " ++ toString (m.publishedAt.getD 0) ++ " IST; no run succeeded")
    consumeBy := none
    lockedUntil := none
    updatedAt := now }

/-- `replay_dead_letters`. -/
def replay (m : Message) (now : ℕ) : Message :=
  { m with status := .pending, attemptCount := 0, lockedUntil := none, updatedAt := now }

end Message

/-! ## What goes with a message -/

/-- What the queue and the workers hold under the message's id. `cleared` is a run that has
asked whether the message is consumed, or could not ask, and has not begun the job. -/
inductive JobState where
  | absent
  | queued
  | started
  | cleared (asked : Bool)
  | running
  | ran
  deriving DecidableEq

/-- What was done to a message. -/
inductive Event where
  | claimed
  | published
  | replayed
  | began (asked : Bool)
  | recorded
  deriving DecidableEq

/-- A message with what it was enqueued with, its job, and its history, newest first. -/
structure Line where
  row : Message
  sent : String
  job : JobState
  history : List Event
  deriving DecidableEq

/-- `OutboxMessageRow`: a message as its claim returned it. -/
structure OutboxMessageRow where
  id : ℕ
  job : String
  payload : String
  attemptCount : ℕ
  deriving DecidableEq

/-- `job_id_for(message.job, str(message.id))`. -/
def OutboxMessageRow.jobId (c : OutboxMessageRow) : String := c.job ++ ":" ++ toString c.id

/-- A write of a tick that has not committed. -/
inductive Write where
  | published (id : ℕ) (jobId : String)
  | failed (id : ℕ) (error : String) (attemptCount : ℕ)
  | deferred (ids : List ℕ) (error : String)
  deriving DecidableEq

/-- How far a dispatcher tick is. `claiming` is between the first and the last statement of
its claim, and `now` the moment the claim's transaction began; `began` is when the tick's
did. -/
inductive Tick where
  | idle
  | claiming (began now : ℕ)
  | publishing (began : ℕ) (todo : List OutboxMessageRow) (writes : List Write)
  deriving DecidableEq

structure Outbox where
  lines : List Line
  ticks : ℕ → Tick
  clock : ℕ

namespace Outbox

/-- Nothing was ever enqueued. -/
def init : Outbox := ⟨[], fun _ => .idle, 0⟩

def setTick (s : Outbox) (d : ℕ) (tick : Tick) : Outbox :=
  { s with ticks := Function.update s.ticks d tick }

/-- Every message goes through `f`. -/
def mapLines (s : Outbox) (f : Line → Line) : Outbox := { s with lines := s.lines.map f }

end Outbox

namespace Line

/-- An `UPDATE` of the row, if it is picked, and what it adds to the history. -/
def touch (l : Line) (p : Message → Bool) (f : Message → Message) (events : List Event) : Line :=
  if p l.row then { l with row := f l.row, history := events ++ l.history } else l

/-- A write of a tick, on this message. -/
def apply (began : ℕ) (l : Line) : Write → Line
  | .published id jobId =>
    l.touch (fun m => m.id = id ∧ m.status = .pending) (fun m => m.markPublished jobId began)
      [.published]
  | .failed id error attemptCount =>
    l.touch (fun m => m.id = id ∧ m.status = .pending)
      (fun m => m.markFailed error attemptCount began) []
  | .deferred ids error =>
    l.touch (fun m => m.id ∈ ids ∧ m.status = .pending) (fun m => m.deferClaim error began) []

end Line

namespace Outbox

/-- `ORDER BY created_at, id LIMIT … FOR UPDATE SKIP LOCKED`: the ids of the oldest rows
among those that are picked and not locked. -/
def oldest (s : Outbox) (p : Message → Bool) (limit : ℕ) (skip : List ℕ) : List ℕ :=
  ((((s.lines.map Line.row).filter fun m => p m ∧ m.id ∉ skip).insertionSort fun m m' =>
    m.createdAt < m'.createdAt ∨ (m.createdAt = m'.createdAt ∧ m.id ≤ m'.id)).take limit).map
      Message.id

/-! ## `claim_outbox_batch` -/

/-- `_dead_letter_exhausted_claims`, the first statement. -/
def deadLetterExhausted (s : Outbox) (now : ℕ) : Outbox :=
  s.mapLines fun l => l.touch (fun m => m.exhausted now) (fun m => m.deadLetterExhausted now) []

/-- `_dead_letter_unknown_jobs`, for a release that says which jobs it runs. -/
def deadLetterUnknownJobs (s : Outbox) (known : List String) (now : ℕ) : Outbox :=
  s.mapLines fun l =>
    l.touch (fun m => m.unknownJob known now) (fun m => m.deadLetterUnknownJob now) []

/-- The claiming statement. -/
def claimBatch (s : Outbox) (d : ℕ) (jobs : Option (List String)) (held : List String)
    (revisions : Option (List String)) (skip : List ℕ) (began now : ℕ) : Outbox :=
  let ids := s.oldest (fun m => m.claimable jobs held revisions now) outboxBatch skip
  let claimed := s.mapLines fun l =>
    l.touch (fun m => m.id ∈ ids) (fun m => m.claim now) [.claimed]
  let rows := (claimed.lines.map Line.row).filter fun m => m.id ∈ ids
  claimed.setTick d
    (.publishing began (rows.map fun m => ⟨m.id, m.job, m.payload, m.attemptCount⟩) [])

/-! ## `dispatch_outbox` -/

/-- How handing a message to the queue ends: accepted, refused (with whether arq holds a
failed result of an earlier run), no queue to hand it to, or a payload it cannot take. -/
inductive Publish where
  | accepted
  | refused (earlierRunFailed : Bool)
  | queueDown (error : String)
  | poison (error : String)

/-- The first message of the batch that is left. -/
def publish (s : Outbox) (d began : ℕ) (c : OutboxMessageRow) (rest : List OutboxMessageRow)
    (writes : List Write) : Publish → Outbox
  | .accepted =>
    -- the queue refuses an id that is queued or running
    if s.lines.any fun l => l.row.id = c.id ∧ l.job ≠ .absent then s
    else (s.mapLines fun l => if l.row.id = c.id then { l with job := .queued } else l).setTick d
      (.publishing began rest (writes ++ [.published c.id c.jobId]))
  | .refused false => s.setTick d (.publishing began rest (writes ++ [.published c.id "deduped"]))
  | .refused true =>
    s.setTick d (.publishing began rest (writes ++ [.failed c.id
      ("an earlier run of this message failed and arq still holds " ++
        "its result; replay it after an hour") outboxMaxAttempts]))
  | .queueDown error =>
    s.setTick d (.publishing began []
      (writes ++ [.deferred ((c :: rest).map OutboxMessageRow.id) error]))
  | .poison error =>
    s.setTick d (.publishing began rest (writes ++ [.failed c.id error c.attemptCount]))

/-- The tick's transaction commits. -/
def commit (s : Outbox) (d began : ℕ) (writes : List Write) : Outbox :=
  (s.mapLines fun l => writes.foldl (Line.apply began) l).setTick d .idle

/-! ## `consume_outbox_once` -/

/-- How a run ends: its success is recorded or not, or the job raised and arq runs it again
or not. -/
inductive Outcome where
  | done
  | raised (again : Bool)

/-- A worker takes the job. -/
def start (l : Line) : Line := if l.job = .queued then { l with job := .started } else l

/-- `outbox_message_consumed`, if the database can be asked. -/
def check (asked : Bool) (l : Line) : Line :=
  if l.job = .started then
    if asked ∧ l.row.consumedAt ≠ none then { l with job := .absent }
    else { l with job := .cleared asked }
  else l

/-- The job runs. -/
def begin (l : Line) : Line :=
  match l.job with
  | .cleared asked => { l with job := .running, history := .began asked :: l.history }
  | _ => l

/-- The job returns or raises. -/
def finish (outcome : Outcome) (l : Line) : Line :=
  if l.job = .running then
    match outcome with
    | .done => { l with job := .ran }
    | .raised again => { l with job := if again then .queued else .absent }
  else l

/-- `mark_outbox_consumed`, if the database can be told. -/
def record (told : Bool) (now : ℕ) (l : Line) : Line :=
  if l.job = .ran then
    { (if told then
        l.touch (fun m => m.consumedAt = none) (fun m => m.markConsumed now) [.recorded]
      else l) with job := .absent }
  else l

/-- The worker dies. -/
def crashRun (again : Bool) (l : Line) : Line :=
  if l.job = .absent then l else { l with job := if again then .queued else .absent }

/-! ## Runs -/

inductive Action where
  | enqueue (job payload : String) (minRevision : Option String) (now : ℕ)
  | deadLetterExhausted (d began now : ℕ)
  | deadLetterUnknownJobs (d : ℕ) (known : List String)
  | claim (d : ℕ) (jobs : Option (List String)) (held : List String)
      (revisions : Option (List String)) (skip : List ℕ)
  | publish (d : ℕ) (outcome : Publish)
  | commit (d : ℕ)
  | crash (d : ℕ)
  | start (id : ℕ)
  | check (id : ℕ) (asked : Bool)
  | begin (id : ℕ)
  | finish (id : ℕ) (outcome : Outcome)
  | record (id : ℕ) (told : Bool) (now : ℕ)
  | crashRun (id : ℕ) (again : Bool)
  | sweepUnconsumed (skip : List ℕ) (now : ℕ)
  | replayDeadLetters (limit : ℕ) (job : Option String) (skip : List ℕ) (now : ℕ)
  | pass (d : ℕ)

/-- Something happens to the job of one message. -/
def onLine (s : Outbox) (id : ℕ) (f : Line → Line) : Outbox :=
  s.mapLines fun l => if l.row.id = id then f l else l

/-- One commit, or one step of a tick or a run, or nothing where it is nobody's turn. -/
def step (s : Outbox) : Action → Outbox
  | .enqueue job payload minRevision now =>
    if now ≤ s.clock then
      { s with
        lines := s.lines ++
          [⟨.enqueued s.lines.length job payload minRevision now, payload, .absent, []⟩] }
    else s
  | .deadLetterExhausted d began now =>
    match s.ticks d with
    | .idle =>
      if began ≤ now ∧ now ≤ s.clock then
        (s.deadLetterExhausted now).setTick d (.claiming began now)
      else s
    | _ => s
  | .deadLetterUnknownJobs d known =>
    match s.ticks d with
    | .claiming _ now => s.deadLetterUnknownJobs known now
    | _ => s
  | .claim d jobs held revisions skip =>
    match s.ticks d with
    | .claiming began now => s.claimBatch d jobs held revisions skip began now
    | _ => s
  | .publish d outcome =>
    match s.ticks d with
    | .publishing began (c :: rest) writes => s.publish d began c rest writes outcome
    | _ => s
  | .commit d =>
    match s.ticks d with
    | .publishing began [] writes => s.commit d began writes
    | _ => s
  | .crash d => s.setTick d .idle
  | .start id => s.onLine id start
  | .check id asked => s.onLine id (check asked)
  | .begin id => s.onLine id begin
  | .finish id outcome => s.onLine id (finish outcome)
  | .record id told now => if now ≤ s.clock then s.onLine id (record told now) else s
  | .crashRun id again => s.onLine id (crashRun again)
  | .sweepUnconsumed skip now =>
    if now ≤ s.clock then
      let ids := s.oldest (fun m => m.unconsumed now) outboxBatch skip
      s.mapLines fun l =>
        l.touch (fun m => m.id ∈ ids ∧ m.unconsumed now) (fun m => m.giveBack now) []
    else s
  | .replayDeadLetters limit job skip now =>
    if now ≤ s.clock then
      let ids := s.oldest (fun m => m.status = .failed ∧ job.all fun j => m.job = j) limit skip
      s.mapLines fun l =>
        l.touch (fun m => m.id ∈ ids ∧ m.status = .failed) (fun m => m.replay now) [.replayed]
    else s
  | .pass d => { s with clock := s.clock + d }

/-- A run from the empty outbox. -/
def run (as : List Action) : Outbox := as.foldl step init

end Outbox

end Calevate.Reliability
