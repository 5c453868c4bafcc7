import Calevate.Lib.Run
import Calevate.Lib.Table

/-!
# Idempotency keys

`claim_idempotency` hands a key to the first call that asks, answers later ones from the
stored response, and hands the key on when its holder failed or fell silent. The calls run
at once, so the machine below moves by statements: a claim is its `INSERT`, its `SELECT` and
its compare-and-set, each reading the table as it is at that moment, and a report is one
`UPDATE` of a later transaction. `now()` is when a statement's transaction began, any moment
up to the clock.

A call mints its record id and its nonce when it begins, and no other call shares them; here
both are the number of the call. Times are in seconds.
-/

namespace Calevate.Reliability

open Lib

/-! ## The table -/

/-- `IDEMPOTENCY_TTL`. -/
def idempotencyTtl : ℕ := 24 * 3600

/-- `CLAIM_LEASE`. -/
def claimLease : ℕ := 10 * 60

/-- The columns of `UNIQUE (scope_key, route, method, idempotency_key)`. -/
structure IdempotencyKey where
  scope : String
  route : String
  method : String
  key : String
  deriving DecidableEq

inductive IdempotencyStatus where
  | processing
  | failed
  | inDoubt
  | completed
  deriving DecidableEq

/-- A row of `idempotency_records`. -/
structure IdempotencyRecord where
  id : ℕ
  key : IdempotencyKey
  requestHash : String
  status : IdempotencyStatus
  claimNonce : ℕ
  responseStatus : Option ℕ
  responsePayload : Option String
  expiresAt : ℕ
  updatedAt : ℕ
  deriving DecidableEq

/-- The row is somebody's claim. -/
def IdempotencyRecord.open (r : IdempotencyRecord) : Bool :=
  r.status = .processing ∨ r.status = .inDoubt

/-- The `WHERE` of the compare-and-set in `claim_idempotency`. -/
def IdempotencyRecord.retakable (r : IdempotencyRecord) (now : ℕ) : Bool :=
  r.status = .failed ∨ (r.status = .processing ∧ r.updatedAt + claimLease < now)

/-- `_IDEMPOTENCY_HELD_BY_CLAIM`. -/
def IdempotencyRecord.heldByClaim (r : IdempotencyRecord) (id nonce : ℕ) : Bool :=
  r.id = id ∧ r.open ∧ r.claimNonce = nonce

/-! ## Refusals -/

/-- What a `ProblemError` says. -/
structure Problem where
  code : String
  title : String
  detail : String
  remediation : Option String
  deriving DecidableEq

def keyReused : Problem where
  code := "idempotency_key_reused"
  title := "We could not complete that"
  detail := "This Idempotency-Key was already used for a different request body."
  remediation := some "Use a fresh key for a new request."

/-- `_in_flight`. -/
def inFlight : Problem where
  code := "idempotent_request_in_flight"
  title := "Request already in progress"
  detail := "An identical request is still being processed."
  remediation := some "Retry in a few seconds."

def inDoubt : Problem where
  code := "idempotent_request_in_doubt"
  title := "We can't tell whether that went through"
  detail := "We started this earlier and could not confirm it finished, so we will not " ++
    "do it again by ourselves."
  remediation := some
    "Check whether it happened (calls show in Call logs) before you try again."

/-- A claim that got no answer of its own: a problem, or the row that was gone when
`scalar_one` asked for it. -/
inductive Refusal where
  | problem (p : Problem)
  | noResultFound
  deriving DecidableEq

/-! ## Calls -/

/-- What a call asks with. -/
structure Ask where
  key : IdempotencyKey
  requestHash : String
  deriving DecidableEq

/-- How far a call is. A fresh claim names its record; its nonce is the call's own. `done`
is a call that has reported, or was told that it no longer holds the key. -/
inductive Phase where
  | idle
  | conflicted (ask : Ask) (now : ℕ)
  | looked (ask : Ask) (now : ℕ) (found : ℕ) (status : IdempotencyStatus)
  | fresh (ask : Ask) (recordId : ℕ) (takenAt : ℕ)
  | replay (ask : Ask) (recordId : ℕ) (responseStatus : Option ℕ)
      (responsePayload : Option String)
  | refused (ask : Ask) (refusal : Refusal)
  | done (ask : Ask) (recordId : ℕ)
  deriving DecidableEq

structure Idempotency where
  records : List IdempotencyRecord
  calls : ℕ → Phase
  clock : ℕ

namespace Idempotency

/-- No key was ever used. -/
def init : Idempotency := ⟨[], fun _ => .idle, 0⟩

def setCall (s : Idempotency) (q : ℕ) (phase : Phase) : Idempotency :=
  { s with calls := Function.update s.calls q phase }

/-- `UPDATE idempotency_records SET f WHERE p`. -/
def updateRecords (s : Idempotency) (p : IdempotencyRecord → Bool)
    (f : IdempotencyRecord → IdempotencyRecord) : Idempotency :=
  { s with records := Table.update p f s.records }

/-! ## `claim_idempotency` -/

/-- The row a claim inserts. -/
def newRecord (q : ℕ) (ask : Ask) (now : ℕ) : IdempotencyRecord where
  id := q
  key := ask.key
  requestHash := ask.requestHash
  status := .processing
  claimNonce := q
  responseStatus := none
  responsePayload := none
  expiresAt := now + idempotencyTtl
  updatedAt := now

/-- The `INSERT … ON CONFLICT DO NOTHING`. -/
def insert (s : Idempotency) (q : ℕ) (ask : Ask) (now : ℕ) : Idempotency :=
  if s.records.any fun r => r.key = ask.key then
    s.setCall q (.conflicted ask now)
  else
    { s with records := s.records ++ [newRecord q ask now] }.setCall q (.fresh ask q now)

/-- The `SELECT` after a conflict, and what the answer decides at once. -/
def look (s : Idempotency) (q : ℕ) (ask : Ask) (now : ℕ) : Idempotency :=
  match s.records.find? fun r => r.key = ask.key with
  | none => s.setCall q (.fresh ask q now)
  | some found =>
    if found.requestHash ≠ ask.requestHash then
      s.setCall q (.refused ask (.problem keyReused))
    else if found.status = .completed then
      s.setCall q (.replay ask found.id found.responseStatus found.responsePayload)
    else s.setCall q (.looked ask now found.id found.status)

/-- The statement after the `SELECT`: a row in doubt is only asked whether its holder is
still within the lease, any other is taken back by compare-and-set. -/
def settle (s : Idempotency) (q : ℕ) (ask : Ask) (now found : ℕ) (status : IdempotencyStatus) :
    Idempotency :=
  if status = .inDoubt then
    match s.records.find? fun r => r.id = found with
    | none => s.setCall q (.refused ask .noResultFound)
    | some r =>
      if r.updatedAt + claimLease < now then s.setCall q (.refused ask (.problem inDoubt))
      else s.setCall q (.refused ask (.problem inFlight))
  else if s.records.any fun r => r.id = found ∧ r.retakable now then
    (s.updateRecords (fun r => r.id = found ∧ r.retakable now)
      fun r => { r with status := .processing, claimNonce := q, updatedAt := now }).setCall q
        (.fresh ask found now)
  else s.setCall q (.refused ask (.problem inFlight))

/-! ## Reports -/

/-- `mark_idempotency_in_doubt`. A call that no longer holds the key must not go on. -/
def markIdempotencyInDoubt (s : Idempotency) (q : ℕ) (ask : Ask) (recordId now : ℕ) :
    Idempotency :=
  if s.records.any fun r => r.id = recordId ∧ r.status = .processing ∧ r.claimNonce = q then
    s.updateRecords (fun r => r.id = recordId ∧ r.status = .processing ∧ r.claimNonce = q)
      fun r => { r with status := .inDoubt, updatedAt := now }
  else s.setCall q (.done ask recordId)

/-- `complete_idempotency`. -/
def completeIdempotency (s : Idempotency) (q : ℕ) (ask : Ask) (recordId responseStatus : ℕ)
    (responsePayload : String) (now : ℕ) : Idempotency :=
  (s.updateRecords (fun r => r.heldByClaim recordId q) fun r =>
    { r with
      status := .completed
      responseStatus := some responseStatus
      responsePayload := some responsePayload
      updatedAt := now }).setCall q (.done ask recordId)

/-- `fail_idempotency`. -/
def failIdempotency (s : Idempotency) (q : ℕ) (ask : Ask) (recordId now : ℕ) : Idempotency :=
  (s.updateRecords (fun r => r.heldByClaim recordId q)
    fun r => { r with status := .failed, updatedAt := now }).setCall q (.done ask recordId)

/-- `sweep_idempotency`. -/
def sweepIdempotency (s : Idempotency) (now : ℕ) : Idempotency :=
  { s with records := s.records.filter fun r => ¬ r.expiresAt < now }

/-! ## Runs -/

inductive Action where
  | claim (q : ℕ) (ask : Ask) (now : ℕ)
  | look (q : ℕ)
  | settle (q : ℕ)
  | markInDoubt (q : ℕ) (now : ℕ)
  | complete (q : ℕ) (responseStatus : ℕ) (responsePayload : String) (now : ℕ)
  | fail (q : ℕ) (now : ℕ)
  | sweep (now : ℕ)
  | tick (d : ℕ)

/-- One statement. A call reports with the claim it was handed, also after it has reported
before, and a statement that is nobody's turn does nothing. -/
def step (s : Idempotency) : Action → Idempotency
  | .claim q ask now =>
    match s.calls q with
    | .idle => if now ≤ s.clock then s.insert q ask now else s
    | _ => s
  | .look q =>
    match s.calls q with
    | .conflicted ask now => s.look q ask now
    | _ => s
  | .settle q =>
    match s.calls q with
    | .looked ask now found status => s.settle q ask now found status
    | _ => s
  | .markInDoubt q now =>
    match s.calls q with
    | .fresh ask recordId _ =>
      if now ≤ s.clock then s.markIdempotencyInDoubt q ask recordId now else s
    | _ => s
  | .complete q responseStatus responsePayload now =>
    match s.calls q with
    | .fresh ask recordId _ | .done ask recordId =>
      if now ≤ s.clock then
        s.completeIdempotency q ask recordId responseStatus responsePayload now
      else s
    | _ => s
  | .fail q now =>
    match s.calls q with
    | .fresh ask recordId _ | .done ask recordId =>
      if now ≤ s.clock then s.failIdempotency q ask recordId now else s
    | _ => s
  | .sweep now => if now ≤ s.clock then s.sweepIdempotency now else s
  | .tick d => { s with clock := s.clock + d }

/-- A run from the empty table. -/
def run (as : List Action) : Idempotency := as.foldl step init

/-- The call holds the key: it was told `fresh`, has not reported, and took it no longer
than the lease ago. -/
def holds (s : Idempotency) (q : ℕ) (key : IdempotencyKey) : Bool :=
  match s.calls q with
  | .fresh ask _ takenAt => ask.key = key ∧ s.clock ≤ takenAt + claimLease
  | _ => false

end Idempotency

end Calevate.Reliability
