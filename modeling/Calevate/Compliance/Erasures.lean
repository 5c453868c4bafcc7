import Calevate.Lib.Run
import Calevate.Lib.Statement

/-!
# Erasure requests

The rows of `deletion_requests` of one account, and the transactions that write them.
`request_erasure` files a request for a number under the lock of its subject, unless one is
open. `execute_deletion_request` reads its request, erases, and completes the row at the end of
the same transaction; a run that reads a completed row stops there. `execute_tenant_erasure`
closes whatever is still open when the whole account goes.

Any number of these run at once, each cut before its statements and at the rows it waits for.
What a run erases is written in other tables; here it is the facts its certificate states.
-/

namespace Calevate

namespace Compliance

open Lib

variable {Facts : Type} (subjectRef : ℕ → ℕ)

/-- The certificate: what was done, and whose erasure it was. -/
structure ErasureProof (Facts : Type) where
  subjectHash : ℕ
  facts : Facts
  deriving DecidableEq

/-- A row of `deletion_requests`. A number is a number's digits; an open request names its
subject. -/
structure DeletionRequest (Facts : Type) where
  phoneE164 : Option ℕ
  subjectRef : ℕ
  requestedAt : ℕ
  completedAt : Option ℕ := none
  proof : Option (ErasureProof Facts) := none
  open_request_names_its_subject : completedAt ≠ none ∨ phoneE164 ≠ none
  deriving DecidableEq

namespace DeletionRequest

/-- `completed_at IS NULL` -/
def open_ (r : DeletionRequest Facts) : Bool := r.completedAt.isNone

/-- `WHERE phone_e164 = :phone AND completed_at IS NULL` -/
def openFor (phone : ℕ) (r : DeletionRequest Facts) : Bool :=
  r.phoneE164 = some phone ∧ r.completedAt = none

/-- The row `request_erasure` inserts. -/
def filed (phone now : ℕ) : DeletionRequest Facts where
  phoneE164 := some phone
  subjectRef := subjectRef phone
  requestedAt := now
  open_request_names_its_subject := .inr nofun

/-- `SET completed_at = now(), proof = …, phone_e164 = NULL` -/
def complete (now : ℕ) (proof : ErasureProof Facts) (r : DeletionRequest Facts) :
    DeletionRequest Facts :=
  { r with
    completedAt := some now
    proof := some proof
    phoneE164 := none
    open_request_names_its_subject := .inl nofun }

/-- `_CLOSE_OPEN_DELETION_REQUESTS_SQL`, the `SET`: a proof and a date where there were none, and
no number. -/
def close (now : ℕ) (facts : Facts) (r : DeletionRequest Facts) : DeletionRequest Facts :=
  { r with
    completedAt := some (r.completedAt.getD now)
    proof := if r.completedAt = none then some ⟨r.subjectRef, facts⟩ else r.proof
    phoneE164 := none
    open_request_names_its_subject := .inl nofun }

/-- Its `WHERE`. -/
def toClose (r : DeletionRequest Facts) : Bool := r.completedAt = none ∨ r.phoneE164 ≠ none

end DeletionRequest

/-! ## Sessions -/

/-- What a statement did to a request. -/
inductive ErasureMark where
  | completed
  | closed
  deriving DecidableEq, Repr

/-- Where a transaction is; `now` is the instant it began, which is its `now()`. -/
inductive ErasureStage (Facts : Type) where
  | unbegun
  | locking (phone now : ℕ)
  | looking (phone now : ℕ)
  | filing (phone now : ℕ)
  | filed (phone : ℕ) (row : Option ℕ)
  | reading (row now : ℕ) (facts : Facts)
  | erasing (row now phone : ℕ) (facts : Facts)
  | completed (row now : ℕ) (proof : ErasureProof Facts)
  | returned
  | toClose (now : ℕ) (facts : Facts)
  | closing (now : ℕ) (facts : Facts) (rows : List ℕ)
  | ended
  deriving DecidableEq

/-- The rows, where each session is, and who holds each subject's lock. -/
structure Erasures (Facts : Type) where
  store : RowStore (DeletionRequest Facts) ErasureMark
  stage : ℕ → ErasureStage Facts
  lock : ℕ → Option ℕ

namespace Erasures

def start : Erasures Facts where
  store := RowStore.empty
  stage := fun _ => .unbegun
  lock := fun _ => none

/-- Session `i` goes on at `stage`, and leaves the rows as they then are. -/
def goto (s : Erasures Facts) (i : ℕ) (store : RowStore (DeletionRequest Facts) ErasureMark)
    (stage : ErasureStage Facts) : Erasures Facts :=
  { s with store, stage := Function.update s.stage i stage }

/-- The next statement of session `i`, or the next row of the one it is at. A row that another
session holds is waited for. -/
def advance (s : Erasures Facts) (i : ℕ) : Erasures Facts :=
  match s.stage i with
  | .locking phone now =>
    if (s.lock (subjectRef phone)).all (· = i) then
      { s with
        lock := Function.update s.lock (subjectRef phone) (some i)
        stage := Function.update s.stage i (.looking phone now) }
    else s
  | .looking phone now =>
    match s.store.found i (DeletionRequest.openFor phone) with
    | row :: _ => s.goto i s.store (.filed phone (some row))
    | [] => s.goto i s.store (.filing phone now)
  | .filing phone now =>
    s.goto i (s.store.insert i (.filed subjectRef phone now)) (.filed phone (some s.store.size))
  | .reading row now facts =>
    match s.store.visible i row with
    | none => s.goto i s.store .returned
    | some r =>
      if r.completedAt = none then s.goto i s.store (.erasing row now (r.phoneE164.getD 0) facts)
      else s.goto i s.store .returned
  | .erasing row now phone facts =>
    let proof := ⟨subjectRef phone, facts⟩
    match s.store.updateRow i row (fun _ => true) (.complete now proof) .completed with
    | none => s
    | some (store, _) => s.goto i store (.completed row now proof)
  | .toClose now facts =>
    s.goto i s.store (.closing now facts (s.store.found i DeletionRequest.toClose))
  | .closing now facts (k :: rows) =>
    match s.store.updateRow i k DeletionRequest.toClose (.close now facts) .closed with
    | none => s
    | some (store, _) => s.goto i store (.closing now facts rows)
  | .closing _ _ [] => s.goto i s.store .returned
  | _ => s

/-- A session that has sent its last statement. -/
def done : ErasureStage Facts → Bool
  | .filed _ _ | .completed _ _ _ | .returned => true
  | _ => false

/-- A session that ends lets go of its locks. -/
def unlock (s : Erasures Facts) (i : ℕ) : ℕ → Option ℕ := fun key => (s.lock key).filter (· ≠ i)

def commit (s : Erasures Facts) (i : ℕ) : Erasures Facts :=
  if done (s.stage i) then
    { s.goto i (s.store.commit i) .ended with lock := s.unlock i }
  else s

/-- A transaction can be lost at any point before it has committed. -/
def rollback (s : Erasures Facts) (i : ℕ) : Erasures Facts :=
  { s.goto i (s.store.rollback i) .ended with lock := s.unlock i }

end Erasures

inductive ErasureAction (Facts : Type) where
  | requestErasure (i phone now : ℕ)
  | executeDeletionRequest (i row now : ℕ) (facts : Facts)
  | executeTenantErasure (i now : ℕ) (facts : Facts)
  | advance (i : ℕ)
  | commit (i : ℕ)
  | rollback (i : ℕ)

namespace Erasures

variable (s : Erasures Facts)

/-- A session begins once. -/
def beginAt (i : ℕ) (stage : ErasureStage Facts) : Erasures Facts :=
  match s.stage i with
  | .unbegun => s.goto i s.store stage
  | _ => s

def step : ErasureAction Facts → Erasures Facts
  | .requestErasure i phone now => s.beginAt i (.locking phone now)
  | .executeDeletionRequest i row now facts => s.beginAt i (.reading row now facts)
  | .executeTenantErasure i now facts => s.beginAt i (.toClose now facts)
  | .advance i => s.advance subjectRef i
  | .commit i => s.commit i
  | .rollback i => s.rollback i

end Erasures

end Compliance

end Calevate
