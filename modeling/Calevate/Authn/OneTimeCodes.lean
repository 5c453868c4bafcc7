import Mathlib.Data.Finset.Card
import Calevate.Lib.Run
import Calevate.Lib.Statement

/-!
# Emailed codes

A challenge is a row of `auth_otp_challenges`: the digest of a code, until when it can be used,
how many guesses it was charged. `issue_challenge` retires the live challenges of a subject
and purpose and mints one, under the subject's advisory lock; `check_challenge` is one guess,
in two statements. The first accepts the guess if its code is the challenge's; the second
charges it if the first found nothing.

Any number of these transactions run at once. A session is cut where others can come
between: before each statement, at each row it has to wait for, before its commit. `compared`
remembers which guesses were held against which challenge while it could still accept them.
-/

namespace Calevate

namespace Authn

open Lib

inductive Realm where
  | admin
  | client
  deriving DecidableEq, Repr

/-- `OTP_PURPOSES` -/
inductive OtpPurpose where
  | loginChallenge
  | emailVerify
  | stepUp
  | signup
  deriving DecidableEq, Repr

/-- `OTP_MAX_ATTEMPTS` -/
def otpMaxAttempts : ℕ := 5

/-- `OTP_LIFETIME`, in seconds. -/
def otpLifetime : ℕ := 600

/-- Whose challenge, and what for. -/
structure Slot where
  realm : Realm
  subjectId : ℕ
  purpose : OtpPurpose
  deriving DecidableEq, Repr

/-- What `subject_lock_key` names: the purpose is no part of it. -/
def Slot.lockKey (slot : Slot) : Realm × ℕ := (slot.realm, slot.subjectId)

structure Challenge where
  slot : Slot
  codeHash : ℕ
  expiresAt : ℕ
  consumedAt : Option ℕ := none
  attempts : ℕ := 0
  deriving DecidableEq, Repr

/-- `WHERE realm = … AND subject_id = … AND purpose = … AND consumed_at IS NULL` -/
def Challenge.liveIn (slot : Slot) (c : Challenge) : Bool :=
  c.slot = slot ∧ c.consumedAt = none

/-- A call of `issue_challenge`, with the digest of the code it draws. -/
structure Issue where
  slot : Slot
  now : ℕ
  codeHash : ℕ
  deriving DecidableEq, Repr

/-- The row that `issue_challenge` inserts. -/
def Issue.challenge (call : Issue) : Challenge :=
  { slot := call.slot, codeHash := call.codeHash, expiresAt := call.now + otpLifetime }

/-- A call of `check_challenge`, with the fingerprints of the code that was typed. -/
structure Guess where
  slot : Slot
  now : ℕ
  hashes : List ℕ
  deriving DecidableEq, Repr

/-- The challenge can still accept: live, not expired, not out of budget. -/
def Guess.open (guess : Guess) (c : Challenge) : Bool :=
  c.liveIn guess.slot ∧ guess.now < c.expiresAt ∧ c.attempts < otpMaxAttempts

/-- The predicate of the accepting statement. -/
def Guess.accepts (guess : Guess) (c : Challenge) : Bool :=
  guess.open c ∧ c.codeHash ∈ guess.hashes

/-- `SET consumed_at = :now` -/
def Challenge.consume (now : ℕ) (c : Challenge) : Challenge := { c with consumedAt := some now }

/-- `SET attempts = attempts + 1` -/
def Challenge.charge (c : Challenge) : Challenge := { c with attempts := c.attempts + 1 }

inductive CodeOutcome where
  | accepted
  | wrong
  | expired
  deriving DecidableEq, Repr

/-- What a statement did to a challenge. -/
inductive Mark where
  | retired
  | accepted
  | charged
  deriving DecidableEq, Repr

/-! ## Sessions -/

/-- Where a transaction is: a statement is first about to start, then at work on the rows it
found. -/
inductive Stage where
  | unbegun
  | locking (call : Issue)
  | toRetire (call : Issue)
  | retiring (call : Issue) (rows : List ℕ)
  | minted (call : Issue) (row : ℕ)
  | toAccept (guess : Guess)
  | accepting (guess : Guess) (rows : List ℕ) (hit : Bool)
  | toCharge (guess : Guess)
  | charging (guess : Guess) (rows : List ℕ) (expired : Option Bool)
  | answered (guess : Guess) (outcome : CodeOutcome)
  | committed (outcome : Option CodeOutcome)
  | rolledBack
  deriving DecidableEq, Repr

/-- A transaction that has begun and not ended. -/
def Stage.running : Stage → Bool
  | .unbegun | .committed _ | .rolledBack => false
  | _ => true

/-- The table, where each session is, who holds each subject's lock, and the comparisons made. -/
structure State where
  store : RowStore Challenge Mark
  stage : ℕ → Stage
  lock : Realm × ℕ → Option ℕ
  compared : List (ℕ × ℕ)

def start : State where
  store := RowStore.empty
  stage := fun _ => .unbegun
  lock := fun _ => none
  compared := []

namespace State

/-- Session `i` goes on at `stage`, and leaves the rows as they then are. -/
def goto (s : State) (i : ℕ) (store : RowStore Challenge Mark) (stage : Stage) : State :=
  { s with store, stage := Function.update s.stage i stage }

/-- A session that ends lets go of its locks. -/
def unlock (s : State) (i : ℕ) : Realm × ℕ → Option ℕ := fun key => (s.lock key).filter (· ≠ i)

/-- `check_challenge`'s answer behind its second statement. -/
def refusal (expired : Option Bool) : CodeOutcome :=
  if expired = some true then .expired else .wrong

/-- The next statement of session `i`, or the next row of the one it is at. A row that another
session holds is waited for. -/
def advance (s : State) (i : ℕ) : State :=
  match s.stage i with
  | .locking call =>
    if (s.lock call.slot.lockKey).all (· = i) then
      { s with
        lock := Function.update s.lock call.slot.lockKey (some i)
        stage := Function.update s.stage i (.toRetire call) }
    else s
  | .toRetire call =>
    s.goto i s.store (.retiring call (s.store.found i (Challenge.liveIn call.slot)))
  | .retiring call (k :: rows) =>
    match s.store.updateRow i k (Challenge.liveIn call.slot) (Challenge.consume call.now)
      .retired with
    | none => s
    | some (store, _) => s.goto i store (.retiring call rows)
  | .retiring call [] =>
    s.goto i (s.store.insert i call.challenge) (.minted call s.store.size)
  | .toAccept guess =>
    { s.goto i s.store (.accepting guess (s.store.found i guess.accepts) false) with
      compared := s.compared ++ (s.store.found i guess.open).map fun k => (i, k) }
  | .accepting guess (k :: rows) hit =>
    match s.store.updateRow i k guess.accepts (Challenge.consume guess.now) .accepted with
    | none => s
    | some (store, row) => s.goto i store (.accepting guess rows (hit || row.isSome))
  | .accepting guess [] hit =>
    s.goto i s.store (if hit then .answered guess .accepted else .toCharge guess)
  | .toCharge guess =>
    s.goto i s.store (.charging guess (s.store.found i (Challenge.liveIn guess.slot)) none)
  | .charging guess (k :: rows) expired =>
    match s.store.updateRow i k (Challenge.liveIn guess.slot) Challenge.charge .charged with
    | none => s
    | some (store, row) => s.goto i store (.charging guess rows
        (expired <|> row.map fun c => decide (c.expiresAt ≤ guess.now)))
  | .charging guess [] expired => s.goto i s.store (.answered guess (refusal expired))
  | _ => s

/-- What a session returns once it has nothing left to do. -/
def returned : Stage → Option (Option CodeOutcome)
  | .minted _ _ => some none
  | .answered _ outcome => some (some outcome)
  | _ => none

def commit (s : State) (i : ℕ) : State :=
  match returned (s.stage i) with
  | none => s
  | some outcome =>
    { s.goto i (s.store.commit i) (.committed outcome) with lock := s.unlock i }

/-- A transaction can be lost at any point. -/
def rollback (s : State) (i : ℕ) : State :=
  if (s.stage i).running then
    { s.goto i (s.store.rollback i) .rolledBack with lock := s.unlock i }
  else s

end State

inductive Action where
  | issue (i : ℕ) (call : Issue)
  | check (i : ℕ) (guess : Guess)
  | advance (i : ℕ)
  | commit (i : ℕ)
  | rollback (i : ℕ)
  deriving DecidableEq, Repr

def step (s : State) : Action → State
  | .issue i call => if s.stage i = .unbegun then s.goto i s.store (.locking call) else s
  | .check i guess => if s.stage i = .unbegun then s.goto i s.store (.toAccept guess) else s
  | .advance i => s.advance i
  | .commit i => s.commit i
  | .rollback i => s.rollback i

end Authn

end Calevate
