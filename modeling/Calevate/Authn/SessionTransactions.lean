import Calevate.Lib.Run
import Calevate.Authn.Sessions

/-!
# The transactions over the sessions

Requests verify a session, rotate it, revoke it or move its operator's switch, each in
transactions of its own, and any number of them are under way at once. A statement sees what was
committed when it starts; one that updates rows found by a condition waits for those another
transaction holds and checks the condition again on what that one committed.

The writes of a transaction are taken at its commit, on the rows as they then are: no other
transaction can write a row between the update that locks it and the commit, so the update could
as well have come last. What cannot be put off stays a step of its own: what a statement has read,
the set of rows a revocation or a shortening has found, and who holds the row of a switch or of a
password. A request can fail between any two of its statements.

`cuts` counts the shortenings of a subject's sessions, `resets` the resets of their password,
`begun` the verifications, and `admitted` collects what the verifications let in.
-/

namespace Calevate

namespace Authn

namespace Sessions

open Lib

/-- What a transaction that revokes sessions is: a replayed token, a sign-out everywhere, a
confirmed reset or a changed password. -/
inductive Revocation where
  | ofFamily (family : ℕ)
  | everywhere (subject : Subject)
  | reset (subject : Subject) (password : ℕ)
  | change (verified : VerifiedSession) (password : ℕ)
  deriving DecidableEq, Repr

namespace Revocation

/-- The condition of the `UPDATE`, but for `revoked_at IS NULL`. -/
def covers : Revocation → SessionRow → Bool
  | .ofFamily family, row => row.family = family
  | .everywhere subject, row => row.subject = subject
  | .reset subject _, row => row.subject = subject
  | .change verified _, row => row.subject = verified.subject

/-- Whose password the transaction stores. -/
def stores : Revocation → Option (Subject × ℕ)
  | .ofFamily _ => none
  | .everywhere _ => none
  | .reset subject password => some (subject, password)
  | .change verified password => some (verified.subject, password)

end Revocation

/-- Where a request is. -/
inductive Stage where
  | idle
  | presented (no token now : ℕ)
  | read (no : ℕ) (reading : Reading)
  | sliding (no now : ℕ) (verified : VerifiedSession)
  | verified (verified : VerifiedSession)
  | rotating (verified : VerifiedSession) (mfaVerifiedAt : Option ℕ) (now : ℕ)
  | signingIn (subject : Subject) (password now : ℕ)
  | proved (subject : Subject) (now resets : ℕ)
  | issuing (subject : Subject) (switchOn : Bool) (now resets cuts : ℕ)
  | changing (verified : VerifiedSession) (current new now : ℕ)
  | storing (cause : Revocation) (now : ℕ)
  | toRevoke (cause : Revocation) (now : ℕ)
  | revoking (cause : Revocation) (found : List ℕ) (now : ℕ)
  | switching (verified : VerifiedSession) (on : Bool) (now : ℕ)
  | lengthening (verified : VerifiedSession) (changed : Bool) (now : ℕ)
  | switchingOff (operator : ℕ)
  | toShorten (operator : ℕ) (changed : Bool)
  | shortening (operator : ℕ) (found : List ℕ) (changed : Bool)
  deriving DecidableEq, Repr

/-- A verification that was let in: its number, what it read and the switch it read then. -/
structure Admission where
  no : ℕ
  reading : Reading
  switchOn : Bool
  deriving DecidableEq, Repr

structure State where
  now : ℕ
  rows : List SessionRow
  /-- `admin_users.stay_signed_in` -/
  switch : ℕ → Bool
  switchHeld : ℕ → Option ℕ
  /-- `auth_credentials` -/
  password : Subject → Option ℕ
  passwordHeld : Subject → Option ℕ
  stage : ℕ → Stage
  cuts : Subject → ℕ
  resets : Subject → ℕ
  begun : ℕ
  admitted : List Admission

def start (switch : ℕ → Bool) (password : Subject → Option ℕ) : State where
  now := 0
  rows := []
  switch := switch
  switchHeld := fun _ => none
  password := password
  passwordHeld := fun _ => none
  stage := fun _ => .idle
  cuts := fun _ => 0
  resets := fun _ => 0
  begun := 0
  admitted := []

namespace State

variable (s : State) (i : ℕ)

def goto (stage : Stage) : State := { s with stage := Function.update s.stage i stage }

/-- The request is over, and lets go of the rows it holds. -/
def finish : State :=
  { s.goto i .idle with
    switchHeld := fun operator => (s.switchHeld operator).filter (· ≠ i)
    passwordHeld := fun subject => (s.passwordHeld subject).filter (· ≠ i) }

/-- `_switch_on` -/
def switchOn (subject : Subject) : Bool :=
  subject.realm = staySignedInRealm ∧ s.switch subject.id

/-- The ids of the rows a statement finds. -/
def found (cond : SessionRow → Bool) : List ℕ :=
  (List.range s.rows.length).filter fun k => (s.rows[k]?).any cond

/-- An `UPDATE` of the rows that `ids` names and `cond` still holds of. -/
def update (ids : List ℕ) (cond : SessionRow → Bool) (set : SessionRow → SessionRow) : State :=
  { s with rows := s.rows.mapIdx fun k row => if k ∈ ids ∧ cond row then set row else row }

def insert (row : SessionRow) : State := { s with rows := s.rows ++ [row] }

/-- The row is there and `revoked_at IS NULL AND superseded_at IS NULL`. -/
def liveAt (k : ℕ) : Bool := (s.rows[k]?).any SessionRow.live

/-- The first statement of a verification. -/
def read (no token now : ℕ) : State :=
  match s.rows[token]? with
  | none => s.finish i
  | some row =>
    if row.supersededAt ≠ none then s.goto i (.toRevoke (.ofFamily row.family) now)
    else if row.revokedAt ≠ none then s.finish i
    else s.goto i (.read no ⟨token, now, row, familyStartedAt s.rows row, s.cuts row.subject⟩)

/-- The second statement of a verification, and its decision. -/
def decideOn (no : ℕ) (reading : Reading) : State :=
  let switchOn := s.switchOn reading.row.subject
  match reading.verdict switchOn with
  | .error _ => s.finish i
  | .ok verified =>
    { s.goto i (if reading.stale then .sliding no reading.now verified else .verified verified) with
      admitted := ⟨no, reading, switchOn⟩ :: s.admitted }

/-- The idle window slides, and the verification commits. -/
def slide (verified : VerifiedSession) (now : ℕ) : State :=
  (s.update [verified.sessionId] SessionRow.live (·.slide now verified.policy)).goto i
    (.verified verified)

/-- `rotate_session`, whose compare-and-swap can be lost. -/
def rotate (verified : VerifiedSession) (mfaVerifiedAt : Option ℕ) (now : ℕ) : State :=
  if s.liveAt verified.sessionId then
    ((s.update [verified.sessionId] SessionRow.live (·.supersede now)).insert
      (verified.successor mfaVerifiedAt now)).finish i
  else s.finish i

/-- `sign_in`'s second transaction: the insert of `issue_session` commits. -/
def issue (subject : Subject) (switchOn : Bool) (now resets : ℕ) : State :=
  (s.insert (Sessions.issue s.rows.length subject switchOn now resets)).finish i

/-- The condition of a revocation's `UPDATE`. -/
def revocable (cause : Revocation) (row : SessionRow) : Bool :=
  row.revokedAt = none ∧ cause.covers row

/-- The `UPDATE` of a revocation, over the rows it has found, that spares `spare`. -/
def revokeAll (cause : Revocation) (found : List ℕ) (now : ℕ) (spare : Option ℕ) : State :=
  s.update found (revocable cause) (·.revoke now spare)

/-- A transaction that revokes the rows it has found commits. -/
def revoke (cause : Revocation) (found : List ℕ) (now : ℕ) : State :=
  match cause with
  | .ofFamily _ => (s.revokeAll cause found now none).finish i
  | .everywhere _ => (s.revokeAll cause found now none).finish i
  | .reset subject password =>
    { (s.revokeAll cause found now none).finish i with
      password := Function.update s.password subject (some password)
      resets := Function.update s.resets subject (s.resets subject + 1) }
  | .change verified password =>
    -- The rotation of the caller's own session is part of it, and its loss fails the whole.
    if s.liveAt verified.sessionId then
      { (((s.update [verified.sessionId] SessionRow.live (·.supersede now)).revokeAll cause
          found now (some s.rows.length)).insert (verified.successor none now)).finish i with
        password := Function.update s.password verified.subject (some password) }
    else s.finish i

/-- `_write_switch`: whether it changes the column, once no other transaction holds it. -/
def writeSwitch (operator : ℕ) (on : Bool) (next : Bool → Stage) : State :=
  if s.switch operator = on then s.goto i (next false)
  else if s.switchHeld operator = none then
    { s.goto i (next true) with switchHeld := Function.update s.switchHeld operator (some i) }
  else s

/-- `set_own` with the switch on commits, unless the session is no longer live. -/
def lengthen (verified : VerifiedSession) (changed : Bool) (now : ℕ) : State :=
  match s.rows[verified.sessionId]? with
  | none => s.finish i
  | some row =>
    if row.live ∧ row.subject.realm = staySignedInRealm then
      { (s.update [verified.sessionId] SessionRow.live
          (·.lengthen (familyStartedAt s.rows row) now)).finish i with
        switch :=
          if changed then Function.update s.switch verified.subject.id true else s.switch }
    else s.finish i

/-- The condition of `shorten_subject_sessions`. -/
def shortenable (operator : ℕ) (row : SessionRow) : Bool :=
  row.live ∧ row.subject = ⟨staySignedInRealm, operator⟩

/-- `set_own` or `switch_off_for` with the switch off commits. -/
def shorten (operator : ℕ) (found : List ℕ) (changed : Bool) : State :=
  { (s.update found (shortenable operator) fun row =>
      row.shorten (familyStartedAt s.rows row)).finish i with
    switch := if changed then Function.update s.switch operator false else s.switch
    cuts := Function.update s.cuts ⟨staySignedInRealm, operator⟩
      (s.cuts ⟨staySignedInRealm, operator⟩ + 1) }

/-- `set_password`'s upsert, once no other transaction holds the row. -/
def storePassword (cause : Revocation) (now : ℕ) : State :=
  match cause.stores with
  | none => s.goto i (.toRevoke cause now)
  | some (subject, _) =>
    if s.passwordHeld subject = none then
      { s.goto i (.toRevoke cause now) with
        passwordHeld := Function.update s.passwordHeld subject (some i) }
    else s

/-- The next statement of a request, or its commit. -/
def advance : State :=
  match s.stage i with
  | .idle => s
  | .presented no token now => s.read i no token now
  | .read no reading => s.decideOn i no reading
  | .sliding _ now verified => s.slide i verified now
  | .verified _ => s.finish i
  | .rotating verified mfaVerifiedAt now => s.rotate i verified mfaVerifiedAt now
  | .signingIn subject password now =>
    if s.password subject = some password then s.goto i (.proved subject now (s.resets subject))
    else s.finish i
  | .proved subject now resets =>
    s.goto i (.issuing subject (s.switchOn subject) now resets (s.cuts subject))
  | .issuing subject switchOn now resets _ => s.issue i subject switchOn now resets
  | .changing verified current new now =>
    if s.password verified.subject = some current ∧ current ≠ new then
      s.goto i (.storing (.change verified new) now)
    else s.finish i
  | .storing cause now => s.storePassword i cause now
  | .toRevoke cause now => s.goto i (.revoking cause (s.found (revocable cause)) now)
  | .revoking cause found now => s.revoke i cause found now
  | .switching verified true now =>
    s.writeSwitch i verified.subject.id true fun changed => .lengthening verified changed now
  | .switching verified false _ =>
    s.writeSwitch i verified.subject.id false fun changed => .toShorten verified.subject.id changed
  | .lengthening verified changed now => s.lengthen i verified changed now
  | .switchingOff operator =>
    s.writeSwitch i operator false fun changed => .toShorten operator changed
  | .toShorten operator changed =>
    s.goto i (.shortening operator (s.found (shortenable operator)) changed)
  | .shortening operator found changed => s.shorten i operator found changed

end State

/-- What a verified session's request goes on to do. -/
inductive Request where
  | refresh
  /-- `complete_second_factor` and `complete_step_up`, whose code was accepted. -/
  | completeFactor
  | signOut
  | signOutEverywhere
  | changePassword (current new : ℕ)
  | setOwn (on : Bool)
  deriving DecidableEq, Repr

inductive Action where
  /-- Time passes. -/
  | wait (span : ℕ)
  /-- `verify_session` is called with a token. -/
  | present (i token : ℕ)
  /-- `sign_in` is called for a subject that exists. -/
  | signIn (i : ℕ) (subject : Subject) (password : ℕ)
  /-- `confirm_password_reset` has redeemed its token. -/
  | confirmReset (i : ℕ) (subject : Subject) (password : ℕ)
  /-- `switch_off_for` is called. -/
  | switchOff (i operator : ℕ)
  | request (i : ℕ) (call : Request)
  | advance (i : ℕ)
  /-- The request fails, and its transaction rolls back. -/
  | fail (i : ℕ)
  deriving DecidableEq, Repr

/-- The request that a verified session makes. -/
def State.request (s : State) (i : ℕ) (verified : VerifiedSession) : Request → State
  | .refresh => s.goto i (.rotating verified none s.now)
  | .completeFactor => s.goto i (.rotating verified (some s.now) s.now)
  | .signOut =>
    (s.update [verified.sessionId] (·.revokedAt = none) (·.revoke s.now none)).finish i
  | .signOutEverywhere => s.goto i (.toRevoke (.everywhere verified.subject) s.now)
  | .changePassword current new => s.goto i (.changing verified current new s.now)
  | .setOwn on =>
    if verified.subject.realm = staySignedInRealm then s.goto i (.switching verified on s.now)
    else s.finish i

def step (s : State) : Action → State
  | .wait span => { s with now := s.now + span }
  | .present i token =>
    if s.stage i = .idle then
      { s.goto i (.presented s.begun token s.now) with begun := s.begun + 1 }
    else s
  | .signIn i subject password =>
    if s.stage i = .idle then s.goto i (.signingIn subject password s.now) else s
  | .confirmReset i subject password =>
    if s.stage i = .idle then s.goto i (.storing (.reset subject password) s.now) else s
  | .switchOff i operator => if s.stage i = .idle then s.goto i (.switchingOff operator) else s
  | .request i call =>
    match s.stage i with
    | .verified verified => s.request i verified call
    | _ => s
  | .advance i => s.advance i
  | .fail i => s.finish i

end Sessions

end Authn

end Calevate
