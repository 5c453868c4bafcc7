import Mathlib.Order.Lattice
import Calevate.Authn.OneTimeCodes

/-!
# A session and its bounds

A session is a row that names its family (the sign-in it goes back to) and carries two stored
instants past which it is over. The bounds in force are those two cut down to what the policy of
the account allows at the request, measured from the family's first row and from the session's
last activity; the policy is that of the realm, or the long one where an operator has "Stay signed
in" on and the session has proved its second factor. A verification admits a session under those
bounds, and a rotation hands its family, its absolute bound and its second factor to a successor.

Instants and spans are in microseconds. The table is a list and a session's id is its place there;
a token names at most one row, and stands here as that place.
-/

namespace Calevate

namespace Authn

namespace Sessions

def second : ℕ := 1000000

def minute : ℕ := 60 * second

def hour : ℕ := 60 * minute

def day : ℕ := 24 * hour

structure RealmTimeouts where
  idle : ℕ
  absolute : ℕ
  deriving DecidableEq, Repr

/-- `REALM_TIMEOUTS` -/
def realmTimeouts : Realm → RealmTimeouts
  | .admin => ⟨30 * minute, 8 * hour⟩
  | .client => ⟨12 * hour, 14 * day⟩

/-- `STAY_SIGNED_IN_REALM` -/
def staySignedInRealm : Realm := .admin

/-- `STAY_SIGNED_IN_TIMEOUTS` -/
def staySignedInTimeouts : RealmTimeouts := realmTimeouts .client

/-- `IDLE_WRITE_FLOOR` -/
def idleWriteFloor : ℕ := 60 * second

structure SessionPolicy where
  timeouts : RealmTimeouts
  staySignedIn : Bool
  deriving DecidableEq, Repr

def sessionPolicy (realm : Realm) (switchOn secondFactorProved : Bool) : SessionPolicy :=
  if realm = staySignedInRealm ∧ switchOn ∧ secondFactorProved then ⟨staySignedInTimeouts, true⟩
  else ⟨realmTimeouts realm, false⟩

/-- The absolute bound a row is born with, which may exceed what its policy allows. -/
def absoluteCeiling (realm : Realm) (switchOn : Bool) : ℕ :=
  if realm = staySignedInRealm ∧ switchOn then staySignedInTimeouts.absolute
  else (realmTimeouts realm).absolute

structure Subject where
  realm : Realm
  id : ℕ
  deriving DecidableEq, Repr

/-- A row of `auth_sessions`. Three fields are not the table's and no statement reads them: the
session this one was rotated from, the one that the revocation of this one left standing, and how
many password resets of its subject were behind the password it stands on. -/
structure SessionRow where
  family : ℕ
  subject : Subject
  createdAt : ℕ
  lastSeenAt : ℕ
  idleExpiresAt : ℕ
  absoluteExpiresAt : ℕ
  supersededAt : Option ℕ := none
  revokedAt : Option ℕ := none
  mfaVerifiedAt : Option ℕ
  rotatedFrom : Option ℕ
  spared : Option ℕ := none
  afterResets : ℕ
  deriving DecidableEq, Repr

/-- `revoked_at IS NULL AND superseded_at IS NULL` -/
def SessionRow.live (row : SessionRow) : Bool :=
  row.revokedAt = none ∧ row.supersededAt = none

/-- `_FAMILY_START`: the first `created_at` of the row's family. -/
def familyStartedAt (rows : List SessionRow) (row : SessionRow) : ℕ :=
  (rows.filter (·.family = row.family)).foldl (fun first other => min first other.createdAt)
    row.createdAt

namespace SessionRow

def policy (row : SessionRow) (switchOn : Bool) : SessionPolicy :=
  sessionPolicy row.subject.realm switchOn row.mfaVerifiedAt.isSome

def absoluteBound (row : SessionRow) (familyStart : ℕ) (policy : SessionPolicy) : ℕ :=
  min row.absoluteExpiresAt (familyStart + policy.timeouts.absolute)

def idleBound (row : SessionRow) (policy : SessionPolicy) : ℕ :=
  min row.idleExpiresAt (row.lastSeenAt + policy.timeouts.idle)

/-- `SET last_seen_at = :now, idle_expires_at = :idle` -/
def slide (row : SessionRow) (now : ℕ) (policy : SessionPolicy) : SessionRow :=
  { row with lastSeenAt := now, idleExpiresAt := now + policy.timeouts.idle }

/-- `SET superseded_at = :now` -/
def supersede (row : SessionRow) (now : ℕ) : SessionRow := { row with supersededAt := some now }

/-- `SET revoked_at = :now` of a revocation that leaves `spare` standing. -/
def revoke (row : SessionRow) (now : ℕ) (spare : Option ℕ) : SessionRow :=
  { row with revokedAt := some now, spared := spare }

/-- The `SET` of `lengthen_session`. -/
def lengthen (row : SessionRow) (familyStart now : ℕ) : SessionRow :=
  { row with
    absoluteExpiresAt := max row.absoluteExpiresAt (familyStart + staySignedInTimeouts.absolute)
    idleExpiresAt := max row.idleExpiresAt (now + staySignedInTimeouts.idle) }

/-- The `SET` of `shorten_subject_sessions`. -/
def shorten (row : SessionRow) (familyStart : ℕ) : SessionRow :=
  { row with
    absoluteExpiresAt :=
      min row.absoluteExpiresAt (familyStart + (realmTimeouts staySignedInRealm).absolute)
    idleExpiresAt :=
      min row.idleExpiresAt (row.lastSeenAt + (realmTimeouts staySignedInRealm).idle) }

end SessionRow

/-- `VerifiedSession`. `cuts` is no part of it: how many shortenings of the subject's sessions had
been committed when the row was read. -/
structure VerifiedSession where
  sessionId : ℕ
  familyId : ℕ
  subject : Subject
  absoluteExpiresAt : ℕ
  mfaVerifiedAt : Option ℕ
  switchOn : Bool
  policy : SessionPolicy
  afterResets : ℕ
  cuts : ℕ
  deriving DecidableEq, Repr

/-- `REFUSALS` -/
inductive Refusal where
  | unknown
  | reuseDetected
  | revoked
  | idleExpired
  | absoluteExpired
  deriving DecidableEq, Repr

/-- A row as the first statement of a verification reads it, with the instant the verification
took before it. -/
structure Reading where
  sessionId : ℕ
  now : ℕ
  row : SessionRow
  familyStart : ℕ
  cuts : ℕ
  deriving DecidableEq, Repr

namespace Reading

variable (reading : Reading) (switchOn : Bool)

def policy : SessionPolicy := reading.row.policy switchOn

def session : VerifiedSession where
  sessionId := reading.sessionId
  familyId := reading.row.family
  subject := reading.row.subject
  absoluteExpiresAt := reading.row.absoluteExpiresAt
  mfaVerifiedAt := reading.row.mfaVerifiedAt
  switchOn := switchOn
  policy := reading.policy switchOn
  afterResets := reading.row.afterResets
  cuts := reading.cuts

/-- What `_verify_within` decides about a live row, once it has read the switch. -/
def verdict : Except Refusal VerifiedSession :=
  if reading.row.absoluteBound reading.familyStart (reading.policy switchOn) ≤ reading.now then
    .error .absoluteExpired
  else if reading.row.idleBound (reading.policy switchOn) ≤ reading.now then .error .idleExpired
  else .ok (reading.session switchOn)

/-- `at - last_seen_at >= IDLE_WRITE_FLOOR` -/
def stale : Bool := idleWriteFloor ≤ reading.now - reading.row.lastSeenAt

end Reading

/-- The row that `issue_session` inserts; its family is the id it is given. -/
def issue (id : ℕ) (subject : Subject) (switchOn : Bool) (now afterResets : ℕ) : SessionRow where
  family := id
  subject := subject
  createdAt := now
  lastSeenAt := now
  idleExpiresAt := now + (sessionPolicy subject.realm switchOn false).timeouts.idle
  absoluteExpiresAt := now + absoluteCeiling subject.realm switchOn
  mfaVerifiedAt := none
  rotatedFrom := none
  afterResets := afterResets

/-- The row that `rotate_session` inserts. -/
def VerifiedSession.successor (verified : VerifiedSession) (mfaVerifiedAt : Option ℕ) (now : ℕ) :
    SessionRow :=
  let mfa := mfaVerifiedAt <|> verified.mfaVerifiedAt
  let policy := sessionPolicy verified.subject.realm verified.switchOn mfa.isSome
  { family := verified.familyId
    subject := verified.subject
    createdAt := now
    lastSeenAt := now
    idleExpiresAt := now + policy.timeouts.idle
    absoluteExpiresAt := verified.absoluteExpiresAt
    mfaVerifiedAt := mfa
    rotatedFrom := some verified.sessionId
    afterResets := verified.afterResets }

/-! ## The policy -/

/-- The bounds with the switch on are the longest a session can be given. -/
theorem sessionPolicy_le_on (realm : Realm) (switchOn proved : Bool) :
    (sessionPolicy realm switchOn proved).timeouts.idle ≤
        (sessionPolicy realm true proved).timeouts.idle ∧
      (sessionPolicy realm switchOn proved).timeouts.absolute ≤
        (sessionPolicy realm true proved).timeouts.absolute := by
  cases realm <;> cases switchOn <;> cases proved <;> decide +kernel

/-- Where the switch is off, the realm's own bounds apply. -/
theorem sessionPolicy_off (realm : Realm) (proved : Bool) :
    sessionPolicy realm false proved = ⟨realmTimeouts realm, false⟩ :=
  if_neg fun h => Bool.false_ne_true h.2.1

/-! ## The family's start -/

theorem le_foldl_min_iff (others : List SessionRow) (first m : ℕ) :
    m ≤ others.foldl (fun first other => min first other.createdAt) first ↔
      m ≤ first ∧ ∀ other ∈ others, m ≤ other.createdAt := by
  induction others generalizing first with
  | nil => simp
  | cons other others ih => rw [List.foldl_cons, ih, Nat.le_min, List.forall_mem_cons, and_assoc]

theorem le_familyStartedAt_iff {rows : List SessionRow} {row : SessionRow} {m : ℕ} :
    m ≤ familyStartedAt rows row ↔
      m ≤ row.createdAt ∧ ∀ other ∈ rows, other.family = row.family → m ≤ other.createdAt := by
  unfold familyStartedAt
  rw [le_foldl_min_iff]
  simp only [List.mem_filter, decide_eq_true_eq, and_imp]

theorem familyStartedAt_le_self (rows : List SessionRow) (row : SessionRow) :
    familyStartedAt rows row ≤ row.createdAt :=
  ((le_familyStartedAt_iff).mp (Nat.le_refl _)).1

theorem familyStartedAt_le {rows : List SessionRow} {row other : SessionRow} (hmem : other ∈ rows)
    (hfamily : other.family = row.family) : familyStartedAt rows row ≤ other.createdAt :=
  ((le_familyStartedAt_iff).mp (Nat.le_refl _)).2 other hmem hfamily

/-- Where every row is still there under its family and its instant, and what has joined the
family is no older than its start, the family began when it did. -/
theorem familyStartedAt_eq {rows rows' : List SessionRow} {row row' : SessionRow}
    (hfamily : row'.family = row.family) (hcreated : row'.createdAt = row.createdAt)
    (hkept : ∀ other ∈ rows, ∃ other' ∈ rows',
      other'.family = other.family ∧ other'.createdAt = other.createdAt)
    (hjoined : ∀ other' ∈ rows', other'.family = row.family →
      familyStartedAt rows row ≤ other'.createdAt) :
    familyStartedAt rows' row' = familyStartedAt rows row := by
  apply Nat.le_antisymm
  · refine (le_familyStartedAt_iff).mpr ⟨?_, fun other hmem hother => ?_⟩
    · exact hcreated ▸ familyStartedAt_le_self rows' row'
    · obtain ⟨other', hmem', hfamily', hcreated'⟩ := hkept other hmem
      have hjoins : other'.family = row'.family := by rw [hfamily', hother, hfamily]
      exact hcreated' ▸ familyStartedAt_le hmem' hjoins
  · refine (le_familyStartedAt_iff).mpr ⟨?_, fun other' hmem' hother' => ?_⟩
    · exact hcreated ▸ familyStartedAt_le_self rows row
    · exact hjoined other' hmem' (hother'.trans hfamily)

end Sessions

end Authn

end Calevate
