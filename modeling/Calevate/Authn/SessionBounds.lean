import Calevate.Authn.SessionTurns

/-!
# The bounds of a session

Every verification that lets a session in does so before the bounds of the policy its switch gives
it, and the read-only check answers as the verification would. What "Stay signed in" leaves behind
rests on the schedule: a verification, a rotation or a sign-in that has read the switch on, and
writes its long bound behind the shortening that went with turning it off, leaves a row that
expires under the short bounds and is let in again when the switch is next turned on.

A run in which no such write comes late keeps every live session of an account whose switch is off
within the bounds of its realm (`Kept`); there no rotation moves a family's bound later, and a
session that was past its bounds is not let in again.
-/

namespace Calevate

namespace Authn

namespace Sessions

open Lib

/-! ## The promise -/

/-- `session_still_live`: its two statements, and nothing written. -/
def State.sessionStillLive (s : State) (token : ℕ) : Option VerifiedSession :=
  match s.rows[token]? with
  | none => none
  | some row =>
    if row.supersededAt ≠ none ∨ row.revokedAt ≠ none then none
    else
      let switchOn := s.switchOn row.subject
      let familyStart := familyStartedAt s.rows row
      let policy := row.policy switchOn
      if row.absoluteBound familyStart policy ≤ s.now ∨ row.idleBound policy ≤ s.now then none
      else
        some (Reading.session ⟨token, s.now, row, familyStart, s.cuts row.subject⟩ switchOn)

/-- The session a verification has let in. -/
def Stage.session : Stage → Option VerifiedSession
  | .sliding _ _ session => some session
  | .verified session => some session
  | _ => none

/-- A verification with nothing in between. -/
def State.verifyAlone (s : State) (i token : ℕ) : State :=
  [.present i token, .advance i, .advance i].foldl step s

/-- What a verification may let in: a session within the bounds of the policy in force, measured
from the start of its family and from its last activity. -/
structure Admission.InBounds (s : State) (admission : Admission) : Prop where
  begun : admission.no < s.begun
  inForce : admission.switchOn = s.switchOn admission.reading.row.subject
  row : ∃ row, s.rows[admission.reading.sessionId]? = some row ∧ admission.reading.row.Next row ∧
    admission.reading.now <
      familyStartedAt s.rows row + (row.policy admission.switchOn).timeouts.absolute
  idle : admission.reading.now < admission.reading.row.lastSeenAt +
    (admission.reading.row.policy admission.switchOn).timeouts.idle

/-- A step lets in nothing, or one session within its bounds. -/
def Admits (s s' : State) : Prop :=
  s'.admitted = s.admitted ∨
    ∃ admission, s'.admitted = admission :: s.admitted ∧ admission.InBounds s

/-- What a step rotates gets no later absolute bound than what it supersedes has. -/
def KeepsBound (s s' : State) : Prop :=
  ∀ (k : ℕ) (row new : SessionRow), s.rows[k]? = some row →
    s'.rows[s.rows.length]? = some new → new.rotatedFrom = some k →
    new.absoluteExpiresAt ≤ row.absoluteExpiresAt

/-- A verification that has still to write: its number, its session and the instant it took. -/
structure Visit where
  no : ℕ
  session : ℕ
  now : ℕ
  deriving DecidableEq, Repr

def Stage.visit : Stage → Option Visit
  | .presented no token now => some ⟨no, token, now⟩
  | .read no reading => some ⟨no, reading.sessionId, reading.now⟩
  | .sliding no now session => some ⟨no, session.sessionId, now⟩
  | _ => none

/-- The session is past its bounds under the policy in force, and so is the activity of any
verification of it that is still to be recorded. -/
def Past (s : State) (k : ℕ) (row : SessionRow) : Prop :=
  row.absoluteBound (familyStartedAt s.rows row) (row.policy (s.switchOn row.subject)) ≤ s.now ∨
    row.idleBound (row.policy (s.switchOn row.subject)) ≤ s.now ∧
      ∀ i visit, (s.stage i).visit = some visit → visit.session = k →
        visit.now + (row.policy true).timeouts.idle ≤ s.now

/-- The session a stage is about to lengthen. -/
def Stage.lengthens : Stage → Option ℕ
  | .lengthening session _ _ => some session.sessionId
  | _ => none

/-- The step does not lengthen session `k`. -/
def NotLengthened (k : ℕ) (s : State) : Action → Prop
  | .advance i => (s.stage i).lengthens = some k → s.liveAt k = false
  | _ => True

instance (k : ℕ) (s : State) : ∀ action, Decidable (NotLengthened k s action)
  | .advance i => inferInstanceAs (Decidable ((s.stage i).lengthens = some k → s.liveAt k = false))
  | .wait _ => isTrue trivial
  | .present _ _ => isTrue trivial
  | .signIn _ _ _ => isTrue trivial
  | .confirmReset _ _ _ => isTrue trivial
  | .switchOff _ _ => isTrue trivial
  | .request _ _ => isTrue trivial
  | .fail _ => isTrue trivial

/-! ## Late writes -/

/-- The realm's own bounds hold of the row as it is stored. -/
structure Short (s : State) (row : SessionRow) : Prop where
  idle : row.idleExpiresAt ≤ row.lastSeenAt + (realmTimeouts row.subject.realm).idle
  absolute : row.absoluteExpiresAt ≤ s.ownBound row

/-- A row is inserted in time: it carries no long bound, or none of its subject's sessions have
been shortened since `cuts` was read; and no shortening of them is under way. -/
structure InTime (s : State) (new : SessionRow) (cuts : ℕ) : Prop where
  bounds : Short s new ∨ cuts = s.cuts new.subject
  alone : ∀ j operator found changed, s.stage j = .shortening operator found changed →
    new.subject ≠ ⟨staySignedInRealm, operator⟩

/-- What request `i` writes next rests on no reading from before a shortening: a slide of the long
idle window, a rotation or a sign-in, and a lengthening that did not itself turn the switch on. -/
def TimelyAt (s : State) : Stage → Prop
  | .sliding _ _ session =>
    session.policy.staySignedIn = true → session.cuts = s.cuts session.subject
  | .rotating session mfaVerifiedAt now =>
    InTime s (session.successor mfaVerifiedAt now) session.cuts
  | .revoking (.change session _) _ now => InTime s (session.successor none now) session.cuts
  | .issuing subject switchOn now resets cuts =>
    InTime s (Sessions.issue s.rows.length subject switchOn now resets) cuts
  | .lengthening session changed _ => changed = false → s.switchOn session.subject = true
  | _ => True

def Timely (s : State) : Action → Prop
  | .advance i => TimelyAt s (s.stage i)
  | _ => True

/-! ## A verification and the read-only check -/

variable {s : State} {i : ℕ}

theorem verdict_toOption (reading : Reading) (switchOn : Bool) :
    (reading.verdict switchOn).toOption =
      if reading.row.absoluteBound reading.familyStart (reading.policy switchOn) ≤ reading.now ∨
          reading.row.idleBound (reading.policy switchOn) ≤ reading.now then none
      else some (reading.session switchOn) := by
  unfold Reading.verdict
  split
  · next habsolute => rw [if_pos (.inl habsolute), Except.toOption]
  · next habsolute =>
    split
    · next hidle => rw [if_pos (.inr hidle), Except.toOption]
    · next hidle => rw [if_neg fun h => h.elim habsolute hidle, Except.toOption]

theorem session_decideOn (no : ℕ) (reading : Reading) :
    ((s.decideOn i no reading).stage i).session =
      (reading.verdict (s.switchOn reading.row.subject)).toOption := by
  cases hverdict : reading.verdict (s.switchOn reading.row.subject) with
  | error refusal =>
    simp only [State.decideOn, hverdict, finish_stage_self]
    rfl
  | ok verified =>
    simp only [State.decideOn, hverdict, goto_stage_self]
    split <;> rfl

/-- The two statements of a verification, of which nothing comes between. -/
theorem session_read_advance (no token now : ℕ) :
    (((s.read i no token now).advance i).stage i).session =
      match s.rows[token]? with
      | none => none
      | some row =>
        if row.supersededAt ≠ none ∨ row.revokedAt ≠ none then none
        else
          (Reading.verdict ⟨token, now, row, familyStartedAt s.rows row, s.cuts row.subject⟩
            (s.switchOn row.subject)).toOption := by
  unfold State.read
  cases s.rows[token]? with
  | none => simp only [State.advance, finish_stage_self, Stage.session]
  | some row =>
    by_cases hsuperseded : row.supersededAt = none
    · by_cases hrevoked : row.revokedAt = none
      · simp only [hsuperseded, hrevoked, ne_eq, not_true_eq_false, if_false, or_self]
        rw [State.advance, goto_stage_self]
        exact session_decideOn _ _
      · simp only [hsuperseded, hrevoked, ne_eq, not_true_eq_false, not_false_eq_true, if_false,
          if_true, or_true, State.advance, finish_stage_self, Stage.session]
    · simp only [hsuperseded, ne_eq, not_false_eq_true, if_true, true_or, State.advance,
        goto_stage_self, Stage.session]

/-- **The read-only check answers live where a verification would let the session in**, with the
session that it would. -/
theorem sessionStillLive_eq (h : s.stage i = .idle) (token : ℕ) :
    ((s.verifyAlone i token).stage i).session = s.sessionStillLive token := by
  have hpresent : step s (.present i token) =
      { s.goto i (.presented s.begun token s.now) with begun := s.begun + 1 } := if_pos h
  have halone : s.verifyAlone i token =
      (({ s.goto i (.presented s.begun token s.now) with begun := s.begun + 1 } : State).read i
        s.begun token s.now).advance i := by
    change ((step s (.present i token)).advance i).advance i = _
    rw [hpresent]
    congr 1
    simp only [State.advance, goto_stage_self]
  rw [halone, session_read_advance]
  unfold State.sessionStillLive
  simp only [verdict_toOption]
  rfl

/-! ## What is let in -/

theorem inBounds_of_verdict {no : ℕ} {reading : Reading} {verified : VerifiedSession}
    (hno : no < s.begun) (hreading : reading.Sound s)
    (h : reading.verdict (s.switchOn reading.row.subject) = .ok verified) :
    Admission.InBounds s ⟨no, reading, s.switchOn reading.row.subject⟩ := by
  unfold Reading.verdict at h
  split at h
  · cases h
  next habsolute =>
  split at h
  · cases h
  next hidle =>
  obtain ⟨row, hk, hnext, hstart⟩ := hreading.row
  constructor
  case begun => exact hno
  case inForce => rfl
  case row =>
    refine ⟨row, hk, hnext, ?_⟩
    have hbound := lt_of_not_ge habsolute
    have hpolicy : row.policy (s.switchOn reading.row.subject) =
        reading.policy (s.switchOn reading.row.subject) := by
      unfold SessionRow.policy Reading.policy SessionRow.policy
      rw [hnext.subject, hnext.mfaVerifiedAt]
    rw [← hstart, hpolicy]
    exact (Nat.lt_min.mp hbound).2
  case idle => exact (Nat.lt_min.mp (lt_of_not_ge hidle)).2

theorem advance_admitted (hread : ∀ no reading, s.stage i ≠ .read no reading) :
    (s.advance i).admitted = s.admitted := by
  unfold State.advance
  cases hat : s.stage i
  case read no reading => exact absurd hat (hread no reading)
  case presented =>
    dsimp only [State.read]
    repeat' split
    all_goals rfl
  case rotating =>
    dsimp only
    unfold State.rotate
    split <;> rfl
  case revoking cause found now =>
    cases cause with
    | change =>
      dsimp only [State.revoke]
      split <;> rfl
    | _ => rfl
  case switching verified on now =>
    cases on <;> dsimp only [State.writeSwitch] <;> repeat' split
    all_goals rfl
  case switchingOff =>
    dsimp only [State.writeSwitch]
    repeat' split
    all_goals rfl
  case lengthening =>
    dsimp only [State.lengthen]
    repeat' split
    all_goals rfl
  case storing =>
    dsimp only [State.storePassword]
    repeat' split
    all_goals rfl
  case signingIn =>
    dsimp only
    split <;> rfl
  case changing =>
    dsimp only
    split <;> rfl
  all_goals rfl

theorem step_admits (h : Sound s) (action : Action) : Admits s (step s action) := by
  cases action with
  | advance i =>
    by_cases hread : ∃ no reading, s.stage i = .read no reading
    · obtain ⟨no, reading, hat⟩ := hread
      have hstage := h.stage i
      rw [hat] at hstage
      simp only [step, State.advance, hat]
      cases hverdict : reading.verdict (s.switchOn reading.row.subject) with
      | error refusal =>
        simp only [State.decideOn, hverdict]
        exact .inl rfl
      | ok verified =>
        simp only [State.decideOn, hverdict]
        exact .inr ⟨_, rfl, inBounds_of_verdict hstage.1 hstage.2 hverdict⟩
    · exact .inl (advance_admitted fun no reading hat => hread ⟨no, reading, hat⟩)
  | request i call =>
    refine .inl ?_
    simp only [step]
    split
    · cases call with
      | setOwn on =>
        dsimp only [State.request]
        split <;> rfl
      | _ => rfl
    · rfl
  | wait span => exact .inl rfl
  | fail i => exact .inl rfl
  | present i token =>
    refine .inl ?_
    simp only [step]
    split <;> rfl
  | signIn i subject password =>
    refine .inl ?_
    simp only [step]
    split <;> rfl
  | confirmReset i subject password =>
    refine .inl ?_
    simp only [step]
    split <;> rfl
  | switchOff i operator =>
    refine .inl ?_
    simp only [step]
    split <;> rfl

end Sessions

end Authn

end Calevate
