import Calevate.Authn.SwitchedOff

/-!
# Expired sessions

A session past its bounds in a state where the stored ones are within those of its policy is past
every bound a switch can give it (`Gone`), and no step but its own lengthening changes that: the
verifications behind it read it as past, and what an earlier one has left to write is past as well.
So no later switch lets it in again.
-/

namespace Calevate

namespace Authn

namespace Sessions

open Lib

variable {s : State} {i : ℕ}

/-- What a stage knows of session `k`, which was past its bounds at `t`: a verification numbered
from `since` on took a later instant, read it as past, and was not let in. -/
def Stage.Gone (k since t : ℕ) : Stage → Prop
  | .presented no token now => token = k → since ≤ no → t ≤ now
  | .read no reading => reading.sessionId = k → since ≤ no → t ≤ reading.now ∧
      (reading.row.absoluteBound reading.familyStart (reading.row.policy true) ≤ t ∨
        reading.row.idleBound (reading.row.policy true) ≤ t)
  | .sliding no _ session => session.sessionId = k → no < since
  | _ => True

/-- What an earlier verification of session `k` has still to write is past as well. -/
def Stage.Spent (k since t idle : ℕ) (stage : Stage) : Prop :=
  ∀ visit, stage.visit = some visit → visit.session = k → visit.no < since → visit.now + idle ≤ t

/-- Session `k` is past every bound that a switch can give it, since `t`. -/
structure Gone (k since t : ℕ) (s : State) : Prop where
  now : t ≤ s.now
  begun : since ≤ s.begun
  row : ∃ row, s.rows[k]? = some row ∧ (row.live = true →
    row.absoluteBound (familyStartedAt s.rows row) (row.policy true) ≤ t ∨
      row.idleBound (row.policy true) ≤ t ∧
        ∀ i, (s.stage i).Spent k since t (row.policy true).timeouts.idle)
  stage : ∀ i, (s.stage i).Gone k since t
  admitted : ∀ admission ∈ s.admitted, admission.reading.sessionId = k → admission.no < since

/-- A row whose bounds a step does not move later. -/
structure Fades (row row' : SessionRow) : Prop where
  absolute : row'.absoluteExpiresAt ≤ row.absoluteExpiresAt
  idle : row'.idleExpiresAt ≤ row.idleExpiresAt
  seen : row'.lastSeenAt = row.lastSeenAt

theorem Fades.refl (row : SessionRow) : Fades row row := ⟨Nat.le_refl _, Nat.le_refl _, rfl⟩

theorem gone_of_visit_none {k since t : ℕ} {stage : Stage} (h : stage.visit = none) :
    stage.Gone k since t := by
  cases stage <;> trivial

theorem gone_of_earlier {k since t : ℕ} {stage : Stage}
    (h : ∀ visit, stage.visit = some visit → visit.no < since) : stage.Gone k since t := by
  cases stage with
  | presented no token now => exact fun _ hno => absurd (h _ rfl) (Nat.not_lt_of_le hno)
  | read no reading => exact fun _ hno => absurd (h _ rfl) (Nat.not_lt_of_le hno)
  | sliding no now session => exact fun _ => h _ rfl
  | _ => trivial

theorem spent_of_visit_none {k since t idle : ℕ} {stage : Stage} (h : stage.visit = none) :
    stage.Spent k since t idle := by
  intro visit hvisit
  rw [h] at hvisit
  cases hvisit

theorem SessionRow.Next.policy {row row' : SessionRow} (h : row.Next row') (switchOn : Bool) :
    row'.policy switchOn = row.policy switchOn := by
  unfold SessionRow.policy
  rw [h.subject, h.mfaVerifiedAt]

section Gone

variable {k since t : ℕ} {s' : State}

/-- A turn in which session `k` is no further from its end. -/
theorem Gone.turn (h : Gone k since t s) (ht : Turn s i s')
    (hfades : ∀ row row', s.rows[k]? = some row → s'.rows[k]? = some row' → row'.live = true →
      Fades row row')
    (hown : (s'.stage i).Gone k since t)
    (hspent : ∀ idle, (s.stage i).Spent k since t idle → (s'.stage i).Spent k since t idle)
    (hadmitted : ∀ admission ∈ s'.admitted, admission.reading.sessionId = k →
      admission.no < since) : Gone k since t s' where
  now := Nat.le_trans h.now ht.later.now
  begun := Nat.le_trans h.begun ht.later.begun
  row := by
    obtain ⟨row, hk, hgone⟩ := h.row
    obtain ⟨row', hk', hmoves⟩ := ht.later.rows k row hk
    refine ⟨row', hk', fun hlive => ?_⟩
    have hfade := hfades row row' hk hk' hlive
    obtain habsolute | ⟨hidle, hall⟩ := hgone (hmoves.next.live hlive)
    · left
      refine Nat.le_trans ?_ habsolute
      unfold SessionRow.absoluteBound
      rw [hmoves.next.policy, hmoves.familyStart]
      exact min_le_min hfade.absolute (Nat.le_refl _)
    · right
      constructor
      · refine Nat.le_trans ?_ hidle
        unfold SessionRow.idleBound
        rw [hmoves.next.policy, hfade.seen]
        exact min_le_min hfade.idle (Nat.le_refl _)
      · intro j
        rw [hmoves.next.policy]
        by_cases hj : j = i
        · exact hj ▸ hspent _ (hall i)
        · exact ht.others j hj ▸ hall j
  stage j := by
    by_cases hj : j = i
    · exact hj ▸ hown
    · exact ht.others j hj ▸ h.stage j
  admitted := hadmitted

/-- A turn behind which the request is at no verification, and which lets nothing in. -/
theorem Gone.leave (h : Gone k since t s) (ht : Turn s i s')
    (hfades : ∀ row row', s.rows[k]? = some row → s'.rows[k]? = some row' → row'.live = true →
      Fades row row')
    (hvisit : (s'.stage i).visit = none) (hadmitted : s'.admitted = s.admitted) :
    Gone k since t s' :=
  h.turn ht hfades (gone_of_visit_none hvisit) (fun _ _ => spent_of_visit_none hvisit)
    (hadmitted ▸ h.admitted)

theorem fades_of_rows (hrows : s'.rows = s.rows) (row row' : SessionRow)
    (hk : s.rows[k]? = some row) (hk' : s'.rows[k]? = some row') (_ : row'.live = true) :
    Fades row row' := by
  rw [hrows, hk] at hk'
  exact Option.some.inj hk' ▸ Fades.refl row

theorem fades_of_ended (he : Ended s s') (row row' : SessionRow) (hk : s.rows[k]? = some row)
    (hk' : s'.rows[k]? = some row') (hlive : row'.live = true) : Fades row row' := by
  obtain ⟨old, hold, hsame⟩ := he k row' hk'
  obtain rfl := Option.some.inj (hk.symm.trans hold)
  exact hsame hlive ▸ Fades.refl _

/-- An insert comes behind the rows that are there. -/
theorem fades_of_joined {u : State} {new : SessionRow} (he : Ended s u)
    (hlength : u.rows.length = s.rows.length) (hrows : s'.rows = (u.insert new).rows)
    (row row' : SessionRow) (hk : s.rows[k]? = some row) (hk' : s'.rows[k]? = some row')
    (hlive : row'.live = true) : Fades row row' := by
  rw [hrows] at hk'
  obtain hk' | ⟨rfl, -⟩ := of_insert hk'
  · exact fades_of_ended he row row' hk hk' hlive
  · obtain ⟨hlt, -⟩ := List.getElem?_eq_some_iff.mp hk
    omega

theorem Gone.quiet {stage : Stage} (h : Gone k since t s) (ht : Turn s i s')
    (hrows : s'.rows = s.rows) (hat : s'.stage i = stage) (hvisit : stage.visit = none)
    (hadmitted : s'.admitted = s.admitted) : Gone k since t s' :=
  h.leave ht (fades_of_rows hrows) (hat ▸ hvisit) hadmitted

theorem Gone.finish (h : Gone k since t s) (hs : Sound s) : Gone k since t (s.finish i) :=
  h.quiet hs.finish rfl finish_stage_self rfl rfl

theorem Gone.goto {stage : Stage} (h : Gone k since t s) (hs : Sound s) (hown : stage.Sound s)
    (hvisit : stage.visit = none) : Gone k since t (s.goto i stage) :=
  h.quiet (hs.goto hown) rfl goto_stage_self hvisit rfl

theorem read_gone {no token now : ℕ} (h : Gone k since t s) (hs : Sound s)
    (hat : s.stage i = .presented no token now) : Gone k since t (s.read i no token now) := by
  have hown := h.stage i
  have hsound := hs.stage i
  rw [hat] at hown hsound
  have ht : Turn s i (s.read i no token now) := read_turn hs hsound.1 hsound.2
  unfold State.read at ht ⊢
  split at ht
  · exact h.finish hs
  next row hk =>
  split at ht
  next hsuperseded =>
    rw [if_pos hsuperseded]
    exact h.goto hs trivial rfl
  next hsuperseded =>
  rw [if_neg hsuperseded]
  split at ht
  next hrevoked =>
    rw [if_pos hrevoked]
    exact h.finish hs
  next hrevoked =>
  rw [if_neg hrevoked]
  have hlive : row.live = true :=
    SessionRow.live_iff.mpr ⟨not_not.mp hrevoked, not_not.mp hsuperseded⟩
  refine h.turn ht (fades_of_rows rfl) ?own ?spent h.admitted
  case own =>
    rw [goto_stage_self]
    rintro rfl hno
    obtain ⟨row', hk', hgone⟩ := h.row
    obtain rfl := Option.some.inj (hk.symm.trans hk')
    exact ⟨hown rfl hno, (hgone hlive).imp_right And.left⟩
  case spent =>
    intro idle hspent
    rw [hat] at hspent
    rw [goto_stage_self]
    exact hspent

/-- The bounds with the switch on are the latest a row can have. -/
theorem absoluteBound_le_on (row : SessionRow) (familyStart : ℕ) (switchOn : Bool) :
    row.absoluteBound familyStart (row.policy switchOn) ≤
      row.absoluteBound familyStart (row.policy true) :=
  min_le_min (Nat.le_refl _) (Nat.add_le_add_left (sessionPolicy_le_on _ _ _).2 _)

theorem idleBound_le_on (row : SessionRow) (switchOn : Bool) :
    row.idleBound (row.policy switchOn) ≤ row.idleBound (row.policy true) :=
  min_le_min (Nat.le_refl _) (Nat.add_le_add_left (sessionPolicy_le_on _ _ _).1 _)

/-- A verification that reads a row as past, under the latest bounds, does not let it in. -/
theorem not_admitted_of_gone {no : ℕ} {reading : Reading} {switchOn : Bool}
    {verified : VerifiedSession} (hgone : (Stage.read no reading).Gone k since t)
    (hverdict : reading.verdict switchOn = .ok verified) (hk : reading.sessionId = k) :
    no < since := by
  by_contra hno
  obtain ⟨hnow, hbound⟩ := hgone hk (Nat.le_of_not_lt hno)
  have habsolute := absoluteBound_le_on reading.row reading.familyStart switchOn
  have hidle := idleBound_le_on reading.row switchOn
  have hpolicy : reading.policy switchOn = reading.row.policy switchOn := rfl
  unfold Reading.verdict at hverdict
  rw [hpolicy] at hverdict
  split at hverdict
  · cases hverdict
  split at hverdict
  · cases hverdict
  · omega

theorem decideOn_gone {no : ℕ} {reading : Reading} (h : Gone k since t s) (hs : Sound s)
    (hat : s.stage i = .read no reading) : Gone k since t (s.decideOn i no reading) := by
  have hown := h.stage i
  have hsound := hs.stage i
  rw [hat] at hown hsound
  have ht : Turn s i (s.decideOn i no reading) := decideOn_turn hs hsound.1 hsound.2
  cases hverdict : reading.verdict (s.switchOn reading.row.subject) with
  | error refusal =>
    simp only [State.decideOn, hverdict]
    exact h.finish hs
  | ok verified =>
    simp only [State.decideOn, hverdict] at ht ⊢
    have hsession : verified.sessionId = reading.sessionId := verdict_ok hverdict ▸ rfl
    refine h.turn ht (fades_of_rows rfl) ?own ?spent ?admitted
    case own =>
      simp only [goto_stage_self]
      split
      · exact fun hk => not_admitted_of_gone hown hverdict (hsession ▸ hk)
      · trivial
    case spent =>
      intro idle hspent
      rw [hat] at hspent
      simp only [goto_stage_self]
      split
      · rintro visit hvisit hk hno
        obtain rfl := Option.some.inj hvisit
        exact hspent ⟨no, reading.sessionId, reading.now⟩ rfl (hsession ▸ hk) hno
      · exact spent_of_visit_none rfl
    case admitted =>
      intro admission hmem hk
      obtain rfl | hmem := List.mem_cons.mp hmem
      · exact not_admitted_of_gone hown hverdict hk
      · exact h.admitted admission hmem hk

/-- A slide of the session is one that an earlier verification has left to write. -/
theorem slide_gone {no now : ℕ} {verified : VerifiedSession} (h : Gone k since t s) (hs : Sound s)
    (hat : s.stage i = .sliding no now verified) : Gone k since t (s.slide i verified now) := by
  have hown := h.stage i
  have hsound := hs.stage i
  rw [hat] at hown hsound
  have ht : Turn s i (s.slide i verified now) := slide_turn hs hsound.2.2
  have hstage : (s.slide i verified now).stage i = .verified verified := goto_stage_self
  by_cases hsession : verified.sessionId = k
  · constructor
    case now => exact h.now
    case begun => exact h.begun
    case admitted => exact h.admitted
    case stage =>
      intro j
      by_cases hj : j = i
      · rw [hj, hstage]
        trivial
      · exact ht.others j hj ▸ h.stage j
    case row =>
      obtain ⟨row, hk, hgone⟩ := h.row
      obtain ⟨row', hk', hmoves⟩ := ht.later.rows k row hk
      refine ⟨row', hk', fun hlive => ?_⟩
      have hset : row' = row.slide now verified.policy := by
        obtain ⟨old, hold, ⟨-, -, rfl⟩ | ⟨hnot, rfl⟩⟩ := of_update hk'
        · exact Option.some.inj (hk.symm.trans hold) ▸ rfl
        · exact absurd ⟨List.mem_singleton.mpr hsession.symm, hlive⟩ hnot
      rw [hmoves.next.policy, hmoves.familyStart]
      obtain habsolute | ⟨hidle, hall⟩ := hgone (hmoves.next.live hlive)
      · exact .inl (hset ▸ habsolute)
      · right
        constructor
        · have hspent := hall i
          rw [hat] at hspent
          refine Nat.le_trans (Nat.min_le_right _ _) ?_
          rw [hset]
          exact hspent ⟨no, verified.sessionId, now⟩ rfl hsession (hown hsession)
        · intro j
          by_cases hj : j = i
          · rw [hj, hstage]
            exact spent_of_visit_none rfl
          · exact ht.others j hj ▸ hall j
  · refine h.leave ht (fun row row' hk hk' _ => ?_) (by rw [hstage]; rfl) rfl
    obtain ⟨old, hold, ⟨hids, -⟩ | ⟨-, rfl⟩⟩ := of_update hk'
    · exact absurd (List.mem_singleton.mp hids).symm hsession
    · exact Option.some.inj (hk.symm.trans hold) ▸ Fades.refl _

theorem revoke_gone {cause : Revocation} {found : List ℕ} {now : ℕ} (h : Gone k since t s)
    (hs : Sound s) (hsound : cause.Sound s now) : Gone k since t (s.revoke i cause found now) := by
  have ht : Turn s i (s.revoke i cause found now) := revoke_turn hs hsound
  cases cause with
  | change session password =>
    simp only [State.revoke] at ht ⊢
    split at ht
    next hlive =>
      rw [if_pos hlive]
      exact h.leave ht (fades_of_joined (ended_superseded.trans ended_revoke)
        (update_length.trans update_length) rfl) (congrArg Stage.visit finish_stage_self) rfl
    next hdead =>
      rw [if_neg hdead]
      exact h.finish hs
  | _ =>
    exact h.leave ht (fades_of_ended ended_revoke) (congrArg Stage.visit finish_stage_self) rfl

theorem writeSwitch_gone {operator : ℕ} {on : Bool} {next : Bool → Stage} (h : Gone k since t s)
    (hs : Sound s) (hsound : ∀ changed, (next changed).Sound s)
    (hvisit : ∀ changed, (next changed).visit = none) :
    Gone k since t (s.writeSwitch i operator on next) := by
  have ht : Turn s i (s.writeSwitch i operator on next) := writeSwitch_turn hs hsound
  unfold State.writeSwitch at ht ⊢
  split at ht
  next hsame =>
    rw [if_pos hsame]
    exact h.goto hs (hsound false) (hvisit false)
  next hother =>
  rw [if_neg hother]
  split at ht
  next hfree =>
    rw [if_pos hfree]
    exact h.quiet ht rfl goto_stage_self (hvisit true) rfl
  next hheld =>
    rw [if_neg hheld]
    exact h

theorem storePassword_gone {cause : Revocation} {now : ℕ} (h : Gone k since t s) (hs : Sound s)
    (hsound : cause.Sound s now) : Gone k since t (s.storePassword i cause now) := by
  have hgone : Gone k since t (s.goto i (.toRevoke cause now)) := h.goto hs hsound rfl
  unfold State.storePassword
  split
  · exact hgone
  split
  · exact ⟨hgone.now, hgone.begun, hgone.row, hgone.stage, hgone.admitted⟩
  · exact h

theorem lengthen_gone {verified : VerifiedSession} {changed : Bool} {now : ℕ}
    (h : Gone k since t s) (hs : Sound s)
    (hdead : verified.sessionId = k → s.liveAt k = false) :
    Gone k since t (s.lengthen i verified changed now) := by
  have ht : Turn s i (s.lengthen i verified changed now) := lengthen_turn hs
  unfold State.lengthen at ht ⊢
  split at ht
  · exact h.finish hs
  next row hk =>
  split at ht
  next hlive =>
    rw [if_pos hlive]
    refine h.leave ht (fun held held' hheld hheld' _ => ?_)
      (congrArg Stage.visit finish_stage_self) rfl
    obtain ⟨old, hold, ⟨hids, -⟩ | ⟨-, rfl⟩⟩ := of_update hheld'
    · have hsession : verified.sessionId = k := (List.mem_singleton.mp hids).symm
      have halive : s.liveAt k = true := liveAt_iff.mpr ⟨row, hsession ▸ hk, hlive.1⟩
      rw [hdead hsession] at halive
      cases halive
    · exact Option.some.inj (hheld.symm.trans hold) ▸ Fades.refl _
  next hover =>
    rw [if_neg hover]
    exact h.finish hs

theorem shorten_gone {operator : ℕ} {found : List ℕ} {changed : Bool} (h : Gone k since t s)
    (hs : Sound s) : Gone k since t (s.shorten i operator found changed) := by
  refine h.leave (shorten_turn hs) (fun row row' hk hk' _ => ?_)
    (congrArg Stage.visit finish_stage_self) rfl
  obtain ⟨old, hold, ⟨-, -, rfl⟩ | ⟨-, rfl⟩⟩ := of_update hk'
  · obtain rfl := Option.some.inj (hk.symm.trans hold)
    exact ⟨Nat.min_le_left _ _, Nat.min_le_left _ _, rfl⟩
  · exact Option.some.inj (hk.symm.trans hold) ▸ Fades.refl _

theorem advance_gone (h : Gone k since t s) (hs : Sound s) (i : ℕ)
    (hnot : NotLengthened k s (.advance i)) : Gone k since t (s.advance i) := by
  have hsound := hs.stage i
  have ht : Turn s i (s.advance i) := advance_turn hs i
  unfold State.advance at ht ⊢
  cases hat : s.stage i <;> rw [hat] at hsound <;> simp only [hat] at ht
  case idle => exact h
  case presented => exact read_gone h hs hat
  case read => exact decideOn_gone h hs hat
  case sliding => exact slide_gone h hs hat
  case verified => exact h.finish hs
  case rotating verified mfaVerifiedAt now =>
    dsimp only
    unfold State.rotate at ht ⊢
    split at ht
    next hlive =>
      rw [if_pos hlive]
      exact h.leave ht (fades_of_joined ended_superseded update_length rfl)
        (congrArg Stage.visit finish_stage_self) rfl
    next hdead =>
      rw [if_neg hdead]
      exact h.finish hs
  case signingIn =>
    dsimp only
    split
    · exact h.goto hs hsound rfl
    · exact h.finish hs
  case proved => exact h.goto hs hsound rfl
  case issuing =>
    exact h.leave ht (fades_of_joined Ended.refl rfl rfl) (congrArg Stage.visit finish_stage_self) rfl
  case changing =>
    dsimp only
    split
    · exact h.goto hs hsound rfl
    · exact h.finish hs
  case storing => exact storePassword_gone h hs hsound
  case toRevoke => exact h.goto hs hsound rfl
  case revoking => exact revoke_gone h hs hsound
  case switching verified on now =>
    cases on with
    | true => exact writeSwitch_gone h hs (fun _ => hsound) fun _ => rfl
    | false => exact writeSwitch_gone h hs (fun _ => trivial) fun _ => rfl
  case lengthening verified changed now =>
    refine lengthen_gone h hs fun hsession => hnot ?_
    rw [hat, Stage.lengthens, hsession]
  case switchingOff => exact writeSwitch_gone h hs (fun _ => trivial) fun _ => rfl
  case toShorten => exact h.goto hs trivial rfl
  case shortening => exact shorten_gone h hs

theorem request_gone {verified : VerifiedSession} (h : Gone k since t s) (hs : Sound s)
    (hcarried : Carried s verified s.now) (call : Request) :
    Gone k since t (s.request i verified call) := by
  cases call with
  | refresh => exact h.goto hs hcarried rfl
  | completeFactor => exact h.goto hs hcarried rfl
  | signOut =>
    exact h.leave (request_turn hs hcarried .signOut) (fades_of_ended ended_revoke)
      (congrArg Stage.visit finish_stage_self) rfl
  | signOutEverywhere => exact h.goto hs trivial rfl
  | changePassword current new => exact h.goto hs hcarried rfl
  | setOwn on =>
    simp only [State.request]
    split
    · exact h.goto hs hcarried rfl
    · exact h.finish hs

theorem present_gone {token : ℕ} (h : Gone k since t s) (hs : Sound s) :
    Gone k since t { s.goto i (.presented s.begun token s.now) with begun := s.begun + 1 } := by
  refine h.turn (present_turn hs) (fades_of_rows rfl) ?own ?spent h.admitted
  case own =>
    simp only [goto_stage_self]
    exact fun _ _ => h.now
  case spent =>
    simp only [goto_stage_self]
    intro idle _ visit hvisit _ hno
    obtain rfl := Option.some.inj hvisit
    exact absurd hno (Nat.not_lt_of_le h.begun)

/-- **A session past its bounds stays past them**, in every step that does not lengthen it. -/
theorem Gone.step (h : Gone k since t s) (hs : Sound s) (action : Action)
    (hnot : NotLengthened k s action) : Gone k since t (Sessions.step s action) := by
  cases action with
  | wait span =>
    exact ⟨Nat.le_trans h.now (Nat.le_add_right _ _), h.begun, h.row, h.stage, h.admitted⟩
  | present i token =>
    simp only [Sessions.step]
    split
    · exact present_gone h hs
    · exact h
  | signIn i subject password =>
    simp only [Sessions.step]
    split
    · exact h.goto hs (Nat.le_refl _) rfl
    · exact h
  | confirmReset i subject password =>
    simp only [Sessions.step]
    split
    · exact h.goto hs trivial rfl
    · exact h
  | switchOff i operator =>
    simp only [Sessions.step]
    split
    · exact h.goto hs trivial rfl
    · exact h
  | request i call =>
    simp only [Sessions.step]
    split
    · next verified hat =>
      have hsound := hs.stage i
      rw [hat] at hsound
      exact request_gone h hs hsound call
    · exact h
  | advance i => exact advance_gone h hs i hnot
  | fail i => exact h.finish hs

end Gone

/-- A visit is one of the verifications that have begun. -/
theorem visit_lt_begun {visit : Visit} (h : Sound s) (hvisit : (s.stage i).visit = some visit) :
    visit.no < s.begun := by
  have hstage := h.stage i
  cases hat : s.stage i <;> rw [hat] at hstage hvisit
  case presented =>
    obtain rfl := Option.some.inj hvisit
    exact hstage.1
  case read =>
    obtain rfl := Option.some.inj hvisit
    exact hstage.1
  case sliding =>
    obtain rfl := Option.some.inj hvisit
    exact hstage.1
  all_goals cases hvisit

/-- Every verification that was let in has begun. -/
def Counted (s : State) : Prop := ∀ admission ∈ s.admitted, admission.no < s.begun

theorem Counted.step (h : Counted s) (hs : Sound s) (action : Action) :
    Counted (step s action) := by
  have hbegun := (step_later hs action).begun
  obtain hsame | ⟨new, hcons, hnew⟩ := step_admits hs action
  · exact fun admission hmem => Nat.lt_of_lt_of_le (h admission (hsame ▸ hmem)) hbegun
  · intro admission hmem
    rw [hcons] at hmem
    obtain rfl | hmem := List.mem_cons.mp hmem
    · exact Nat.lt_of_lt_of_le hnew.begun hbegun
    · exact Nat.lt_of_lt_of_le (h admission hmem) hbegun

/-- Where the switch is off the stored bounds are within the realm's own, so that a session past
the bounds in force is past every bound a switch can give it. -/
theorem Kept.gone {k : ℕ} {row : SessionRow} (h : Kept s) (hcounted : Counted s)
    (hk : s.rows[k]? = some row) (hpast : Past s k row) : Gone k s.begun s.now s where
  now := Nat.le_refl _
  begun := Nat.le_refl _
  row := by
    refine ⟨row, hk, fun hlive => ?_⟩
    cases hon : s.switchOn row.subject with
    | true =>
      rw [Past, hon] at hpast
      refine hpast.imp_right fun hidle => ⟨hidle.1, fun i visit hvisit hsession _ => ?_⟩
      exact hidle.2 i visit hvisit hsession
    | false =>
      have hshort := h.short k row hk hlive hon
      have hpolicy : row.policy false = ⟨realmTimeouts row.subject.realm, false⟩ :=
        sessionPolicy_off _ _
      rw [Past, hon, hpolicy] at hpast
      obtain habsolute | ⟨hidle, hall⟩ := hpast
      · left
        refine Nat.le_trans (Nat.min_le_left _ _) ?_
        exact Nat.le_trans (Nat.le_min.mpr ⟨Nat.le_refl _, hshort.absolute⟩) habsolute
      · right
        constructor
        · refine Nat.le_trans (Nat.min_le_left _ _) ?_
          exact Nat.le_trans (Nat.le_min.mpr ⟨Nat.le_refl _, hshort.idle⟩) hidle
        · exact fun i visit hvisit hsession _ => hall i visit hvisit hsession
  stage i := gone_of_earlier fun _ hvisit => visit_lt_begun h.sound hvisit
  admitted admission hmem _ := hcounted admission hmem

/-! ## The claims of a run -/

/-- The state an interleaving comes to. -/
def run (switch : ℕ → Bool) (password : Subject → Option ℕ) (actions : List Action) : State :=
  actions.foldl step (start switch password)

/-- No verification of the session that begins behind `s` lets it in, whatever switches are moved,
unless it is lengthened. -/
def StaysExpired (s : State) (k : ℕ) : Prop :=
  ∀ later : List Action, Run.Guarded step (NotLengthened k) s later →
    ∀ admission ∈ (later.foldl step s).admitted, admission.reading.sessionId = k →
      admission.no < s.begun

/-- **The bounds of a session.** In every run a verification lets in only what is within the bounds
of the policy in force, and the read-only check answers as it would. In a run whose late writes are
in time, rotation moves no family's bound later, and a session past its bounds stays expired. -/
theorem session_bounds (switch : ℕ → Bool) (password : Subject → Option ℕ) (actions : List Action) :
    (∀ action, Admits (run switch password actions) (step (run switch password actions) action)) ∧
    (∀ i token, (run switch password actions).stage i = .idle →
      (((run switch password actions).verifyAlone i token).stage i).session =
        (run switch password actions).sessionStillLive token) ∧
    (Run.Guarded step Timely (start switch password) actions →
      (∀ action, Timely (run switch password actions) action →
        KeepsBound (run switch password actions) (step (run switch password actions) action)) ∧
      ∀ (k : ℕ) (row : SessionRow), (run switch password actions).rows[k]? = some row →
        Past (run switch password actions) k row →
          StaysExpired (run switch password actions) k) := by
  have hsound : Sound (run switch password actions) := run_sound switch password actions
  refine ⟨fun action => step_admits hsound action, fun i token hidle => sessionStillLive_eq hidle _,
    fun hguarded => ⟨fun action htimely => step_keepsBound hsound action htimely, ?_⟩⟩
  intro k row hk hpast later hnot
  have hkept : Kept (run switch password actions) :=
    hguarded.inv (fun _ action h htimely => h.step action htimely) (kept_start switch password)
  have hcounted : Sound (run switch password actions) ∧ Counted (run switch password actions) :=
    @Run.foldl_inv _ _ step (fun s => Sound s ∧ Counted s)
      (fun _ action h => ⟨h.1.step action, h.2.step h.1 action⟩) _
      ⟨sound_start switch password, fun _ hmem => nomatch hmem⟩ actions
  have hgone := hkept.gone hcounted.2 hk hpast
  have hend := @Run.Guarded.inv _ _ step (NotLengthened k)
    (fun s => Sound s ∧ Gone k (run switch password actions).begun
      (run switch password actions).now s)
    (fun _ action h hn => ⟨h.1.step action, h.2.step h.1 action hn⟩) _ later ⟨hsound, hgone⟩ hnot
  exact hend.2.admitted

/-- An operator's session is verified for a refresh; they turn the switch off from another tab
before the refresh rotates it. -/
def refreshedLate : List Action :=
  [.signIn 0 ⟨.admin, 7⟩ 5, .advance 0, .advance 0, .advance 0,
    .present 0 0, .advance 0, .advance 0, .request 0 .completeFactor, .advance 0,
    .present 1 1, .advance 1, .advance 1, .request 1 .refresh,
    .present 2 1, .advance 2, .advance 2, .request 2 (.setOwn false), .advance 2, .advance 2,
    .advance 2, .advance 1, .wait (9 * hour)]

/-- The switch is turned on from a new sign-in, and the old session is presented. -/
def switchedOn : List Action :=
  [.signIn 3 ⟨.admin, 7⟩ 5, .advance 3, .advance 3, .advance 3,
    .present 3 3, .advance 3, .advance 3, .request 3 .completeFactor, .advance 3,
    .present 3 4, .advance 3, .advance 3, .request 3 (.setOwn true), .advance 3, .advance 3,
    .present 4 2, .advance 4, .advance 4]

/-- Past eight hours from its sign-in and under the short bounds, the session is let in again. -/
theorem refreshed_late_revived :
    ¬ ∀ (switch : ℕ → Bool) (password : Subject → Option ℕ) (actions : List Action) (k : ℕ)
      (row : SessionRow), (run switch password actions).rows[k]? = some row →
        Past (run switch password actions) k row →
          StaysExpired (run switch password actions) k := by
  intro h
  have hrow : ∃ row, (run (fun _ => true) (fun _ => some 5) refreshedLate).rows[2]? = some row ∧
      row.absoluteBound
        (familyStartedAt (run (fun _ => true) (fun _ => some 5) refreshedLate).rows row)
        (row.policy ((run (fun _ => true) (fun _ => some 5) refreshedLate).switchOn row.subject)) ≤
      (run (fun _ => true) (fun _ => some 5) refreshedLate).now := by
    decide +kernel
  obtain ⟨row, hk, hpast⟩ := hrow
  have hexpired := h (fun _ => true) (fun _ => some 5) refreshedLate 2 row hk (.inl hpast)
  have hnot : Run.Guarded step (NotLengthened 2)
      (run (fun _ => true) (fun _ => some 5) refreshedLate) switchedOn := by
    decide +kernel
  have hin : ∃ admission ∈
      (switchedOn.foldl step (run (fun _ => true) (fun _ => some 5) refreshedLate)).admitted,
      admission.reading.sessionId = 2 ∧
        (run (fun _ => true) (fun _ => some 5) refreshedLate).begun ≤ admission.no := by
    decide +kernel
  obtain ⟨admission, hmem, hsession, hno⟩ := hin
  exact absurd (hexpired switchedOn hnot admission hmem hsession) (Nat.not_lt_of_le hno)

end Sessions

end Authn

end Calevate
