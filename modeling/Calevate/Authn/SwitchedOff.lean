import Calevate.Authn.SessionBounds

/-!
# Accounts whose switch is off

In a run whose writes are in time every live session of an account whose switch is off is stored
within the bounds of its realm: a shortening finds every one of them, and what is written behind it
rests on the switch being off. There a rotation hands its family no later bound than the session it
supersedes has.
-/

namespace Calevate

namespace Authn

namespace Sessions

open Lib

variable {s : State} {i : ℕ}

/-- What is known about a verified session while none of its subject's have been shortened. -/
structure Fresh (s : State) (verified : VerifiedSession) : Prop where
  policy : verified.policy = sessionPolicy verified.subject.realm verified.switchOn
    verified.mfaVerifiedAt.isSome
  off : s.cuts verified.subject = verified.cuts → s.switchOn verified.subject = false →
    verified.switchOn = false ∧ ∀ row, s.rows[verified.sessionId]? = some row →
      verified.absoluteExpiresAt ≤ s.ownBound row

def Revocation.Kept (s : State) : Revocation → Prop
  | .change session _ => Fresh s session
  | _ => True

def Stage.Kept (s : State) : Stage → Prop
  | .read _ reading => s.cuts reading.row.subject = reading.cuts →
      s.switchOn reading.row.subject = false → reading.row.absoluteExpiresAt ≤
        reading.familyStart + (realmTimeouts reading.row.subject.realm).absolute
  | .sliding _ _ session => Fresh s session
  | .verified session => Fresh s session
  | .rotating session _ _ => Fresh s session
  | .changing session _ _ _ => Fresh s session
  | .storing cause _ => cause.Kept s
  | .toRevoke cause _ => cause.Kept s
  | .revoking cause _ _ => cause.Kept s
  | .switching session _ _ => Fresh s session
  | .lengthening session _ _ => Fresh s session
  | .issuing subject switchOn _ _ cuts => cuts ≤ s.cuts subject ∧
      (s.cuts subject = cuts → s.switchOn subject = false → switchOn = false)
  | .shortening operator found _ => ∀ (k : ℕ) (row : SessionRow), s.rows[k]? = some row →
      row.live = true → row.subject = ⟨staySignedInRealm, operator⟩ → k ∈ found
  | _ => True

/-- A state in which no account whose switch is off has a live session with more than the bounds
of its realm. -/
structure Kept (s : State) : Prop where
  sound : Sound s
  short : ∀ (k : ℕ) (row : SessionRow), s.rows[k]? = some row → row.live = true →
    s.switchOn row.subject = false → Short s row
  stage : ∀ i, (s.stage i).Kept s

/-- A step between which and the one before no switch was turned off but by a shortening, and no
session joined those that a shortening under way has found. -/
structure Fair (s s' : State) : Prop where
  later : Later s s'
  calm : ∀ subject, s'.cuts subject = s.cuts subject → s'.switchOn subject = false →
    s.switchOn subject = false
  joined : ∀ (k : ℕ) (row' : SessionRow), s'.rows[k]? = some row' →
    (∃ row, s.rows[k]? = some row) ∨ ∀ j operator found changed,
      s.stage j = .shortening operator found changed → row'.subject ≠ ⟨staySignedInRealm, operator⟩

theorem Fresh.fair {s' : State} {verified : VerifiedSession} {now : ℕ} (h : Fresh s verified)
    (hc : Carried s verified now) (hf : Fair s s') : Fresh s' verified where
  policy := h.policy
  off hsame hoff := by
    have hfirst := hc.cuts
    have hsecond := hf.later.cuts verified.subject
    have hcalm := hf.calm verified.subject (by omega) hoff
    obtain ⟨hread, hbound⟩ := h.off (by omega) hcalm
    refine ⟨hread, fun row' hk' => ?_⟩
    obtain ⟨row, hk, -⟩ := hc.row
    obtain ⟨row'', hk'', hmoves⟩ := hf.later.rows _ row hk
    obtain rfl := Option.some.inj (hk''.symm.trans hk')
    exact hmoves.ownBound ▸ hbound row hk

theorem Revocation.Kept.fair {s' : State} {cause : Revocation} {now : ℕ} (h : cause.Kept s)
    (hs : cause.Sound s now) (hf : Fair s s') : cause.Kept s' := by
  cases cause with
  | change session password => exact Fresh.fair h hs hf
  | _ => trivial

theorem Stage.Kept.fair {s' : State} {stage : Stage} (h : stage.Kept s) (hs : stage.Sound s)
    (hf : Fair s s') (hjoined : ∀ operator found changed,
      stage = .shortening operator found changed → ∀ (k : ℕ) (row' : SessionRow),
        s'.rows[k]? = some row' → (∃ row, s.rows[k]? = some row) ∨
          row'.subject ≠ ⟨staySignedInRealm, operator⟩) : stage.Kept s' := by
  cases stage
  case read no reading =>
    intro hsame hoff
    have hcarried := hs.2.carried true
    have hfirst : reading.cuts ≤ s.cuts reading.row.subject := hcarried.cuts
    have hsecond := hf.later.cuts reading.row.subject
    exact h (by omega) (hf.calm _ (by omega) hoff)
  case sliding => exact Fresh.fair h hs.2.2 hf
  case verified => exact Fresh.fair h hs hf
  case rotating => exact Fresh.fair h hs hf
  case changing => exact Fresh.fair h hs hf
  case storing => exact Revocation.Kept.fair h hs hf
  case toRevoke => exact Revocation.Kept.fair h hs hf
  case revoking => exact Revocation.Kept.fair h hs hf
  case switching => exact Fresh.fair h hs hf
  case lengthening => exact Fresh.fair h hs hf
  case issuing subject switchOn now resets cuts =>
    have hlater := hf.later.cuts subject
    refine ⟨Nat.le_trans h.1 hlater, fun hsame hoff => ?_⟩
    have hfirst := h.1
    exact h.2 (by omega) (hf.calm subject (by omega) hoff)
  case shortening operator found changed =>
    intro k row' hk' hlive hsubject
    obtain ⟨row, hk⟩ | hnone := hjoined operator found changed rfl k row' hk'
    · obtain ⟨row'', hk'', hmoves⟩ := hf.later.rows k row hk
      obtain rfl := Option.some.inj (hk''.symm.trans hk')
      exact h k row hk (hmoves.next.live hlive) (hmoves.next.subject ▸ hsubject)
    · exact absurd hsubject hnone
  all_goals trivial

/-- A turn that keeps what is promised of the rows, and of the request that took it. -/
theorem Kept.turn {s' : State} (h : Kept s) (ht : Turn s i s') (hf : Fair s s')
    (hshort : ∀ (k : ℕ) (row : SessionRow), s'.rows[k]? = some row → row.live = true →
      s'.switchOn row.subject = false → Short s' row)
    (hown : (s'.stage i).Kept s') : Kept s' where
  sound := h.sound.turn ht
  short := hshort
  stage j := by
    by_cases hj : j = i
    · exact hj ▸ hown
    · rw [ht.others j hj]
      refine (h.stage j).fair (h.sound.stage j) hf fun operator found changed hat k row' hk' => ?_
      exact (hf.joined k row' hk').imp_right fun hnone => hnone j operator found changed hat

theorem Fair.of_same {s' : State} (hl : Later s s') (hrows : s'.rows = s.rows)
    (hswitch : s'.switch = s.switch) : Fair s s' where
  later := hl
  calm subject _ hoff := by
    unfold State.switchOn at hoff ⊢
    rwa [hswitch] at hoff
  joined k row' hk' := .inl ⟨row', hrows ▸ hk'⟩

theorem Short.congr {s' : State} {row : SessionRow} (h : Short s row) (hrows : s'.rows = s.rows) :
    Short s' row where
  idle := h.idle
  absolute := by
    unfold State.ownBound
    rw [hrows]
    exact h.absolute

/-- A turn that leaves the rows and the switches alone. -/
theorem Kept.quiet {s' : State} (h : Kept s) (ht : Turn s i s') (hrows : s'.rows = s.rows)
    (hswitch : s'.switch = s.switch) (hown : (s'.stage i).Kept s') : Kept s' := by
  refine h.turn ht (Fair.of_same ht.later hrows hswitch) (fun k row hk hlive hoff => ?_) hown
  have hoff' : s.switchOn row.subject = false := by
    unfold State.switchOn at hoff ⊢
    rwa [hswitch] at hoff
  exact (h.short k row (hrows ▸ hk) hlive hoff').congr hrows

/-- What a row that keeps its stored bounds, or is given earlier ones, keeps of the realm's. -/
theorem Short.moves {s' : State} {row row' : SessionRow} (h : Short s row)
    (hmoves : Moves s s' row row') (hseen : row'.lastSeenAt = row.lastSeenAt)
    (hidle : row'.idleExpiresAt ≤ row.idleExpiresAt)
    (habsolute : row'.absoluteExpiresAt ≤ row.absoluteExpiresAt) : Short s' row' where
  idle := by
    rw [hseen, hmoves.next.subject]
    exact Nat.le_trans hidle h.idle
  absolute := by
    rw [hmoves.ownBound]
    exact Nat.le_trans habsolute h.absolute

theorem Stage.Kept.same {s' : State} {stage : Stage} (h : stage.Kept s) (hs : stage.Sound s)
    (hl : Later s s') (hrows : s'.rows = s.rows) (hswitch : s'.switch = s.switch) :
    stage.Kept s' :=
  h.fair hs (Fair.of_same hl hrows hswitch) fun _ _ _ _ _ row' hk' => .inl ⟨row', hrows ▸ hk'⟩

theorem Kept.goto {stage : Stage} (h : Kept s) (hs : stage.Sound s) (hk : stage.Kept s) :
    Kept (s.goto i stage) := by
  have ht : Turn s i (s.goto i stage) := h.sound.goto hs
  refine h.quiet ht rfl rfl ?_
  rw [goto_stage_self]
  exact hk.same hs ht.later rfl rfl

theorem Kept.finish (h : Kept s) : Kept (s.finish i) := by
  refine h.quiet h.sound.finish rfl rfl ?_
  rw [finish_stage_self]
  trivial

/-- What no row and no stage counts can be moved besides. -/
theorem Kept.congr {s' : State} (h : Kept s) (hrows : s'.rows = s.rows)
    (hswitch : s'.switch = s.switch) (hstage : s'.stage = s.stage) (hcuts : s'.cuts = s.cuts)
    (hnow : s.now ≤ s'.now) (hbegun : s.begun ≤ s'.begun) : Kept s' := by
  have hl : Later s s' := Later.of_rows hrows hnow hbegun fun _ => hcuts ▸ Nat.le_refl _
  constructor
  case sound =>
    exact ⟨h.sound.tidy.congr hrows hnow, fun j => hstage ▸ (h.sound.stage j).later hl⟩
  case short =>
    intro k row hk hlive hoff
    have hoff' : s.switchOn row.subject = false := by
      unfold State.switchOn at hoff ⊢
      rwa [hswitch] at hoff
    exact (h.short k row (hrows ▸ hk) hlive hoff').congr hrows
  case stage =>
    intro j
    rw [hstage]
    exact (h.stage j).same (h.sound.stage j) hl hrows hswitch

/-- The rows of `s'` are those of `s`, but for live ones that have ended. -/
def Ended (s s' : State) : Prop :=
  ∀ (k : ℕ) (row' : SessionRow), s'.rows[k]? = some row' →
    ∃ row, s.rows[k]? = some row ∧ (row'.live = true → row' = row)

theorem Ended.refl : Ended s s := fun _ row' hk' => ⟨row', hk', fun _ => rfl⟩

theorem Ended.trans {s' s'' : State} (h : Ended s s') (h' : Ended s' s'') : Ended s s'' := by
  intro k row'' hk''
  obtain ⟨row', hk', hsame'⟩ := h' k row'' hk''
  obtain ⟨row, hk, hsame⟩ := h k row' hk'
  refine ⟨row, hk, fun hlive => ?_⟩
  obtain rfl := hsame' hlive
  exact hsame hlive

section Transitions

variable {verified : VerifiedSession} {now : ℕ}

theorem read_kept {no token : ℕ} (h : Kept s) (hno : no < s.begun) (hnow : now ≤ s.now) :
    Kept (s.read i no token now) := by
  unfold State.read
  split
  · exact h.finish
  next row hk =>
  split
  · exact h.goto trivial trivial
  next hsuperseded =>
  split
  · exact h.finish
  next hrevoked =>
  have hlive : row.live = true :=
    SessionRow.live_iff.mpr ⟨not_not.mp hrevoked, not_not.mp hsuperseded⟩
  refine h.goto ⟨hno, reading_sound h.sound.tidy hk hlive hnow⟩ fun _ hoff => ?_
  exact (h.short token row hk hlive hoff).absolute

/-- What a verification lets in it knows to be fresh. -/
theorem fresh_session {reading : Reading} (hreading : reading.Sound s)
    (hkept : s.cuts reading.row.subject = reading.cuts →
      s.switchOn reading.row.subject = false → reading.row.absoluteExpiresAt ≤
        reading.familyStart + (realmTimeouts reading.row.subject.realm).absolute) :
    Fresh s (reading.session (s.switchOn reading.row.subject)) where
  policy := rfl
  off hsame hoff := by
    refine ⟨hoff, fun row hk => ?_⟩
    obtain ⟨row', hk', hnext, hstart⟩ := hreading.row
    obtain rfl := Option.some.inj (hk'.symm.trans hk)
    unfold State.ownBound
    rw [← hstart, hnext.subject]
    exact hkept hsame hoff

theorem decideOn_kept {no : ℕ} {reading : Reading} (h : Kept s) (hno : no < s.begun)
    (hreading : reading.Sound s) (hkept : (Stage.read no reading).Kept s) :
    Kept (s.decideOn i no reading) := by
  cases hverdict : reading.verdict (s.switchOn reading.row.subject) with
  | error refusal =>
    simp only [State.decideOn, hverdict]
    exact h.finish
  | ok verified =>
    simp only [State.decideOn, hverdict]
    obtain rfl := verdict_ok hverdict
    have hcarried := hreading.carried (s.switchOn reading.row.subject)
    have hfresh := fresh_session hreading hkept
    have hgoto : Kept (s.goto i (if reading.stale then
        .sliding no reading.now (reading.session (s.switchOn reading.row.subject))
        else .verified (reading.session (s.switchOn reading.row.subject)))) := by
      split
      · exact h.goto ⟨hno, hreading.now, hcarried⟩ hfresh
      · exact h.goto hcarried hfresh
    exact hgoto.congr rfl rfl rfl rfl (Nat.le_refl _) (Nat.le_refl _)

/-- A policy that is not the long one is the realm's own. -/
theorem own_of_not_staySignedIn {realm : Realm} {switchOn proved : Bool}
    (h : (sessionPolicy realm switchOn proved).staySignedIn = false) :
    (sessionPolicy realm switchOn proved).timeouts = realmTimeouts realm := by
  unfold sessionPolicy at h ⊢
  split at h
  · cases h
  next hshort => rw [if_neg hshort]

theorem slide_kept {no : ℕ} (h : Kept s) (hcarried : Carried s verified s.now)
    (hfresh : Fresh s verified) (htimely : TimelyAt s (.sliding no now verified)) :
    Kept (s.slide i verified now) := by
  have ht : Turn s i (s.slide i verified now) := slide_turn h.sound hcarried
  have hf : Fair s (s.slide i verified now) := by
    refine ⟨ht.later, fun _ _ hoff => hoff, fun k row' hk' => .inl ?_⟩
    obtain ⟨old, hold, -⟩ := of_update hk'
    exact ⟨old, hold⟩
  refine h.turn ht hf (fun k row' hk' hlive hoff => ?_) ?_
  · obtain ⟨old, hold, hset⟩ := of_update hk'
    obtain ⟨row'', hk'', hmoves⟩ := ht.later.rows k old hold
    obtain rfl := Option.some.inj (hk''.symm.trans hk')
    have hoff' : s.switchOn old.subject = false := hmoves.next.subject ▸ hoff
    have hshort := h.short k old hold (hmoves.next.live hlive) hoff'
    obtain ⟨hk, -, rfl⟩ | ⟨-, rfl⟩ := hset
    · refine ⟨?_, hmoves.ownBound ▸ hshort.absolute⟩
      obtain ⟨held, hheld, hholds⟩ := hcarried.row
      obtain rfl := List.mem_singleton.mp hk
      obtain rfl := Option.some.inj (hheld.symm.trans hold)
      have hown : verified.policy.timeouts = realmTimeouts verified.subject.realm := by
        have hpolicy := hfresh.policy
        rw [hpolicy]
        refine own_of_not_staySignedIn (Bool.eq_false_iff.mpr fun hlong => ?_)
        have hsame := htimely (hpolicy ▸ hlong)
        have hread := (hfresh.off hsame.symm (hholds.subject ▸ hoff')).1
        rw [hread, sessionPolicy_off] at hlong
        cases hlong
      change now + verified.policy.timeouts.idle ≤ now + (realmTimeouts held.subject.realm).idle
      rw [hown, hholds.subject]
    · exact hshort.moves hmoves rfl (Nat.le_refl _) (Nat.le_refl _)
  · rw [State.slide, goto_stage_self]
    exact hfresh.fair hcarried hf

theorem Kept.ended {s' : State} (h : Kept s) (ht : Turn s i s') (he : Ended s s')
    (hswitch : s'.switch = s.switch) (hown : (s'.stage i).Kept s') : Kept s' := by
  have hcalm : ∀ subject, s'.switchOn subject = s.switchOn subject := by
    intro subject
    unfold State.switchOn
    rw [hswitch]
  refine h.turn ht ⟨ht.later, fun subject _ hoff => hcalm subject ▸ hoff, fun k row' hk' => ?_⟩
    (fun k row' hk' hlive hoff => ?_) hown
  · obtain ⟨row, hk, -⟩ := he k row' hk'
    exact .inl ⟨row, hk⟩
  · obtain ⟨row, hk, hsame⟩ := he k row' hk'
    obtain ⟨row'', hk'', hmoves⟩ := ht.later.rows k row hk
    obtain rfl := Option.some.inj (hk''.symm.trans hk')
    obtain rfl := hsame hlive
    exact (h.short k _ hk hlive (hcalm _ ▸ hoff)).moves hmoves rfl (Nat.le_refl _) (Nat.le_refl _)

/-- The realm's own bound of a row that has joined the table is what it was before. -/
theorem ownBound_joined {s' : State} {new : SessionRow} (hl : Later s s')
    (hold : ∀ (k : ℕ) (row' : SessionRow), s'.rows[k]? = some row' →
      (∃ row, s.rows[k]? = some row) ∨ row' = new) : s'.ownBound new = s.ownBound new := by
  unfold State.ownBound
  congr 1
  refine familyStartedAt_eq rfl rfl (fun other hmem => ?_) fun other' hmem' hfamily => ?_
  · obtain ⟨k, hk⟩ := List.mem_iff_getElem?.mp hmem
    obtain ⟨other', hk', hmoves⟩ := hl.rows k other hk
    exact ⟨other', List.mem_iff_getElem?.mpr ⟨k, hk'⟩, hmoves.next.family, hmoves.next.createdAt⟩
  · obtain ⟨k, hk'⟩ := List.mem_iff_getElem?.mp hmem'
    obtain ⟨other, hk⟩ | rfl := hold k other' hk'
    · obtain ⟨other'', hk'', hmoves⟩ := hl.rows k other hk
      obtain rfl := Option.some.inj (hk''.symm.trans hk')
      rw [hmoves.next.createdAt]
      exact familyStartedAt_le (List.mem_iff_getElem?.mpr ⟨k, hk⟩)
        (hmoves.next.family ▸ hfamily)
    · exact familyStartedAt_le_self _ _

theorem Kept.joined {s' t : State} {new : SessionRow} (h : Kept s) (ht : Turn s i s')
    (he : Ended s t) (hrows : s'.rows = (t.insert new).rows) (hswitch : s'.switch = s.switch)
    (halone : ∀ j operator found changed, s.stage j = .shortening operator found changed →
      new.subject ≠ ⟨staySignedInRealm, operator⟩)
    (hshort : s.switchOn new.subject = false → Short s new) (hown : (s'.stage i).Kept s') :
    Kept s' := by
  have hcalm : ∀ subject, s'.switchOn subject = s.switchOn subject := by
    intro subject
    unfold State.switchOn
    rw [hswitch]
  have hold : ∀ (k : ℕ) (row' : SessionRow), s'.rows[k]? = some row' →
      (∃ row, s.rows[k]? = some row ∧ (row'.live = true → row' = row)) ∨ row' = new := by
    intro k row' hk'
    rw [hrows] at hk'
    obtain hk' | ⟨-, rfl⟩ := of_insert hk'
    · exact .inl (he k row' hk')
    · exact .inr rfl
  refine h.turn ht ⟨ht.later, fun subject _ hoff => hcalm subject ▸ hoff, fun k row' hk' => ?_⟩
    (fun k row' hk' hlive hoff => ?_) hown
  · obtain ⟨row, hk, -⟩ | rfl := hold k row' hk'
    · exact .inl ⟨row, hk⟩
    · exact .inr halone
  · obtain ⟨row, hk, hsame⟩ | rfl := hold k row' hk'
    · obtain ⟨row'', hk'', hmoves⟩ := ht.later.rows k row hk
      obtain rfl := Option.some.inj (hk''.symm.trans hk')
      obtain rfl := hsame hlive
      exact (h.short k _ hk hlive (hcalm _ ▸ hoff)).moves hmoves rfl (Nat.le_refl _) (Nat.le_refl _)
    · have hnew := hshort (hcalm _ ▸ hoff)
      refine ⟨hnew.idle, Nat.le_trans hnew.absolute (Nat.le_of_eq ?_)⟩
      refine (ownBound_joined ht.later fun k row' hk' => ?_).symm
      exact (hold k row' hk').imp_left fun ⟨row, hk, _⟩ => ⟨row, hk⟩

/-- A successor has the own bound of the session it supersedes. -/
theorem ownBound_successor {mfaVerifiedAt : Option ℕ} {row : SessionRow}
    (hc : Carried s verified now) (hk : s.rows[verified.sessionId]? = some row) :
    s.ownBound (verified.successor mfaVerifiedAt now) = s.ownBound row := by
  obtain ⟨held, hheld, hholds⟩ := hc.row
  obtain rfl := Option.some.inj (hheld.symm.trans hk)
  have hmem : held ∈ s.rows := List.mem_iff_getElem?.mpr ⟨_, hk⟩
  have hfamily : (verified.successor mfaVerifiedAt now).family = held.family := hholds.family.symm
  have hstart : familyStartedAt s.rows (verified.successor mfaVerifiedAt now) =
      familyStartedAt s.rows held := by
    apply Nat.le_antisymm
    · refine le_familyStartedAt_iff.mpr ⟨familyStartedAt_le hmem hfamily.symm, ?_⟩
      exact fun other hother h => familyStartedAt_le hother (h.trans hfamily.symm)
    · refine le_familyStartedAt_iff.mpr ⟨hc.joins _ held hk hfamily, ?_⟩
      exact fun other hother h => familyStartedAt_le hother (h.trans hfamily)
  unfold State.ownBound
  rw [hstart, hholds.subject]
  rfl

/-- A rotation in time, of an account whose switch is off, stays within the realm's bounds. -/
theorem short_successor {mfaVerifiedAt : Option ℕ} (hc : Carried s verified now)
    (hfresh : Fresh s verified)
    (hin : InTime s (verified.successor mfaVerifiedAt now) verified.cuts)
    (hoff : s.switchOn verified.subject = false) :
    Short s (verified.successor mfaVerifiedAt now) := by
  obtain hshort | hsame := hin.bounds
  · exact hshort
  obtain ⟨hread, hbound⟩ := hfresh.off hsame.symm hoff
  obtain ⟨row, hk, -⟩ := hc.row
  constructor
  case idle =>
    simp only [VerifiedSession.successor, hread, sessionPolicy_off]
    exact Nat.le_refl _
  case absolute =>
    rw [ownBound_successor hc hk]
    exact hbound row hk

/-- A rotation in time gives its family no later absolute bound. -/
theorem successor_le {mfaVerifiedAt : Option ℕ} {row : SessionRow} (hc : Carried s verified now)
    (hin : InTime s (verified.successor mfaVerifiedAt now) verified.cuts)
    (hk : s.rows[verified.sessionId]? = some row) :
    (verified.successor mfaVerifiedAt now).absoluteExpiresAt ≤ row.absoluteExpiresAt := by
  have hown : s.ownBound (verified.successor mfaVerifiedAt now) = s.ownBound row :=
    ownBound_successor hc hk
  obtain ⟨held, hheld, hholds⟩ := hc.row
  obtain rfl := Option.some.inj (hheld.symm.trans hk)
  obtain hshort | hsame := hin.bounds
  · exact Nat.le_trans (Nat.le_min.mpr ⟨Nat.le_refl _, hown ▸ hshort.absolute⟩) hholds.own
  · exact hholds.absolute hsame.symm

theorem ended_superseded : Ended s (s.superseded verified.sessionId now) := by
  intro k row' hk'
  obtain ⟨old, hold, ⟨-, -, rfl⟩ | ⟨-, rfl⟩⟩ := of_update hk'
  · exact ⟨old, hold, fun hlive => absurd (SessionRow.live_iff.mp hlive).2 (Option.some_ne_none _)⟩
  · exact ⟨row', hold, fun _ => rfl⟩

theorem ended_revoke {ids : List ℕ} {cond : SessionRow → Bool} {spare : Option ℕ} :
    Ended s (s.update ids cond (·.revoke now spare)) := by
  intro k row' hk'
  obtain ⟨old, hold, ⟨-, -, rfl⟩ | ⟨-, rfl⟩⟩ := of_update hk'
  · exact ⟨old, hold, fun hlive => absurd (SessionRow.live_iff.mp hlive).1 (Option.some_ne_none _)⟩
  · exact ⟨row', hold, fun _ => rfl⟩

theorem rotate_kept {mfaVerifiedAt : Option ℕ} (h : Kept s) (hc : Carried s verified now)
    (hfresh : Fresh s verified) (htimely : TimelyAt s (.rotating verified mfaVerifiedAt now)) :
    Kept (s.rotate i verified mfaVerifiedAt now) := by
  have ht : Turn s i (s.rotate i verified mfaVerifiedAt now) := rotate_turn h.sound hc
  unfold State.rotate at ht ⊢
  split at ht
  · next hlive =>
    rw [if_pos hlive]
    refine h.joined ht ended_superseded rfl rfl htimely.alone (short_successor hc hfresh htimely) ?_
    rw [finish_stage_self]
    trivial
  · next hdead =>
    rw [if_neg hdead]
    exact h.finish

theorem issue_kept {subject : Subject} {switchOn : Bool} {resets cuts : ℕ} (h : Kept s)
    (hnow : now ≤ s.now) (hkept : (Stage.issuing subject switchOn now resets cuts).Kept s)
    (htimely : TimelyAt s (.issuing subject switchOn now resets cuts)) :
    Kept (s.issue i subject switchOn now resets) := by
  refine h.joined (issue_turn h.sound hnow) Ended.refl rfl rfl htimely.alone (fun hoff => ?_) ?_
  · obtain hshort | hsame := htimely.bounds
    · exact hshort
    obtain rfl := hkept.2 hsame.symm hoff
    constructor
    case idle =>
      simp only [Sessions.issue, sessionPolicy_off]
      exact Nat.le_refl _
    case absolute =>
      have hstart : familyStartedAt s.rows (Sessions.issue s.rows.length subject false now resets) =
          now := by
        apply Nat.le_antisymm (familyStartedAt_le_self _ _)
        refine le_familyStartedAt_iff.mpr ⟨Nat.le_refl _, fun other hmem hfamily => ?_⟩
        obtain ⟨k, hk⟩ := List.mem_iff_getElem?.mp hmem
        obtain ⟨hlt, -⟩ := List.getElem?_eq_some_iff.mp hk
        have hle := h.sound.tidy.family_le k other hk
        exact absurd hfamily (Nat.ne_of_lt (Nat.lt_of_le_of_lt hle hlt))
      unfold State.ownBound
      rw [hstart]
      simp [Sessions.issue, absoluteCeiling]
  · rw [State.issue, finish_stage_self]
    trivial

theorem revoke_kept {cause : Revocation} {found : List ℕ} (h : Kept s)
    (hsound : cause.Sound s now) (hkept : cause.Kept s)
    (htimely : TimelyAt s (.revoking cause found now)) : Kept (s.revoke i cause found now) := by
  have ht : Turn s i (s.revoke i cause found now) := revoke_turn h.sound hsound
  have hall : Kept ((s.revokeAll cause found now none).finish i) := by
    refine h.ended (Later.revokeAll.finish h.sound.tidy.revokeAll rfl) ended_revoke rfl ?_
    rw [finish_stage_self]
    trivial
  cases cause with
  | ofFamily family => exact hall
  | everywhere subject => exact hall
  | reset subject password => exact hall.congr rfl rfl rfl rfl (Nat.le_refl _) (Nat.le_refl _)
  | change session password =>
    simp only [State.revoke] at ht ⊢
    split at ht
    · next hlive =>
      rw [if_pos hlive]
      refine h.joined ht ((ended_superseded).trans ended_revoke) rfl rfl htimely.alone
        (short_successor hsound hkept htimely) ?_
      simp only [finish_stage_self]
      trivial
    · next hdead =>
      rw [if_neg hdead]
      exact h.finish

theorem writeSwitch_kept {operator : ℕ} {on : Bool} {next : Bool → Stage} (h : Kept s)
    (hsound : ∀ changed, (next changed).Sound s) (hkept : ∀ changed, (next changed).Kept s) :
    Kept (s.writeSwitch i operator on next) := by
  unfold State.writeSwitch
  split
  · exact h.goto (hsound false) (hkept false)
  split
  · exact (h.goto (hsound true) (hkept true)).congr rfl rfl rfl rfl (Nat.le_refl _) (Nat.le_refl _)
  · exact h

theorem storePassword_kept {cause : Revocation} (h : Kept s) (hsound : cause.Sound s now)
    (hkept : cause.Kept s) : Kept (s.storePassword i cause now) := by
  have hgoto : Kept (s.goto i (.toRevoke cause now)) := h.goto hsound hkept
  unfold State.storePassword
  split
  · exact hgoto
  split
  · exact hgoto.congr rfl rfl rfl rfl (Nat.le_refl _) (Nat.le_refl _)
  · exact h

theorem switchOn_iff {subject : Subject} :
    s.switchOn subject = true ↔ subject.realm = staySignedInRealm ∧ s.switch subject.id = true := by
  simp only [State.switchOn, decide_eq_true_eq]

/-- Turning a switch on turns none off. -/
theorem switchOn_of_turned {t : State} {changed : Bool} {operator : ℕ} (ht : t.switch =
      if changed then Function.update s.switch operator true else s.switch) {subject : Subject}
    (hoff : t.switchOn subject = false) : s.switchOn subject = false := by
  refine Bool.eq_false_iff.mpr fun hon => Bool.eq_false_iff.mp hoff ((switchOn_iff).mpr ?_)
  obtain ⟨hrealm, hswitch⟩ := (switchOn_iff).mp hon
  refine ⟨hrealm, ?_⟩
  rw [ht]
  split
  · by_cases hid : subject.id = operator
    · rw [hid, Function.update_self]
    · rw [Function.update_of_ne hid, hswitch]
  · exact hswitch

/-- A lengthening leaves the switch of its account on, so that nothing is promised of the row. -/
theorem lengthen_kept {changed : Bool} (h : Kept s) (hc : Carried s verified now)
    (htimely : TimelyAt s (.lengthening verified changed now)) :
    Kept (s.lengthen i verified changed now) := by
  have ht : Turn s i (s.lengthen i verified changed now) := lengthen_turn h.sound
  obtain ⟨row, hk, hholds⟩ := hc.row
  unfold State.lengthen at ht ⊢
  simp only [hk] at ht ⊢
  split at ht
  next hlive =>
    rw [if_pos hlive]
    refine h.turn ht ⟨ht.later, fun subject _ hoff => switchOn_of_turned rfl hoff,
      fun k row' hk' => ?_⟩ (fun k row' hk' hrow' hoff => ?_) ?_
    · obtain ⟨old, hold, -⟩ := of_update hk'
      exact .inl ⟨old, hold⟩
    · obtain ⟨old, hold, hset⟩ := of_update hk'
      obtain ⟨row'', hk'', hmoves⟩ := ht.later.rows k old hold
      obtain rfl := Option.some.inj (hk'.symm.trans hk'')
      obtain ⟨hids, -, rfl⟩ | ⟨-, rfl⟩ := hset
      · obtain rfl := List.mem_singleton.mp hids
        obtain rfl := Option.some.inj (hk.symm.trans hold)
        refine absurd ((switchOn_iff).mpr ⟨hlive.2, ?_⟩) (Bool.eq_false_iff.mp hoff)
        cases changed with
        | true =>
          change Function.update s.switch verified.subject.id true row.subject.id = true
          rw [hholds.subject, Function.update_self]
        | false =>
          rw [hholds.subject]
          exact ((switchOn_iff).mp (htimely rfl)).2
      · have hoff' : s.switchOn row'.subject = false := switchOn_of_turned rfl hoff
        exact (h.short k row' hold hrow' hoff').moves hmoves rfl (Nat.le_refl _) (Nat.le_refl _)
    · simp only [finish_stage_self]
      trivial
  next hdead =>
    rw [if_neg hdead]
    exact h.finish

/-- A shortening brings every live session of its operator back to the realm's bounds. -/
theorem shorten_kept {operator : ℕ} {found : List ℕ} {changed : Bool} (h : Kept s)
    (hkept : (Stage.shortening operator found changed).Kept s) :
    Kept (s.shorten i operator found changed) := by
  have ht : Turn s i (s.shorten i operator found changed) := shorten_turn h.sound
  have hother : ∀ subject : Subject, subject ≠ ⟨staySignedInRealm, operator⟩ →
      (s.shorten i operator found changed).switchOn subject = s.switchOn subject := by
    intro subject hne
    by_cases hrealm : subject.realm = staySignedInRealm
    · have hid : subject.id ≠ operator := fun hid => hne (by rw [← hid, ← hrealm])
      unfold State.switchOn State.shorten
      cases changed with
      | true => simp only [if_true, Function.update_of_ne hid]
      | false => rfl
    · simp only [State.switchOn, hrealm, false_and]
  refine h.turn ht ⟨ht.later, fun subject hsame hoff => ?_, fun k row' hk' => ?_⟩
    (fun k row' hk' hlive hoff => ?_) ?_
  · by_cases hne : subject = ⟨staySignedInRealm, operator⟩
    · subst hne
      simp only [State.shorten, Function.update_self] at hsame
      omega
    · exact hother subject hne ▸ hoff
  · obtain ⟨old, hold, -⟩ := of_update hk'
    exact .inl ⟨old, hold⟩
  · obtain ⟨old, hold, hset⟩ := of_update hk'
    obtain ⟨row'', hk'', hmoves⟩ := ht.later.rows k old hold
    obtain rfl := Option.some.inj (hk'.symm.trans hk'')
    obtain ⟨-, hcond, rfl⟩ | ⟨hnot, rfl⟩ := hset
    · have hsubject : old.subject = ⟨staySignedInRealm, operator⟩ := (of_decide_eq_true hcond).2
      constructor
      case idle =>
        simp only [SessionRow.shorten, hsubject]
        exact Nat.min_le_right _ _
      case absolute =>
        rw [hmoves.ownBound]
        simp only [SessionRow.shorten, State.ownBound, hsubject]
        exact Nat.min_le_right _ _
    · by_cases hne : row'.subject = ⟨staySignedInRealm, operator⟩
      · exact absurd ⟨hkept k row' hold hlive hne, decide_eq_true ⟨hlive, hne⟩⟩ hnot
      · have hoff' := hother row'.subject hne ▸ hoff
        exact (h.short k row' hold hlive hoff').moves hmoves rfl (Nat.le_refl _) (Nat.le_refl _)
  · rw [State.shorten]
    simp only [finish_stage_self]
    trivial

end Transitions

theorem advance_kept (h : Kept s) (i : ℕ) (htimely : TimelyAt s (s.stage i)) :
    Kept (s.advance i) := by
  have hsound := h.sound.stage i
  have hkept := h.stage i
  unfold State.advance
  cases hat : s.stage i <;> rw [hat] at hsound hkept htimely
  case idle => exact h
  case presented => exact read_kept h hsound.1 hsound.2
  case read => exact decideOn_kept h hsound.1 hsound.2 hkept
  case sliding => exact slide_kept h hsound.2.2 hkept htimely
  case verified => exact h.finish
  case rotating => exact rotate_kept h hsound hkept htimely
  case signingIn =>
    dsimp only
    split
    · exact h.goto hsound trivial
    · exact h.finish
  case proved subject now resets =>
    exact h.goto hsound ⟨Nat.le_refl _, fun _ hoff => hoff⟩
  case issuing => exact issue_kept h hsound hkept htimely
  case changing =>
    dsimp only
    split
    · exact h.goto hsound hkept
    · exact h.finish
  case storing => exact storePassword_kept h hsound hkept
  case toRevoke => exact h.goto hsound hkept
  case revoking => exact revoke_kept h hsound hkept htimely
  case switching verified on now =>
    cases on with
    | true => exact writeSwitch_kept h (fun _ => hsound) fun _ => hkept
    | false => exact writeSwitch_kept h (fun _ => trivial) fun _ => trivial
  case lengthening => exact lengthen_kept h hsound htimely
  case switchingOff => exact writeSwitch_kept h (fun _ => trivial) fun _ => trivial
  case toShorten operator changed =>
    refine h.goto trivial fun _ row hk hlive hsubject => mem_found.mpr ⟨row, hk, ?_⟩
    exact decide_eq_true ⟨hlive, hsubject⟩
  case shortening => exact shorten_kept h hkept

theorem request_kept {verified : VerifiedSession} (h : Kept s)
    (hcarried : Carried s verified s.now) (hfresh : Fresh s verified) (call : Request) :
    Kept (s.request i verified call) := by
  cases call with
  | refresh => exact h.goto hcarried hfresh
  | completeFactor => exact h.goto hcarried hfresh
  | signOut =>
    refine h.ended (request_turn h.sound hcarried .signOut) ended_revoke rfl ?_
    rw [State.request, finish_stage_self]
    trivial
  | signOutEverywhere => exact h.goto trivial trivial
  | changePassword current new => exact h.goto hcarried hfresh
  | setOwn on =>
    simp only [State.request]
    split
    · exact h.goto hcarried hfresh
    · exact h.finish

/-- **A step in time keeps the accounts whose switch is off within the bounds of their realm.** -/
theorem Kept.step (h : Kept s) (action : Action) (htimely : Timely s action) :
    Kept (step s action) := by
  cases action with
  | wait span => exact h.congr rfl rfl rfl rfl (Nat.le_add_right _ _) (Nat.le_refl _)
  | present i token =>
    simp only [Sessions.step]
    split
    · refine h.quiet (present_turn h.sound) rfl rfl ?_
      simp only [goto_stage_self]
      trivial
    · exact h
  | signIn i subject password =>
    simp only [Sessions.step]
    split
    · exact h.goto (Nat.le_refl _) trivial
    · exact h
  | confirmReset i subject password =>
    simp only [Sessions.step]
    split
    · exact h.goto trivial trivial
    · exact h
  | switchOff i operator =>
    simp only [Sessions.step]
    split
    · exact h.goto trivial trivial
    · exact h
  | request i call =>
    simp only [Sessions.step]
    split
    · next verified hat =>
      have hsound := h.sound.stage i
      have hkept := h.stage i
      rw [hat] at hsound hkept
      exact request_kept h hsound hkept call
    · exact h
  | advance i => exact advance_kept h i htimely
  | fail i => exact h.finish

theorem kept_start (switch : ℕ → Bool) (password : Subject → Option ℕ) :
    Kept (start switch password) where
  sound := sound_start switch password
  short _ _ hk := nomatch hk
  stage _ := trivial

/-! ## Rotations -/

/-- A step that inserts no row rotates none. -/
theorem keepsBound_of_length {s' : State} (h : s'.rows.length = s.rows.length) :
    KeepsBound s s' := by
  intro _ _ new _ hnew _
  obtain ⟨hlt, -⟩ := List.getElem?_eq_some_iff.mp hnew
  omega

theorem keepsBound_of_insert {s' t : State} {row : SessionRow} (hrows : s'.rows = (t.insert row).rows)
    (hlength : t.rows.length = s.rows.length) (h : ∀ (k : ℕ) (held : SessionRow),
      s.rows[k]? = some held → row.rotatedFrom = some k →
        row.absoluteExpiresAt ≤ held.absoluteExpiresAt) : KeepsBound s s' := by
  intro k held new hk hnew hfrom
  rw [hrows, ← hlength, insert_getElem?_new] at hnew
  obtain rfl := Option.some.inj hnew
  exact h k held hk hfrom

theorem keepsBound_successor {s' t : State} {verified : VerifiedSession} {mfaVerifiedAt : Option ℕ}
    {now : ℕ} (hc : Carried s verified now)
    (hin : InTime s (verified.successor mfaVerifiedAt now) verified.cuts)
    (hrows : s'.rows = (t.insert (verified.successor mfaVerifiedAt now)).rows)
    (hlength : t.rows.length = s.rows.length) : KeepsBound s s' := by
  refine keepsBound_of_insert hrows hlength fun k held hk hfrom => ?_
  obtain rfl := Option.some.inj hfrom
  exact successor_le hc hin hk

theorem advance_keepsBound (h : Sound s) (i : ℕ) (htimely : TimelyAt s (s.stage i)) :
    KeepsBound s (s.advance i) := by
  have hsound := h.stage i
  unfold State.advance
  cases hat : s.stage i <;> rw [hat] at hsound htimely
  case presented =>
    dsimp only [State.read]
    repeat' split
    all_goals exact keepsBound_of_length rfl
  case read =>
    dsimp only [State.decideOn]
    split <;> exact keepsBound_of_length rfl
  case sliding => exact keepsBound_of_length update_length
  case rotating verified mfaVerifiedAt now =>
    dsimp only [State.rotate]
    split
    · exact keepsBound_successor hsound htimely rfl update_length
    · exact keepsBound_of_length rfl
  case signingIn =>
    dsimp only
    split <;> exact keepsBound_of_length rfl
  case issuing => exact keepsBound_of_insert rfl rfl fun _ _ _ hfrom => nomatch hfrom
  case changing =>
    dsimp only
    split <;> exact keepsBound_of_length rfl
  case storing =>
    dsimp only [State.storePassword]
    repeat' split
    all_goals exact keepsBound_of_length rfl
  case revoking cause found now =>
    cases cause with
    | change verified password =>
      dsimp only [State.revoke]
      split
      · exact keepsBound_successor hsound htimely rfl (update_length.trans update_length)
      · exact keepsBound_of_length rfl
    | _ => exact keepsBound_of_length update_length
  case switching verified on now =>
    cases on <;> dsimp only [State.writeSwitch] <;> repeat' split
    all_goals exact keepsBound_of_length rfl
  case switchingOff =>
    dsimp only [State.writeSwitch]
    repeat' split
    all_goals exact keepsBound_of_length rfl
  case lengthening =>
    dsimp only [State.lengthen]
    split
    · exact keepsBound_of_length rfl
    · split
      · exact keepsBound_of_length update_length
      · exact keepsBound_of_length rfl
  case shortening => exact keepsBound_of_length update_length
  all_goals exact keepsBound_of_length rfl

theorem step_keepsBound (h : Sound s) (action : Action) (htimely : Timely s action) :
    KeepsBound s (step s action) := by
  cases action with
  | advance i => exact advance_keepsBound h i htimely
  | request i call =>
    simp only [step]
    split
    · cases call with
      | signOut => exact keepsBound_of_length update_length
      | setOwn on =>
        dsimp only [State.request]
        split <;> exact keepsBound_of_length rfl
      | _ => exact keepsBound_of_length rfl
    · exact keepsBound_of_length rfl
  | wait span => exact keepsBound_of_length rfl
  | fail i => exact keepsBound_of_length rfl
  | _ =>
    simp only [step]
    split <;> exact keepsBound_of_length rfl

end Sessions

end Authn

end Calevate
