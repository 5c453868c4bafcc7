import Calevate.Authn.SessionTransactions

/-!
# What every step keeps of the sessions

A row keeps its family, its subject and its second factor, and never comes back to life; unless
the sessions of its subject are shortened its absolute bound moves no earlier, and never below the
realm's own. Those facts are `Later`, which every step satisfies, and whatever a request read about
a session it still knows in a later state (`Carried`). Over them every reachable table is tidy: a
family is named after its first row, and at most one of its sessions is live.
-/

namespace Calevate

namespace Authn

namespace Sessions

open Lib

/-! ## Rows -/

/-- What becomes of a row: it keeps what names it, and does not come back to life. -/
structure SessionRow.Next (row row' : SessionRow) : Prop where
  family : row'.family = row.family
  subject : row'.subject = row.subject
  createdAt : row'.createdAt = row.createdAt
  mfaVerifiedAt : row'.mfaVerifiedAt = row.mfaVerifiedAt
  rotatedFrom : row'.rotatedFrom = row.rotatedFrom
  afterResets : row'.afterResets = row.afterResets
  live : row'.live = true → row.live = true
  revoked : row.revokedAt ≠ none → row'.revokedAt = row.revokedAt ∧ row'.spared = row.spared

theorem SessionRow.Next.refl (row : SessionRow) : row.Next row :=
  ⟨rfl, rfl, rfl, rfl, rfl, rfl, id, fun _ => ⟨rfl, rfl⟩⟩

theorem SessionRow.Next.trans {row row' row'' : SessionRow} (h : row.Next row')
    (h' : row'.Next row'') : row.Next row'' where
  family := h'.family.trans h.family
  subject := h'.subject.trans h.subject
  createdAt := h'.createdAt.trans h.createdAt
  mfaVerifiedAt := h'.mfaVerifiedAt.trans h.mfaVerifiedAt
  rotatedFrom := h'.rotatedFrom.trans h.rotatedFrom
  afterResets := h'.afterResets.trans h.afterResets
  live hlive := h.live (h'.live hlive)
  revoked hrevoked := by
    obtain ⟨hsame, hspared⟩ := h.revoked hrevoked
    obtain ⟨hsame', hspared'⟩ := h'.revoked (hsame ▸ hrevoked)
    exact ⟨hsame'.trans hsame, hspared'.trans hspared⟩

theorem SessionRow.live_iff {row : SessionRow} :
    row.live = true ↔ row.revokedAt = none ∧ row.supersededAt = none := by
  simp only [SessionRow.live, decide_eq_true_eq]

section Updates

variable {row : SessionRow} (now familyStart : ℕ) (policy : SessionPolicy) (spare : Option ℕ)

theorem next_slide : row.Next (row.slide now policy) := { SessionRow.Next.refl row with }

theorem next_lengthen : row.Next (row.lengthen familyStart now) := { SessionRow.Next.refl row with }

theorem next_shorten : row.Next (row.shorten familyStart) := { SessionRow.Next.refl row with }

theorem next_supersede (hlive : row.live = true) : row.Next (row.supersede now) :=
  { SessionRow.Next.refl row with live := fun _ => hlive }

theorem next_revoke (hstands : row.revokedAt = none) : row.Next (row.revoke now spare) :=
  { SessionRow.Next.refl row with
    live := fun hlive => absurd ((SessionRow.live_iff).mp hlive).1 (Option.some_ne_none _)
    revoked := fun hrevoked => absurd hstands hrevoked }

end Updates

/-- The realm's own absolute bound of a row. -/
def State.ownBound (s : State) (row : SessionRow) : ℕ :=
  familyStartedAt s.rows row + (realmTimeouts row.subject.realm).absolute

/-- What a step may do to a row and where its bounds are: unless the sessions of its subject are
shortened, its absolute bound is not moved earlier, and never below the realm's own. -/
structure Moves (s s' : State) (row row' : SessionRow) : Prop where
  next : row.Next row'
  familyStart : familyStartedAt s'.rows row' = familyStartedAt s.rows row
  own : min row.absoluteExpiresAt (s.ownBound row) ≤ row'.absoluteExpiresAt
  absolute : s'.cuts row.subject = s.cuts row.subject →
    row.absoluteExpiresAt ≤ row'.absoluteExpiresAt

/-- What a later state has of an earlier one. -/
structure Later (s s' : State) : Prop where
  now : s.now ≤ s'.now
  begun : s.begun ≤ s'.begun
  cuts : ∀ subject, s.cuts subject ≤ s'.cuts subject
  rows : ∀ (k : ℕ) (row : SessionRow), s.rows[k]? = some row →
    ∃ row', s'.rows[k]? = some row' ∧ Moves s s' row row'

theorem Moves.ownBound {s s' : State} {row row' : SessionRow} (h : Moves s s' row row') :
    s'.ownBound row' = s.ownBound row := by
  unfold State.ownBound
  rw [h.familyStart, h.next.subject]

theorem Moves.trans {s s' s'' : State} {row row' row'' : SessionRow} (h : Moves s s' row row')
    (h' : Moves s' s'' row' row'') (hcuts : s.cuts row.subject ≤ s'.cuts row.subject)
    (hcuts' : s'.cuts row.subject ≤ s''.cuts row.subject) : Moves s s'' row row'' where
  next := h.next.trans h'.next
  familyStart := h'.familyStart.trans h.familyStart
  own := by
    refine Nat.le_trans ?_ h'.own
    rw [h.ownBound]
    exact Nat.le_min.mpr ⟨h.own, Nat.min_le_right _ _⟩
  absolute hsame := by
    have hfirst : s'.cuts row.subject = s.cuts row.subject := by omega
    have hsecond : s''.cuts row'.subject = s'.cuts row'.subject := by
      rw [h.next.subject, hsame, hfirst]
    exact Nat.le_trans (h.absolute hfirst) (h'.absolute hsecond)

theorem Later.trans {s s' s'' : State} (h : Later s s') (h' : Later s' s'') : Later s s'' where
  now := Nat.le_trans h.now h'.now
  begun := Nat.le_trans h.begun h'.begun
  cuts subject := Nat.le_trans (h.cuts subject) (h'.cuts subject)
  rows k row hk := by
    obtain ⟨row', hk', hmoves⟩ := h.rows k row hk
    obtain ⟨row'', hk'', hmoves'⟩ := h'.rows k row' hk'
    exact ⟨row'', hk'', hmoves.trans hmoves' (h.cuts _) (h'.cuts _)⟩

/-- Where the rows are untouched and nothing runs backwards, the state is a later one. -/
theorem Later.of_rows {s s' : State} (hrows : s'.rows = s.rows) (hnow : s.now ≤ s'.now)
    (hbegun : s.begun ≤ s'.begun) (hcuts : ∀ subject, s.cuts subject ≤ s'.cuts subject) :
    Later s s' where
  now := hnow
  begun := hbegun
  cuts := hcuts
  rows k row hk := by
    refine ⟨row, hrows ▸ hk, ⟨SessionRow.Next.refl row, by rw [hrows], Nat.min_le_left _ _, ?_⟩⟩
    exact fun _ => Nat.le_refl _

section Rows

variable {s : State} {i : ℕ} {stage : Stage} {ids : List ℕ} {cond : SessionRow → Bool}
variable {set : SessionRow → SessionRow} {k : ℕ} {row new : SessionRow}

@[simp] theorem goto_rows : (s.goto i stage).rows = s.rows := rfl

@[simp] theorem finish_rows : (s.finish i).rows = s.rows := rfl

theorem update_getElem? (k : ℕ) : (s.update ids cond set).rows[k]? =
    (s.rows[k]?).map fun row => if k ∈ ids ∧ cond row then set row else row := by
  simp only [State.update, List.getElem?_mapIdx]

theorem update_getElem?_of (hk : s.rows[k]? = some row) : (s.update ids cond set).rows[k]? =
    some (if k ∈ ids ∧ cond row then set row else row) := by
  rw [update_getElem?, hk, Option.map_some]

theorem update_length : (s.update ids cond set).rows.length = s.rows.length := by
  simp only [State.update, List.length_mapIdx]

/-- A row after an update is one from before, set or left. -/
theorem of_update (hk : (s.update ids cond set).rows[k]? = some row) :
    ∃ old, s.rows[k]? = some old ∧
      (k ∈ ids ∧ cond old = true ∧ row = set old ∨ (¬(k ∈ ids ∧ cond old = true) ∧ row = old)) := by
  rw [update_getElem?, Option.map_eq_some_iff] at hk
  obtain ⟨old, hold, hrow⟩ := hk
  refine ⟨old, hold, ?_⟩
  split at hrow
  · next hset => exact .inl ⟨hset.1, hset.2, hrow.symm⟩
  · next hset => exact .inr ⟨hset, hrow.symm⟩

theorem insert_getElem? (hk : s.rows[k]? = some row) : (s.insert new).rows[k]? = some row := by
  obtain ⟨hlt, -⟩ := List.getElem?_eq_some_iff.mp hk
  exact (List.getElem?_append_left hlt).trans hk

theorem insert_getElem?_new : (s.insert new).rows[s.rows.length]? = some new :=
  List.getElem?_concat_length

/-- A row behind an insert was there before, or is the new one. -/
theorem of_insert (hk : (s.insert new).rows[k]? = some row) :
    s.rows[k]? = some row ∨ (k = s.rows.length ∧ row = new) := by
  obtain hlt | heq | hgt := Nat.lt_trichotomy k s.rows.length
  · exact .inl ((List.getElem?_append_left hlt).symm.trans hk)
  · subst heq
    rw [insert_getElem?_new] at hk
    exact .inr ⟨rfl, (Option.some.inj hk).symm⟩
  · obtain ⟨hlt, -⟩ := List.getElem?_eq_some_iff.mp hk
    have hlength : (s.insert new).rows.length = s.rows.length + 1 := List.length_append
    omega

/-- An update that keeps what names each row leaves every family its start. -/
theorem familyStartedAt_update {row' : SessionRow} (hnext : ∀ k row, k ∈ ids → s.rows[k]? = some row →
      cond row = true → row.Next (set row)) (hrow : row.Next row') :
    familyStartedAt (s.update ids cond set).rows row' = familyStartedAt s.rows row := by
  refine familyStartedAt_eq hrow.family hrow.createdAt (fun other hmem => ?_) fun other hmem hother => ?_
  · obtain ⟨k, hk⟩ := List.mem_iff_getElem?.mp hmem
    refine ⟨_, List.mem_iff_getElem?.mpr ⟨k, update_getElem?_of hk⟩, ?_⟩
    split
    · next hset =>
      have hset' := hnext k other hset.1 hk hset.2
      exact ⟨hset'.family, hset'.createdAt⟩
    · exact ⟨rfl, rfl⟩
  · obtain ⟨k, hk⟩ := List.mem_iff_getElem?.mp hmem
    obtain ⟨old, hold, ⟨hids, hcond, rfl⟩ | ⟨-, rfl⟩⟩ := of_update hk
    · have hset := hnext k old hids hold hcond
      rw [hset.createdAt]
      exact familyStartedAt_le (List.mem_iff_getElem?.mpr ⟨k, hold⟩) (hset.family ▸ hother)
    · exact familyStartedAt_le (List.mem_iff_getElem?.mpr ⟨k, hold⟩) hother

/-- A row that joins its family no earlier than the family began leaves it its start. -/
theorem familyStartedAt_insert (hjoins : ∀ (k : ℕ) (row : SessionRow), s.rows[k]? = some row →
      new.family = row.family → familyStartedAt s.rows row ≤ new.createdAt) (hk : s.rows[k]? = some row) :
    familyStartedAt (s.insert new).rows row = familyStartedAt s.rows row := by
  refine familyStartedAt_eq rfl rfl (fun other hmem => ?_) fun other hmem hother => ?_
  · exact ⟨other, List.mem_append_left _ hmem, rfl, rfl⟩
  · obtain hmem | hmem := List.mem_append.mp hmem
    · exact familyStartedAt_le hmem hother
    · obtain rfl := List.mem_singleton.mp hmem
      exact hjoins k row hk hother

end Rows

variable {s : State} {i : ℕ}

theorem Later.refl (s : State) : Later s s :=
  Later.of_rows rfl (Nat.le_refl _) (Nat.le_refl _) fun _ => Nat.le_refl _

/-- Nothing but the rows counts towards the later state. -/
theorem Later.congr {s' s'' : State} (h : Later s s') (hrows : s''.rows = s'.rows)
    (hnow : s''.now = s'.now) (hbegun : s''.begun = s'.begun) (hcuts : s''.cuts = s'.cuts) :
    Later s s'' :=
  h.trans (Later.of_rows hrows hnow.ge hbegun.ge fun _ => hcuts ▸ Nat.le_refl _)

/-- An update under the same bounds, or later ones. -/
theorem Later.update {ids : List ℕ} {cond : SessionRow → Bool} {set : SessionRow → SessionRow}
    (hnext : ∀ k row, k ∈ ids → s.rows[k]? = some row → cond row = true → row.Next (set row))
    (hbound : ∀ row, row.absoluteExpiresAt ≤ (set row).absoluteExpiresAt) :
    Later s (s.update ids cond set) where
  now := Nat.le_refl _
  begun := Nat.le_refl _
  cuts _ := Nat.le_refl _
  rows k row hk := by
    refine ⟨_, update_getElem?_of hk, ?_⟩
    split
    · next hset =>
      have hset' := hnext k row hset.1 hk hset.2
      exact ⟨hset', familyStartedAt_update hnext hset',
        Nat.le_trans (Nat.min_le_left _ _) (hbound row), fun _ => hbound row⟩
    · have hset' := SessionRow.Next.refl row
      exact ⟨hset', familyStartedAt_update hnext hset', Nat.min_le_left _ _, fun _ => Nat.le_refl _⟩

theorem Later.insert {new : SessionRow} (hjoins : ∀ (k : ℕ) (row : SessionRow),
      s.rows[k]? = some row → new.family = row.family →
        familyStartedAt s.rows row ≤ new.createdAt) :
    Later s (s.insert new) where
  now := Nat.le_refl _
  begun := Nat.le_refl _
  cuts _ := Nat.le_refl _
  rows k row hk := by
    refine ⟨row, insert_getElem? hk, ?_⟩
    exact ⟨SessionRow.Next.refl row, familyStartedAt_insert hjoins hk, Nat.min_le_left _ _,
      fun _ => Nat.le_refl _⟩

/-! ## What a request holds -/

/-- The row of a verified session, as a later state has it. -/
structure Holds (s : State) (verified : VerifiedSession) (now : ℕ) (row : SessionRow) : Prop where
  family : row.family = verified.familyId
  subject : row.subject = verified.subject
  mfaVerifiedAt : row.mfaVerifiedAt = verified.mfaVerifiedAt
  afterResets : row.afterResets = verified.afterResets
  created : row.createdAt ≤ now
  own : min verified.absoluteExpiresAt (s.ownBound row) ≤ row.absoluteExpiresAt
  absolute : s.cuts verified.subject = verified.cuts →
    verified.absoluteExpiresAt ≤ row.absoluteExpiresAt

/-- What a request that took `now` can rely on about the session it verified. -/
structure Carried (s : State) (verified : VerifiedSession) (now : ℕ) : Prop where
  taken : now ≤ s.now
  cuts : verified.cuts ≤ s.cuts verified.subject
  row : ∃ row, s.rows[verified.sessionId]? = some row ∧ Holds s verified now row

/-- What a verification can rely on about the row it read. -/
structure Reading.Sound (s : State) (reading : Reading) : Prop where
  now : reading.now ≤ s.now
  live : reading.row.live = true
  row : ∃ row, s.rows[reading.sessionId]? = some row ∧ reading.row.Next row ∧
    reading.familyStart = familyStartedAt s.rows row
  carried : ∀ switchOn, Carried s (reading.session switchOn) s.now

def Revocation.Sound (s : State) (now : ℕ) : Revocation → Prop
  | .change verified _ => Carried s verified now
  | _ => True

def Stage.Sound (s : State) : Stage → Prop
  | .presented no _ now => no < s.begun ∧ now ≤ s.now
  | .read no reading => no < s.begun ∧ reading.Sound s
  | .sliding no now session => no < s.begun ∧ now ≤ s.now ∧ Carried s session s.now
  | .verified session => Carried s session s.now
  | .rotating session _ now => Carried s session now
  | .changing session _ _ now => Carried s session now
  | .storing cause now => cause.Sound s now
  | .toRevoke cause now => cause.Sound s now
  | .revoking cause _ now => cause.Sound s now
  | .switching session _ now => Carried s session now
  | .lengthening session _ now => Carried s session now
  | .signingIn _ _ now => now ≤ s.now
  | .proved _ now _ => now ≤ s.now
  | .issuing _ _ now _ _ => now ≤ s.now
  | _ => True

theorem Carried.later {s' : State} {verified : VerifiedSession} {now : ℕ}
    (h : Carried s verified now) (hl : Later s s') : Carried s' verified now := by
  obtain ⟨row, hk, hrow⟩ := h.row
  obtain ⟨row', hk', hmoves⟩ := hl.rows _ row hk
  refine ⟨Nat.le_trans h.taken hl.now, Nat.le_trans h.cuts (hl.cuts _), row', hk', ?_⟩
  constructor
  case family => exact hmoves.next.family.trans hrow.family
  case subject => exact hmoves.next.subject.trans hrow.subject
  case mfaVerifiedAt => exact hmoves.next.mfaVerifiedAt.trans hrow.mfaVerifiedAt
  case afterResets => exact hmoves.next.afterResets.trans hrow.afterResets
  case created => exact hmoves.next.createdAt ▸ hrow.created
  case own =>
    rw [hmoves.ownBound]
    exact Nat.le_trans (Nat.le_min.mpr ⟨hrow.own, Nat.min_le_right _ _⟩) hmoves.own
  case absolute =>
    intro hsame
    have hfirst := h.cuts
    have hsecond := hl.cuts verified.subject
    refine Nat.le_trans (hrow.absolute (by omega)) (hmoves.absolute ?_)
    rw [hrow.subject]
    omega

theorem Carried.mono {verified : VerifiedSession} {now now' : ℕ} (h : Carried s verified now)
    (hle : now ≤ now') (hnow : now' ≤ s.now) : Carried s verified now' := by
  obtain ⟨row, hk, hrow⟩ := h.row
  exact ⟨hnow, h.cuts, row, hk, { hrow with created := Nat.le_trans hrow.created hle }⟩

/-- As of the present. -/
theorem Carried.laterNow {s' : State} {verified : VerifiedSession} (h : Carried s verified s.now)
    (hl : Later s s') : Carried s' verified s'.now :=
  (h.later hl).mono hl.now (Nat.le_refl _)

theorem Reading.Sound.later {s' : State} {reading : Reading} (h : reading.Sound s)
    (hl : Later s s') : reading.Sound s' where
  now := Nat.le_trans h.now hl.now
  live := h.live
  row := by
    obtain ⟨row, hk, hnext, hstart⟩ := h.row
    obtain ⟨row', hk', hmoves⟩ := hl.rows _ row hk
    exact ⟨row', hk', hnext.trans hmoves.next, hstart.trans hmoves.familyStart.symm⟩
  carried switchOn := (h.carried switchOn).laterNow hl

theorem Revocation.Sound.later {s' : State} {cause : Revocation} {now : ℕ} (h : cause.Sound s now)
    (hl : Later s s') : cause.Sound s' now := by
  cases cause with
  | change verified password => exact Carried.later h hl
  | _ => trivial

theorem Stage.Sound.later {s' : State} {stage : Stage} (h : stage.Sound s) (hl : Later s s') :
    stage.Sound s' := by
  cases stage with
  | presented => exact ⟨Nat.lt_of_lt_of_le h.1 hl.begun, Nat.le_trans h.2 hl.now⟩
  | read => exact ⟨Nat.lt_of_lt_of_le h.1 hl.begun, h.2.later hl⟩
  | sliding =>
    exact ⟨Nat.lt_of_lt_of_le h.1 hl.begun, Nat.le_trans h.2.1 hl.now, h.2.2.laterNow hl⟩
  | verified => exact Carried.laterNow h hl
  | rotating => exact Carried.later h hl
  | changing => exact Carried.later h hl
  | storing => exact Revocation.Sound.later h hl
  | toRevoke => exact Revocation.Sound.later h hl
  | revoking => exact Revocation.Sound.later h hl
  | switching => exact Carried.later h hl
  | lengthening => exact Carried.later h hl
  | signingIn => exact Nat.le_trans h hl.now
  | proved => exact Nat.le_trans h hl.now
  | issuing => exact Nat.le_trans h hl.now
  | _ => trivial

/-- The rows of a state: a family is named after its first row, and at most one of its sessions is
live. -/
structure Tidy (s : State) : Prop where
  family_le : ∀ (k : ℕ) (row : SessionRow), s.rows[k]? = some row → row.family ≤ k
  created_le : ∀ (k : ℕ) (row : SessionRow), s.rows[k]? = some row → row.createdAt ≤ s.now
  one_live : ∀ (j k : ℕ) (row row' : SessionRow), s.rows[j]? = some row →
    s.rows[k]? = some row' → row.live = true → row'.live = true → row.family = row'.family → j = k

structure Sound (s : State) : Prop where
  tidy : Tidy s
  stage : ∀ i, (s.stage i).Sound s

theorem sound_start (switch : ℕ → Bool) (password : Subject → Option ℕ) :
    Sound (start switch password) where
  tidy := by
    constructor
    case family_le => exact fun k row hk => nomatch hk
    case created_le => exact fun k row hk => nomatch hk
    case one_live => exact fun j k row row' hj => nomatch hj
  stage _ := trivial

/-- Rows that are what the earlier ones have become are as tidy. -/
theorem Tidy.of_next {s' : State} (h : Tidy s) (hnow : s.now ≤ s'.now)
    (hrows : ∀ (k : ℕ) (row' : SessionRow), s'.rows[k]? = some row' →
      ∃ row, s.rows[k]? = some row ∧ row.Next row') : Tidy s' where
  family_le k row' hk' := by
    obtain ⟨row, hk, hnext⟩ := hrows k row' hk'
    exact hnext.family ▸ h.family_le k row hk
  created_le k row' hk' := by
    obtain ⟨row, hk, hnext⟩ := hrows k row' hk'
    exact hnext.createdAt ▸ Nat.le_trans (h.created_le k row hk) hnow
  one_live j k row' other' hj' hk' hlive hlive' hfamily := by
    obtain ⟨row, hj, hnext⟩ := hrows j row' hj'
    obtain ⟨other, hk, hnext'⟩ := hrows k other' hk'
    refine h.one_live j k row other hj hk (hnext.live hlive) (hnext'.live hlive') ?_
    rw [← hnext.family, ← hnext'.family, hfamily]

theorem Tidy.update {ids : List ℕ} {cond : SessionRow → Bool} {set : SessionRow → SessionRow}
    (h : Tidy s)
    (hnext : ∀ k row, k ∈ ids → s.rows[k]? = some row → cond row = true → row.Next (set row)) :
    Tidy (s.update ids cond set) := by
  refine h.of_next (Nat.le_refl _) fun k row' hk' => ?_
  obtain ⟨row, hk, ⟨hids, hcond, rfl⟩ | ⟨-, rfl⟩⟩ := of_update hk'
  · exact ⟨row, hk, hnext k row hids hk hcond⟩
  · exact ⟨row', hk, SessionRow.Next.refl row'⟩

theorem Tidy.insert {new : SessionRow} (h : Tidy s) (hfamily : new.family ≤ s.rows.length)
    (hcreated : new.createdAt ≤ s.now)
    (hlone : ∀ (k : ℕ) (row : SessionRow), s.rows[k]? = some row → row.live = true →
      row.family ≠ new.family) : Tidy (s.insert new) where
  family_le k row hk := by
    obtain hold | ⟨rfl, rfl⟩ := of_insert hk
    · exact h.family_le k row hold
    · exact hfamily
  created_le k row hk := by
    obtain hold | ⟨rfl, rfl⟩ := of_insert hk
    · exact h.created_le k row hold
    · exact hcreated
  one_live j k row row' hj hk hlive hlive' hsame := by
    obtain hold | ⟨hlast, hnew⟩ := of_insert hj
    · obtain hold' | ⟨-, rfl⟩ := of_insert hk
      · exact h.one_live j k row row' hold hold' hlive hlive' hsame
      · exact absurd hsame (hlone j row hold hlive)
    · obtain hold' | ⟨hlast', -⟩ := of_insert hk
      · exact absurd (hnew ▸ hsame).symm (hlone k row' hold' hlive')
      · exact hlast.trans hlast'.symm

/-! ## Each transition -/

theorem liveAt_iff {k : ℕ} :
    s.liveAt k = true ↔ ∃ row, s.rows[k]? = some row ∧ row.live = true := by
  unfold State.liveAt
  rw [Option.any_eq_true]

theorem mem_found {cond : SessionRow → Bool} {k : ℕ} :
    k ∈ s.found cond ↔ ∃ row, s.rows[k]? = some row ∧ cond row = true := by
  unfold State.found
  rw [List.mem_filter, List.mem_range, Option.any_eq_true]
  constructor
  · exact fun h => h.2
  · rintro ⟨row, hk, hcond⟩
    obtain ⟨hlt, -⟩ := List.getElem?_eq_some_iff.mp hk
    exact ⟨hlt, row, hk, hcond⟩

/-- A session that is superseded. -/
abbrev State.superseded (s : State) (k now : ℕ) : State :=
  s.update [k] SessionRow.live (·.supersede now)

section Rotation

variable {verified : VerifiedSession} {mfaVerifiedAt : Option ℕ} {now taken : ℕ}

theorem next_superseded (k row) (_ : k ∈ [verified.sessionId]) (_ : s.rows[k]? = some row)
    (hlive : row.live = true) : row.Next (row.supersede now) :=
  next_supersede now hlive

theorem Later.superseded : Later s (s.superseded verified.sessionId now) :=
  Later.update next_superseded fun _ => Nat.le_refl _

theorem Tidy.superseded (h : Tidy s) : Tidy (s.superseded verified.sessionId now) :=
  h.update next_superseded

theorem next_revocable {cause : Revocation} {found : List ℕ} {spare : Option ℕ} (k row)
    (_ : k ∈ found) (_ : s.rows[k]? = some row) (hcond : State.revocable cause row = true) :
    row.Next (row.revoke now spare) :=
  next_revoke now spare (of_decide_eq_true hcond).1

theorem Later.revokeAll {cause : Revocation} {found : List ℕ} {spare : Option ℕ} :
    Later s (s.revokeAll cause found now spare) :=
  Later.update next_revocable fun _ => Nat.le_refl _

theorem Tidy.revokeAll {cause : Revocation} {found : List ℕ} {spare : Option ℕ} (h : Tidy s) :
    Tidy (s.revokeAll cause found now spare) :=
  h.update next_revocable

/-- Behind the supersession of its live session a family has none. -/
theorem lone_superseded (h : Tidy s) (hc : Carried s verified taken)
    (hlive : s.liveAt verified.sessionId = true) (k : ℕ) (row : SessionRow)
    (hk : (s.superseded verified.sessionId now).rows[k]? = some row) (hrow : row.live = true) :
    row.family ≠ verified.familyId := by
  intro hfamily
  obtain ⟨held, hheld, hholds⟩ := hc.row
  obtain ⟨held', hheld', hlive'⟩ := (liveAt_iff).mp hlive
  obtain rfl := Option.some.inj (hheld.symm.trans hheld')
  obtain ⟨old, hold, ⟨-, -, rfl⟩ | ⟨hnot, rfl⟩⟩ := of_update hk
  · exact Option.some_ne_none _ ((SessionRow.live_iff).mp hrow).2
  · have hsame : k = verified.sessionId :=
      h.one_live k _ row held hold hheld hrow hlive' (hfamily.trans hholds.family.symm)
    exact hnot ⟨List.mem_singleton.mpr hsame, hrow⟩

/-- The successor joins its family no earlier than the family began. -/
theorem Carried.joins (hc : Carried s verified now) (k : ℕ) (row : SessionRow)
    (_ : s.rows[k]? = some row)
    (hfamily : (verified.successor mfaVerifiedAt now).family = row.family) :
    familyStartedAt s.rows row ≤ (verified.successor mfaVerifiedAt now).createdAt := by
  obtain ⟨held, hheld, hholds⟩ := hc.row
  refine Nat.le_trans (familyStartedAt_le ?_ ?_) hholds.created
  · exact List.mem_iff_getElem?.mpr ⟨_, hheld⟩
  · exact hholds.family.trans hfamily

theorem Tidy.successor (h : Tidy s) (hc : Carried s verified now)
    (hlone : ∀ (k : ℕ) (row : SessionRow), s.rows[k]? = some row → row.live = true →
      row.family ≠ verified.familyId) : Tidy (s.insert (verified.successor mfaVerifiedAt now)) := by
  refine h.insert ?_ hc.taken hlone
  obtain ⟨held, hheld, hholds⟩ := hc.row
  obtain ⟨hlt, -⟩ := List.getElem?_eq_some_iff.mp hheld
  have hle : held.family ≤ s.rows.length := Nat.le_trans (h.family_le _ _ hheld) (Nat.le_of_lt hlt)
  exact le_of_eq_of_le hholds.family.symm hle

end Rotation

@[simp] theorem goto_stage_self {stage : Stage} : (s.goto i stage).stage i = stage :=
  Function.update_self ..

theorem goto_stage_of_ne {stage : Stage} {j : ℕ} (h : j ≠ i) : (s.goto i stage).stage j = s.stage j :=
  Function.update_of_ne h ..

@[simp] theorem finish_stage_self : (s.finish i).stage i = .idle := Function.update_self ..

theorem finish_stage_of_ne {j : ℕ} (h : j ≠ i) : (s.finish i).stage j = s.stage j :=
  Function.update_of_ne h ..

/-- What a statement or a commit of request `i` comes to. -/
structure Turn (s : State) (i : ℕ) (s' : State) : Prop where
  later : Later s s'
  tidy : Tidy s'
  others : ∀ j, j ≠ i → s'.stage j = s.stage j
  own : (s'.stage i).Sound s'

theorem Sound.turn {s' : State} (h : Sound s) (ht : Turn s i s') : Sound s' where
  tidy := ht.tidy
  stage j := by
    by_cases hj : j = i
    · exact hj ▸ ht.own
    · exact ht.others j hj ▸ (h.stage j).later ht.later

theorem Sound.stay (h : Sound s) : Turn s i s :=
  ⟨Later.refl s, h.tidy, fun _ _ => rfl, h.stage i⟩

theorem Tidy.congr {s' : State} (h : Tidy s) (hrows : s'.rows = s.rows) (hnow : s.now ≤ s'.now) :
    Tidy s' :=
  h.of_next hnow fun _ row' hk' => ⟨row', hrows ▸ hk', SessionRow.Next.refl row'⟩

/-- A request that goes on after it has brought the rows to where `t` has them. -/
theorem Later.goto {t : State} {stage : Stage} (hl : Later s t) (ht : Tidy t)
    (hstage : t.stage = s.stage) (hown : stage.Sound t) : Turn s i (t.goto i stage) where
  later := hl.congr rfl rfl rfl rfl
  tidy := ht.congr rfl (Nat.le_refl _)
  others j hj := (goto_stage_of_ne hj).trans (congrFun hstage j)
  own := by
    rw [goto_stage_self]
    exact hown.later (Later.of_rows rfl (Nat.le_refl _) (Nat.le_refl _) fun _ => Nat.le_refl _)

theorem Sound.goto {stage : Stage} (h : Sound s) (hown : stage.Sound s) :
    Turn s i (s.goto i stage) :=
  (Later.refl s).goto h.tidy rfl hown

/-- A request that ends after it has brought the rows to where `t` has them. -/
theorem Later.finish {t : State} (hl : Later s t) (ht : Tidy t) (hstage : t.stage = s.stage) :
    Turn s i (t.finish i) where
  later := hl.congr rfl rfl rfl rfl
  tidy := ht.congr rfl (Nat.le_refl _)
  others j hj := (finish_stage_of_ne hj).trans (congrFun hstage j)
  own := by
    rw [finish_stage_self]
    trivial

theorem Sound.finish (h : Sound s) : Turn s i (s.finish i) :=
  (Later.refl s).finish h.tidy rfl

/-- A turn that also moves what no row and no stage counts. -/
theorem Turn.congr {s' s'' : State} (h : Turn s i s') (hrows : s''.rows = s'.rows)
    (hnow : s''.now = s'.now) (hbegun : s''.begun = s'.begun) (hcuts : s''.cuts = s'.cuts)
    (hstage : s''.stage = s'.stage) : Turn s i s'' where
  later := h.later.congr hrows hnow hbegun hcuts
  tidy := h.tidy.congr hrows hnow.ge
  others j hj := (congrFun hstage j).trans (h.others j hj)
  own := by
    rw [hstage]
    exact h.own.later (Later.of_rows hrows hnow.ge hbegun.ge fun _ => hcuts ▸ Nat.le_refl _)

section Transitions

variable {verified : VerifiedSession} {now : ℕ} {cause : Revocation} {found : List ℕ}

/-- What the first statement of a verification reads is what the row is. -/
theorem reading_sound {token : ℕ} {row : SessionRow} (htidy : Tidy s)
    (hk : s.rows[token]? = some row) (hlive : row.live = true) (hnow : now ≤ s.now) :
    Reading.Sound s ⟨token, now, row, familyStartedAt s.rows row, s.cuts row.subject⟩ where
  now := hnow
  live := hlive
  row := ⟨row, hk, SessionRow.Next.refl row, rfl⟩
  carried switchOn := by
    refine ⟨Nat.le_refl _, Nat.le_refl _, row, hk, ?_⟩
    constructor
    case created => exact htidy.created_le token row hk
    case own => exact Nat.min_le_left _ _
    case absolute => exact fun _ => Nat.le_refl _
    all_goals rfl

theorem read_turn {no token : ℕ} (h : Sound s) (hno : no < s.begun) (hnow : now ≤ s.now) :
    Turn s i (s.read i no token now) := by
  unfold State.read
  split
  · exact h.finish
  · next row hk =>
    split
    · exact h.goto trivial
    · next hsuperseded =>
      split
      · exact h.finish
      · next hrevoked =>
        have hlive : row.live = true :=
          (SessionRow.live_iff).mpr ⟨not_not.mp hrevoked, not_not.mp hsuperseded⟩
        exact h.goto ⟨hno, reading_sound h.tidy hk hlive hnow⟩

theorem verdict_ok {reading : Reading} {switchOn : Bool}
    (h : reading.verdict switchOn = .ok verified) : verified = reading.session switchOn := by
  unfold Reading.verdict at h
  split at h
  · cases h
  · split at h
    · cases h
    · exact (Except.ok.inj h).symm

theorem decideOn_turn {no : ℕ} {reading : Reading} (h : Sound s) (hno : no < s.begun)
    (hreading : reading.Sound s) : Turn s i (s.decideOn i no reading) := by
  unfold State.decideOn
  simp only
  split
  · exact h.finish
  · next verified hverdict =>
    obtain rfl := verdict_ok hverdict
    have hcarried := hreading.carried (s.switchOn reading.row.subject)
    refine (h.goto ?_ : Turn s i (s.goto i _)).congr rfl rfl rfl rfl rfl
    split
    · exact ⟨hno, hreading.now, hcarried⟩
    · exact hcarried

theorem slide_turn (h : Sound s) (hcarried : Carried s verified s.now) :
    Turn s i (s.slide i verified now) := by
  have hl : Later s (s.update [verified.sessionId] SessionRow.live (·.slide now verified.policy)) :=
    Later.update (fun _ _ _ _ _ => next_slide _ _) fun _ => Nat.le_refl _
  have ht : Tidy (s.update [verified.sessionId] SessionRow.live (·.slide now verified.policy)) :=
    h.tidy.update fun _ _ _ _ _ => next_slide _ _
  exact hl.goto ht rfl (hcarried.later hl)

theorem rotate_turn {mfaVerifiedAt : Option ℕ} (h : Sound s) (hcarried : Carried s verified now) :
    Turn s i (s.rotate i verified mfaVerifiedAt now) := by
  unfold State.rotate
  split
  · next hlive =>
    have hl : Later s (s.superseded verified.sessionId now) := Later.superseded
    have hcarried' := hcarried.later hl
    have ht : Tidy ((s.superseded verified.sessionId now).insert
        (verified.successor mfaVerifiedAt now)) :=
      h.tidy.superseded.successor hcarried' (lone_superseded h.tidy hcarried hlive)
    exact (hl.trans (Later.insert hcarried'.joins)).finish ht rfl
  · exact h.finish

theorem issue_turn {subject : Subject} {switchOn : Bool} {resets : ℕ} (h : Sound s)
    (hnow : now ≤ s.now) : Turn s i (s.issue i subject switchOn now resets) := by
  have hfresh : ∀ (k : ℕ) (row : SessionRow), s.rows[k]? = some row →
      row.family ≠ s.rows.length := by
    intro k row hk
    obtain ⟨hlt, -⟩ := List.getElem?_eq_some_iff.mp hk
    exact Nat.ne_of_lt (Nat.lt_of_le_of_lt (h.tidy.family_le k row hk) hlt)
  have ht : Tidy (s.insert (Sessions.issue s.rows.length subject switchOn now resets)) :=
    h.tidy.insert (Nat.le_refl _) hnow fun k row hk _ => hfresh k row hk
  refine (Later.insert fun k row hk hfamily => ?_).finish ht rfl
  exact absurd hfamily.symm (hfresh k row hk)

theorem revoke_turn (h : Sound s) (hcause : cause.Sound s now) :
    Turn s i (s.revoke i cause found now) := by
  have hall : Turn s i ((s.revokeAll cause found now none).finish i) :=
    Later.revokeAll.finish h.tidy.revokeAll rfl
  unfold State.revoke
  split
  · exact hall
  · exact hall
  · exact hall.congr rfl rfl rfl rfl rfl
  · next verified password =>
    split
    · next hlive =>
      have hcarried : Carried s verified now := hcause
      have hl : Later s ((s.superseded verified.sessionId now).revokeAll (.change verified password)
          found now (some s.rows.length)) := Later.superseded.trans Later.revokeAll
      have hcarried' := hcarried.later hl
      have ht : Tidy (((s.superseded verified.sessionId now).revokeAll (.change verified password)
          found now (some s.rows.length)).insert (verified.successor none now)) := by
        refine h.tidy.superseded.revokeAll.successor hcarried' fun k row hk hrow => ?_
        obtain ⟨old, hold, ⟨-, hcond, rfl⟩ | ⟨-, rfl⟩⟩ := of_update hk
        · exact absurd ((SessionRow.live_iff).mp hrow).1 (Option.some_ne_none _)
        · exact lone_superseded h.tidy hcarried hlive k _ hold hrow
      exact ((hl.trans (Later.insert hcarried'.joins)).finish ht rfl).congr rfl rfl rfl rfl rfl
    · exact h.finish

theorem writeSwitch_turn {operator : ℕ} {on : Bool} {next : Bool → Stage} (h : Sound s)
    (hnext : ∀ changed, (next changed).Sound s) : Turn s i (s.writeSwitch i operator on next) := by
  unfold State.writeSwitch
  split
  · exact h.goto (hnext false)
  · split
    · exact (h.goto (hnext true)).congr rfl rfl rfl rfl rfl
    · exact h.stay

theorem lengthen_turn {changed : Bool} (h : Sound s) :
    Turn s i (s.lengthen i verified changed now) := by
  unfold State.lengthen
  split
  · exact h.finish
  · next row hk =>
    split
    · have hl : Later s (s.update [verified.sessionId] SessionRow.live
          (·.lengthen (familyStartedAt s.rows row) now)) :=
        Later.update (fun _ _ _ _ _ => next_lengthen _ _) fun _ => Nat.le_max_left _ _
      have ht : Tidy (s.update [verified.sessionId] SessionRow.live
          (·.lengthen (familyStartedAt s.rows row) now)) :=
        h.tidy.update fun _ _ _ _ _ => next_lengthen _ _
      exact (hl.finish ht rfl).congr rfl rfl rfl rfl rfl
    · exact h.finish

theorem storePassword_turn (h : Sound s) (hcause : cause.Sound s now) :
    Turn s i (s.storePassword i cause now) := by
  unfold State.storePassword
  have hgoto : Turn s i (s.goto i (.toRevoke cause now)) := h.goto hcause
  split
  · exact hgoto
  · split
    · exact hgoto.congr rfl rfl rfl rfl rfl
    · exact h.stay

end Transitions

section Steps

/-- The rows an operator's switch-off shortens are none of another subject's. -/
theorem shorten_turn {operator : ℕ} {found : List ℕ} {changed : Bool} (h : Sound s) :
    Turn s i (s.shorten i operator found changed) := by
  have hnext : ∀ k row, k ∈ found → s.rows[k]? = some row →
      State.shortenable operator row = true → row.Next (row.shorten (familyStartedAt s.rows row)) :=
    fun _ _ _ _ _ => next_shorten _
  constructor
  case tidy => exact (h.tidy.update hnext).congr rfl (Nat.le_refl _)
  case others => exact fun _ => finish_stage_of_ne
  case own =>
    have hidle : (s.shorten i operator found changed).stage i = .idle := finish_stage_self
    rw [hidle]
    trivial
  constructor
  case now => exact Nat.le_refl _
  case begun => exact Nat.le_refl _
  case cuts =>
    intro subject
    by_cases hsubject : subject = ⟨staySignedInRealm, operator⟩
    · subst hsubject
      simp only [State.shorten, Function.update_self]
      exact Nat.le_succ _
    · simp only [State.shorten, Function.update_of_ne hsubject]
      exact Nat.le_refl _
  case rows =>
    intro k row hk
    refine ⟨_, update_getElem?_of hk, ?_⟩
    split
    · next hset =>
      have hrow := hnext k row hset.1 hk hset.2
      have hsubject : row.subject = ⟨staySignedInRealm, operator⟩ := (of_decide_eq_true hset.2).2
      refine ⟨hrow, familyStartedAt_update hnext hrow, ?_, fun hsame => ?_⟩
      · simp only [State.ownBound, hsubject]
        exact Nat.le_refl _
      · simp only [State.shorten, hsubject, Function.update_self] at hsame
        omega
    · have hrow := SessionRow.Next.refl row
      exact ⟨hrow, familyStartedAt_update hnext hrow, Nat.min_le_left _ _, fun _ => Nat.le_refl _⟩

theorem advance_turn (h : Sound s) (i : ℕ) : Turn s i (s.advance i) := by
  have hstage := h.stage i
  unfold State.advance
  cases hat : s.stage i <;> rw [hat] at hstage
  case idle => exact h.stay
  case presented => exact read_turn h hstage.1 hstage.2
  case read => exact decideOn_turn h hstage.1 hstage.2
  case sliding => exact slide_turn h hstage.2.2
  case verified => exact h.finish
  case rotating => exact rotate_turn h hstage
  case signingIn =>
    dsimp only
    split
    · exact h.goto hstage
    · exact h.finish
  case proved => exact h.goto hstage
  case issuing => exact issue_turn h hstage
  case changing =>
    dsimp only
    split
    · exact h.goto hstage
    · exact h.finish
  case storing => exact storePassword_turn h hstage
  case toRevoke => exact h.goto hstage
  case revoking => exact revoke_turn h hstage
  case switching verified on now =>
    cases on with
    | true => exact writeSwitch_turn h fun _ => hstage
    | false => exact writeSwitch_turn h fun _ => trivial
  case lengthening => exact lengthen_turn h
  case switchingOff => exact writeSwitch_turn h fun _ => trivial
  case toShorten => exact h.goto trivial
  case shortening => exact shorten_turn h

theorem request_turn {verified : VerifiedSession} (h : Sound s)
    (hcarried : Carried s verified s.now) (call : Request) :
    Turn s i (s.request i verified call) := by
  cases call with
  | refresh => exact h.goto hcarried
  | completeFactor => exact h.goto hcarried
  | signOut =>
    have hnext : ∀ k row, k ∈ [verified.sessionId] → s.rows[k]? = some row →
        decide (row.revokedAt = none) = true → row.Next (row.revoke s.now none) :=
      fun _ _ _ _ hstands => next_revoke _ _ (of_decide_eq_true hstands)
    exact (Later.update hnext fun _ => Nat.le_refl _).finish (h.tidy.update hnext) rfl
  | signOutEverywhere => exact h.goto trivial
  | changePassword current new => exact h.goto hcarried
  | setOwn on =>
    simp only [State.request]
    split
    · exact h.goto hcarried
    · exact h.finish

theorem present_turn {token : ℕ} (h : Sound s) :
    Turn s i { s.goto i (.presented s.begun token s.now) with begun := s.begun + 1 } where
  later := Later.of_rows rfl (Nat.le_refl _) (Nat.le_succ _) fun _ => Nat.le_refl _
  tidy := h.tidy.congr rfl (Nat.le_refl _)
  others _ := goto_stage_of_ne
  own := by
    simp only [goto_stage_self]
    exact ⟨Nat.lt_succ_self _, Nat.le_refl _⟩

/-- A step is a turn of one request, but for the passing of time. -/
theorem step_cases (h : Sound s) (action : Action) :
    (∃ span, action = .wait span) ∨ ∃ i, Turn s i (step s action) := by
  cases action with
  | wait span => exact .inl ⟨span, rfl⟩
  | present i token =>
    refine .inr ⟨i, ?_⟩
    simp only [step]
    split
    · exact present_turn h
    · exact h.stay
  | signIn i subject password =>
    refine .inr ⟨i, ?_⟩
    simp only [step]
    split
    · exact h.goto (Nat.le_refl _)
    · exact h.stay
  | confirmReset i subject password =>
    refine .inr ⟨i, ?_⟩
    simp only [step]
    split
    · exact h.goto trivial
    · exact h.stay
  | switchOff i operator =>
    refine .inr ⟨i, ?_⟩
    simp only [step]
    split
    · exact h.goto trivial
    · exact h.stay
  | request i call =>
    refine .inr ⟨i, ?_⟩
    simp only [step]
    split
    · next verified hat =>
      have hstage := h.stage i
      rw [hat] at hstage
      exact request_turn h hstage call
    · exact h.stay
  | advance i => exact .inr ⟨i, advance_turn h i⟩
  | fail i => exact .inr ⟨i, h.finish⟩

theorem step_later (h : Sound s) (action : Action) : Later s (step s action) := by
  obtain ⟨span, rfl⟩ | ⟨i, hturn⟩ := step_cases h action
  · exact Later.of_rows rfl (Nat.le_add_right _ _) (Nat.le_refl _) fun _ => Nat.le_refl _
  · exact hturn.later

theorem Sound.step (h : Sound s) (action : Action) : Sound (step s action) := by
  obtain ⟨span, rfl⟩ | ⟨i, hturn⟩ := step_cases h action
  · refine ⟨h.tidy.congr rfl (Nat.le_add_right _ _), fun j => (h.stage j).later ?_⟩
    exact step_later h (.wait span)
  · exact h.turn hturn

/-- **The table stays tidy in every run**, and at most one session of a family is live. -/
theorem run_sound (switch : ℕ → Bool) (password : Subject → Option ℕ) (actions : List Action) :
    Sound (actions.foldl Sessions.step (start switch password)) :=
  Run.foldl_inv (fun _ action h => h.step action) (sound_start switch password) actions

end Steps

end Sessions

end Authn

end Calevate
