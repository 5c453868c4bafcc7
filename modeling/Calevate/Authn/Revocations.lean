import Calevate.Lib.Lineage
import Calevate.Authn.ExpiredSessions

/-!
# What a revocation reaches

A revocation ends the rows its statement has found, and a rotation that commits behind the
finding hands the session it supersedes to a successor no one has found; a sign-out ends one row,
which may have been rotated since it was verified; and a sign-in inserts its session in another
transaction than the one that proved the password, so that a reset can come between. In a run where
none of the three happens a revoked session has no live descendant but through the session its
revocation meant to spare (`Reached`), and every live session stands on the password as last reset.
At most one session of a family is live in any run.
-/

namespace Calevate

namespace Authn

namespace Sessions

open Lib Lib.Lineage

namespace Ending

variable {s s' : State} {i : ℕ}

/-! ## The promise -/

/-- The session a row was rotated from. -/
def parent (s : State) (j : ℕ) : Option ℕ := (s.rows[j]?).bind (·.rotatedFrom)

/-- No verification that begins behind `s` lets session `j` in. -/
def Out (s : State) (j : ℕ) : Prop :=
  ∀ later : List Action, ∀ admission ∈ (later.foldl step s).admitted,
    admission.reading.sessionId = j → admission.no < s.begun

/-- Every revocation has reached what was rotated from the sessions it ended, by any chain that
does not lead through the one it spared. -/
def Reached (s : State) : Prop :=
  ∀ (k : ℕ) (row : SessionRow) (j : ℕ), s.rows[k]? = some row → row.revokedAt ≠ none →
    Descends (parent s) row.spared k j → Out s j

/-- No session that stands on a password from before the last reset of its subject is let in. -/
def Renewed (s : State) : Prop :=
  ∀ (k : ℕ) (row : SessionRow), s.rows[k]? = some row → row.afterResets < s.resets row.subject →
    Out s k

/-- At most one session of a family is live. -/
def OneLive (s : State) : Prop :=
  ∀ (j k : ℕ) (row row' : SessionRow), s.rows[j]? = some row → s.rows[k]? = some row' →
    row.live = true → row'.live = true → row.family = row'.family → j = k

/-! ## Overlaps -/

/-- No revocation that has found session `k` is still to commit, but for the request's own. -/
def Unfound (s : State) (i k : ℕ) : Prop :=
  ∀ j cause found now, j ≠ i → s.stage j = .revoking cause found now → k ∉ found

/-- What request `i` writes next overlaps no revocation: it rotates no session that one has found,
and signs no one in on a password that has been reset since, or is being. -/
def SettledAt (s : State) (i : ℕ) : Stage → Prop
  | .rotating session _ _ => Unfound s i session.sessionId
  | .revoking (.change session _) _ _ => Unfound s i session.sessionId
  | .issuing subject _ _ resets _ => resets = s.resets subject ∧
      ∀ j password found now, s.stage j ≠ .revoking (.reset subject password) found now
  | _ => True

/-- A session that is signed out has not been rotated to one that is live. -/
def Last (s : State) (k : ℕ) : Prop :=
  ∀ row, s.rows[k]? = some row → row.revokedAt = none → row.supersededAt ≠ none →
    ∀ (j : ℕ) (other : SessionRow), s.rows[j]? = some other → other.family = row.family →
      other.live = false

def Settled (s : State) : Action → Prop
  | .advance i => SettledAt s i (s.stage i)
  | .request i .signOut => ∀ session, s.stage i = .verified session → Last s session.sessionId
  | _ => True

/-! ## The invariant -/

/-- What a revocation has found: rows it covers, every live session rotated from one of them, and
for a reset every live session of the subject. -/
structure Found (s : State) (cause : Revocation) (found : List ℕ) : Prop where
  covered : ∀ k ∈ found, ∃ row, s.rows[k]? = some row ∧ cause.covers row = true
  below : ∀ k ∈ found, ∀ j, Descends (parent s) none k j → s.liveAt j = true → j ∈ found
  all : ∀ subject password, cause = .reset subject password → ∀ (j : ℕ) (row : SessionRow),
    s.rows[j]? = some row → row.live = true → row.subject = subject → j ∈ found

/-- The table behind runs whose revocations overlap nothing. -/
structure Kept (s : State) : Prop where
  sound : Sound s
  reached : ∀ (k : ℕ) (row : SessionRow) (j : ℕ), s.rows[k]? = some row → row.revokedAt ≠ none →
    Descends (parent s) row.spared k j → s.liveAt j = false
  renewed : ∀ (k : ℕ) (row : SessionRow), s.rows[k]? = some row → row.live = true →
    row.afterResets = s.resets row.subject
  rotated : ∀ (j : ℕ) (row : SessionRow) (p : ℕ), s.rows[j]? = some row →
    row.rotatedFrom = some p → ∃ old, s.rows[p]? = some old ∧ old.family = row.family ∧
      old.subject = row.subject ∧ old.supersededAt ≠ none
  found : ∀ i cause found now, s.stage i = .revoking cause found now → Found s cause found

theorem kept_start (switch : ℕ → Bool) (password : Subject → Option ℕ) :
    Kept (start switch password) where
  sound := sound_start switch password
  reached _ _ _ hk := nomatch hk
  renewed _ _ hk := nomatch hk
  rotated _ _ _ hk := nomatch hk
  found _ _ _ _ hat := nomatch hat

theorem parent_eq_some {j p : ℕ} :
    parent s j = some p ↔ ∃ row, s.rows[j]? = some row ∧ row.rotatedFrom = some p := by
  unfold parent
  rw [Option.bind_eq_some_iff]

/-- What was rotated from a session, by any chain, is of its family and its subject. -/
theorem Kept.below {spare : Option ℕ} {k j : ℕ} {row : SessionRow} (h : Kept s)
    (hk : s.rows[k]? = some row) (hbelow : Descends (parent s) spare k j) :
    ∃ other, s.rows[j]? = some other ∧ other.family = row.family ∧
      other.subject = row.subject := by
  refine hbelow.inherits (R := fun j => ∃ other, s.rows[j]? = some other ∧
    other.family = row.family ∧ other.subject = row.subject) (fun c p hparent hp => ?_)
    ⟨row, hk, rfl, rfl⟩
  obtain ⟨child, hc, hfrom⟩ := (parent_eq_some).mp hparent
  obtain ⟨old, hold, hfamily, hsubject, -⟩ := h.rotated c child p hc hfrom
  obtain ⟨other, hother, hfamily', hsubject'⟩ := hp
  obtain rfl := Option.some.inj (hold.symm.trans hother)
  exact ⟨child, hc, hfamily.symm.trans hfamily', hsubject.symm.trans hsubject'⟩

/-! ## Steps that end sessions, or none -/

/-- The rows of `s'` are those of `s`, or what has become of them. -/
structure Same (s s' : State) : Prop where
  length : s'.rows.length = s.rows.length
  next : ∀ (k : ℕ) (row : SessionRow), s.rows[k]? = some row →
    ∃ row', s'.rows[k]? = some row' ∧ row.Next row' ∧
      (row.supersededAt ≠ none → row'.supersededAt ≠ none)

theorem Same.old (h : Same s s') {k : ℕ} {row' : SessionRow} (hk' : s'.rows[k]? = some row') :
    ∃ row, s.rows[k]? = some row ∧ row.Next row' ∧
      (row.supersededAt ≠ none → row'.supersededAt ≠ none) := by
  obtain ⟨hlt, -⟩ := List.getElem?_eq_some_iff.mp hk'
  obtain ⟨row'', hk'', hnext⟩ := h.next k _ (List.getElem?_eq_getElem (h.length ▸ hlt))
  obtain rfl := Option.some.inj (hk'.symm.trans hk'')
  exact ⟨_, List.getElem?_eq_getElem (h.length ▸ hlt), hnext⟩

theorem Same.parent (h : Same s s') : parent s' = parent s := by
  funext j
  refine Option.ext fun p => ?_
  rw [parent_eq_some, parent_eq_some]
  constructor
  · rintro ⟨row', hk', hfrom⟩
    obtain ⟨row, hk, hnext, -⟩ := h.old hk'
    exact ⟨row, hk, hnext.rotatedFrom ▸ hfrom⟩
  · rintro ⟨row, hk, hfrom⟩
    obtain ⟨row', hk', hnext, -⟩ := h.next j row hk
    exact ⟨row', hk', hnext.rotatedFrom.trans hfrom⟩

theorem Same.live {k : ℕ} (h : Same s s') (hlive : s'.liveAt k = true) : s.liveAt k = true := by
  obtain ⟨row', hk', hrow'⟩ := liveAt_iff.mp hlive
  obtain ⟨row, hk, hnext, -⟩ := h.old hk'
  exact liveAt_iff.mpr ⟨row, hk, hnext.live hrow'⟩

theorem Found.same {cause : Revocation} {found : List ℕ} (h : Found s cause found)
    (hsame : Same s s') : Found s' cause found where
  covered k hk := by
    obtain ⟨row, hrow, hcovers⟩ := h.covered k hk
    obtain ⟨row', hrow', hnext, -⟩ := hsame.next k row hrow
    refine ⟨row', hrow', ?_⟩
    cases cause <;> simpa only [Revocation.covers, hnext.family, hnext.subject] using hcovers
  below k hk j hbelow hlive := h.below k hk j (hsame.parent ▸ hbelow) (hsame.live hlive)
  all subject password hcause j row' hj hlive hsubject := by
    obtain ⟨row, hk, hnext, -⟩ := hsame.old hj
    exact h.all subject password hcause j row hk (hnext.live hlive) (hnext.subject ▸ hsubject)

theorem Same.refl (s : State) : Same s s :=
  ⟨rfl, fun _ row hk => ⟨row, hk, SessionRow.Next.refl row, id⟩⟩

theorem Same.of_rows (h : s'.rows = s.rows) : Same s s' :=
  ⟨congrArg List.length h, fun _ row hk => ⟨row, h ▸ hk, SessionRow.Next.refl row, id⟩⟩

theorem Same.congr {t : State} (h : Same s t) (hrows : s'.rows = t.rows) : Same s s' where
  length := hrows ▸ h.length
  next k row hk := by
    rw [hrows]
    exact h.next k row hk

theorem Same.trans {s'' : State} (h : Same s s') (h' : Same s' s'') : Same s s'' where
  length := h'.length.trans h.length
  next k row hk := by
    obtain ⟨row', hk', hnext, hsuper⟩ := h.next k row hk
    obtain ⟨row'', hk'', hnext', hsuper'⟩ := h'.next k row' hk'
    exact ⟨row'', hk'', hnext.trans hnext', fun hs => hsuper' (hsuper hs)⟩

theorem Same.update {ids : List ℕ} {cond : SessionRow → Bool} {set : SessionRow → SessionRow}
    (hset : ∀ row, cond row = true → row.Next (set row) ∧
      (row.supersededAt ≠ none → (set row).supersededAt ≠ none)) :
    Same s (s.update ids cond set) where
  length := update_length
  next k row hk := by
    refine ⟨_, update_getElem?_of hk, ?_⟩
    split
    · next hboth => exact hset row hboth.2
    · exact ⟨SessionRow.Next.refl row, id⟩

/-- The revocation of `k` has reached what is below it. -/
def NewlyReached (s s' : State) : Prop :=
  ∀ (k : ℕ) (row row' : SessionRow), s.rows[k]? = some row → s'.rows[k]? = some row' →
    row.revokedAt = none → row'.revokedAt ≠ none →
    ∀ j, Descends (parent s) row'.spared k j → s'.liveAt j = false

theorem dead_of_same {k : ℕ} (h : Same s s') (hdead : s.liveAt k = false) : s'.liveAt k = false :=
  Bool.eq_false_iff.mpr fun hlive => Bool.eq_false_iff.mp hdead (h.live hlive)

/-- A turn that inserts no row. -/
theorem Kept.same (h : Kept s) (ht : Turn s i s') (hsame : Same s s')
    (hresets : ∀ (k : ℕ) (row : SessionRow), s'.rows[k]? = some row → row.live = true →
      s'.resets row.subject = s.resets row.subject)
    (hnewly : NewlyReached s s')
    (hown : ∀ cause found now, s'.stage i = .revoking cause found now → Found s cause found) :
    Kept s' where
  sound := h.sound.turn ht
  reached k row' j hk' hrevoked hbelow := by
    obtain ⟨row, hk, hnext, -⟩ := hsame.old hk'
    rw [hsame.parent] at hbelow
    by_cases hbefore : row.revokedAt = none
    · exact hnewly k row row' hk hk' hbefore hrevoked j hbelow
    · exact dead_of_same hsame (h.reached k row j hk hbefore ((hnext.revoked hbefore).2 ▸ hbelow))
  renewed k row' hk' hlive := by
    obtain ⟨row, hk, hnext, -⟩ := hsame.old hk'
    rw [hresets k row' hk' hlive, hnext.afterResets, hnext.subject]
    exact h.renewed k row hk (hnext.live hlive)
  rotated j row' p hj' hfrom := by
    obtain ⟨row, hj, hnext, -⟩ := hsame.old hj'
    obtain ⟨old, hp, hfamily, hsubject, hsuper⟩ := h.rotated j row p hj (hnext.rotatedFrom ▸ hfrom)
    obtain ⟨old', hp', hnext', hsuper'⟩ := hsame.next p old hp
    refine ⟨old', hp', ?_, ?_, hsuper' hsuper⟩
    · rw [hnext'.family, hfamily, hnext.family]
    · rw [hnext'.subject, hsubject, hnext.subject]
  found j cause found now hat := by
    by_cases hj : j = i
    · exact (hown cause found now (hj ▸ hat)).same hsame
    · exact (h.found j cause found now (ht.others j hj ▸ hat)).same hsame

/-- Rows that are left alone revoke nothing. -/
theorem newlyReached_of_rows (hrows : s'.rows = s.rows) : NewlyReached s s' := by
  intro k row row' hk hk' hstands hrevoked
  rw [hrows, hk] at hk'
  exact absurd (Option.some.inj hk' ▸ hstands) hrevoked

theorem Kept.quiet {stage : Stage} (h : Kept s) (ht : Turn s i s') (hrows : s'.rows = s.rows)
    (hresets : s'.resets = s.resets) (hat : s'.stage i = stage)
    (hown : ∀ cause found now, stage = .revoking cause found now → Found s cause found) :
    Kept s' :=
  h.same ht (Same.of_rows hrows) (fun _ _ _ _ => by rw [hresets]) (newlyReached_of_rows hrows)
    fun cause found now hrevoking => hown cause found now (hat.symm.trans hrevoking)

theorem Kept.goto {stage : Stage} (h : Kept s) (hs : stage.Sound s)
    (hown : ∀ cause found now, stage ≠ .revoking cause found now) : Kept (s.goto i stage) :=
  h.quiet (h.sound.goto hs) rfl rfl goto_stage_self fun cause found now hat =>
    absurd hat (hown cause found now)

theorem Kept.finish (h : Kept s) : Kept (s.finish i) :=
  h.quiet h.sound.finish rfl rfl finish_stage_self nofun

/-! ## Inserts -/

section Inserts

variable {t : State} {new : SessionRow}

theorem insert_rows_of (hrows : s'.rows = (t.insert new).rows) {k : ℕ} {row : SessionRow}
    (hk : t.rows[k]? = some row) : s'.rows[k]? = some row :=
  hrows ▸ insert_getElem? hk

/-- The new row joins the forest of the sessions. -/
theorem joins_insert (h : Kept s) (hsame : Same s t) (hrows : s'.rows = (t.insert new).rows)
    (hfrom : new.rotatedFrom ≠ some s.rows.length) :
    Joins (parent s) (parent s') s.rows.length where
  others j hj := by
    rw [← hsame.parent]
    unfold parent
    congr 1
    rw [hrows]
    cases hk : t.rows[j]? with
    | some row => exact insert_getElem? hk
    | none =>
      cases hk' : (t.insert new).rows[j]? with
      | none => rfl
      | some row =>
        obtain hold | ⟨hlast, -⟩ := of_insert hk'
        · rw [hk] at hold
          cases hold
        · exact absurd (hlast.trans hsame.length) hj
  leaf j hparent := by
    obtain ⟨row, hj, hfrom'⟩ := (parent_eq_some).mp hparent
    rw [hrows] at hj
    obtain hold | ⟨-, rfl⟩ := of_insert hj
    · obtain ⟨before, hbefore, hnext, -⟩ := hsame.old hold
      obtain ⟨old, hp, -⟩ := h.rotated j before _ hbefore (hnext.rotatedFrom ▸ hfrom')
      obtain ⟨hlt, -⟩ := List.getElem?_eq_some_iff.mp hp
      exact Nat.lt_irrefl _ hlt
    · exact hfrom hfrom'

/-- A row behind an insert is what became of an old one, or is the new one. -/
theorem of_joined (hsame : Same s t) (hrows : s'.rows = (t.insert new).rows) {k : ℕ}
    {row' : SessionRow} (hk' : s'.rows[k]? = some row') :
    (∃ row, s.rows[k]? = some row ∧ t.rows[k]? = some row' ∧ row.Next row' ∧
      k ≠ s.rows.length) ∨ k = s.rows.length ∧ row' = new := by
  rw [hrows] at hk'
  obtain hold | ⟨hlast, hnew⟩ := of_insert hk'
  · obtain ⟨row, hk, hnext, -⟩ := hsame.old hold
    obtain ⟨hlt, -⟩ := List.getElem?_eq_some_iff.mp hk
    exact .inl ⟨row, hk, hold, hnext, Nat.ne_of_lt hlt⟩
  · exact .inr ⟨hlast.trans hsame.length, hnew⟩

/-- A session that is live behind an insert was live before it, or is the new one. -/
theorem live_of_joined (hsame : Same s t) (hrows : s'.rows = (t.insert new).rows) {j : ℕ}
    (hlive : s'.liveAt j = true) : t.liveAt j = true ∧ s.liveAt j = true ∨ j = s.rows.length := by
  obtain ⟨row', hj', hrow'⟩ := liveAt_iff.mp hlive
  obtain ⟨row, -, hold, -, -⟩ | ⟨hlast, -⟩ := of_joined hsame hrows hj'
  · have htlive : t.liveAt j = true := liveAt_iff.mpr ⟨row', hold, hrow'⟩
    exact .inl ⟨htlive, hsame.live htlive⟩
  · exact .inr hlast

/-- What a revocation has found it still has, behind an insert that is below none of it. -/
theorem Found.joined {cause : Revocation} {found : List ℕ} (h : Found s cause found)
    (hsame : Same s t) (hrows : s'.rows = (t.insert new).rows)
    (hjoins : Joins (parent s) (parent s') s.rows.length)
    (hbelow : ∀ p, new.rotatedFrom = some p → s.liveAt p = true ∧ p ∉ found)
    (hall : ∀ subject password, cause = .reset subject password → new.subject ≠ subject) :
    Found s' cause found where
  covered k hk := by
    obtain ⟨row, hrow, hcovers⟩ := (h.same hsame).covered k hk
    exact ⟨row, insert_rows_of hrows hrow, hcovers⟩
  below k hk j hdescends hlive := by
    have hne : k ≠ s.rows.length := by
      obtain ⟨row, hrow, -⟩ := h.covered k hk
      obtain ⟨hlt, -⟩ := List.getElem?_eq_some_iff.mp hrow
      exact Nat.ne_of_lt hlt
    obtain ⟨-, hold⟩ | rfl := live_of_joined hsame hrows hlive
    · have hj : j ≠ s.rows.length := by
        obtain ⟨row, hrow, -⟩ := liveAt_iff.mp hold
        obtain ⟨hlt, -⟩ := List.getElem?_eq_some_iff.mp hrow
        exact Nat.ne_of_lt hlt
      exact h.below k hk j (hjoins.descends_old hdescends hj) hold
    · obtain ⟨-, p, hparent, hdescends'⟩ := hjoins.descends_new hdescends hne
      obtain ⟨row, hrow, hfrom⟩ := (parent_eq_some).mp hparent
      obtain ⟨-, -, -, -, hnot⟩ | ⟨-, rfl⟩ := of_joined hsame hrows hrow
      · exact absurd rfl hnot
      · obtain ⟨hplive, hpfound⟩ := hbelow p hfrom
        exact absurd (h.below k hk p hdescends' hplive) hpfound
  all subject password hcause j row' hj hlive hsubject := by
    obtain ⟨row, hk, -, hnext, -⟩ | ⟨-, rfl⟩ := of_joined hsame hrows hj
    · exact h.all subject password hcause j row hk (hnext.live hlive) (hnext.subject ▸ hsubject)
    · exact absurd hsubject (hall subject password hcause)

/-- A turn that inserts a row: below a session that is live and not found, or below none. -/
theorem Kept.joined (h : Kept s) (ht : Turn s i s') (hsame : Same s t)
    (hrows : s'.rows = (t.insert new).rows) (hresets : s'.resets = s.resets)
    (hstands : new.revokedAt = none) (hafter : new.afterResets = s.resets new.subject)
    (hfrom : ∀ p, new.rotatedFrom = some p → s.liveAt p = true ∧ ∃ old, t.rows[p]? = some old ∧
      old.family = new.family ∧ old.subject = new.subject ∧ old.supersededAt ≠ none)
    (hnewly : ∀ (k : ℕ) (row row' : SessionRow), s.rows[k]? = some row → t.rows[k]? = some row' →
      row.revokedAt = none → row'.revokedAt ≠ none → row'.spared = some s.rows.length ∧
        ∀ j, Descends (parent s) none k j → t.liveAt j = false)
    (hfound : ∀ j cause found now, j ≠ i → s.stage j = .revoking cause found now →
      (∀ p, new.rotatedFrom = some p → p ∉ found) ∧
        ∀ subject password, cause = .reset subject password → new.subject ≠ subject)
    (hidle : s'.stage i = .idle) : Kept s' := by
  have hlast : new.rotatedFrom ≠ some s.rows.length := by
    intro hnew
    obtain ⟨-, old, hold, -⟩ := hfrom _ hnew
    obtain ⟨hlt, -⟩ := List.getElem?_eq_some_iff.mp hold
    exact Nat.ne_of_lt hlt hsame.length.symm
  have hjoins := joins_insert h hsame hrows hlast
  constructor
  case sound => exact h.sound.turn ht
  case reached =>
    intro k row' j hk' hrevoked hbelow
    obtain ⟨row, hk, htk, hnext, hne⟩ | ⟨-, rfl⟩ := of_joined hsame hrows hk'
    · refine Bool.eq_false_iff.mpr fun hlive => ?_
      obtain ⟨htlive, hslive⟩ | rfl := live_of_joined hsame hrows hlive
      · have hj : j ≠ s.rows.length := by
          obtain ⟨held, hheld, -⟩ := liveAt_iff.mp hslive
          obtain ⟨hlt, -⟩ := List.getElem?_eq_some_iff.mp hheld
          exact Nat.ne_of_lt hlt
        have hold := hjoins.descends_old hbelow hj
        by_cases hbefore : row.revokedAt = none
        · obtain ⟨-, hdead⟩ := hnewly k row row' hk htk hbefore hrevoked
          exact Bool.eq_false_iff.mp (hdead j hold.unspared) htlive
        · rw [(hnext.revoked hbefore).2] at hold
          exact Bool.eq_false_iff.mp (h.reached k row j hk hbefore hold) hslive
      · obtain ⟨hspare, p, hparent, hdescends⟩ := hjoins.descends_new hbelow hne
        by_cases hbefore : row.revokedAt = none
        · exact hspare (hnewly k row row' hk htk hbefore hrevoked).1
        · obtain ⟨child, hchild, hchildFrom⟩ := (parent_eq_some).mp hparent
          obtain ⟨-, -, -, -, hnot⟩ | ⟨-, rfl⟩ := of_joined hsame hrows hchild
          · exact hnot rfl
          · rw [(hnext.revoked hbefore).2] at hdescends
            have hdead := h.reached k row p hk hbefore hdescends
            exact Bool.eq_false_iff.mp hdead (hfrom p hchildFrom).1
    · exact absurd hstands hrevoked
  case renewed =>
    intro k row' hk' hlive
    rw [hresets]
    obtain ⟨row, hk, -, hnext, -⟩ | ⟨-, rfl⟩ := of_joined hsame hrows hk'
    · rw [hnext.afterResets, hnext.subject]
      exact h.renewed k row hk (hnext.live hlive)
    · exact hafter
  case rotated =>
    intro j row' p hj' hrotated
    obtain ⟨row, hj, -, hnext, -⟩ | ⟨-, rfl⟩ := of_joined hsame hrows hj'
    · obtain ⟨old, hp, hfamily, hsubject, hsuper⟩ :=
        h.rotated j row p hj (hnext.rotatedFrom ▸ hrotated)
      obtain ⟨old', hp', hnext', hsuper'⟩ := hsame.next p old hp
      refine ⟨old', insert_rows_of hrows hp', ?_, ?_, hsuper' hsuper⟩
      · rw [hnext'.family, hfamily, hnext.family]
      · rw [hnext'.subject, hsubject, hnext.subject]
    · obtain ⟨-, old, hold, hnames⟩ := hfrom p hrotated
      exact ⟨old, insert_rows_of hrows hold, hnames⟩
  case found =>
    intro j cause found now hat
    by_cases hj : j = i
    · rw [hj, hidle] at hat
      cases hat
    · rw [ht.others j hj] at hat
      obtain ⟨hnot, hall⟩ := hfound j cause found now hj hat
      exact (h.found j cause found now hat).joined hsame hrows hjoins
        (fun p hp => ⟨(hfrom p hp).1, hnot p hp⟩) hall

end Inserts

/-! ## Each transition -/

section Transitions

variable {verified : VerifiedSession} {now : ℕ}

theorem same_superseded : Same s (s.superseded verified.sessionId now) :=
  Same.update fun _ hlive => ⟨next_supersede _ hlive, fun _ => Option.some_ne_none _⟩

theorem same_revokeAll {cause : Revocation} {found : List ℕ} {spare : Option ℕ} :
    Same s (s.revokeAll cause found now spare) :=
  Same.update fun _ hcond => ⟨next_revoke _ _ (of_decide_eq_true hcond).1, id⟩

/-- The session that a rotation supersedes is what its successor is rotated from. -/
theorem superseded_names {mfaVerifiedAt : Option ℕ} (hc : Carried s verified now)
    (hlive : s.liveAt verified.sessionId = true) : ∃ old,
      (s.superseded verified.sessionId now).rows[verified.sessionId]? = some old ∧
        old.family = (verified.successor mfaVerifiedAt now).family ∧
        old.subject = (verified.successor mfaVerifiedAt now).subject ∧ old.supersededAt ≠ none := by
  obtain ⟨row, hk, hholds⟩ := hc.row
  obtain ⟨row', hk', hrow⟩ := liveAt_iff.mp hlive
  obtain rfl := Option.some.inj (hk.symm.trans hk')
  refine ⟨row.supersede now, ?_, hholds.family, hholds.subject, Option.some_ne_none _⟩
  rw [update_getElem?_of hk, if_pos ⟨List.mem_singleton_self _, hrow⟩]

/-- A successor stands on the password of the session it supersedes. -/
theorem successor_after {mfaVerifiedAt : Option ℕ} (h : Kept s) (hc : Carried s verified now)
    (hlive : s.liveAt verified.sessionId = true) :
    (verified.successor mfaVerifiedAt now).afterResets =
      s.resets (verified.successor mfaVerifiedAt now).subject := by
  obtain ⟨row, hk, hholds⟩ := hc.row
  obtain ⟨row', hk', hrow⟩ := liveAt_iff.mp hlive
  obtain rfl := Option.some.inj (hk.symm.trans hk')
  have hrenewed := h.renewed _ row hk hrow
  rw [hholds.afterResets, hholds.subject] at hrenewed
  exact hrenewed

/-- A rotation is below no revocation that has still to commit, and no reset has found all of the
subject's sessions but it. -/
theorem unfound_successor {mfaVerifiedAt : Option ℕ} (h : Kept s) (hc : Carried s verified now)
    (hlive : s.liveAt verified.sessionId = true) (hunfound : Unfound s i verified.sessionId)
    (j : ℕ) (cause : Revocation) (found : List ℕ) (taken : ℕ) (hj : j ≠ i)
    (hat : s.stage j = .revoking cause found taken) :
    (∀ p, (verified.successor mfaVerifiedAt now).rotatedFrom = some p → p ∉ found) ∧
      ∀ subject password, cause = .reset subject password →
        (verified.successor mfaVerifiedAt now).subject ≠ subject := by
  have hnot : verified.sessionId ∉ found := hunfound j cause found taken hj hat
  constructor
  · intro p hp
    obtain rfl := Option.some.inj hp
    exact hnot
  · rintro subject password hcause rfl
    obtain ⟨row, hk, hholds⟩ := hc.row
    obtain ⟨row', hk', hrow⟩ := liveAt_iff.mp hlive
    obtain rfl := Option.some.inj (hk.symm.trans hk')
    exact hnot ((h.found j cause found taken hat).all _ password hcause _ row hk hrow hholds.subject)

theorem rotate_kept {mfaVerifiedAt : Option ℕ} (h : Kept s) (hc : Carried s verified now)
    (hunfound : Unfound s i verified.sessionId) :
    Kept (s.rotate i verified mfaVerifiedAt now) := by
  have ht : Turn s i (s.rotate i verified mfaVerifiedAt now) := rotate_turn h.sound hc
  unfold State.rotate at ht ⊢
  split at ht
  next hlive =>
    rw [if_pos hlive]
    refine h.joined ht same_superseded rfl rfl rfl (successor_after h hc hlive) (fun p hp => ?_)
      (fun k row row' hk hk' hstands hrevoked => ?_) (unfound_successor h hc hlive hunfound)
      finish_stage_self
    · obtain rfl := Option.some.inj hp
      exact ⟨hlive, superseded_names hc hlive⟩
    · obtain ⟨old, hold, hset⟩ := of_update hk'
      obtain rfl := Option.some.inj (hk.symm.trans hold)
      obtain ⟨-, -, rfl⟩ | ⟨-, rfl⟩ := hset <;> exact absurd hstands hrevoked
  next hdead =>
    rw [if_neg hdead]
    exact h.finish

theorem issue_kept {subject : Subject} {switchOn : Bool} {resets cuts : ℕ} (h : Kept s)
    (hnow : now ≤ s.now) (hsettled : SettledAt s i (.issuing subject switchOn now resets cuts)) :
    Kept (s.issue i subject switchOn now resets) := by
  refine h.joined (issue_turn h.sound hnow) (Same.refl s) rfl rfl rfl hsettled.1
    (fun p hp => nomatch hp) (fun k row row' hk hk' hstands hrevoked => ?_)
    (fun j cause found taken _ hat => ⟨(fun p hp => nomatch hp), ?_⟩) finish_stage_self
  · rw [hk] at hk'
    exact absurd (Option.some.inj hk' ▸ hstands) hrevoked
  · rintro subject' password rfl rfl
    exact hsettled.2 j password found taken hat

/-- What is live behind the update of a revocation was not found. -/
theorem revokeAll_dead {cause : Revocation} {found : List ℕ} {spare : Option ℕ} {j : ℕ}
    (hfound : Found s cause found) (hj : j ∈ found) :
    (s.revokeAll cause found now spare).liveAt j = false := by
  refine Bool.eq_false_iff.mpr fun hlive => ?_
  obtain ⟨row', hj', hrow'⟩ := liveAt_iff.mp hlive
  obtain ⟨row, hk, ⟨-, -, rfl⟩ | ⟨hnot, rfl⟩⟩ := of_update hj'
  · exact Option.some_ne_none _ (SessionRow.live_iff.mp hrow').1
  · obtain ⟨held, hheld, hcovers⟩ := hfound.covered j hj
    obtain rfl := Option.some.inj (hk.symm.trans hheld)
    exact hnot ⟨hj, decide_eq_true ⟨(SessionRow.live_iff.mp hrow').1, hcovers⟩⟩

/-- The update of a revocation has reached whatever is below what it has found. -/
theorem revokeAll_reaches {cause : Revocation} {found : List ℕ} {spare : Option ℕ} {k j : ℕ}
    (hfound : Found s cause found) (hk : k ∈ found) (hbelow : Descends (parent s) none k j) :
    (s.revokeAll cause found now spare).liveAt j = false := by
  refine Bool.eq_false_iff.mpr fun hlive => ?_
  have hj : j ∈ found := hfound.below k hk j hbelow (same_revokeAll.live hlive)
  exact Bool.eq_false_iff.mp (revokeAll_dead hfound hj) hlive

/-- What the update of a revocation ends it has found, and it spares what it means to. -/
theorem revokeAll_newly {cause : Revocation} {found : List ℕ} {spare : Option ℕ} {k : ℕ}
    {row row' : SessionRow} (hk : s.rows[k]? = some row)
    (hk' : (s.revokeAll cause found now spare).rows[k]? = some row') (hstands : row.revokedAt = none)
    (hrevoked : row'.revokedAt ≠ none) : k ∈ found ∧ row'.spared = spare := by
  obtain ⟨old, hold, hset⟩ := of_update hk'
  obtain rfl := Option.some.inj (hk.symm.trans hold)
  obtain ⟨hids, -, rfl⟩ | ⟨-, rfl⟩ := hset
  · exact ⟨hids, rfl⟩
  · exact absurd hstands hrevoked

theorem revoke_kept {cause : Revocation} {found : List ℕ} (h : Kept s)
    (hat : s.stage i = .revoking cause found now) (hsound : cause.Sound s now)
    (hsettled : SettledAt s i (.revoking cause found now)) :
    Kept (s.revoke i cause found now) := by
  have hfound : Found s cause found := h.found i cause found now hat
  have ht : Turn s i (s.revoke i cause found now) := revoke_turn h.sound hsound
  have hreached : NewlyReached s (s.revokeAll cause found now none) := by
    intro k row row' hk hk' hstands hrevoked j hbelow
    obtain ⟨hids, hspared⟩ := revokeAll_newly hk hk' hstands hrevoked
    exact revokeAll_reaches hfound hids (hspared ▸ hbelow)
  cases cause with
  | ofFamily family =>
    exact h.same ht (same_revokeAll.congr rfl) (fun _ _ _ _ => rfl) hreached
      fun _ _ _ hrevoking => nomatch (finish_stage_self.symm.trans hrevoking)
  | everywhere subject =>
    exact h.same ht (same_revokeAll.congr rfl) (fun _ _ _ _ => rfl) hreached
      fun _ _ _ hrevoking => nomatch (finish_stage_self.symm.trans hrevoking)
  | reset subject password =>
    refine h.same ht (same_revokeAll.congr rfl) (fun k row' hk' hlive => ?_) hreached
      fun _ _ _ hrevoking => nomatch (finish_stage_self.symm.trans hrevoking)
    refine Function.update_of_ne (fun hsubject => ?_) _ _
    have hat' : (s.revokeAll (.reset subject password) found now none).liveAt k = true :=
      liveAt_iff.mpr ⟨row', hk', hlive⟩
    obtain ⟨row, hk, hnext, -⟩ := same_revokeAll.old hk'
    have hids : k ∈ found := hfound.all subject password rfl k row hk (hnext.live hlive)
      (hnext.subject.symm.trans hsubject)
    exact Bool.eq_false_iff.mp (revokeAll_dead hfound hids) hat'
  | change session password =>
    simp only [State.revoke] at ht ⊢
    split at ht
    next hlive =>
      rw [if_pos hlive]
      have hfound' : Found (s.superseded session.sessionId now) (.change session password) found :=
        hfound.same same_superseded
      refine h.joined ht ((same_superseded).trans same_revokeAll) rfl rfl rfl
        (successor_after h hsound hlive) (fun p hp => ?_)
        (fun k row row' hk hk' hstands hrevoked => ?_)
        (unfound_successor h hsound hlive hsettled) finish_stage_self
      · obtain rfl := Option.some.inj hp
        obtain ⟨old, hold, hfamily, hsubject, hsuper⟩ := superseded_names hsound hlive
        obtain ⟨old', hold', hnext, hsuper'⟩ := same_revokeAll.next _ old hold
        exact ⟨hlive, old', hold', hnext.family.trans hfamily, hnext.subject.trans hsubject,
          hsuper' hsuper⟩
      · obtain ⟨mid, hmid, hset⟩ := same_revokeAll.old hk'
        have hmidStands : mid.revokedAt = none := by
          obtain ⟨old, hold, hset⟩ := of_update hmid
          obtain rfl := Option.some.inj (hk.symm.trans hold)
          obtain ⟨-, -, rfl⟩ | ⟨-, rfl⟩ := hset <;> exact hstands
        obtain ⟨hids, hspared⟩ := revokeAll_newly hmid hk' hmidStands hrevoked
        refine ⟨hspared, fun j hbelow => revokeAll_reaches hfound' hids ?_⟩
        rw [same_superseded.parent]
        exact hbelow
    next hdead =>
      rw [if_neg hdead]
      exact h.finish

/-- A sign-out reaches what was rotated from the session, when that is its family's last. -/
theorem signOut_kept (h : Kept s) (hc : Carried s verified s.now)
    (hlast : Last s verified.sessionId) : Kept (s.request i verified .signOut) := by
  have ht : Turn s i (s.request i verified .signOut) := request_turn h.sound hc .signOut
  have hsame : Same s (s.update [verified.sessionId] (·.revokedAt = none) (·.revoke s.now none)) :=
    Same.update fun _ hcond => ⟨next_revoke _ _ (of_decide_eq_true hcond), id⟩
  refine h.same ht (hsame.congr rfl) (fun _ _ _ _ => rfl) ?_
    fun _ _ _ hrevoking => nomatch (finish_stage_self.symm.trans hrevoking)
  intro k row row' hk hk' hstands hrevoked j hbelow
  obtain ⟨old, hold, hset⟩ := of_update hk'
  obtain rfl := Option.some.inj (hk.symm.trans hold)
  obtain ⟨hids, -, rfl⟩ | ⟨-, rfl⟩ := hset
  · obtain rfl := List.mem_singleton.mp hids
    refine Bool.eq_false_iff.mpr fun hlive => ?_
    obtain ⟨after, hj', hafter⟩ := liveAt_iff.mp hlive
    obtain ⟨other, hj, hfamily, -⟩ := h.below hk hbelow
    obtain ⟨other', hother', hset⟩ := of_update hj'
    obtain rfl := Option.some.inj (hj.symm.trans hother')
    obtain ⟨-, -, rfl⟩ | ⟨hnot, rfl⟩ := hset
    · exact Option.some_ne_none _ (SessionRow.live_iff.mp hafter).1
    by_cases hsuper : row.supersededAt = none
    · obtain rfl | ⟨child, hchild⟩ := hbelow.eq_or_child
      · exact hnot ⟨List.mem_singleton_self _, decide_eq_true (SessionRow.live_iff.mp hafter).1⟩
      · obtain ⟨childRow, hchildAt, hchildFrom⟩ := (parent_eq_some).mp hchild
        obtain ⟨held, hheld, -, -, hsuperseded⟩ := h.rotated child childRow _ hchildAt hchildFrom
        obtain rfl := Option.some.inj (hk.symm.trans hheld)
        exact hsuperseded hsuper
    · exact Bool.eq_false_iff.mp (hlast row hk hstands hsuper j _ hj hfamily) hafter
  · exact absurd hstands hrevoked

theorem read_kept {no token : ℕ} (h : Kept s) (hno : no < s.begun) (hnow : now ≤ s.now) :
    Kept (s.read i no token now) := by
  unfold State.read
  split
  · exact h.finish
  next row hk =>
  split
  · exact h.goto trivial nofun
  next hsuperseded =>
  split
  · exact h.finish
  next hrevoked =>
  have hlive : row.live = true :=
    SessionRow.live_iff.mpr ⟨not_not.mp hrevoked, not_not.mp hsuperseded⟩
  exact h.goto ⟨hno, reading_sound h.sound.tidy hk hlive hnow⟩ nofun

theorem decideOn_kept {no : ℕ} {reading : Reading} (h : Kept s) (hno : no < s.begun)
    (hreading : reading.Sound s) : Kept (s.decideOn i no reading) := by
  have ht : Turn s i (s.decideOn i no reading) := decideOn_turn h.sound hno hreading
  unfold State.decideOn at ht ⊢
  dsimp only at ht ⊢
  split
  · exact h.finish
  next verified hverdict =>
    rw [hverdict] at ht
    refine h.quiet ht rfl rfl goto_stage_self fun cause found now hat => ?_
    split at hat <;> cases hat

/-- An update of bounds revokes nothing. -/
theorem Kept.bounds {ids : List ℕ} {cond : SessionRow → Bool} {set : SessionRow → SessionRow}
    {stage : Stage} (h : Kept s) (ht : Turn s i s')
    (hset : ∀ row, cond row = true → row.Next (set row) ∧
      (row.supersededAt ≠ none → (set row).supersededAt ≠ none))
    (hstands : ∀ row, (set row).revokedAt = row.revokedAt)
    (hrows : s'.rows = (s.update ids cond set).rows) (hresets : s'.resets = s.resets)
    (hat : s'.stage i = stage) (hown : ∀ cause found now, stage ≠ .revoking cause found now) :
    Kept s' := by
  refine h.same ht ((Same.update hset).congr hrows) (fun _ _ _ _ => by rw [hresets]) ?_
    fun cause found now hrevoking => absurd (hat.symm.trans hrevoking) (hown cause found now)
  intro k row row' hk hk' hbefore hrevoked
  rw [hrows] at hk'
  obtain ⟨old, hold, ⟨-, -, rfl⟩ | ⟨-, rfl⟩⟩ := of_update hk'
  · obtain rfl := Option.some.inj (hk.symm.trans hold)
    exact absurd (hstands row ▸ hbefore) hrevoked
  · obtain rfl := Option.some.inj (hk.symm.trans hold)
    exact absurd hbefore hrevoked

theorem slide_kept (h : Kept s) (hc : Carried s verified s.now) :
    Kept (s.slide i verified now) :=
  h.bounds (slide_turn h.sound hc) (fun _ _ => ⟨next_slide _ _, id⟩) (fun _ => rfl) rfl rfl
    goto_stage_self nofun

theorem shorten_kept {operator : ℕ} {found : List ℕ} {changed : Bool} (h : Kept s) :
    Kept (s.shorten i operator found changed) :=
  h.bounds (shorten_turn h.sound) (fun _ _ => ⟨next_shorten _, id⟩) (fun _ => rfl) rfl rfl
    finish_stage_self nofun

theorem lengthen_kept {changed : Bool} (h : Kept s) :
    Kept (s.lengthen i verified changed now) := by
  have ht : Turn s i (s.lengthen i verified changed now) := lengthen_turn h.sound
  unfold State.lengthen at ht ⊢
  split at ht
  · exact h.finish
  next row hk =>
  split at ht
  next hlive =>
    rw [if_pos hlive]
    exact h.bounds ht (fun _ _ => ⟨next_lengthen _ _, id⟩) (fun _ => rfl) rfl rfl
      finish_stage_self nofun
  next hdead =>
    rw [if_neg hdead]
    exact h.finish

theorem writeSwitch_kept {operator : ℕ} {on : Bool} {next : Bool → Stage} (h : Kept s)
    (hsound : ∀ changed, (next changed).Sound s)
    (hown : ∀ changed cause found now, next changed ≠ .revoking cause found now) :
    Kept (s.writeSwitch i operator on next) := by
  have ht : Turn s i (s.writeSwitch i operator on next) := writeSwitch_turn h.sound hsound
  unfold State.writeSwitch at ht ⊢
  split at ht
  next hsame =>
    rw [if_pos hsame]
    exact h.goto (hsound false) (hown false)
  next hother =>
  rw [if_neg hother]
  split at ht
  next hfree =>
    rw [if_pos hfree]
    exact h.quiet ht rfl rfl goto_stage_self fun cause found now hat =>
      absurd hat (hown true cause found now)
  next hheld =>
    rw [if_neg hheld]
    exact h

theorem storePassword_kept {cause : Revocation} (h : Kept s) (hsound : cause.Sound s now) :
    Kept (s.storePassword i cause now) := by
  have ht : Turn s i (s.storePassword i cause now) := storePassword_turn h.sound hsound
  unfold State.storePassword at ht ⊢
  split at ht
  next hnone => exact h.goto hsound nofun
  next subject password hstores =>
  split at ht
  next hfree =>
    rw [if_pos hfree]
    exact h.quiet ht rfl rfl goto_stage_self nofun
  next hheld =>
    rw [if_neg hheld]
    exact h

/-- A revocation finds every live session that is below one it finds. -/
theorem found_found {cause : Revocation} (h : Kept s) :
    Found s cause (s.found (State.revocable cause)) where
  covered k hk := by
    obtain ⟨row, hrow, hcond⟩ := mem_found.mp hk
    exact ⟨row, hrow, (of_decide_eq_true hcond).2⟩
  below k hk j hbelow hlive := by
    obtain ⟨row, hrow, hcond⟩ := mem_found.mp hk
    obtain ⟨other, hj, hfamily, hsubject⟩ := h.below hrow hbelow
    obtain ⟨other', hj', hother⟩ := liveAt_iff.mp hlive
    obtain rfl := Option.some.inj (hj.symm.trans hj')
    refine mem_found.mpr ⟨other, hj, decide_eq_true ⟨(SessionRow.live_iff.mp hother).1, ?_⟩⟩
    have hcovers : cause.covers row = true := (of_decide_eq_true hcond).2
    cases cause <;> simpa only [Revocation.covers, hfamily, hsubject] using hcovers
  all subject password hcause j row hj hlive hsubject := by
    subst hcause
    refine mem_found.mpr ⟨row, hj, decide_eq_true ⟨(SessionRow.live_iff.mp hlive).1, ?_⟩⟩
    exact decide_eq_true hsubject

end Transitions

theorem advance_kept (h : Kept s) (i : ℕ) (hsettled : SettledAt s i (s.stage i)) :
    Kept (s.advance i) := by
  have hsound := h.sound.stage i
  unfold State.advance
  cases hat : s.stage i <;> rw [hat] at hsound hsettled
  case idle => exact h
  case presented => exact read_kept h hsound.1 hsound.2
  case read => exact decideOn_kept h hsound.1 hsound.2
  case sliding => exact slide_kept h hsound.2.2
  case verified => exact h.finish
  case rotating => exact rotate_kept h hsound hsettled
  case signingIn =>
    dsimp only
    split
    · exact h.goto hsound nofun
    · exact h.finish
  case proved => exact h.goto hsound nofun
  case issuing => exact issue_kept h hsound hsettled
  case changing =>
    dsimp only
    split
    · exact h.goto hsound nofun
    · exact h.finish
  case storing => exact storePassword_kept h hsound
  case toRevoke cause now =>
    refine h.quiet (h.sound.goto hsound) rfl rfl goto_stage_self fun cause' found now' hrevoking => ?_
    cases hrevoking
    exact found_found h
  case revoking => exact revoke_kept h hat hsound hsettled
  case switching verified on now =>
    cases on with
    | true => exact writeSwitch_kept h (fun _ => hsound) nofun
    | false => exact writeSwitch_kept h (fun _ => trivial) nofun
  case lengthening => exact lengthen_kept h
  case switchingOff => exact writeSwitch_kept h (fun _ => trivial) nofun
  case toShorten => exact h.goto trivial nofun
  case shortening => exact shorten_kept h

/-- **A step that overlaps no revocation keeps what the revocations have reached.** -/
theorem Kept.step (h : Kept s) (action : Action) (hsettled : Settled s action) :
    Kept (step s action) := by
  cases action with
  | wait span =>
    exact ⟨h.sound.step (.wait span), h.reached, h.renewed, h.rotated,
      fun j cause found now hat => (h.found j cause found now hat).same (Same.of_rows rfl)⟩
  | present i token =>
    simp only [Sessions.step]
    split
    · exact h.quiet (present_turn h.sound) rfl rfl goto_stage_self (by rintro _ _ _ ⟨⟩)
    · exact h
  | signIn i subject password =>
    simp only [Sessions.step]
    split
    · exact h.goto (Nat.le_refl _) (by rintro _ _ _ ⟨⟩)
    · exact h
  | confirmReset i subject password =>
    simp only [Sessions.step]
    split
    · exact h.goto trivial (by rintro _ _ _ ⟨⟩)
    · exact h
  | switchOff i operator =>
    simp only [Sessions.step]
    split
    · exact h.goto trivial (by rintro _ _ _ ⟨⟩)
    · exact h
  | request i call =>
    simp only [Sessions.step]
    split
    · next verified hat =>
      have hsound := h.sound.stage i
      rw [hat] at hsound
      cases call with
      | refresh => exact h.goto hsound (by rintro _ _ _ ⟨⟩)
      | completeFactor => exact h.goto hsound (by rintro _ _ _ ⟨⟩)
      | signOut => exact signOut_kept h hsound (hsettled verified hat)
      | signOutEverywhere => exact h.goto trivial (by rintro _ _ _ ⟨⟩)
      | changePassword current new => exact h.goto hsound (by rintro _ _ _ ⟨⟩)
      | setOwn on =>
        simp only [State.request]
        split
        · exact h.goto hsound (by rintro _ _ _ ⟨⟩)
        · exact h.finish
    · exact h
  | advance i => exact advance_kept h i hsettled
  | fail i => exact h.finish

/-! ## The claims of a run -/

/-- A session that has ended is past every bound, and not let in again. -/
theorem out_of_dead {k : ℕ} (hs : Sound s) (hcounted : Counted s) (hk : k < s.rows.length)
    (hdead : s.liveAt k = false) : Out s k := by
  have hrow : s.rows[k]? = some s.rows[k] := List.getElem?_eq_getElem hk
  have hgone : Gone k s.begun s.now s :=
    { now := Nat.le_refl _
      begun := Nat.le_refl _
      row := ⟨s.rows[k], hrow, fun hlive => absurd (liveAt_iff.mpr ⟨_, hrow, hlive⟩)
        (Bool.eq_false_iff.mp hdead)⟩
      stage := fun i => gone_of_earlier fun _ hvisit => visit_lt_begun hs hvisit
      admitted := fun admission hmem _ => hcounted admission hmem }
  intro later
  have hend := @Run.foldl_inv _ _ step
    (fun t => Sound t ∧ t.liveAt k = false ∧ Gone k s.begun s.now t)
    (fun t action h => ⟨h.1.step action, ?_, h.2.2.step h.1 action ?_⟩) s ⟨hs, hdead, hgone⟩ later
  · exact hend.2.2.admitted
  · obtain ⟨row, hk, -⟩ := h.2.2.row
    obtain ⟨row', hk', hmoves⟩ := (step_later h.1 action).rows k row hk
    refine Bool.eq_false_iff.mpr fun hlive => Bool.eq_false_iff.mp h.2.1 ?_
    obtain ⟨after, hafter, hrow⟩ := liveAt_iff.mp hlive
    obtain rfl := Option.some.inj (hk'.symm.trans hafter)
    exact liveAt_iff.mpr ⟨row, hk, hmoves.next.live hrow⟩
  · cases action <;> first | trivial | exact fun _ => h.2.1

/-- **What a revocation reaches.** At most one session of a family is live in every run. In a run
whose rotations, sign-ins and sign-outs overlap no revocation, no descendant of a revoked session
is let in again but through the one that was spared, and no session outlives the reset of the
password it stands on. -/
theorem revocation_reaches (switch : ℕ → Bool) (password : Subject → Option ℕ)
    (actions : List Action) :
    OneLive (run switch password actions) ∧
      (Run.Guarded step Settled (start switch password) actions →
        Reached (run switch password actions) ∧ Renewed (run switch password actions)) := by
  have hsound : Sound (run switch password actions) := run_sound switch password actions
  have hcounted := @Run.foldl_inv _ _ step (fun s => Sound s ∧ Counted s)
    (fun _ action h => ⟨h.1.step action, h.2.step h.1 action⟩) _
    ⟨sound_start switch password, fun _ hmem => nomatch hmem⟩ actions
  refine ⟨hsound.tidy.one_live, fun hguarded => ?_⟩
  have hkept : Kept (run switch password actions) :=
    hguarded.inv (fun _ action h hsettled => h.step action hsettled) (kept_start switch password)
  constructor
  · intro k row j hk hrevoked hbelow
    obtain ⟨other, hj, -⟩ := hkept.below hk hbelow
    obtain ⟨hlt, -⟩ := List.getElem?_eq_some_iff.mp hj
    exact out_of_dead hsound hcounted.2 hlt (hkept.reached k row j hk hrevoked hbelow)
  · intro k row hk hbehind
    obtain ⟨hlt, -⟩ := List.getElem?_eq_some_iff.mp hk
    refine out_of_dead hsound hcounted.2 hlt (Bool.eq_false_iff.mpr fun hlive => ?_)
    obtain ⟨row', hk', hrow'⟩ := liveAt_iff.mp hlive
    obtain rfl := Option.some.inj (hk.symm.trans hk')
    have hrenewed := hkept.renewed k row hk hrow'
    omega

/-- A refresh has verified its session; a password reset finds that session, the refresh rotates
it, and the reset commits. -/
def resetAcrossRefresh : List Action :=
  [.signIn 0 ⟨.client, 7⟩ 5, .advance 0, .advance 0, .advance 0,
    .present 0 0, .advance 0, .advance 0, .request 0 .refresh,
    .confirmReset 1 ⟨.client, 7⟩ 6, .advance 1, .advance 1, .advance 0, .advance 1]

/-- The reset has revoked the session that was found; its successor, which stands on the password
from before, is let in. -/
theorem successor_survives_reset :
    ¬ ∀ (switch : ℕ → Bool) (password : Subject → Option ℕ) (actions : List Action),
      Reached (run switch password actions) ∧ Renewed (run switch password actions) := by
  intro h
  obtain ⟨hreached, -⟩ := h (fun _ => false) (fun _ => some 5) resetAcrossRefresh
  have hrow : ∃ row, (run (fun _ => false) (fun _ => some 5) resetAcrossRefresh).rows[0]? =
      some row ∧ row.revokedAt ≠ none ∧ row.spared = none := by
    decide +kernel
  have hparent : parent (run (fun _ => false) (fun _ => some 5) resetAcrossRefresh) 1 = some 0 := by
    decide +kernel
  have hin : ∃ admission ∈
      ([.present 2 1, .advance 2, .advance 2].foldl step
        (run (fun _ => false) (fun _ => some 5) resetAcrossRefresh)).admitted,
      admission.reading.sessionId = 1 ∧
        (run (fun _ => false) (fun _ => some 5) resetAcrossRefresh).begun ≤ admission.no := by
    decide +kernel
  obtain ⟨row, hk, hrevoked, hspared⟩ := hrow
  have hout := hreached 0 row 1 hk hrevoked
    (.child hparent (by rw [hspared]; exact nofun) .self)
  obtain ⟨admission, hmem, hsession, hno⟩ := hin
  exact absurd (hout _ admission hmem hsession) (Nat.not_lt_of_le hno)

end Ending

end Sessions

end Authn

end Calevate
