import Calevate.Billing.Helpers.Figures

/-!
# Helpers — lapsed lots

A lot that lapsed is closed and stays empty: its expiry is on the ledger, so money that would
be put back on it opens a lot of its own. What a reversal may give back of the lapse is read
off the ledger, and the ledger never says less than nothing.
-/

namespace Calevate

namespace Billing

open Lib

/-! ## The figure on the ledger -/

/-- What these rows say lapsed off a lot and was not given back. -/
def lapsedIn (rows : List Entry) (lotId : ℕ) : ℤ :=
  let own := rows.filter fun e => e.reason = .adjustment ∧ e.entryMeta.lotId = some lotId
  ((own.filter fun e => e.entryMeta.kind = some .creditExpiry).map fun e => -e.delta).sum -
    ((own.filter fun e => e.entryMeta.kind = some .creditExpiryRestated).map Entry.delta).sum

theorem lapsedUnrestated_eq (a : Account) (i : ℕ) : a.lapsedUnrestated i = lapsedIn a.ledger i :=
  rfl

section Figure

variable {r s : List Entry} {e : Entry} {i : ℕ}

@[simp] theorem lapsedIn_nil : lapsedIn [] i = 0 := rfl

@[simp] theorem lapsedIn_append : lapsedIn (r ++ s) i = lapsedIn r i + lapsedIn s i := by
  simp only [lapsedIn, List.filter_append, List.map_append, List.sum_append]
  omega

/-- A row of neither kind says nothing. -/
theorem lapsedIn_other (hlapse : e.entryMeta.kind ≠ some .creditExpiry)
    (hback : e.entryMeta.kind ≠ some .creditExpiryRestated) : lapsedIn [e] i = 0 := by
  by_cases h : e.reason = .adjustment ∧ e.entryMeta.lotId = some i <;>
    simp [lapsedIn, h, hlapse, hback]

theorem lapsedIn_expiry {amount : ℤ} {ref : Option String} {j : ℕ}
    (h : e.Carries (-amount) .adjustment ref { kind := some .creditExpiry, lotId := some j }) :
    lapsedIn [e] i = if i = j then amount else 0 := by
  obtain ⟨hd, hr, -, hm⟩ := h
  by_cases hij : i = j
  · subst hij
    simp [lapsedIn, hd, hr, hm]
  · rw [if_neg hij]
    simp [lapsedIn, hr, hm, Ne.symm hij]

theorem lapsedIn_restates {amount : ℤ} {j : ℕ} (h : e.RestatesLapse j amount) :
    lapsedIn [e] i = if i = j then -amount else 0 := by
  obtain ⟨fresh, -, hd, hr, -, hm⟩ := h
  by_cases hij : i = j
  · subst hij
    simp [lapsedIn, hd, hr, hm]
  · rw [if_neg hij]
    simp [lapsedIn, hr, hm, Ne.symm hij]

end Figure

theorem Inflow.kind_of (w : Inflow) : w.rowMeta.kind ≠ some .creditExpiry ∧
    w.rowMeta.kind ≠ some .creditExpiryRestated := by
  cases w <;> simp [Inflow.rowMeta]

theorem Outflow.kind_of (w : Outflow) (removal : CreditRemoval) :
    (w.rowMeta removal).kind ≠ some .creditExpiry ∧
      (w.rowMeta removal).kind ≠ some .creditExpiryRestated := by
  cases w <;> simp [Outflow.rowMeta]

/-! ## The lot itself -/

/-- The lot lapsed: its expiry is on the ledger, and it holds nothing. -/
def Account.LapsedLot (a : Account) (lotId : ℕ) : Prop :=
  (∃ e ∈ a.ledger, e.reason = .adjustment ∧ e.ref = some (creditExpiryRef lotId)) ∧
    ∃ l ∈ a.lots, l.id = lotId ∧ l.expiresAt ≠ none ∧ l.creditsRemaining = 0

section LapsedLot

variable {a a' : Account}

/-- A lapsed lot that gains nothing is a lapsed lot. -/
theorem Account.LapsedLot.of_effect {i : ℕ} {rows : List Entry} {take : ℕ → ℤ}
    (h : a.LapsedLot i) (ha : BooksOk a) (hm : Movement a a') (heff : Effect a a' rows take)
    (htake : 0 ≤ take i) : a'.LapsedLot i := by
  obtain ⟨⟨e, he, hkey⟩, l, hl, rfl, hdated, hz⟩ := h
  obtain ⟨-, hkept, -⟩ := LotSteps.keeps ha (hm.lotSteps ha)
  obtain ⟨l', hl', hterms⟩ := hkept l hl
  have hid : l'.id = l.id := congrArg LotTerms.id hterms
  have hdate : l'.expiresAt = l.expiresAt := congrArg LotTerms.expiresAt hterms
  refine ⟨⟨e, by rw [heff.ledger]; exact List.mem_append_left _ he, hkey⟩, l', hl', hid,
    by rwa [hdate], ?_⟩
  have hrem := heff.remaining l.id
  have hn := l'.remaining_nonneg
  rw [ha.lots.remainingOf_of_mem hl, ← hid, heff.books.lots.remainingOf_of_mem hl'] at hrem
  rw [hid] at hrem
  omega

/-- **A lapsed lot stays empty.** -/
theorem Account.LapsedLot.step {i : ℕ} (h : a.LapsedLot i) (ha : BooksOk a) (hm : Movement a a')
    (hf : Figures a a') : a'.LapsedLot i := by
  cases hf with
  | idle effect => exact h.of_effect ha hm effect (le_refl _)
  | inflow w amount got target e a₁ allowed row id steps ledger lots within effect lands =>
    refine h.of_effect ha hm effect ?_
    by_cases hi : i = target
    · rw [if_pos hi]
      by_cases hgot : 0 < got
      · -- the money found the lot lapsed and opened its own
        exfalso
        obtain ⟨⟨x, hx, hkey⟩, l, hl, hid, hdated, -⟩ := h
        rcases lands hgot with ⟨-, hnew, -⟩ | ⟨k, -, htarget, hlive⟩
        · exact hnew l hl (hid.trans hi)
        · have hread : a₁.readLot k.id = some l := by
            rw [← htarget, ← hi, ← hid]
            exact (LotSteps.books steps ha).lots.readLot_of_mem (lots ▸ hl)
          have hfound : (a₁.findEntryByRef .adjustment (creditExpiryRef l.id)).isSome := by
            rw [(findEntryByRef_some_iff (LotSteps.books steps ha).ledger).mpr
              ⟨by rw [ledger]; exact List.mem_append_left _ hx, hkey.1, hid ▸ hkey.2⟩]
            rfl
          have hnot := hlive l hread
          unfold Account.lapsed at hnot
          cases hexp : l.expiresAt with
          | none => exact hdated hexp
          | some at_ =>
            rw [hexp] at hnot
            simp only [hfound, Bool.or_true] at hnot
            cases hnot
      · omega
    · rw [if_neg hi]
  | outflow w amount pos allowed removal e rows row names nonneg figure total effect lapse =>
    refine h.of_effect ha hm effect ?_
    have hown : 0 ≤ a.fromOwnLot (a.correctedLot (w.reverses a)) amount := fromOwnLot_nonneg pos
    have hsplits := splitsOf_nonneg (i := i) nonneg
    unfold ownTake
    split <;> omega
  | usage ref splits kind e pos row names nonneg effect =>
    exact h.of_effect ha hm effect (splitsOf_nonneg nonneg)
  | expiry l e mem pos dated free row effect =>
    refine h.of_effect ha hm effect ?_
    split <;> omega
  | resold l closed fresh e packId ref pair only effect =>
    refine h.of_effect ha hm effect ?_
    obtain ⟨-, k, hk, rfl, -, -⟩ := h
    have hlater := ha.lots.ids_lt k hk
    have hfresh := pair.later
    have hn := l.remaining_nonneg
    split
    · exact hn
    · rw [if_neg (by omega)]

/-- **What the ledger says lapsed**: never less than nothing, and something only of a lot that
lapsed. -/
def LapseOk (a : Account) : Prop :=
  ∀ i, 0 ≤ a.lapsedUnrestated i ∧ (a.lapsedUnrestated i ≠ 0 → a.LapsedLot i)

theorem LapseOk.step (h : LapseOk a) (ha : BooksOk a) (hm : Movement a a') (hf : Figures a a') :
    LapseOk a' := by
  have hkeep : ∀ i, a.LapsedLot i → a'.LapsedLot i := fun i hi => hi.step ha hm hf
  -- rows of the other kinds leave the figure as it was
  have hsame : ∀ rows, a'.ledger = a.ledger ++ rows → (∀ i, lapsedIn rows i = 0) →
      LapseOk a' := by
    intro rows hledger hzero i
    rw [lapsedUnrestated_eq, hledger, lapsedIn_append, hzero, add_zero, ← lapsedUnrestated_eq]
    exact ⟨(h i).1, fun hne => hkeep i ((h i).2 hne)⟩
  cases hf with
  | idle effect => exact hsame [] effect.ledger fun i => rfl
  | inflow w amount got target e a₁ allowed row id steps ledger lots within effect lands =>
    refine hsame [e] effect.ledger fun i => lapsedIn_other ?_ ?_
    · rw [row.2.2.2]
      exact w.kind_of.1
    · rw [row.2.2.2]
      exact w.kind_of.2
  | outflow w amount pos allowed removal e rows row names nonneg figure total effect lapse =>
    have hown : ∀ i, lapsedIn [e] i = 0 := by
      intro i
      apply lapsedIn_other
      · rw [row.2.2.2]
        exact (w.kind_of removal).1
      · rw [row.2.2.2]
        exact (w.kind_of removal).2
    rcases lapse with ⟨rfl, -⟩ | ⟨l, f, hl, rfl, hpos, hf⟩
    · exact hsame [e] effect.ledger hown
    · intro i
      rw [lapsedUnrestated_eq, effect.ledger, lapsedIn_append, lapsedIn_append, hown,
        lapsedIn_restates hf, ← lapsedUnrestated_eq]
      have hi := h i
      by_cases hil : i = l.id
      · subst hil
        have hu : a.unrestated (a.correctedLot (w.reverses a)) = a.lapsedUnrestated l.id := by
          rw [hl]
          rfl
        rw [if_pos rfl]
        rw [hu] at figure
        exact ⟨by omega, fun _ => hkeep _ (hi.2 (by omega))⟩
      · rw [if_neg hil, add_zero, add_zero]
        exact ⟨hi.1, fun hne => hkeep i (hi.2 hne)⟩
  | usage ref splits kind e pos row names nonneg effect =>
    refine hsame [e] effect.ledger fun i => lapsedIn_other ?_ ?_
    · rw [row.2.2.2]
      exact kind.metaKind_ne.2.1
    · rw [row.2.2.2]
      exact kind.metaKind_ne.2.2
  | expiry l e mem pos dated free row effect =>
    intro i
    rw [lapsedUnrestated_eq, effect.ledger, lapsedIn_append, lapsedIn_expiry row,
      ← lapsedUnrestated_eq]
    have hi := h i
    by_cases hil : i = l.id
    · subst hil
      rw [if_pos rfl]
      refine ⟨by omega, fun _ => ⟨⟨e, ?_, row.2.1, row.2.2.1⟩, ?_⟩⟩
      · rw [effect.ledger]
        exact List.mem_append_right _ List.mem_cons_self
      · obtain ⟨-, hkept, -⟩ := LotSteps.keeps ha (hm.lotSteps ha)
        obtain ⟨l', hl', hterms⟩ := hkept l mem
        have hid : l'.id = l.id := congrArg LotTerms.id hterms
        have hdate : l'.expiresAt = l.expiresAt := congrArg LotTerms.expiresAt hterms
        refine ⟨l', hl', hid, by rwa [hdate], ?_⟩
        have hrem := effect.remaining l.id
        rw [if_pos rfl, ha.lots.remainingOf_of_mem mem, ← hid,
          effect.books.lots.remainingOf_of_mem hl', sub_self] at hrem
        exact hrem
    · rw [if_neg hil, add_zero]
      exact ⟨hi.1, fun hne => hkeep i (hi.2 hne)⟩
  | resold l closed fresh e packId ref pair only effect =>
    refine hsame [e] effect.ledger fun i => lapsedIn_other ?_ ?_
    · rw [pair.marks.2.1]
      simp
    · rw [pair.marks.2.1]
      simp

theorem LapseOk.run (ops : List Op) : BooksOk (runOps ops {}) ∧ LapseOk (runOps ops {}) := by
  refine runOps_figures (fun a a' ha hm hf h => h.step ha hm hf) booksOk_empty ?_ ops
  intro i
  exact ⟨le_refl _, fun hne => absurd rfl hne⟩

/-- A lot with a lapse to give back holds nothing. -/
theorem LapseOk.remaining_zero (h : LapseOk a) (ha : BooksOk a) {l : Lot} (hl : l ∈ a.lots)
    (hpos : 0 < a.lapsedUnrestated l.id) : l.creditsRemaining = 0 := by
  obtain ⟨-, k, hk, hid, -, hz⟩ := (h l.id).2 (by omega)
  rwa [List.inj_on_of_nodup_map ha.lots.ids hk hl hid] at hz

end LapsedLot

end Billing

end Calevate
