import Calevate.Billing.Helpers.LotSteps

/-!
# The life of a lot

A lot is a record of what was sold: a running balance of the credit it still holds, under
terms that are written once. Six functions move lots, each by a rule of its own, and here is
what every sequence of them leaves true (`lot_invariant`): the balance stays between nothing
and the total, the lot is closed exactly when it is empty, and its terms are the ones it was
inserted with.
-/

namespace Calevate

namespace Billing

open Lib

/-- One call of a function that moves lots, or a ledger row written between two of them. -/
inductive LotOp
  | opening (creditsInr : ℤ) (rates : LotRates) (source : LotSource) (packId : Option String)
      (ledgerEntryId : ℕ) (overrideOfPackId : Option String) (openedAt expiresAt : Option ℕ)
  | consumption (demand : LotDemand)
  | restatement (lotId : ℕ) (delta : ℤ)
  | removal (correctedEntryId : Option ℕ) (amountInr : ℤ)
  | expiry (lotId now : ℕ)
  | reprice (ctx : Ctx) (lotId : ℕ) (pack : CreditPack)
  | entry (delta : ℤ) (reason : CreditReason) (ref : Option String) (m : EntryMeta)
      (allowNegative allowZero : Bool)

/-- What the call leaves behind. -/
def LotOp.step (a : Account) : LotOp → Account
  | .opening credits rates source packId entryId overrideId openedAt expiresAt =>
    Tx.commit (openLot credits rates source packId entryId overrideId openedAt expiresAt) a
  | .consumption demand => Tx.commit (consume demand) a
  | .restatement lotId delta => Tx.commit (adjustLotForRestatement lotId delta) a
  | .removal entryId amount => Tx.commit (removeCreditFromLots entryId amount) a
  | .expiry lotId now => Tx.commit (expireLot lotId now) a
  | .reprice ctx lotId pack => Tx.commit (repriceLot ctx lotId pack) a
  | .entry delta reason ref m neg zero => Tx.commit (recordEntry delta reason ref m neg zero) a

/-- A run of calls. -/
def runLots (ops : List LotOp) (a : Account) : Account := ops.foldl LotOp.step a

/-- The terms of the row a call inserts, as the caller gave them: `open_lot`'s own arguments,
or what a re-price passes on. The other functions insert nothing. -/
def LotOp.inserts (a : Account) : LotOp → List LotTerms
  | .opening credits rates source packId entryId overrideId openedAt expiresAt =>
    match openLot credits rates source packId entryId overrideId openedAt expiresAt a with
    | .ok (lotId, _) =>
      [{ id := lotId, source := source, packId := packId, overrideOfPackId := overrideId,
         rates := rates, ledgerEntryId := entryId, openedAt := openedAt.getD (a.clock + 1),
         expiresAt := expiresAt }]
    | .error _ => []
  | .reprice ctx lotId pack =>
    match repriceLot ctx lotId pack a, a.readLot lotId with
    | .ok (some r, _), some l =>
      [{ id := r.replacementLotId, source := .override, packId := none,
         overrideOfPackId := some pack.packId, rates := r.rates, ledgerEntryId := r.ledgerEntryId,
         openedAt := l.openedAt, expiresAt := l.expiresAt }]
    | _, _ => []
  | _ => []

/-- Every row inserted along a run, oldest first. -/
def inserted : List LotOp → Account → List LotTerms
  | [], _ => []
  | op :: ops, a => op.inserts a ++ inserted ops (op.step a)

/-! ## The terms of the lots -/

/-- The books stay well formed and no lot's terms move. -/
def KeepsTerms (a a' : Account) : Prop :=
  BooksOk a → BooksOk a' ∧ a'.lots.map Lot.terms = a.lots.map Lot.terms

instance : Std.Refl KeepsTerms := ⟨fun _ h => ⟨h, rfl⟩⟩

instance : IsTrans Account KeepsTerms :=
  ⟨fun _ _ _ h h' ha => ⟨(h' (h ha).1).1, ((h' (h ha).1).2).trans (h ha).2⟩⟩

/-- A row in another's place under the same terms changes none of them. -/
theorem Replaces.terms_eq {a a' : Account} {l l' : Lot} (h : Replaces a a' l l') (hok : LotsOk a)
    (hterms : l'.terms = l.terms) : a'.lots.map Lot.terms = a.lots.map Lot.terms := by
  rw [h.lots]
  apply Table.map_updateKey
  intro x hx hid
  rw [List.inj_on_of_nodup_map hok.ids hx h.mem hid, hterms]

theorem Spends.keepsTerms {a a' : Account} (h : Spends a a') : KeepsTerms a a' := by
  intro ha
  induction h with
  | refl => exact ⟨ha, rfl⟩
  | tail _ hlast ih =>
    obtain ⟨hb, l, l', hrep, hterms, -⟩ := hlast
    exact ⟨hb, (hrep.terms_eq ih.1.lots hterms).trans ih.2⟩

section Within

theorem recordEntry_keepsTerms {delta : ℤ} {reason : CreditReason} {ref : Option String}
    {m : EntryMeta} {neg zero : Bool} :
    Tx.Within KeepsTerms (recordEntry delta reason ref m neg zero) := by
  intro a b a' h ha
  refine ⟨recordEntry_books ha h, ?_⟩
  rcases recordEntry_ok h with ⟨-, -, rfl, -⟩ | ⟨-, -, -, rfl, -⟩
  · rfl
  · rfl

theorem uuid7_keepsTerms : Tx.Within KeepsTerms uuid7 := by
  intro a b a' h ha
  cases uuid7_ok.mp h
  exact ⟨LotSteps.books (mint_steps ha) ha, rfl⟩

theorem consume_keepsTerms {demand : LotDemand} : Tx.Within KeepsTerms (consume demand) := by
  intro a splits a' h ha
  exact (consume_spends ha h).keepsTerms ha

theorem adjustLot_keepsTerms {lotId : ℕ} {delta : ℤ} :
    Tx.Within KeepsTerms (adjustLotForRestatement lotId delta) := by
  intro a r a' h ha
  obtain ⟨l, l', -, hrep, hterms, hb, -⟩ := adjustLot_swap ha h
  exact ⟨hb, hrep.terms_eq ha.lots hterms⟩

theorem restateLapseOf_keepsTerms {lot : Option Lot} {amount : ℤ} :
    Tx.Within KeepsTerms (restateLapseOf lot amount) := by
  cases lot with
  | none => exact Tx.within_pure
  | some l =>
    refine Tx.within_bind Tx.within_get fun a => Tx.within_ite Tx.within_pure ?_
    refine Tx.within_bind uuid7_keepsTerms fun fresh => ?_
    exact Tx.within_bind recordEntry_keepsTerms fun _ => Tx.within_pure

theorem removeUnlapsed_keepsTerms {lot : Option Lot} {amount : ℤ} :
    Tx.Within KeepsTerms (removeUnlapsed lot amount) := by
  unfold removeUnlapsed
  cases lot.filter fun l => amount < l.creditsTotal with
  | none => exact Tx.within_bind consume_keepsTerms fun _ => Tx.within_pure
  | some l =>
    refine Tx.within_bind adjustLot_keepsTerms fun restated => Tx.within_ite Tx.within_pure ?_
    exact Tx.within_bind consume_keepsTerms fun _ => Tx.within_pure

theorem removeCreditFromLots_keepsTerms {entryId : Option ℕ} {amount : ℤ} :
    Tx.Within KeepsTerms (removeCreditFromLots entryId amount) := by
  refine Tx.within_bind Tx.within_get fun a => ?_
  refine Tx.within_bind restateLapseOf_keepsTerms fun lapse => ?_
  refine Tx.within_ite (Tx.within_ite Tx.within_pure ?_) removeUnlapsed_keepsTerms
  exact Tx.within_bind consume_keepsTerms fun _ => Tx.within_pure

theorem expireLot_keepsTerms {lotId now : ℕ} : Tx.Within KeepsTerms (expireLot lotId now) := by
  intro a r a' h ha
  rcases expireLot_swap ha h with ⟨-, rfl⟩ | ⟨l, l', a₁, -, -, -, hrep, hterms, hb, -, b, row⟩
  · exact ⟨ha, rfl⟩
  · obtain ⟨hb', hrow⟩ := recordEntry_keepsTerms row hb
    exact ⟨hb', hrow.trans (hrep.terms_eq ha.lots hterms)⟩

end Within

/-- **A re-price inserts one row and leaves the terms of the others alone**, the closed lot's
among them. -/
theorem Resold.terms_eq {a a' : Account} {l closed fresh : Lot} {e : Entry}
    (h : Resold a a' l closed fresh e) (hok : LotsOk a) :
    a'.lots.map Lot.terms = a.lots.map Lot.terms ++ [fresh.terms] := by
  have hsame : (Table.updateKey Lot.id l.id (fun _ => closed) a.lots).map Lot.terms =
      a.lots.map Lot.terms := by
    apply Table.map_updateKey
    intro x hx hid
    rw [List.inj_on_of_nodup_map hok.ids hx h.mem hid, h.terms]
  rw [h.lots, List.map_append, hsame]
  rfl

/-- **One call**: the books stay well formed and the terms grow by what it inserts. -/
theorem LotOp.step_terms (op : LotOp) {a : Account} (ha : BooksOk a) :
    BooksOk (op.step a) ∧
      (op.step a).lots.map Lot.terms = a.lots.map Lot.terms ++ op.inserts a := by
  have hkeep : ∀ {α : Type} {m : CreditTx α}, Tx.Within KeepsTerms m →
      BooksOk (Tx.commit m a) ∧
        (Tx.commit m a).lots.map Lot.terms = a.lots.map Lot.terms ++ [] := by
    intro α m hm
    rw [List.append_nil]
    exact hm.commit a ha
  cases op with
  | opening credits rates source packId entryId overrideId openedAt expiresAt =>
    simp only [LotOp.step, LotOp.inserts]
    cases htx : openLot credits rates source packId entryId overrideId openedAt expiresAt a with
    | error e =>
      rw [Tx.commit_of_error htx]
      exact ⟨ha, (List.append_nil _).symm⟩
    | ok r =>
      obtain ⟨newId, a'⟩ := r
      rw [Tx.commit_of_ok htx]
      have hm := openLot_moves ha htx
      obtain ⟨hc, rfl, rfl⟩ := openLot_eq htx
      refine ⟨hm.books, ?_⟩
      simp only [Account.setLots, List.map_append, List.map_cons, List.map_nil]
      rfl
  | consumption demand => exact hkeep consume_keepsTerms
  | restatement lotId delta => exact hkeep adjustLot_keepsTerms
  | removal entryId amount => exact hkeep removeCreditFromLots_keepsTerms
  | expiry lotId now => exact hkeep expireLot_keepsTerms
  | reprice ctx lotId pack =>
    simp only [LotOp.step, LotOp.inserts]
    cases htx : repriceLot ctx lotId pack a with
    | error e =>
      rw [Tx.commit_of_error htx]
      exact ⟨ha, (List.append_nil _).symm⟩
    | ok r =>
      obtain ⟨r, a'⟩ := r
      rw [Tx.commit_of_ok htx]
      obtain ⟨rows, hm, -⟩ := repriceLot_moves ha htx
      refine ⟨hm.books, ?_⟩
      rcases repriceLot_resold ha htx with ⟨rfl, rfl⟩ | ⟨l, closed, fresh, e, hpair, rfl, hrates,
          hover, -, -, rfl⟩
      · exact (List.append_nil _).symm
      · rw [hpair.terms_eq ha.lots, ha.lots.readLot_of_mem hpair.mem]
        simp only [Lot.terms, hpair.source, hpair.place, hpair.entry, hrates, hover]
  | entry delta reason ref m neg zero => exact hkeep recordEntry_keepsTerms

theorem runLots_terms (ops : List LotOp) {a : Account} (ha : BooksOk a) :
    BooksOk (runLots ops a) ∧
      (runLots ops a).lots.map Lot.terms = a.lots.map Lot.terms ++ inserted ops a := by
  induction ops generalizing a with
  | nil => exact ⟨ha, (List.append_nil _).symm⟩
  | cons op ops ih =>
    obtain ⟨hb, hterms⟩ := op.step_terms ha
    obtain ⟨hb', hrest⟩ := ih hb
    refine ⟨hb', ?_⟩
    show (runLots ops (op.step a)).lots.map Lot.terms = _
    rw [hrest, hterms, inserted, List.append_assoc]

/-- **Every lot of every reachable state keeps its shape and its terms.** A lot's total is
positive, what is left of it lies between nothing and the total, it is closed exactly when
nothing is left, and its Studio rate is not below a positive Clear rate; and the terms of the
lots, in the order of their rows, are the terms they were inserted with. -/
theorem lot_invariant (ops : List LotOp) :
    (∀ l ∈ (runLots ops {}).lots, 0 < l.creditsTotal ∧ 0 ≤ l.creditsRemaining ∧
      l.creditsRemaining ≤ l.creditsTotal ∧ (l.closedAt.isSome ↔ l.creditsRemaining = 0) ∧
      l.rates.clearInrPerMin ≤ l.rates.studioInrPerMin ∧ 0 < l.rates.clearInrPerMin) ∧
    (runLots ops {}).lots.map Lot.terms = inserted ops {} := by
  obtain ⟨hb, hterms⟩ := runLots_terms ops booksOk_empty
  refine ⟨?_, hterms⟩
  intro l hl
  have hsound : l.closedAt = none ↔ 0 < l.creditsRemaining := hb.lots.sound l hl
  refine ⟨l.total_positive, l.remaining_nonneg, l.remaining_within_total, ?_,
    l.studio_not_below_clear, l.rates.clear_pos⟩
  have hn := l.remaining_nonneg
  rw [← Option.not_isSome_iff_eq_none] at hsound
  constructor
  · intro hclosed
    have : ¬ 0 < l.creditsRemaining := fun hpos => hsound.mpr hpos hclosed
    omega
  · intro hempty
    by_contra hopen
    have := hsound.mp hopen
    omega

end Billing

end Calevate
