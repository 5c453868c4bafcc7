import Calevate.Billing.Helpers.Movements

/-!
# Helpers — the steps of a lot

A movement touches the lots one row at a time. `LotStep` lists the ways: a plain row lands on
the ledger, a lot opens for the credit a row added, a lot gives credit up, the lot that holds
a purchase is restated, or a lot is sold again. `Movement.lotSteps` takes every movement apart
into them, so an invariant of the lots is a case for each and never looks at the transactions.
-/

namespace Calevate

namespace Billing

open Lib

/-! ## What a lot was sold as -/

/-- The columns `credit_lots_terms_frozen` refuses to move. -/
structure LotTerms where
  id : ℕ
  source : LotSource
  packId : Option String
  overrideOfPackId : Option String
  rates : LotRates
  ledgerEntryId : ℕ
  openedAt : ℕ
  expiresAt : Option ℕ
  deriving DecidableEq

/-- The terms of a lot. -/
def Lot.terms (l : Lot) : LotTerms :=
  { id := l.id, source := l.source, packId := l.packId, overrideOfPackId := l.overrideOfPackId,
    rates := l.rates, ledgerEntryId := l.ledgerEntryId, openedAt := l.openedAt,
    expiresAt := l.expiresAt }

section Rows

variable {l l' : Lot} {now : ℕ}

theorem Lot.write_terms {total remaining : ℤ} {closedAt : Option ℕ}
    (h : l.write total remaining closedAt = .ok l') : l'.terms = l.terms := by
  unfold Lot.write at h
  split at h
  · cases h
    rfl
  · cases h

theorem takeRow_terms {seen take : ℤ} (h : takeRow seen take now l = .ok (some l')) :
    l'.terms = l.terms := by
  unfold takeRow at h
  split at h
  · cases hw : l.write l.creditsTotal (l.creditsRemaining - take)
        (if l.creditsRemaining - take = 0 then some now else l.closedAt) with
    | error e => rw [hw] at h; cases h
    | ok k => rw [hw] at h; cases h; exact Lot.write_terms hw
  · cases h

theorem closeRow_terms {seen : ℤ} (h : closeRow seen now l = .ok (some l')) :
    l'.terms = l.terms := by
  unfold closeRow at h
  split at h
  · cases hw : l.write l.creditsTotal 0 (some now) with
    | error e => rw [hw] at h; cases h
    | ok k => rw [hw] at h; cases h; exact Lot.write_terms hw
  · cases h

theorem restateRow_terms {delta seenTotal seenRemaining : ℤ}
    (h : restateRow delta seenTotal seenRemaining now l = .ok (some l')) :
    l'.terms = l.terms := by
  unfold restateRow at h
  split at h
  · cases hw : l.write (l.creditsTotal + delta) (max (l.creditsRemaining + delta) 0)
        (if max (l.creditsRemaining + delta) 0 = 0 then some (l.closedAt.getD now) else none) with
    | error e => rw [hw] at h; cases h
    | ok k => rw [hw] at h; cases h; exact Lot.write_terms hw
  · cases h

end Rows

/-! ## One step -/

/-- A re-price's marker, naming the lot it closed. -/
def Entry.Marks (e : Entry) (lotId : ℕ) : Prop :=
  e.reason = .adjustment ∧ e.entryMeta.kind = some .lotRateOverride ∧
    e.entryMeta.lotId = some lotId

instance (e : Entry) (lotId : ℕ) : Decidable (e.Marks lotId) :=
  inferInstanceAs (Decidable (_ ∧ _))

/-- The pair of rows a re-price leaves: the lot it closed and the one it opened for it. -/
structure Resold (a a' : Account) (l closed fresh : Lot) (e : Entry) : Prop where
  mem : l ∈ a.lots
  wasOpen : l.closedAt = none
  ledger : a'.ledger = a.ledger ++ [e]
  marks : e.Marks l.id
  delta : e.delta = 0
  lots : a'.lots = Table.updateKey Lot.id l.id (fun _ => closed) a.lots ++ [fresh]
  terms : closed.terms = l.terms
  nowClosed : closed.closedAt ≠ none
  emptied : closed.creditsRemaining = 0
  entry : fresh.ledgerEntryId = e.id
  source : fresh.source = .override ∧ fresh.packId = none
  place : fresh.openedAt = l.openedAt ∧ fresh.expiresAt = l.expiresAt
  credit : fresh.creditsRemaining = l.creditsRemaining
  isOpen : fresh.closedAt = none
  cheaper : fresh.rates.clearInrPerMin ≤ l.rates.clearInrPerMin ∧
    fresh.rates.studioInrPerMin ≤ l.rates.studioInrPerMin
  later : a.nextId ≤ fresh.id
  clock : a.clock ≤ a'.clock
  nextId : a.nextId ≤ a'.nextId

/-- **What can happen to the lots in one step.** -/
inductive LotStep (a a' : Account) : Prop
  | still (ledger : a'.ledger = a.ledger) (lots : a'.lots = a.lots) (clock : a.clock ≤ a'.clock)
      (nextId : a.nextId ≤ a'.nextId)
  | row (e : Entry) (ledger : a'.ledger = a.ledger ++ [e]) (lots : a'.lots = a.lots)
      (plain : ∀ i, ¬ e.Marks i) (clock : a.clock ≤ a'.clock) (nextId : a.nextId ≤ a'.nextId)
  | opened (l : Lot) (ledger : a'.ledger = a.ledger) (lots : a'.lots = a.lots ++ [l])
      (stamp : a.clock < l.openedAt ∧ l.openedAt ≤ a'.clock) (later : a.nextId ≤ l.id)
      (entry : ∃ e ∈ a.ledger, e.id = l.ledgerEntryId ∧ ∀ i, ¬ e.Marks i)
      (clock : a.clock ≤ a'.clock) (nextId : a.nextId ≤ a'.nextId)
  | spent (l l' : Lot) (swap : Replaces a a' l l') (terms : l'.terms = l.terms)
      (less : l'.creditsRemaining ≤ l.creditsRemaining)
  | restated (l l' : Lot) (entryId : ℕ) (swap : Replaces a a' l l') (terms : l'.terms = l.terms)
      (purchase : a.purchaseLotOfEntry entryId = some l)
  | resold (l closed fresh : Lot) (e : Entry) (pair : Resold a a' l closed fresh e)

/-- Steps that keep the books well formed. -/
abbrev LotSteps : Account → Account → Prop :=
  Relation.ReflTransGen fun a a' => BooksOk a' ∧ LotStep a a'

theorem LotSteps.one {a a' : Account} (hb : BooksOk a') (h : LotStep a a') : LotSteps a a' :=
  Relation.ReflTransGen.single ⟨hb, h⟩

theorem LotSteps.books {a a' : Account} (h : LotSteps a a') (ha : BooksOk a) : BooksOk a' := by
  induction h with
  | refl => exact ha
  | tail _ hlast _ => exact hlast.1

/-- Steps in which lots give credit up and nothing else happens. -/
abbrev Spends : Account → Account → Prop :=
  Relation.ReflTransGen fun a a' => BooksOk a' ∧ ∃ l l', Replaces a a' l l' ∧
    l'.terms = l.terms ∧ l'.creditsRemaining ≤ l.creditsRemaining

theorem Spends.lotSteps {a a' : Account} (h : Spends a a') : LotSteps a a' := by
  refine Relation.ReflTransGen.mono (fun b c hbc => ?_) _ _ h
  obtain ⟨hb, l, l', hrep, hterms, hless⟩ := hbc
  exact ⟨hb, .spent l l' hrep hterms hless⟩

/-- What every step keeps, the steps keep. -/
theorem LotSteps.inv {Inv : Account → Prop}
    (hstep : ∀ a a', BooksOk a → BooksOk a' → LotStep a a' → Inv a → Inv a')
    {a a' : Account} (ha : BooksOk a) (h : Inv a) (hs : LotSteps a a') : Inv a' := by
  induction hs with
  | refl => exact h
  | tail hfirst hlast ih => exact hstep _ _ (LotSteps.books hfirst ha) hlast.1 hlast.2 ih

section Steps

variable {a a' : Account}

/-! ## The statements -/

theorem recordEntry_steps {delta : ℤ} {reason : CreditReason} {ref : Option String}
    {m : EntryMeta} {neg zero : Bool} {b : Balance} (ha : BooksOk a)
    (hkind : m.kind ≠ some .lotRateOverride)
    (h : recordEntry delta reason ref m neg zero a = .ok (b, a')) : LotSteps a a' := by
  obtain ⟨-, ⟨-, -, rfl⟩ | hm⟩ := recordEntry_moves ha h
  · exact .refl
  · rcases recordEntry_ok h with ⟨-, -, rfl, -⟩ | ⟨-, -, -, rfl, -⟩
    · exact .refl
    · exact LotSteps.one hm.books (.row _ rfl rfl (fun i hi => hkind hi.2.1) (Nat.le_succ _)
        (Nat.le_succ _))

theorem recordEntry_books {delta : ℤ} {reason : CreditReason} {ref : Option String}
    {m : EntryMeta} {neg zero : Bool} {b : Balance} (ha : BooksOk a)
    (h : recordEntry delta reason ref m neg zero a = .ok (b, a')) : BooksOk a' := by
  obtain ⟨-, rows, hm, -⟩ := recordEntry_sums ha h
  exact hm.books

/-- Everything a successful `open_lot` does. -/
theorem openLot_eq {credits : ℤ} {rates : LotRates} {source : LotSource}
    {packId overrideId : Option String} {entryId newId : ℕ} {openedAt expiresAt : Option ℕ}
    (h : openLot credits rates source packId entryId overrideId openedAt expiresAt a =
      .ok (newId, a')) :
    ∃ hc : 0 < credits ∧ rates.clearInrPerMin ≤ rates.studioInrPerMin, newId = a.nextId ∧
      a' = a.mint.tick.setLots (a.lots ++ [newLot a.nextId (a.clock + 1) credits rates source
        packId entryId overrideId openedAt expiresAt hc]) := by
  unfold openLot at h
  split at h
  · rename_i hc
    simp only [Tx.bind_ok, uuid7_ok, clockTimestamp_ok, Tx.get_ok, Tx.ite_ok, Tx.throw_ok,
      and_false, false_or, Tx.set_ok, Tx.pure_ok] at h
    obtain ⟨_, _, h₁, _, _, h₂, _, _, h₃, -, _, _, h₄, h₅⟩ := h
    cases h₁
    cases h₂
    cases h₃
    cases h₄
    cases h₅
    exact ⟨hc, rfl, rfl⟩
  · exact (Tx.throw_ok.mp h).elim

theorem openLot_steps {credits : ℤ} {rates : LotRates} {source : LotSource}
    {packId overrideId : Option String} {entryId newId : ℕ} {expiresAt : Option ℕ}
    (ha : BooksOk a) (hentry : ∃ e ∈ a.ledger, e.id = entryId ∧ ∀ i, ¬ e.Marks i)
    (h : openLot credits rates source packId entryId overrideId none expiresAt a =
      .ok (newId, a')) : LotSteps a a' := by
  have hm := openLot_moves ha h
  obtain ⟨hc, -, rfl⟩ := openLot_eq h
  exact LotSteps.one hm.books (.opened _ rfl rfl ⟨Nat.lt_succ_self _, le_refl _⟩ (le_refl _)
    hentry (Nat.le_succ _) (Nat.le_succ _))

/-- A draw that goes through is one lot giving credit up. -/
theorem drawLot_spends {want : Want} {tries tries' : ℕ} {l : Lot} {drawn : Option Lot}
    (ha : BooksOk a) (hl : l ∈ a.lots) (hopen : l.closedAt = none) (hpend : want.pending = true)
    (h : drawLot want tries l a = .ok ((tries', drawn), a')) :
    drawn = some l ∧ Spends a a' ∧ ∃ l', Replaces a a' l l' := by
  unfold drawLot at h
  obtain ⟨ok, a₁, hexec, h⟩ := Tx.bind_ok.mp h
  have hok := ha.lots
  rcases execOnLot_ok hexec with ⟨-, -, -, hmiss⟩ | ⟨rfl, k, l', hread, hstmt, honly, hlots⟩
  · have hnone := hmiss l (hok.readLot_of_mem hl)
    unfold takeRow at hnone
    rw [if_pos ⟨rfl, hopen⟩] at hnone
    cases hw : l.write l.creditsTotal (l.creditsRemaining - want.portion l)
        (if l.creditsRemaining - want.portion l = 0 then some (a.clock + 1) else l.closedAt) <;>
      rw [hw] at hnone <;> cases hnone
  · rw [hok.readLot_of_mem hl] at hread
    cases hread
    obtain ⟨-, -, hr, hid, he, -, hs⟩ := takeRow_ok hstmt
    have hterms := takeRow_terms hstmt
    simp only [if_true, Tx.pure_ok] at h
    cases h
    have hrep := replaces_of_exec (hok.readLot_of_mem hl) honly hlots hid he
    have hpos := Want.portion_nonneg hpend l
    exact ⟨rfl, .single ⟨⟨honly.ledgerOk ha.ledger, hrep.lotsOk hok hs⟩, l, l', hrep, hterms,
      by omega⟩, l', hrep⟩

theorem walk_spends : ∀ {queue : List Lot} {want want' : Want} {tries : ℕ}
    {splits : List LotSplit} {a a' : Account}, BooksOk a → (queue.map Lot.id).Nodup →
    (∀ l ∈ queue, l ∈ a.lots ∧ l.closedAt = none) →
    walk want tries queue a = .ok ((want', splits), a') → Spends a a' := by
  intro queue
  induction queue with
  | nil =>
    intro want want' tries splits a a' _ _ _ h
    cases Tx.pure_ok.mp h
    exact .refl
  | cons l queue ih =>
    intro want want' tries splits a a' ha hnd hq h
    unfold walk at h
    rcases Tx.ite_ok.mp h with ⟨hpend, h⟩ | ⟨-, h⟩
    · obtain ⟨⟨tries₁, drawn⟩, a₁, hdraw, h⟩ := Tx.bind_ok.mp h
      obtain ⟨hlmem, hlopen⟩ := hq l List.mem_cons_self
      obtain ⟨rfl, hsteps, l', hrep⟩ := drawLot_spends ha hlmem hlopen hpend hdraw
      rw [List.map_cons, List.nodup_cons] at hnd
      have hq₁ := hrep.queue hnd.1 fun k hk => hq k (List.mem_cons_of_mem _ hk)
      rcases Tx.ite_ok.mp h with ⟨-, h⟩ | ⟨-, h⟩
      · obtain ⟨⟨rest, more⟩, a₂, hrest, h⟩ := Tx.bind_ok.mp h
        cases Tx.pure_ok.mp h
        exact hsteps.trans (ih (hsteps.lotSteps.books ha) hnd.2 hq₁ hrest)
      · cases Tx.pure_ok.mp h
        exact hsteps
    · cases Tx.pure_ok.mp h
      exact .refl

theorem consume_spends {demand : LotDemand} {splits : List LotSplit} (ha : BooksOk a)
    (h : consume demand a = .ok (splits, a')) : Spends a a' := by
  unfold consume at h
  obtain ⟨_, _, hget, h⟩ := Tx.bind_ok.mp h
  cases Tx.get_ok.mp hget
  obtain ⟨⟨want, drawn⟩, a₁, hwalk, h⟩ := Tx.bind_ok.mp h
  cases Tx.pure_ok.mp h
  exact walk_spends ha (readOpenLots_ids ha.lots) (fun l hl => mem_readOpenLots.mp hl) hwalk

theorem consume_steps {demand : LotDemand} {splits : List LotSplit} (ha : BooksOk a)
    (h : consume demand a = .ok (splits, a')) : LotSteps a a' :=
  (consume_spends ha h).lotSteps

/-- A restatement as the row it put in the lot's place. -/
theorem adjustLot_swap {lotId : ℕ} {delta : ℤ} {r : LotRestatement} (ha : BooksOk a)
    (h : adjustLotForRestatement lotId delta a = .ok (r, a')) :
    ∃ l l', a.readLot lotId = some l ∧ Replaces a a' l l' ∧ l'.terms = l.terms ∧ BooksOk a' ∧
      l'.creditsTotal = l.creditsTotal + delta ∧
      l'.creditsRemaining = max (l.creditsRemaining + delta) 0 ∧
      r.shortfall = max (-delta - l.creditsRemaining) 0 := by
  simp only [adjustLotForRestatement, Tx.ite_ok, Tx.throw_ok, and_false, false_or, Tx.bind_ok,
    Tx.get_ok, Tx.ofOption_ok, or_false, Tx.pure_ok] at h
  obtain ⟨-, _, _, h₁, l, _, ⟨_, hl, h₂⟩, -, _, _, hexec, hch, hr⟩ := h
  cases h₁
  cases h₂
  cases hr
  rcases execOnLot_ok hexec with ⟨rfl, -⟩ | ⟨-, k, l', hread, hstmt, honly, hlots⟩
  · cases hch
  · rw [hl] at hread
    cases hread
    obtain ⟨-, -, htotal, hrem, hid, he, hs⟩ := restateRow_ok hstmt
    have hrep := replaces_of_exec hl honly hlots hid he
    exact ⟨l, l', hl, hrep, restateRow_terms hstmt,
      ⟨honly.ledgerOk ha.ledger, hrep.lotsOk ha.lots hs⟩, htotal, hrem, rfl⟩

theorem closeLot_swap {lotId : ℕ} {seen : ℤ} (ha : BooksOk a)
    (h : closeLot lotId seen a = .ok (true, a')) :
    ∃ l l', a.readLot lotId = some l ∧ Replaces a a' l l' ∧ l'.terms = l.terms ∧ BooksOk a' ∧
      l.creditsRemaining = seen ∧ l'.creditsRemaining = 0 ∧ l'.closedAt ≠ none := by
  rcases execOnLot_ok h with ⟨hno, -⟩ | ⟨-, l, l', hread, hstmt, honly, hlots⟩
  · cases hno
  · obtain ⟨hseen, -, hr, hid, he, -, hs⟩ := closeRow_ok hstmt
    have hrep := replaces_of_exec hread honly hlots hid he
    refine ⟨l, l', hread, hrep, closeRow_terms hstmt,
      ⟨honly.ledgerOk ha.ledger, hrep.lotsOk ha.lots hs⟩, hseen, hr, ?_⟩
    intro hnone
    have := hs.mp hnone
    omega

/-! ## The lot that holds a purchase -/

theorem repriceSuccessor_mem {lotId : ℕ} {l : Lot} (h : a.repriceSuccessor lotId = some l) :
    l ∈ a.lots := by
  obtain ⟨e, -, he⟩ := List.exists_of_findSome?_eq_some h
  exact (Table.findKey_some he).1

theorem followReprice_mem {n : ℕ} {l : Lot} (hl : l ∈ a.lots) : a.followReprice n l ∈ a.lots := by
  induction n generalizing l with
  | zero => exact hl
  | succ n ih =>
    unfold Account.followReprice
    cases hs : a.repriceSuccessor l.id with
    | none => exact hl
    | some next => exact ih (repriceSuccessor_mem hs)

theorem purchaseLotOfEntry_mem {entryId : ℕ} {l : Lot} (h : a.purchaseLotOfEntry entryId = some l) :
    l ∈ a.lots := by
  unfold Account.purchaseLotOfEntry at h
  obtain ⟨l₀, h₀, rfl⟩ := Option.map_eq_some_iff.mp h
  exact followReprice_mem (Table.findKey_some h₀).1

/-! ## The doors -/

theorem mint_steps (ha : BooksOk a) : LotSteps a a.mint := by
  have honly : LotsOnly a a.mint := ⟨rfl, rfl, rfl, rfl, le_refl _, Nat.le_succ _⟩
  exact LotSteps.one ⟨honly.ledgerOk ha.ledger, (lotsOk_of_lots_eq honly rfl ha.lots).1⟩
    (.still rfl rfl (le_refl _) (Nat.le_succ _))

/-- Credit that arrives opens a lot for its own row, or grows the lot that holds the purchase
it belongs to. -/
theorem applyCreditToLots_steps {ctx : Ctx} {credits balanceAfter : ℤ} {rates : LotRates}
    {source : LotSource} {packId overrideId : Option String} {entryId : ℕ} {restate : Option Lot}
    {r : CreditedLot} (ha : BooksOk a)
    (hentry : ∃ e ∈ a.ledger, e.id = entryId ∧ ∀ i, ¬ e.Marks i)
    (hrestate : ∀ l, restate = some l → ∃ p, a.purchaseLotOfEntry p = some l)
    (h : applyCreditToLots ctx credits balanceAfter rates source packId entryId
      (restate.map Lot.id) overrideId a = .ok (r, a')) : LotSteps a a' := by
  unfold applyCreditToLots at h
  rcases Tx.ite_ok.mp h with ⟨-, h⟩ | ⟨-, h⟩
  · cases Tx.pure_ok.mp h
    exact .refl
  · obtain ⟨_, _, hget, h⟩ := Tx.bind_ok.mp h
    cases Tx.get_ok.mp hget
    cases hr : restate with
    | none =>
      simp only [hr, Option.map_none] at h
      obtain ⟨_, _, hopen, h⟩ := Tx.bind_ok.mp h
      cases Tx.pure_ok.mp h
      exact openLot_steps ha hentry hopen
    | some lot =>
      simp only [hr, Option.map_some] at h
      cases htarget : (a.readLot lot.id).filter a.lapsed with
      | none =>
        simp only [htarget] at h
        obtain ⟨restated, _, hadj, h⟩ := Tx.bind_ok.mp h
        cases Tx.pure_ok.mp h
        obtain ⟨l, l', hread, hrep, hterms, hb, -⟩ := adjustLot_swap ha hadj
        obtain ⟨p, hp⟩ := hrestate lot hr
        have hlot : l = lot := by
          rw [ha.lots.readLot_of_mem (purchaseLotOfEntry_mem hp)] at hread
          exact (Option.some.inj hread).symm
        exact LotSteps.one hb (.restated l l' p hrep hterms (hlot ▸ hp))
      | some target =>
        simp only [htarget] at h
        obtain ⟨_, _, hopen, h⟩ := Tx.bind_ok.mp h
        cases Tx.pure_ok.mp h
        exact openLot_steps ha hentry hopen

theorem consumeExtra_steps {extra : ℚ} {splits : List LotSplit} (ha : BooksOk a)
    (h : consumeExtra extra a = .ok (splits, a')) : LotSteps a a' := by
  unfold consumeExtra at h
  rcases Tx.ite_ok.mp h with ⟨-, h⟩ | ⟨-, h⟩
  · exact consume_steps ha h
  · cases Tx.pure_ok.mp h
    exact .refl

theorem UsageKind.metaKind_ne (k : UsageKind) : k.metaKind ≠ some .lotRateOverride ∧
    k.metaKind ≠ some .creditExpiry ∧ k.metaKind ≠ some .creditExpiryRestated := by
  cases k <;> simp [UsageKind.metaKind]

theorem recordUsageFromLots_steps {ref : String} {demand : LotDemand} {extra : ℚ} {neg : Bool}
    {kind : UsageKind} {r : LotDebit} (ha : BooksOk a)
    (h : recordUsageFromLots ref demand extra neg kind a = .ok (r, a')) :
    LotSteps a a' := by
  unfold recordUsageFromLots at h
  obtain ⟨_, _, hget, h⟩ := Tx.bind_ok.mp h
  cases Tx.get_ok.mp hget
  rcases Tx.ite_ok.mp h with ⟨-, h⟩ | ⟨-, h⟩
  · cases Tx.pure_ok.mp h
    exact .refl
  · obtain ⟨calls, a₁, hcalls, h⟩ := Tx.bind_ok.mp h
    obtain ⟨extras, a₂, hextras, h⟩ := Tx.bind_ok.mp h
    have h₁ := consume_steps ha hcalls
    have h₂ := consumeExtra_steps (h₁.books ha) hextras
    rcases Tx.ite_ok.mp h with ⟨-, h⟩ | ⟨-, h⟩
    · cases Tx.pure_ok.mp h
      exact h₁.trans h₂
    · obtain ⟨_, a₃, hrec, h⟩ := Tx.bind_ok.mp h
      cases Tx.pure_ok.mp h
      exact (h₁.trans h₂).trans (recordEntry_steps (LotSteps.books (h₁.trans h₂) ha) kind.metaKind_ne.1
        hrec)

theorem restateLapseOf_steps {lot : Option Lot} {amount restated : ℤ} (ha : BooksOk a)
    (h : restateLapseOf lot amount a = .ok (restated, a')) : LotSteps a a' := by
  cases lot with
  | none =>
    cases Tx.pure_ok.mp h
    exact .refl
  | some l =>
    simp only [restateLapseOf, restateLapsedCredit, Tx.bind_ok, Tx.get_ok, Tx.ite_ok, Tx.pure_ok,
      uuid7_ok] at h
    obtain ⟨_, _, h₁, ⟨-, h₂⟩ | ⟨-, _, _, h₂, _, _, hrec, h₃⟩⟩ := h
    · cases h₁
      cases h₂
      exact .refl
    · cases h₁
      cases h₂
      cases h₃
      have hm := mint_steps ha
      exact hm.trans (recordEntry_steps (hm.books ha) (by simp) hrec)

theorem removeUnlapsed_steps {lot : Option Lot} {amount : ℤ} {r : CreditRemoval}
    (ha : BooksOk a) (hpos : 0 < amount) (h : removeUnlapsed lot amount a = .ok (r, a')) :
    LotSteps a a' := by
  unfold removeUnlapsed at h
  cases hlot : lot.filter fun l => amount < l.creditsTotal with
  | none =>
    simp only [hlot] at h
    obtain ⟨splits, a₁, hcons, h⟩ := Tx.bind_ok.mp h
    cases Tx.pure_ok.mp h
    exact consume_steps ha hcons
  | some l =>
    simp only [hlot] at h
    obtain ⟨restated, a₁, hadj, h⟩ := Tx.bind_ok.mp h
    obtain ⟨k, k', -, hrep, hterms, hb, -, hrem, -⟩ := adjustLot_swap ha hadj
    have hn := k.remaining_nonneg
    have h₁ : LotSteps a a₁ := LotSteps.one hb (.spent k k' hrep hterms (by omega))
    rcases Tx.ite_ok.mp h with ⟨-, h⟩ | ⟨-, h⟩
    · cases Tx.pure_ok.mp h
      exact h₁
    · obtain ⟨splits, a₂, hcons, h⟩ := Tx.bind_ok.mp h
      cases Tx.pure_ok.mp h
      exact h₁.trans (consume_steps hb hcons)

theorem removeCreditFromLots_steps {entry : Option ℕ} {amount : ℤ} {r : CreditRemoval}
    (ha : BooksOk a) (hpos : 0 < amount) (h : removeCreditFromLots entry amount a = .ok (r, a')) :
    LotSteps a a' := by
  unfold removeCreditFromLots at h
  obtain ⟨_, _, hget, h⟩ := Tx.bind_ok.mp h
  cases Tx.get_ok.mp hget
  obtain ⟨lapse, a₁, hlapse, h⟩ := Tx.bind_ok.mp h
  have h₁ := restateLapseOf_steps ha hlapse
  have hb := h₁.books ha
  rcases Tx.ite_ok.mp h with ⟨-, h⟩ | ⟨-, h⟩
  · rcases Tx.ite_ok.mp h with ⟨-, h⟩ | ⟨-, h⟩
    · cases Tx.pure_ok.mp h
      exact h₁
    · obtain ⟨splits, a₂, hcons, h⟩ := Tx.bind_ok.mp h
      cases Tx.pure_ok.mp h
      exact h₁.trans (consume_steps hb hcons)
  · exact h₁.trans (removeUnlapsed_steps hb hpos h)

/-- **Everything a lapse does**: nothing, or the lot closed and the row for what it held. -/
theorem expireLot_swap {lotId now : ℕ} {r : Option ℤ} (ha : BooksOk a)
    (h : expireLot lotId now a = .ok (r, a')) :
    (r = none ∧ a' = a) ∨ ∃ l l' a₁, a.dueLot lotId now = some l ∧ r = some l.creditsRemaining ∧
      a.findEntryByRef .adjustment (creditExpiryRef lotId) = none ∧
      Replaces a a₁ l l' ∧ l'.terms = l.terms ∧ BooksOk a₁ ∧ l'.creditsRemaining = 0 ∧
      ∃ b, recordEntry (-l.creditsRemaining) .adjustment (some (creditExpiryRef lotId))
        { kind := some .creditExpiry, lotId := some lotId } false false a₁ = .ok (b, a') := by
  unfold expireLot at h
  obtain ⟨_, _, hget, h⟩ := Tx.bind_ok.mp h
  cases Tx.get_ok.mp hget
  rcases Tx.ite_ok.mp h with ⟨-, h⟩ | ⟨hfree, h⟩
  · cases Tx.pure_ok.mp h
    exact Or.inl ⟨rfl, rfl⟩
  · cases hl : a.dueLot lotId now with
    | none =>
      rw [hl] at h
      cases Tx.pure_ok.mp h
      exact Or.inl ⟨rfl, rfl⟩
    | some l =>
      simp only [hl] at h
      obtain ⟨closed, a₁, hclose, h⟩ := Tx.bind_ok.mp h
      rcases Tx.ite_ok.mp h with ⟨hcl, h⟩ | ⟨-, h⟩
      · subst hcl
        obtain ⟨b, a₂, hrec, h⟩ := Tx.bind_ok.mp h
        cases Tx.pure_ok.mp h
        obtain ⟨k, k', hread, hrep, hterms, hb, -, hz, -⟩ := closeLot_swap ha hclose
        have hk : k = l := by
          unfold Account.dueLot at hl
          obtain ⟨hread', -⟩ := Option.filter_eq_some_iff.mp hl
          rw [hread] at hread'
          exact Option.some.inj hread'
        subst hk
        exact Or.inr ⟨k, k', a₁, rfl, rfl, by simpa using hfree, hrep, hterms, hb, hz, b, hrec⟩
      · exact (Tx.throw_ok.mp h).elim

/-- The row a writer reads back after it wrote is its own. -/
theorem written_eq {delta : ℤ} {reason : CreditReason} {ref : String}
    {m : EntryMeta} {neg zero : Bool} {b : Balance} {e : Entry} (ha : BooksOk a)
    (hz : ¬ (delta = 0 ∧ zero = false))
    (h : recordEntry delta reason (some ref) m neg zero a = .ok (b, a'))
    (hfind : a'.findEntryByRef reason ref = some e) :
    e = a.entryOf delta reason (some ref) m ∧ a' = a.appendEntry delta reason (some ref) m := by
  have hb := recordEntry_books ha h
  rcases recordEntry_ok h with ⟨hd, hzero, -⟩ | ⟨-, -, -, rfl, -⟩
  · exact absurd ⟨hd, hzero⟩ hz
  · refine ⟨?_, rfl⟩
    have hwritten : (a.appendEntry delta reason (some ref) m).findEntryByRef reason ref =
        some (a.entryOf delta reason (some ref) m) :=
      (findEntryByRef_some_iff hb.ledger).mpr
        ⟨List.mem_append_right _ List.mem_cons_self, rfl, rfl⟩
    rw [hfind] at hwritten
    exact Option.some.inj hwritten

/-- **Everything a re-price does**: nothing when it is a replay, or the pair of rows. -/
theorem repriceLot_resold {ctx : Ctx} {lotId : ℕ} {pack : CreditPack} {r : Option RepricedLot}
    (ha : BooksOk a) (h : repriceLot ctx lotId pack a = .ok (r, a')) :
    (r = none ∧ a' = a) ∨ ∃ l closed fresh e, Resold a a' l closed fresh e ∧ l.id = lotId ∧
      fresh.rates = ctx.card.ofPack pack ∧ fresh.overrideOfPackId = some pack.packId ∧
      e.ref = some (lotRepriceRef lotId pack.packId) ∧
      (e.entryMeta.lots = [] ∧ e.entryMeta.correctsEntryId = none ∧
        e.entryMeta.expiryRestatedInr = none) ∧
      r = some ⟨lotId, fresh.id, l.creditsRemaining, e.id, l.rates, ctx.card.ofPack pack⟩ := by
  unfold repriceLot at h
  obtain ⟨_, _, hget, h⟩ := Tx.bind_ok.mp h
  cases Tx.get_ok.mp hget
  rcases Tx.ite_ok.mp h with ⟨-, h⟩ | ⟨hfree, h⟩
  · cases Tx.pure_ok.mp h
    exact Or.inl ⟨rfl, rfl⟩
  · simp only [Tx.bind_ok, Tx.ofOption_ok, Tx.ite_ok, Tx.throw_ok, Tx.get_ok, Tx.pure_ok,
      and_false, false_or, or_false] at h
    obtain ⟨l, _, ⟨_, hread, h₁⟩, hopen, -, hcheap, _, a₁, hrec, _, _, h₂, marker, _,
      ⟨_, hmark, h₃⟩, closed, a₂, hclose, hcl, newId, a₃, hnew, h₄⟩ := h
    cases h₁
    cases h₂
    cases h₃
    cases h₄
    subst hcl
    obtain ⟨hmem, rfl⟩ := readLot_some hread
    obtain ⟨rfl, rfl⟩ := written_eq ha (by simp) hrec hmark
    have hb₁ := recordEntry_books ha hrec
    obtain ⟨k, k', hreadk, hrep, hterms, hb₂, -, hz, hclosed⟩ := closeLot_swap hb₁ hclose
    have hk : k = l := by
      have : a.readLot l.id = some k := hreadk
      rw [hread] at this
      exact (Option.some.inj this).symm
    subst hk
    obtain ⟨hc, rfl, rfl⟩ := openLot_eq hnew
    have hnext : a.nextId ≤ a₂.nextId := (Nat.le_succ _).trans hrep.only.nextId
    refine Or.inr ⟨k, k', newLot a₂.nextId (a₂.clock + 1) k.creditsRemaining
      (ctx.card.ofPack pack) .override none a.nextId (some pack.packId) (some k.openedAt) k.expiresAt hc,
      a.entryOf 0 .adjustment (some (lotRepriceRef k.id pack.packId))
        { kind := some .lotRateOverride, lotId := some k.id }, ?_, rfl, rfl, rfl, rfl, ⟨rfl, rfl, rfl⟩, rfl⟩
    exact
      { mem := hmem
        wasOpen := not_not.mp hopen
        ledger := hrep.only.ledger
        marks := ⟨rfl, rfl, rfl⟩
        delta := rfl
        lots := by
          show a₂.lots ++ _ = _
          rw [hrep.lots]
          rfl
        terms := hterms
        nowClosed := hclosed
        emptied := hz
        entry := rfl
        source := ⟨rfl, rfl⟩
        place := ⟨rfl, rfl⟩
        credit := rfl
        isOpen := rfl
        cheaper := by
          rw [not_or, not_lt, not_lt] at hcheap
          exact hcheap
        later := hnext
        clock := ((Nat.le_succ _).trans hrep.only.clock).trans (Nat.le_succ _)
        nextId := hnext.trans (Nat.le_succ _) }

end Steps

/-! ## The movements -/

theorem Inflow.kind_ne (w : Inflow) : w.rowMeta.kind ≠ some .lotRateOverride := by
  cases w <;> simp [Inflow.rowMeta]

theorem Outflow.kind_ne (w : Outflow) (removal : CreditRemoval) :
    (w.rowMeta removal).kind ≠ some .lotRateOverride := by
  cases w <;> simp [Outflow.rowMeta]

/-- The lot a writer restates is the one that holds a purchase. -/
theorem Inflow.restates_purchase {w : Inflow} {b : Account} {l : Lot} (h : w.restates b = some l) :
    ∃ p, b.purchaseLotOfEntry p = some l := by
  cases w with
  | restatement paymentRef corrected =>
    obtain ⟨e, -, he⟩ := Option.bind_eq_some_iff.mp h
    exact ⟨e.id, he⟩
  | release disputeId suffix paymentId =>
    obtain ⟨e, -, he⟩ := Option.bind_eq_some_iff.mp h
    exact ⟨e.id, he⟩
  | topup ref => cases h
  | packBonus paymentId => cases h
  | grant reference => cases h
  | correction target amount => cases h

/-- **Every movement is steps of lots.** -/
theorem Movement.lotSteps {a a' : Account} (ha : BooksOk a) (h : Movement a a') :
    LotSteps a a' := by
  cases h with
  | inflow w amount neg zero _ b a₁ row written found ctx rates source packId overrideId r lot =>
    have h₁ := recordEntry_steps ha w.kind_ne row
    by_cases hpos : 0 < amount
    · obtain ⟨rfl, rfl⟩ := written_eq ha (by omega) row found
      refine h₁.trans (applyCreditToLots_steps (h₁.books ha) ?_ ?_ lot)
      · exact ⟨_, List.mem_append_right _ List.mem_cons_self, rfl, fun i hi => w.kind_ne hi.2.1⟩
      · intro l hl
        exact Inflow.restates_purchase hl
    · -- nothing arrived, so no lot moves
      unfold applyCreditToLots at lot
      rcases Tx.ite_ok.mp lot with ⟨-, lot⟩ | ⟨hgt, -⟩
      · cases Tx.pure_ok.mp lot
        exact h₁
      · omega
  | outflow w amount pos _ removal a₁ lots b row =>
    have h₁ := removeCreditFromLots_steps ha pos lots
    exact h₁.trans (recordEntry_steps (h₁.books ha) (w.kind_ne removal) row)
  | usage ref demand extra neg kind r charge => exact recordUsageFromLots_steps ha charge
  | expiry lotId now r lapse =>
    rcases expireLot_swap ha lapse with ⟨-, rfl⟩ | ⟨l, l', a₁, -, -, -, hrep, hterms, hb, hz, b, row⟩
    · exact .refl
    · have hn := l.remaining_nonneg
      have h₁ : LotSteps a a₁ := LotSteps.one hb (.spent l l' hrep hterms (by omega))
      exact h₁.trans (recordEntry_steps hb (by simp) row)
  | reprice ctx lotId pack r sale =>
    obtain ⟨rows, hm, -⟩ := repriceLot_moves ha sale
    rcases repriceLot_resold ha sale with ⟨-, rfl⟩ | ⟨l, closed, fresh, e, hpair, -⟩
    · exact .refl
    · exact LotSteps.one hm.books (.resold l closed fresh e hpair)
  | beside ledger lots clock nextId =>
    have hl := ha.ledger
    have hk := ha.lots
    refine LotSteps.one ⟨⟨?_, ?_, ?_, ?_, ?_, ?_⟩, ⟨?_, ?_, ?_, ?_⟩⟩
      (.still ledger lots clock nextId.ge)
    · rw [ledger]; exact hl.stamped
    · rw [ledger]; exact fun e he => (hl.stamped_le e he).trans clock
    · rw [ledger]; exact hl.ids
    · rw [ledger, nextId]; exact hl.ids_lt
    · rw [ledger]; exact hl.keys
    · rw [ledger]; exact hl.chain
    · rw [lots]; exact hk.ids
    · rw [lots, nextId]; exact hk.ids_lt
    · rw [lots]; exact hk.sound
    · rw [lots]; exact hk.entries

theorem Movement.books {a a' : Account} (ha : BooksOk a) (h : Movement a a') : BooksOk a' :=
  LotSteps.books (h.lotSteps ha) ha

theorem Movements.lotSteps {a a' : Account} (ha : BooksOk a) (h : Movements a a') :
    LotSteps a a' := by
  induction h with
  | refl => exact .refl
  | tail _ hlast ih => exact ih.trans (hlast.lotSteps (LotSteps.books ih ha))

/-- What every step of a lot keeps, every run keeps. -/
theorem runOps_lotInv {Inv : Account → Prop}
    (hstep : ∀ a a', BooksOk a → BooksOk a' → LotStep a a' → Inv a → Inv a')
    {a : Account} (ha : BooksOk a) (h : Inv a) (ops : List Op) :
    BooksOk (runOps ops a) ∧ Inv (runOps ops a) := by
  refine @Run.foldl_inv _ _ Op.step (fun s => BooksOk s ∧ Inv s) (fun s o hs => ?_) a ⟨ha, h⟩ ops
  have hsteps := Movements.lotSteps hs.1 (o.step_movements s)
  exact ⟨LotSteps.books hsteps hs.1, LotSteps.inv hstep hs.1 hs.2 hsteps⟩

end Billing

end Calevate
