import Calevate.Billing.Repricing
import Calevate.Billing.Helpers.Figures

/-!
# Helpers — the lots of one purchase

A purchase opens one lot, a re-price moves its credit to another, and so on: the lots it is or
was on are the chain that starts at the lot its row opened. A replacement takes over the stamp
of the lot it replaces, and nothing else shares a stamp, so a purchase's lots are those with
the stamp of its first (`holdsCredit_iff`). `RootsOk` is the half of that the chains themselves
do not say: of two lots with one stamp, one was opened for a re-price.
-/

namespace Calevate

namespace Billing

open Lib

/-! ## Where a lot came from -/

/-- The lot was opened for a re-price. -/
def Account.Replacement (a : Account) (l : Lot) : Prop :=
  ∃ e ∈ a.ledger, e.id = l.ledgerEntryId ∧ ∃ i, e.Marks i

/-- **Every lot has its row, and two lots of one stamp are not both first.** -/
structure RootsOk (a : Account) : Prop where
  written : ∀ l ∈ a.lots, ∃ e ∈ a.ledger, e.id = l.ledgerEntryId
  roots : ∀ l ∈ a.lots, ∀ k ∈ a.lots, l.openedAt = k.openedAt → l.id ≠ k.id →
    a.Replacement l ∨ a.Replacement k

theorem rootsOk_empty : RootsOk {} where
  written := by intro l hl; cases hl
  roots := by intro l hl; cases hl

section Step

variable {a a' : Account}

/-- Rows of the ledger stay. -/
theorem LotStep.ledger_mem (h : LotStep a a') : ∀ e ∈ a.ledger, e ∈ a'.ledger := by
  intro e he
  cases h with
  | still ledger lots clock nextId => rwa [ledger]
  | row f ledger lots plain clock nextId =>
    rw [ledger]
    exact List.mem_append_left _ he
  | opened l ledger lots stamp later entry clock nextId => rwa [ledger]
  | spent l l' swap terms less => rwa [swap.only.ledger]
  | restated l l' entryId swap terms purchase => rwa [swap.only.ledger]
  | resold l closed fresh f pair =>
    rw [pair.ledger]
    exact List.mem_append_left _ he

/-- A replacement stays one. -/
theorem Account.Replacement.mono {l l' : Lot} (h : a.Replacement l)
    (hgrow : ∀ e ∈ a.ledger, e ∈ a'.ledger) (hterms : l'.terms = l.terms) :
    a'.Replacement l' := by
  obtain ⟨e, he, hid, hmarks⟩ := h
  have hentry : l'.ledgerEntryId = l.ledgerEntryId := congrArg LotTerms.ledgerEntryId hterms
  exact ⟨e, hgrow e he, by rw [hid, hentry], hmarks⟩

/-- **One step brings one lot at most**: stamped since, or opened for a re-price. -/
theorem LotStep.newcomer (h : LotStep a a') : ∃ fresh : Option Lot,
    (∀ l' ∈ a'.lots, some l' = fresh ∨ ∃ l ∈ a.lots, l'.terms = l.terms) ∧
    ∀ f, fresh = some f → (∃ e ∈ a'.ledger, e.id = f.ledgerEntryId) ∧
      (a.clock < f.openedAt ∨ a'.Replacement f) := by
  have hnone : (∀ l' ∈ a'.lots, ∃ l ∈ a.lots, l'.terms = l.terms) → ∃ fresh : Option Lot,
      (∀ l' ∈ a'.lots, some l' = fresh ∨ ∃ l ∈ a.lots, l'.terms = l.terms) ∧
      ∀ f, fresh = some f → (∃ e ∈ a'.ledger, e.id = f.ledgerEntryId) ∧
        (a.clock < f.openedAt ∨ a'.Replacement f) :=
    fun hold => ⟨none, fun l' hl' => Or.inr (hold l' hl'), fun f hf => by cases hf⟩
  have hgrow := h.ledger_mem
  cases h with
  | still ledger lots clock nextId => exact hnone fun l' hl' => ⟨l', lots ▸ hl', rfl⟩
  | row e ledger lots plain clock nextId => exact hnone fun l' hl' => ⟨l', lots ▸ hl', rfl⟩
  | spent l l' swap terms less => exact hnone (swap.back terms)
  | restated l l' entryId swap terms purchase => exact hnone (swap.back terms)
  | opened l ledger lots stamp later entry clock nextId =>
    obtain ⟨e, he, hid, -⟩ := entry
    refine ⟨some l, fun k hk => ?_, fun f hf => ?_⟩
    · rw [lots] at hk
      rcases List.mem_append.mp hk with hk | hk
      · exact Or.inr ⟨k, hk, rfl⟩
      · rw [List.mem_singleton.mp hk]
        exact Or.inl rfl
    · cases hf
      exact ⟨⟨e, hgrow e he, hid⟩, Or.inl stamp.1⟩
  | resold l closed fresh e pair =>
    have he : e ∈ a'.ledger := by
      rw [pair.ledger]
      exact List.mem_append_right _ List.mem_cons_self
    refine ⟨some fresh, fun k hk => ?_, fun f hf => ?_⟩
    · rw [pair.lots] at hk
      rcases List.mem_append.mp hk with hk | hk
      · rcases Table.mem_updateKey.mp hk with ⟨hk, -⟩ | ⟨-, -, -, rfl⟩
        · exact Or.inr ⟨k, hk, rfl⟩
        · exact Or.inr ⟨l, pair.mem, pair.terms⟩
      · rw [List.mem_singleton.mp hk]
        exact Or.inl rfl
    · cases hf
      exact ⟨⟨e, he, pair.entry.symm⟩, Or.inr ⟨e, he, pair.entry.symm, l.id, pair.marks⟩⟩

/-- A lot is an old one, or was stamped since, or was opened for a re-price. -/
theorem LotSteps.origin (h : LotSteps a a') : a.clock ≤ a'.clock ∧ ∀ l' ∈ a'.lots,
    (∃ l ∈ a.lots, l'.terms = l.terms) ∨ a.clock < l'.openedAt ∨ a'.Replacement l' := by
  induction h with
  | refl => exact ⟨le_refl _, fun l' hl' => Or.inl ⟨l', hl', rfl⟩⟩
  | tail _ hlast ih =>
    obtain ⟨hclock, ih⟩ := ih
    obtain ⟨fresh, hlots, hfresh⟩ := hlast.2.newcomer
    refine ⟨hclock.trans hlast.2.mono.2, fun l' hl' => ?_⟩
    rcases hlots l' hl' with hnew | ⟨k, hk, hterms⟩
    · rcases (hfresh l' hnew.symm).2 with hstamp | hrepl
      · exact Or.inr (Or.inl (hclock.trans_lt hstamp))
      · exact Or.inr (Or.inr hrepl)
    · rcases ih k hk with ⟨l, hl, hlt⟩ | hstamp | hrepl
      · exact Or.inl ⟨l, hl, hterms.trans hlt⟩
      · rw [← terms_openedAt hterms] at hstamp
        exact Or.inr (Or.inl hstamp)
      · exact Or.inr (Or.inr (hrepl.mono hlast.2.ledger_mem hterms))

/-- **Every step of a lot keeps the roots apart.** -/
theorem RootsOk.step (hr : RootsOk a) (hc : ChainOk a) (h : LotStep a a') : RootsOk a' := by
  have hgrow := h.ledger_mem
  obtain ⟨fresh, hlots, hfresh⟩ := h.newcomer
  -- a lot that is new has a stamp of its own, or was opened for a re-price
  have hapart : ∀ l' k' : Lot, some l' = fresh → (∃ k ∈ a.lots, k'.terms = k.terms) →
      l'.openedAt = k'.openedAt → a'.Replacement l' := by
    rintro l' k' hnew ⟨k, hk, hkt⟩ hat
    rcases (hfresh l' hnew.symm).2 with hstamp | hrepl
    · have := hc.stamped k hk
      rw [hat, terms_openedAt hkt] at hstamp
      omega
    · exact hrepl
  refine ⟨fun l' hl' => ?_, fun l' hl' k' hk' hat hne => ?_⟩
  · rcases hlots l' hl' with hnew | ⟨l, hl, hlt⟩
    · exact (hfresh l' hnew.symm).1
    · obtain ⟨e, he, hid⟩ := hr.written l hl
      have hentry : l'.ledgerEntryId = l.ledgerEntryId := congrArg LotTerms.ledgerEntryId hlt
      exact ⟨e, hgrow e he, hid.trans hentry.symm⟩
  · rcases hlots l' hl' with hl | hl <;> rcases hlots k' hk' with hk | hk
    · exact absurd (congrArg Lot.id (Option.some.inj (hl.trans hk.symm))) hne
    · exact Or.inl (hapart l' k' hl hk hat)
    · exact Or.inr (hapart k' l' hk hl hat.symm)
    · obtain ⟨l, hl, hlt⟩ := hl
      obtain ⟨k, hk, hkt⟩ := hk
      rw [terms_openedAt hlt, terms_openedAt hkt] at hat
      rw [terms_id hlt, terms_id hkt] at hne
      exact (hr.roots l hl k hk hat hne).imp (fun hl => hl.mono hgrow hlt)
        fun hk => hk.mono hgrow hkt

/-- Well-formed chains and roots, along the steps. -/
theorem LotSteps.roots (h : LotSteps a a') (ha : BooksOk a) (hc : ChainOk a) (hr : RootsOk a) :
    ChainOk a' ∧ RootsOk a' := by
  refine @LotSteps.inv (fun b => ChainOk b ∧ RootsOk b) ?_ a a' ha ⟨hc, hr⟩ h
  rintro b b' hb hb' hstep ⟨hbc, hbr⟩
  exact ⟨hbc.step hb hb' hstep, hbr.step hbc hstep⟩

end Step

/-! ## The lots of a purchase -/

/-- The lot the payment's row opened. -/
def Account.rootLot (a : Account) (paymentRef : String) : Option Lot :=
  (a.findTopup paymentRef).bind fun e => a.lotOfEntry e.id

/-- The lots the payment's purchase is or was on: those from which the re-prices lead to the
lot that holds it now. -/
def Account.holdsCredit (a : Account) (paymentRef : String) (lotId : ℕ) : Bool :=
  match a.readLot lotId, a.correctedLot ((a.findTopup paymentRef).map Entry.id) with
  | some l, some now => decide ((a.followReprice a.lots.length l).id = now.id)
  | _, _ => false

section Purchase

variable {a a' : Account} {ref : String}

theorem rootLot_some (ha : BooksOk a) {root : Lot} : a.rootLot ref = some root ↔
    root ∈ a.lots ∧ ∃ e ∈ a.ledger, e.reason = .topup ∧ e.ref = some ref ∧
      root.ledgerEntryId = e.id := by
  unfold Account.rootLot
  rw [Option.bind_eq_some_iff]
  constructor
  · rintro ⟨e, he, hroot⟩
    obtain ⟨hmem, hreason, href⟩ := (findEntryByRef_some_iff ha.ledger).mp he
    obtain ⟨hl, hid⟩ := Table.findKey_some hroot
    exact ⟨hl, e, hmem, hreason, href, hid⟩
  · rintro ⟨hl, e, hmem, hreason, href, hid⟩
    exact ⟨e, (findEntryByRef_some_iff ha.ledger).mpr ⟨hmem, hreason, href⟩,
      hid ▸ lotOfEntry_of_mem ha.lots hl⟩

/-- The lot a purchase ends on has the stamp of the one it began on. -/
theorem ChainOk.follow_openedAt (hc : ChainOk a) (hok : LotsOk a) {l : Lot} (hl : l ∈ a.lots)
    (n : ℕ) : a.followReprice n l ∈ a.lots ∧ (a.followReprice n l).openedAt = l.openedAt := by
  have hreach : a.Repriced l (a.followReprice n l) := by
    rw [followReprice_eq]
    exact Chain.reaches_follow n l
  have hmem := (Chain.Reaches.rel (R := fun _ _ => True) (fun _ => trivial)
    (fun _ _ _ _ _ => trivial) (hc.climbs hok) (fun _ _ _ _ => trivial) hl hreach).1
  exact ⟨hmem, (hc.repriced hok hl hreach).1⟩

/-- **A purchase's lots are those with its first lot's stamp.** -/
theorem holdsCredit_iff (ha : BooksOk a) (hc : ChainOk a) {i : ℕ} :
    a.holdsCredit ref i = true ↔ ∃ l root, l ∈ a.lots ∧ l.id = i ∧ a.rootLot ref = some root ∧
      l.openedAt = root.openedAt := by
  have hok := ha.lots
  have hnow : a.correctedLot ((a.findTopup ref).map Entry.id) =
      (a.rootLot ref).map (a.followReprice a.lots.length) := by
    unfold Account.correctedLot Account.rootLot Account.purchaseLotOfEntry
    cases a.findTopup ref <;> rfl
  have hend : ∀ l ∈ a.lots, ¬ a.Marked (a.followReprice a.lots.length l).id := by
    intro l hl
    rw [followReprice_eq]
    exact hc.not_marked_of_none hok (Chain.follow_ends (hc.climbs hok) hl (le_refl _))
  unfold Account.holdsCredit
  rw [hnow]
  constructor
  · intro h
    cases hread : a.readLot i with
    | none =>
      rw [hread] at h
      cases h
    | some l =>
      cases hroot : a.rootLot ref with
      | none =>
        rw [hread, hroot] at h
        cases h
      | some root =>
        rw [hread, hroot] at h
        simp only [Option.map_some, decide_eq_true_eq] at h
        obtain ⟨hl, hid⟩ := readLot_some hread
        have hrootMem := ((rootLot_some ha).mp hroot).1
        obtain ⟨hlm, hls⟩ := hc.follow_openedAt hok hl a.lots.length
        obtain ⟨hrm, hrs⟩ := hc.follow_openedAt hok hrootMem a.lots.length
        rw [List.inj_on_of_nodup_map hok.ids hlm hrm h] at hls
        exact ⟨l, root, hl, hid, rfl, hls.symm.trans hrs⟩
  · rintro ⟨l, root, hl, rfl, hroot, hat⟩
    rw [hok.readLot_of_mem hl, hroot]
    simp only [Option.map_some, decide_eq_true_eq]
    have hrootMem := ((rootLot_some ha).mp hroot).1
    obtain ⟨hlm, hls⟩ := hc.follow_openedAt hok hl a.lots.length
    obtain ⟨hrm, hrs⟩ := hc.follow_openedAt hok hrootMem a.lots.length
    -- neither end was sold again, so they are one lot
    by_contra hne
    rcases hc.places _ hlm _ hrm (hls.trans (hat.trans hrs.symm)) hne with hm | hm
    · exact hend l hl hm
    · exact hend root hrootMem hm

/-- The lot that holds a purchase now is one of its lots. -/
theorem holdsCredit_now (ha : BooksOk a) (hc : ChainOk a) {paid : Entry} {l : Lot}
    (hpaid : a.findTopup ref = some paid) (hl : a.purchaseLotOfEntry paid.id = some l) :
    a.holdsCredit ref l.id = true := by
  obtain ⟨root, hroot, rfl⟩ := Option.map_eq_some_iff.mp hl
  obtain ⟨hmem, hat⟩ := hc.follow_openedAt ha.lots (Table.findKey_some hroot).1 a.lots.length
  refine (holdsCredit_iff ha hc).mpr ⟨_, root, hmem, rfl, ?_, hat⟩
  unfold Account.rootLot
  rw [hpaid]
  exact hroot

/-- A lot that was not opened for a re-price belongs to the purchase its own row recorded. -/
theorem holdsCredit_root (ha : BooksOk a) (hc : ChainOk a) (hr : RootsOk a) {l : Lot} {e : Entry}
    (hl : l ∈ a.lots) (he : e ∈ a.ledger) (hid : l.ledgerEntryId = e.id)
    (hplain : ∀ i, ¬ e.Marks i) (h : a.holdsCredit ref l.id = true) :
    e.reason = .topup ∧ e.ref = some ref := by
  obtain ⟨k, root, hk, hkid, hroot, hat⟩ := (holdsCredit_iff ha hc).mp h
  obtain rfl := List.inj_on_of_nodup_map ha.lots.ids hk hl hkid
  obtain ⟨hrootMem, paid, hpaid, hreason, href, hentry⟩ := (rootLot_some ha).mp hroot
  have hnot : ∀ {x : Lot} {f : Entry}, f ∈ a.ledger → x.ledgerEntryId = f.id →
      (∀ i, ¬ f.Marks i) → ¬ a.Replacement x := by
    rintro x f hf hxf hfp ⟨g, hg, hgx, i, hi⟩
    rw [ha.ledger.eq_of_id hg hf (hgx.trans hxf)] at hi
    exact hfp i hi
  have hpaidPlain : ∀ i, ¬ paid.Marks i := by
    intro i hi
    rw [hi.1] at hreason
    cases hreason
  by_cases hsame : k.id = root.id
  · rw [← List.inj_on_of_nodup_map ha.lots.ids hk hrootMem hsame, hid] at hentry
    rw [ha.ledger.eq_of_id he hpaid hentry]
    exact ⟨hreason, href⟩
  · rcases hr.roots k hk root hrootMem hat hsame with h | h
    · exact absurd h (hnot he hid hplain)
    · exact absurd h (hnot hpaid hentry hpaidPlain)

/-- A lot is on one purchase. -/
theorem holdsCredit_unique (ha : BooksOk a) (hc : ChainOk a) (hr : RootsOk a) {ref' : String}
    {i : ℕ} (h : a.holdsCredit ref i = true) (h' : a.holdsCredit ref' i = true) : ref = ref' := by
  obtain ⟨l, root, hl, hid, hroot, hat⟩ := (holdsCredit_iff ha hc).mp h
  obtain ⟨k, root', hk, hkid, hroot', hat'⟩ := (holdsCredit_iff ha hc).mp h'
  obtain rfl := List.inj_on_of_nodup_map ha.lots.ids hl hk (hid.trans hkid.symm)
  obtain ⟨hmem, paid, hpaid, hreason, href, hentry⟩ := (rootLot_some ha).mp hroot
  have hplain : ∀ i, ¬ paid.Marks i := by
    intro i hi
    rw [hi.1] at hreason
    cases hreason
  have hboth : a.holdsCredit ref' root.id = true :=
    (holdsCredit_iff ha hc).mpr ⟨root, root', hmem, rfl, hroot', hat.symm.trans hat'⟩
  have hname := (holdsCredit_root ha hc hr hmem hpaid hentry hplain hboth).2
  rw [href] at hname
  exact Option.some.inj hname

/-- **Which old lots a purchase is on does not change.** -/
theorem holdsCredit_keeps (ha : BooksOk a) (hc : ChainOk a) (hr : RootsOk a) (hb : BooksOk a')
    (hsteps : LotSteps a a') (hledger : a.ledger <+: a'.ledger) {i : ℕ} (hi : i < a.nextId) :
    a'.holdsCredit ref i = a.holdsCredit ref i := by
  obtain ⟨hc', -⟩ := hsteps.roots ha hc hr
  obtain ⟨-, hfor, hback⟩ := hsteps.keeps ha
  have hgrow : ∀ e ∈ a.ledger, e ∈ a'.ledger := fun e he => hledger.subset he
  rw [Bool.eq_iff_iff, holdsCredit_iff hb hc', holdsCredit_iff ha hc]
  constructor
  · rintro ⟨l', root', hl', hid, hroot', hat⟩
    obtain ⟨hrootMem, paid, hpaid, hreason, href, hentry⟩ := (rootLot_some hb).mp hroot'
    obtain ⟨l, hl, hlt⟩ : ∃ l ∈ a.lots, l'.terms = l.terms := by
      rcases hback l' hl' with hold | hnew
      · exact hold
      · omega
    rcases hsteps.origin.2 root' hrootMem with ⟨root, hroot, hrt⟩ | hstamp | ⟨f, hf, hfid, j, hj⟩
    · obtain ⟨x, hx, hxid⟩ := hr.written root hroot
      have hrootEntry : root'.ledgerEntryId = root.ledgerEntryId :=
        congrArg LotTerms.ledgerEntryId hrt
      have hsame : x = paid := by
        apply hb.ledger.eq_of_id (hgrow x hx) hpaid
        rw [hxid, ← hrootEntry, hentry]
      refine ⟨l, root, hl, (terms_id hlt).symm.trans hid, (rootLot_some ha).mpr ⟨hroot, x, hx,
        hsame ▸ hreason, hsame ▸ href, hxid.symm⟩, ?_⟩
      rw [← terms_openedAt hlt, ← terms_openedAt hrt]
      exact hat
    · -- the purchase came later than the lot
      have := hc.stamped l hl
      rw [← hat, terms_openedAt hlt] at hstamp
      omega
    · rw [hb.ledger.eq_of_id hf hpaid (hfid.trans hentry)] at hj
      rw [hj.1] at hreason
      cases hreason
  · rintro ⟨l, root, hl, hid, hroot, hat⟩
    obtain ⟨hrootMem, paid, hpaid, hreason, href, hentry⟩ := (rootLot_some ha).mp hroot
    obtain ⟨l', hl', hlt⟩ := hfor l hl
    obtain ⟨root', hroot', hrt⟩ := hfor root hrootMem
    have hrootEntry : root'.ledgerEntryId = root.ledgerEntryId :=
      congrArg LotTerms.ledgerEntryId hrt
    refine ⟨l', root', hl', (terms_id hlt).trans hid, (rootLot_some hb).mpr ⟨hroot', paid,
      hgrow paid hpaid, hreason, href, hrootEntry.trans hentry⟩, ?_⟩
    rw [terms_openedAt hlt, terms_openedAt hrt]
    exact hat

end Purchase

end Billing

end Calevate
