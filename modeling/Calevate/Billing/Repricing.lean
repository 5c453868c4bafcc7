import Calevate.Billing.Helpers.Queue
import Calevate.Lib.Chain

/-!
# A lot sold again

A re-price closes a lot and opens another for its credit, and a marker row on the ledger links
the two. A purchase that was re-priced is found by following the markers from the lot its row
opened, so every later correction of it rests on the shape of that chain: one successor for
each lot, none that leads back, and an end that the corrections act on.

`ChainOk` is that shape. What keeps it is that a marked lot stays closed: credit is only ever
put back on the lot at the end of a chain, and a closed lot cannot be sold again.
-/

namespace Calevate

namespace Billing

open Lib

/-! ## The chain -/

/-- `k` was opened in place of `l`: later, at no dearer rates, with `l`'s place in the queue
and `l`'s expiry. -/
structure Follows (l k : Lot) : Prop where
  later : l.id < k.id
  openedAt : k.openedAt = l.openedAt
  expiresAt : k.expiresAt = l.expiresAt
  clear : k.rates.clearInrPerMin ≤ l.rates.clearInrPerMin
  studio : k.rates.studioInrPerMin ≤ l.rates.studioInrPerMin

/-- Being a replacement is a matter of the terms. -/
theorem Follows.of_terms {l k l' k' : Lot} (h : Follows l k) (hl : l'.terms = l.terms)
    (hk : k'.terms = k.terms) : Follows l' k' := by
  simp only [Lot.terms, LotTerms.mk.injEq] at hl hk
  obtain ⟨hlid, -, -, -, hlr, -, hlo, hle⟩ := hl
  obtain ⟨hkid, -, -, -, hkr, -, hko, hke⟩ := hk
  exact ⟨by rw [hlid, hkid]; exact h.later, by rw [hlo, hko]; exact h.openedAt,
    by rw [hle, hke]; exact h.expiresAt, by rw [hlr, hkr]; exact h.clear,
    by rw [hlr, hkr]; exact h.studio⟩

/-- The lot has been sold again. -/
def Account.Marked (a : Account) (lotId : ℕ) : Prop := ∃ e ∈ a.ledger, e.Marks lotId

/-- **The shape of the chains.** -/
structure ChainOk (a : Account) : Prop where
  once : a.ledger.Pairwise fun e f => ∀ i, ¬ (e.Marks i ∧ f.Marks i)
  link : ∀ e ∈ a.ledger, ∀ i, e.Marks i → ∃ l ∈ a.lots, ∃ k ∈ a.lots, l.id = i ∧
    l.closedAt ≠ none ∧ k.ledgerEntryId = e.id ∧ Follows l k
  stamped : ∀ l ∈ a.lots, l.openedAt ≤ a.clock
  places : ∀ l ∈ a.lots, ∀ k ∈ a.lots, l.openedAt = k.openedAt → l.id ≠ k.id →
    a.Marked l.id ∨ a.Marked k.id

theorem chainOk_empty : ChainOk {} where
  once := List.Pairwise.nil
  link := by intro e he; cases he
  stamped := by intro l hl; cases hl
  places := by intro l hl; cases hl

section Successor

variable {a : Account}

theorem lotOfEntry_of_mem (hok : LotsOk a) {l : Lot} (hl : l ∈ a.lots) :
    a.lotOfEntry l.ledgerEntryId = some l :=
  Table.findKey_of_mem hok.entries hl

/-- Two markers of one lot are one row. -/
theorem ChainOk.marks_unique (h : ChainOk a) {e f : Entry} {i : ℕ} (he : e ∈ a.ledger)
    (hf : f ∈ a.ledger) (hei : e.Marks i) (hfi : f.Marks i) : e = f := by
  by_contra hne
  have : Std.Symm fun x y : Entry => ∀ i, ¬ (x.Marks i ∧ y.Marks i) :=
    ⟨fun x y hxy i hi => hxy i ⟨hi.2, hi.1⟩⟩
  exact h.once.forall he hf hne i ⟨hei, hfi⟩

/-- **The successor of a lot is the lot its marker opened.** -/
theorem ChainOk.repriceSuccessor_iff (h : ChainOk a) (hok : LotsOk a) {i : ℕ} {k : Lot} :
    a.repriceSuccessor i = some k ↔
      ∃ e ∈ a.ledger, e.Marks i ∧ k ∈ a.lots ∧ k.ledgerEntryId = e.id := by
  have hmem : ∀ e, e ∈ a.ledger.filter (fun e => e.reason = .adjustment ∧
      e.entryMeta.kind = some .lotRateOverride ∧ e.entryMeta.lotId = some i) ↔
      e ∈ a.ledger ∧ e.Marks i := by
    intro e
    simp [Entry.Marks]
  unfold Account.repriceSuccessor
  constructor
  · intro hs
    obtain ⟨e, he, hk⟩ := List.exists_of_findSome?_eq_some hs
    obtain ⟨hel, hei⟩ := (hmem e).mp he
    obtain ⟨hkmem, hkid⟩ := Table.findKey_some hk
    exact ⟨e, hel, hei, hkmem, hkid⟩
  · rintro ⟨e, hel, hei, hkmem, hkid⟩
    have hk : a.lotOfEntry e.id = some k := by
      rw [← hkid]
      exact lotOfEntry_of_mem hok hkmem
    cases hs : (a.ledger.filter fun e => e.reason = .adjustment ∧
        e.entryMeta.kind = some .lotRateOverride ∧ e.entryMeta.lotId = some i).findSome?
        fun e => a.lotOfEntry e.id with
    | none =>
      rw [List.findSome?_eq_none_iff] at hs
      rw [hs e ((hmem e).mpr ⟨hel, hei⟩)] at hk
      cases hk
    | some k' =>
      obtain ⟨f, hf, hfk⟩ := List.exists_of_findSome?_eq_some hs
      obtain ⟨hfl, hfi⟩ := (hmem f).mp hf
      rw [h.marks_unique hfl hel hfi hei, hk] at hfk
      exact hfk.symm

theorem ChainOk.follows (h : ChainOk a) (hok : LotsOk a) {l k : Lot} (hl : l ∈ a.lots)
    (hs : a.repriceSuccessor l.id = some k) : k ∈ a.lots ∧ Follows l k := by
  obtain ⟨e, he, hei, hk, hkid⟩ := (h.repriceSuccessor_iff hok).mp hs
  obtain ⟨l', hl', k', hk', hid, -, hkid', hfol⟩ := h.link e he l.id hei
  rw [List.inj_on_of_nodup_map hok.ids hl' hl hid,
    List.inj_on_of_nodup_map hok.entries hk' hk (hkid'.trans hkid.symm)] at hfol
  exact ⟨hk, hfol⟩

/-- A lot without a successor has not been sold again. -/
theorem ChainOk.not_marked_of_none (h : ChainOk a) (hok : LotsOk a) {i : ℕ}
    (hs : a.repriceSuccessor i = none) : ¬ a.Marked i := by
  rintro ⟨e, he, hei⟩
  obtain ⟨-, -, k, hk, -, -, hkid, -⟩ := h.link e he i hei
  rw [(h.repriceSuccessor_iff hok).mpr ⟨e, he, hei, hk, hkid⟩] at hs
  cases hs

/-- A lot sold again is closed. -/
theorem ChainOk.closed_of_marked (h : ChainOk a) (hok : LotsOk a) {l : Lot} (hl : l ∈ a.lots)
    (hm : a.Marked l.id) : l.closedAt ≠ none := by
  obtain ⟨e, he, hei⟩ := hm
  obtain ⟨l', hl', -, -, hid, hclosed, -⟩ := h.link e he l.id hei
  rwa [List.inj_on_of_nodup_map hok.ids hl' hl hid] at hclosed

/-! ## Following it -/

/-- The successor of a row of the table. -/
def Account.nextLot (a : Account) (l : Lot) : Option Lot := a.repriceSuccessor l.id

theorem followReprice_eq (a : Account) (n : ℕ) (l : Lot) :
    a.followReprice n l = Chain.follow a.nextLot n l := by
  induction n generalizing l with
  | zero => rfl
  | succ n ih =>
    unfold Account.followReprice Chain.follow Account.nextLot
    cases a.repriceSuccessor l.id with
    | none => rfl
    | some next => exact ih next

theorem ChainOk.climbs (h : ChainOk a) (hok : LotsOk a) :
    Chain.Climbs a.nextLot Lot.id a.lots := by
  intro l hl k hs
  obtain ⟨hk, hfol⟩ := h.follows hok hl hs
  exact ⟨hk, hfol.later⟩

/-- **The lot that holds a purchase has no successor.** -/
theorem ChainOk.purchase_ends (h : ChainOk a) (hok : LotsOk a) {entryId : ℕ} {l : Lot}
    (hp : a.purchaseLotOfEntry entryId = some l) : a.repriceSuccessor l.id = none := by
  unfold Account.purchaseLotOfEntry at hp
  obtain ⟨l₀, h₀, rfl⟩ := Option.map_eq_some_iff.mp hp
  rw [followReprice_eq]
  exact Chain.follow_ends (h.climbs hok) (Table.findKey_some h₀).1 (le_refl _)

end Successor

/-! ## One step keeps the shape -/

section Step

variable {a a' : Account}

/-- Each lot is still there under its terms, and a lot sold again is still closed. -/
def Carries (a a' : Account) : Prop :=
  ∀ l ∈ a.lots, ∃ l' ∈ a'.lots, l'.terms = l.terms ∧ (a.Marked l.id → l'.closedAt ≠ none)

theorem terms_id {l l' : Lot} (h : l'.terms = l.terms) : l'.id = l.id := congrArg LotTerms.id h

theorem terms_openedAt {l l' : Lot} (h : l'.terms = l.terms) : l'.openedAt = l.openedAt :=
  congrArg LotTerms.openedAt h

theorem ChainOk.link_carried (h : ChainOk a) (hcarry : Carries a a') {e : Entry} {i : ℕ}
    (he : e ∈ a.ledger) (hei : e.Marks i) : ∃ l ∈ a'.lots, ∃ k ∈ a'.lots, l.id = i ∧
      l.closedAt ≠ none ∧ k.ledgerEntryId = e.id ∧ Follows l k := by
  obtain ⟨l, hl, k, hk, rfl, -, hkid, hfol⟩ := h.link e he i hei
  obtain ⟨l', hl', hlt, hclosed⟩ := hcarry l hl
  obtain ⟨k', hk', hkt, -⟩ := hcarry k hk
  have hentry : k'.ledgerEntryId = k.ledgerEntryId := congrArg LotTerms.ledgerEntryId hkt
  exact ⟨l', hl', k', hk', terms_id hlt, hclosed ⟨e, he, hei⟩, hentry.trans hkid,
    hfol.of_terms hlt hkt⟩

/-- Every row of the new table is a row of the old one under the same terms. -/
theorem Replaces.back {l l' : Lot} (h : Replaces a a' l l') (hterms : l'.terms = l.terms) :
    ∀ k' ∈ a'.lots, ∃ k ∈ a.lots, k'.terms = k.terms := by
  rw [h.lots]
  intro k' hk'
  rcases Table.mem_updateKey.mp hk' with ⟨hk, -⟩ | ⟨-, -, -, rfl⟩
  · exact ⟨k', hk, rfl⟩
  · exact ⟨l, h.mem, hterms⟩

theorem Replaces.carries {l l' : Lot} (h : Replaces a a' l l') (hc : ChainOk a) (hok : LotsOk a)
    (hterms : l'.terms = l.terms) (hstay : a.Marked l.id → l'.closedAt ≠ none) :
    Carries a a' := by
  intro k hk
  by_cases hid : k.id = l.id
  · obtain rfl := List.inj_on_of_nodup_map hok.ids hk h.mem hid
    exact ⟨l', h.mem_new, hterms, hstay⟩
  · exact ⟨k, h.mem_of_ne hk hid, rfl, hc.closed_of_marked hok hk⟩

/-- **A row put in a lot's place keeps the chains**, if a lot sold again stays closed. -/
theorem ChainOk.swap {l l' : Lot} (hc : ChainOk a) (hok : LotsOk a) (h : Replaces a a' l l')
    (hterms : l'.terms = l.terms) (hstay : a.Marked l.id → l'.closedAt ≠ none) : ChainOk a' := by
  have hmarked : ∀ i, a'.Marked i ↔ a.Marked i := by
    intro i
    unfold Account.Marked
    rw [h.only.ledger]
  refine ⟨by rw [h.only.ledger]; exact hc.once, ?_, ?_, ?_⟩
  · rw [h.only.ledger]
    intro e he i hei
    exact hc.link_carried (h.carries hc hok hterms hstay) he hei
  · intro k' hk'
    obtain ⟨k, hk, ht⟩ := h.back hterms k' hk'
    rw [terms_openedAt ht]
    exact (hc.stamped k hk).trans h.only.clock
  · intro j' hj' k' hk' hat hne
    obtain ⟨j, hj, hjt⟩ := h.back hterms j' hj'
    obtain ⟨k, hk, hkt⟩ := h.back hterms k' hk'
    rw [hmarked, hmarked, terms_id hjt, terms_id hkt]
    rw [terms_openedAt hjt, terms_openedAt hkt] at hat
    rw [terms_id hjt, terms_id hkt] at hne
    exact hc.places j hj k hk hat hne

/-- The lots as they were, under a ledger with one more plain row or none. -/
theorem ChainOk.frame (hc : ChainOk a) (rows : List Entry) (hledger : a'.ledger = a.ledger ++ rows)
    (hplain : ∀ e ∈ rows, ∀ i, ¬ e.Marks i) (hlots : a'.lots = a.lots)
    (hclock : a.clock ≤ a'.clock) : ChainOk a' := by
  have hmarked : ∀ i, a.Marked i → a'.Marked i := by
    rintro i ⟨e, he, hei⟩
    exact ⟨e, by rw [hledger]; exact List.mem_append_left _ he, hei⟩
  refine ⟨?_, ?_, ?_, ?_⟩
  · rw [hledger, List.pairwise_append]
    refine ⟨hc.once, ?_, ?_⟩
    · apply List.pairwise_of_forall_mem_list
      intro e he f _ i hi
      exact hplain e he i hi.1
    · intro e _ f hf i hi
      exact hplain f hf i hi.2
  · rw [hledger, hlots]
    intro e he i hei
    rcases List.mem_append.mp he with he | he
    · exact hc.link e he i hei
    · exact absurd hei (hplain e he i)
  · rw [hlots]
    exact fun l hl => (hc.stamped l hl).trans hclock
  · rw [hlots]
    intro l hl k hk hat hne
    exact (hc.places l hl k hk hat hne).imp (hmarked _) (hmarked _)

/-- **A lot that opens for new money joins no chain**: its stamp is its own. -/
theorem ChainOk.opened {l : Lot} (hc : ChainOk a) (hledger : a'.ledger = a.ledger)
    (hlots : a'.lots = a.lots ++ [l]) (hstamp : a.clock < l.openedAt ∧ l.openedAt ≤ a'.clock)
    (hclock : a.clock ≤ a'.clock) : ChainOk a' := by
  have hmarked : ∀ i, a'.Marked i ↔ a.Marked i := by
    intro i
    unfold Account.Marked
    rw [hledger]
  refine ⟨by rw [hledger]; exact hc.once, ?_, ?_, ?_⟩
  · rw [hledger, hlots]
    intro e he i hei
    obtain ⟨j, hj, k, hk, hrest⟩ := hc.link e he i hei
    exact ⟨j, List.mem_append_left _ hj, k, List.mem_append_left _ hk, hrest⟩
  · rw [hlots]
    intro k hk
    rcases List.mem_append.mp hk with hk | hk
    · exact (hc.stamped k hk).trans hclock
    · obtain rfl := List.mem_singleton.mp hk
      exact hstamp.2
  · rw [hlots]
    intro j hj k hk hat hne
    rw [hmarked, hmarked]
    rcases List.mem_append.mp hj with hj | hj <;> rcases List.mem_append.mp hk with hk | hk
    · exact hc.places j hj k hk hat hne
    · have := hc.stamped j hj
      rw [List.mem_singleton.mp hk] at hat
      omega
    · have := hc.stamped k hk
      rw [List.mem_singleton.mp hj] at hat
      omega
    · rw [List.mem_singleton.mp hj, List.mem_singleton.mp hk] at hne
      exact absurd rfl hne

/-- **A re-price lengthens one chain by one lot.** -/
theorem ChainOk.resold {l closed fresh : Lot} {e : Entry} (hc : ChainOk a) (hok : LotsOk a)
    (h : Resold a a' l closed fresh e) : ChainOk a' := by
  -- the lot was open, so it had not been sold before
  have hfirst : ¬ a.Marked l.id := fun hm => hc.closed_of_marked hok h.mem hm h.wasOpen
  have hmarked : ∀ i, a.Marked i → a'.Marked i := by
    rintro i ⟨f, hf, hfi⟩
    exact ⟨f, by rw [h.ledger]; exact List.mem_append_left _ hf, hfi⟩
  have hmarks : ∀ i, e.Marks i → i = l.id := by
    intro i hi
    have := hi.2.2.symm.trans h.marks.2.2
    exact Option.some.inj this
  have hclosed : closed ∈ a'.lots := by
    rw [h.lots]
    exact List.mem_append_left _ (Table.mem_updateKey.mpr (Or.inr ⟨l, h.mem, rfl, rfl⟩))
  have hfresh : fresh ∈ a'.lots := by
    rw [h.lots]
    exact List.mem_append_right _ List.mem_cons_self
  have hcarry : Carries a a' := by
    intro k hk
    by_cases hid : k.id = l.id
    · obtain rfl := List.inj_on_of_nodup_map hok.ids hk h.mem hid
      exact ⟨closed, hclosed, h.terms, fun _ => h.nowClosed⟩
    · refine ⟨k, ?_, rfl, hc.closed_of_marked hok hk⟩
      rw [h.lots]
      exact List.mem_append_left _ (Table.mem_updateKey.mpr (Or.inl ⟨hk, hid⟩))
  have hback : ∀ k' ∈ a'.lots, k' = fresh ∨ ∃ k ∈ a.lots, k'.terms = k.terms := by
    rw [h.lots]
    intro k' hk'
    rcases List.mem_append.mp hk' with hk' | hk'
    · rcases Table.mem_updateKey.mp hk' with ⟨hk, -⟩ | ⟨-, -, -, rfl⟩
      · exact Or.inr ⟨k', hk, rfl⟩
      · exact Or.inr ⟨l, h.mem, h.terms⟩
    · exact Or.inl (List.mem_singleton.mp hk')
  have hplace : ∀ k ∈ a.lots, k.openedAt = fresh.openedAt → a'.Marked k.id := by
    intro k hk hat
    by_cases hid : k.id = l.id
    · refine ⟨e, ?_, hid ▸ h.marks⟩
      rw [h.ledger]
      exact List.mem_append_right _ List.mem_cons_self
    · rw [h.place.1] at hat
      exact hmarked _ ((hc.places k hk l h.mem hat hid).resolve_right hfirst)
  refine ⟨?_, ?_, ?_, ?_⟩
  · rw [h.ledger, List.pairwise_append]
    refine ⟨hc.once, List.pairwise_singleton _ _, ?_⟩
    intro f hf g hg i hi
    obtain rfl := List.mem_singleton.mp hg
    obtain rfl := hmarks i hi.2
    exact hfirst ⟨f, hf, hi.1⟩
  · rw [h.ledger]
    intro f hf i hfi
    rcases List.mem_append.mp hf with hf | hf
    · exact hc.link_carried hcarry hf hfi
    · obtain rfl := List.mem_singleton.mp hf
      obtain rfl := hmarks i hfi
      have hlater := hok.ids_lt l h.mem
      have hfollows : Follows l fresh :=
        ⟨lt_of_lt_of_le hlater h.later, h.place.1, h.place.2, h.cheaper.1, h.cheaper.2⟩
      exact ⟨closed, hclosed, fresh, hfresh, terms_id h.terms, h.nowClosed, h.entry,
        hfollows.of_terms h.terms rfl⟩
  · intro k' hk'
    rcases hback k' hk' with rfl | ⟨k, hk, ht⟩
    · rw [h.place.1]
      exact (hc.stamped l h.mem).trans h.clock
    · rw [terms_openedAt ht]
      exact (hc.stamped k hk).trans h.clock
  · intro j' hj' k' hk' hat hne
    rcases hback j' hj' with rfl | ⟨j, hj, hjt⟩ <;> rcases hback k' hk' with rfl | ⟨k, hk, hkt⟩
    · exact absurd rfl hne
    · rw [terms_openedAt hkt] at hat
      exact Or.inr (terms_id hkt ▸ hplace k hk hat.symm)
    · rw [terms_openedAt hjt] at hat
      exact Or.inl (terms_id hjt ▸ hplace j hj hat)
    · rw [terms_openedAt hjt, terms_openedAt hkt] at hat
      rw [terms_id hjt, terms_id hkt] at hne ⊢
      exact (hc.places j hj k hk hat hne).imp (hmarked _) (hmarked _)

/-- **Every step of a lot keeps the chains.** -/
theorem ChainOk.step (ha : BooksOk a) (hb : BooksOk a') (h : LotStep a a') (hc : ChainOk a) :
    ChainOk a' := by
  cases h with
  | still ledger lots clock nextId =>
    exact hc.frame [] (by rw [ledger, List.append_nil]) (by simp) lots clock
  | row e ledger lots plain clock nextId =>
    refine hc.frame [e] ledger ?_ lots clock
    intro f hf
    rw [List.mem_singleton.mp hf]
    exact plain
  | opened l ledger lots stamp later entry clock nextId =>
    exact hc.opened ledger lots stamp clock
  | spent l l' swap terms less =>
    refine hc.swap ha.lots swap terms fun hm hopen => ?_
    -- a closed lot holds nothing, and gives up no more
    have hz := (ha.lots.sound l swap.mem).closed (hc.closed_of_marked ha.lots swap.mem hm)
    have hpos := (hb.lots.sound l' swap.mem_new).mp hopen
    omega
  | restated l l' entryId swap terms purchase =>
    refine hc.swap ha.lots swap terms fun hm => ?_
    exact absurd hm (hc.not_marked_of_none ha.lots (hc.purchase_ends ha.lots purchase))
  | resold l closed fresh e pair => exact hc.resold ha.lots pair

end Step

/-- The chains of every reachable state. -/
theorem ChainOk.run (ops : List Op) : BooksOk (runOps ops {}) ∧ ChainOk (runOps ops {}) :=
  runOps_lotInv (fun _ _ ha hb h hc => hc.step ha hb h) booksOk_empty chainOk_empty ops

/-! ## The queue -/

/-- The credit's place in the queue: when it was bought, when it lapses, how much is left. -/
def Lot.place (l : Lot) : ℕ × Option ℕ × ℤ := (l.openedAt, l.expiresAt, l.creditsRemaining)

section Queue

variable {a a' : Account}

/-- **No two open lots share a stamp**, so the queue is in the order of the stamps. -/
theorem ChainOk.queue_strict (hc : ChainOk a) (hok : LotsOk a) :
    a.readOpenLots.Pairwise fun l k => l.openedAt < k.openedAt := by
  have hsorted := readOpenLots_sorted a
  have hids : a.readOpenLots.Pairwise fun l k => l.id ≠ k.id :=
    List.pairwise_map.mp (readOpenLots_ids hok)
  refine (hsorted.and hids).imp_of_mem ?_
  intro l k hl hk hlk
  obtain ⟨hlmem, hlopen⟩ := mem_readOpenLots.mp hl
  obtain ⟨hkmem, hkopen⟩ := mem_readOpenLots.mp hk
  rcases hlk.1 with hlt | ⟨hat, -⟩
  · exact hlt
  · exfalso
    rcases hc.places l hlmem k hkmem hat hlk.2 with hm | hm
    · exact hc.closed_of_marked hok hlmem hm hlopen
    · exact hc.closed_of_marked hok hkmem hm hkopen

/-- The open lots of both tables, but for the one sold and the one opened for it. -/
theorem Resold.places_perm {l closed fresh : Lot} {e : Entry} (h : Resold a a' l closed fresh e)
    (hok : LotsOk a) :
    (a'.readOpenLots.map Lot.place).Perm (a.readOpenLots.map Lot.place) := by
  obtain ⟨p, q, hpq⟩ := List.append_of_mem h.mem
  have hnd : ((p ++ l :: q).map Lot.id).Nodup := by
    rw [← hpq]
    exact hok.ids
  have hlots : a'.lots = p ++ closed :: q ++ [fresh] := by
    rw [h.lots, hpq, Table.updateKey_append_cons hnd]
  have hl : l.isOpen = true := by simp [Lot.isOpen, h.wasOpen]
  have hclosed : closed.isOpen = false := by
    simpa [Lot.isOpen, Option.isSome_iff_ne_none] using h.nowClosed
  have hfresh : fresh.isOpen = true := by simp [Lot.isOpen, h.isOpen]
  have hplace : fresh.place = l.place := by
    simp only [Lot.place, h.place.1, h.place.2, h.credit]
  have hnew : (a'.readOpenLots.map Lot.place).Perm
      (((p ++ closed :: q ++ [fresh]).filter Lot.isOpen).map Lot.place) := by
    rw [← hlots]
    exact (List.perm_insertionSort _ _).map _
  have hold : (a.readOpenLots.map Lot.place).Perm
      (((p ++ l :: q).filter Lot.isOpen).map Lot.place) := by
    rw [← hpq]
    exact (List.perm_insertionSort _ _).map _
  refine (hnew.trans ?_).trans hold.symm
  simp only [List.filter_append, List.filter_cons, List.filter_nil, hclosed, hl, hfresh,
    if_true, Bool.false_eq_true, if_false, List.map_append, List.map_cons, List.map_nil, hplace,
    List.append_assoc]
  exact List.Perm.append_left _ (List.perm_append_singleton _ _)

/-- **A re-price leaves the queue as it was**: the same credit, in the same order, with the
same expiry. -/
theorem Resold.queue_eq {l closed fresh : Lot} {e : Entry} (h : Resold a a' l closed fresh e)
    (ha : BooksOk a) (hb : BooksOk a') (hc : ChainOk a) :
    a'.readOpenLots.map Lot.place = a.readOpenLots.map Lot.place := by
  have hc' := hc.resold ha.lots h
  have hstrict : ∀ {b : Account}, BooksOk b → ChainOk b →
      (b.readOpenLots.map Lot.place).Pairwise fun x y => x.1 < y.1 := by
    intro b hbooks hchain
    exact List.pairwise_map.mpr (hchain.queue_strict hbooks.lots)
  refine List.Perm.eq_of_pairwise ?_ (hstrict hb hc') (hstrict ha hc) (h.places_perm ha.lots)
  intro x y _ _ hxy hyx
  omega

end Queue

/-! ## The result -/

/-- The chain of re-prices from one lot. -/
abbrev Account.Repriced (a : Account) : Lot → Lot → Prop := Chain.Reaches a.nextLot

/-- A lot is sold again at most once. -/
theorem ChainOk.marks_once {a : Account} (hc : ChainOk a) (i : ℕ) :
    (a.ledger.filter fun e => e.Marks i).length ≤ 1 := by
  have honce := hc.once.filter fun e => decide (e.Marks i)
  have hall : ∀ e ∈ a.ledger.filter (fun e => decide (e.Marks i)), e.Marks i := by
    intro e he
    simpa using (List.mem_filter.mp he).2
  generalize a.ledger.filter (fun e => decide (e.Marks i)) = rows at honce hall ⊢
  match rows with
  | [] => simp
  | [e] => simp
  | e :: f :: rest =>
    exact absurd ⟨hall e (by simp), hall f (by simp)⟩
      ((List.pairwise_cons.mp honce).1 f (by simp) i)

/-- Along a chain the credit keeps its place and its expiry and gets no dearer. -/
theorem ChainOk.repriced {a : Account} (hc : ChainOk a) (hok : LotsOk a) {first last : Lot}
    (hfirst : first ∈ a.lots) (h : a.Repriced first last) :
    last.openedAt = first.openedAt ∧ last.expiresAt = first.expiresAt ∧
      last.rates.clearInrPerMin ≤ first.rates.clearInrPerMin ∧
      last.rates.studioInrPerMin ≤ first.rates.studioInrPerMin := by
  refine (Chain.Reaches.rel (R := fun l k => k.openedAt = l.openedAt ∧ k.expiresAt = l.expiresAt ∧
    k.rates.clearInrPerMin ≤ l.rates.clearInrPerMin ∧
    k.rates.studioInrPerMin ≤ l.rates.studioInrPerMin) ?_ ?_ (hc.climbs hok) ?_ hfirst h).2
  · exact fun l => ⟨rfl, rfl, le_refl _, le_refl _⟩
  · rintro l k m ⟨ho, he, hcl, hst⟩ ⟨ho', he', hcl', hst'⟩
    exact ⟨ho'.trans ho, he'.trans he, hcl'.trans hcl, hst'.trans hst⟩
  · intro l hl k hs
    have hfol := (hc.follows hok hl hs).2
    exact ⟨hfol.openedAt, hfol.expiresAt, hfol.clear, hfol.studio⟩

/-- **The lot that holds a purchase is the last of its chain, and the only last one.** -/
theorem ChainOk.purchase_last {a : Account} (hc : ChainOk a) (hok : LotsOk a) {entryId : ℕ}
    {first : Lot} (hfirst : a.lotOfEntry entryId = some first) :
    ∃ last, a.purchaseLotOfEntry entryId = some last ∧ a.Repriced first last ∧
      a.repriceSuccessor last.id = none ∧
      (∀ k, a.Repriced first k → a.repriceSuccessor k.id = none → k = last) ∧
      (∀ n, a.lots.length ≤ n → a.followReprice n first = last) ∧
      last.openedAt = first.openedAt ∧ last.expiresAt = first.expiresAt ∧
      last.rates.clearInrPerMin ≤ first.rates.clearInrPerMin ∧
      last.rates.studioInrPerMin ≤ first.rates.studioInrPerMin := by
  have hmem := (Table.findKey_some hfirst).1
  have hends : ∀ n, a.lots.length ≤ n → a.nextLot (Chain.follow a.nextLot n first) = none :=
    fun n hn => Chain.follow_ends (hc.climbs hok) hmem hn
  have hreach := @Chain.reaches_follow _ a.nextLot a.lots.length first
  have hunique : ∀ k, a.Repriced first k → a.repriceSuccessor k.id = none →
      k = Chain.follow a.nextLot a.lots.length first := fun k hk hkend =>
    Chain.eq_of_ends hk hreach hkend (hends _ (le_refl _))
  refine ⟨Chain.follow a.nextLot a.lots.length first, ?_, hreach, hends _ (le_refl _), hunique, ?_,
    hc.repriced hok hmem hreach⟩
  · unfold Account.purchaseLotOfEntry
    rw [hfirst, Option.map_some, followReprice_eq]
  · intro n hn
    rw [followReprice_eq]
    exact hunique _ (Chain.reaches_follow n first) (hends n hn)

/-- **Re-pricing conserves credit and position.** In every reachable state, a re-price leaves
the open credit, the balance and the queue as they were, moves the lot's credit to one
replacement with its place and its expiry at no dearer rates; and from the row of any entry
that opened a lot, `purchase_lot_of_entry` ends, at the one lot of the chain that has no
successor, whatever number of turns from the number of lots on it is given. -/
theorem reprice_conserves (ops : List Op) :
    (∀ ctx lotId pack r a', repriceLot ctx lotId pack (runOps ops {}) = .ok (some r, a') →
      a'.held = (runOps ops {}).held ∧ a'.balance = (runOps ops {}).balance ∧
      a'.readOpenLots.map Lot.place = (runOps ops {}).readOpenLots.map Lot.place ∧
      ∃ l fresh, (runOps ops {}).readLot lotId = some l ∧ a'.readLot r.replacementLotId = some fresh ∧
        fresh.place = l.place ∧ Follows l fresh) ∧
    (∀ i, ((runOps ops {}).ledger.filter fun e => e.Marks i).length ≤ 1) ∧
    ∀ entryId first, (runOps ops {}).lotOfEntry entryId = some first →
      ∃ last, (runOps ops {}).purchaseLotOfEntry entryId = some last ∧
        (runOps ops {}).Repriced first last ∧ (runOps ops {}).repriceSuccessor last.id = none ∧
        (∀ k, (runOps ops {}).Repriced first k → (runOps ops {}).repriceSuccessor k.id = none →
          k = last) ∧
        (∀ n, (runOps ops {}).lots.length ≤ n → (runOps ops {}).followReprice n first = last) ∧
        last.openedAt = first.openedAt ∧ last.expiresAt = first.expiresAt ∧
        last.rates.clearInrPerMin ≤ first.rates.clearInrPerMin ∧
        last.rates.studioInrPerMin ≤ first.rates.studioInrPerMin := by
  obtain ⟨ha, hc⟩ := ChainOk.run ops
  generalize runOps ops {} = a at ha hc
  refine ⟨?_, ?_, ?_⟩
  · intro ctx lotId pack r a' hsale
    obtain ⟨rows, hm, hsum, -⟩ := repriceLot_moves ha hsale
    rcases repriceLot_resold ha hsale with ⟨hnone, -⟩ | ⟨l, closed, fresh, e, hpair, rfl, -, -, -, -, hr⟩
    · cases hnone
    · cases hr
      have hfresh : fresh ∈ a'.lots := by
        rw [hpair.lots]
        exact List.mem_append_right _ List.mem_cons_self
      refine ⟨by rw [hm.held, add_zero], by rw [hm.balance ha, hsum, add_zero],
        hpair.queue_eq ha hm.books hc, l, fresh, ha.lots.readLot_of_mem hpair.mem,
        hm.books.lots.readLot_of_mem hfresh, ?_, ?_⟩
      · simp only [Lot.place, hpair.place.1, hpair.place.2, hpair.credit]
      · exact ⟨lt_of_lt_of_le (ha.lots.ids_lt l hpair.mem) hpair.later, hpair.place.1,
          hpair.place.2, hpair.cheaper.1, hpair.cheaper.2⟩
  · exact fun i => hc.marks_once i
  · exact fun entryId first hfirst => hc.purchase_last ha.lots hfirst

end Billing

end Calevate
