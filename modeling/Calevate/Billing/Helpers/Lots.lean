import Calevate.Billing.Lots
import Mathlib.Algebra.BigOperators.Group.List.Lemmas
import Mathlib.Tactic.Linarith

/-!
# Helpers — the lots

What each statement on the lots does to the total they hold. `LotsOk` is the invariant
the table's `CHECK`s do not state: a lot is open exactly while it holds credit, so the
total over the open lots is the total over all of them, and a statement moves it by what
it does to its one row. `consume_ok` is the fact the wallet rests on: a debit of `D`
leaves the lots holding `max (held - D) 0`.
-/

namespace Calevate

namespace Billing

open Lib

/-! ## The frame -/

/-- What a statement on the lots leaves alone: everything but the lots and the two
counters, which only grow. -/
structure LotsOnly (a a' : Account) : Prop where
  ledger : a'.ledger = a.ledger
  disputes : a'.disputes = a.disputes
  refundIntents : a'.refundIntents = a.refundIntents
  feePayments : a'.feePayments = a.feePayments
  clock : a.clock ≤ a'.clock
  nextId : a.nextId ≤ a'.nextId

theorem LotsOnly.refl (a : Account) : LotsOnly a a :=
  ⟨rfl, rfl, rfl, rfl, le_refl _, le_refl _⟩

theorem LotsOnly.trans {a b c : Account} (h : LotsOnly a b) (h' : LotsOnly b c) :
    LotsOnly a c :=
  ⟨h'.ledger.trans h.ledger, h'.disputes.trans h.disputes,
    h'.refundIntents.trans h.refundIntents, h'.feePayments.trans h.feePayments,
    h.clock.trans h'.clock, h.nextId.trans h'.nextId⟩

theorem LotsOnly.ledgerOk {a a' : Account} (h : LotsOnly a a') (hl : LedgerOk a) :
    LedgerOk a' where
  stamped := by rw [h.ledger]; exact hl.stamped
  stamped_le := by
    rw [h.ledger]
    intro e he
    exact (hl.stamped_le e he).trans h.clock
  ids := by rw [h.ledger]; exact hl.ids
  ids_lt := by
    rw [h.ledger]
    intro e he
    exact lt_of_lt_of_le (hl.ids_lt e he) h.nextId
  keys := by rw [h.ledger]; exact hl.keys
  chain := by rw [h.ledger]; exact hl.chain

/-! ## The invariant -/

/-- A lot is open exactly while it holds credit. -/
def Lot.Sound (l : Lot) : Prop := l.closedAt = none ↔ 0 < l.creditsRemaining

/-- The invariant of the lots. -/
structure LotsOk (a : Account) : Prop where
  ids : (a.lots.map Lot.id).Nodup
  ids_lt : ∀ l ∈ a.lots, l.id < a.nextId
  sound : ∀ l ∈ a.lots, l.Sound
  entries : (a.lots.map Lot.ledgerEntryId).Nodup

theorem lotsOk_empty : LotsOk {} where
  ids := List.nodup_nil
  ids_lt := by intro l hl; cases hl
  sound := by intro l hl; cases hl
  entries := List.nodup_nil

theorem Lot.Sound.closed {l : Lot} (h : l.Sound) (hc : l.closedAt ≠ none) :
    l.creditsRemaining = 0 := by
  have hn := l.remaining_nonneg
  by_contra hne
  exact hc (h.mpr (by omega))

theorem mem_readOpenLots {a : Account} {l : Lot} :
    l ∈ a.readOpenLots ↔ l ∈ a.lots ∧ l.closedAt = none := by
  simp [Account.readOpenLots, List.mem_insertionSort, Lot.isOpen]

/-- The order of the walk does not change what the lots hold. -/
theorem held_eq_filter (a : Account) :
    a.held = ((a.lots.filter Lot.isOpen).map Lot.creditsRemaining).sum := by
  unfold Account.held Account.readOpenLots
  exact ((List.perm_insertionSort _ _).map _).sum_eq

/-- **The open lots hold what all the lots hold.** -/
theorem LotsOk.held_eq {a : Account} (h : LotsOk a) :
    a.held = (a.lots.map Lot.creditsRemaining).sum := by
  rw [held_eq_filter]
  have hs := h.sound
  generalize a.lots = ls at hs
  induction ls with
  | nil => rfl
  | cons l ls ih =>
    have hrest := ih fun k hk => hs k (List.mem_cons_of_mem _ hk)
    by_cases ho : l.isOpen
    · rw [List.filter_cons_of_pos ho, List.map_cons, List.map_cons, List.sum_cons,
        List.sum_cons, hrest]
    · have hz : l.creditsRemaining = 0 := by
        apply (hs l List.mem_cons_self).closed
        simpa [Lot.isOpen] using ho
      rw [List.filter_cons_of_neg ho, List.map_cons, List.sum_cons, hrest, hz, zero_add]

theorem held_nonneg (a : Account) : 0 ≤ a.held := by
  apply List.sum_nonneg
  intro x hx
  obtain ⟨l, -, rfl⟩ := List.mem_map.mp hx
  exact l.remaining_nonneg

/-- One lot holds at most what all of them do. -/
theorem LotsOk.remaining_le_held {a : Account} (h : LotsOk a) {l : Lot} (hl : l ∈ a.lots) :
    l.creditsRemaining ≤ a.held := by
  rw [h.held_eq]
  apply List.single_le_sum
  · intro x hx
    obtain ⟨k, -, rfl⟩ := List.mem_map.mp hx
    exact k.remaining_nonneg
  · exact List.mem_map_of_mem hl

/-! ## One row replaced -/

/-- A row put in another's place. -/
structure Replaces (a a' : Account) (l l' : Lot) : Prop where
  only : LotsOnly a a'
  mem : l ∈ a.lots
  lots : a'.lots = Table.updateKey Lot.id l.id (fun _ => l') a.lots
  id : l'.id = l.id
  entry : l'.ledgerEntryId = l.ledgerEntryId

namespace Replaces

variable {a a' : Account} {l l' : Lot}

theorem lotsOk (h : Replaces a a' l l') (hok : LotsOk a) (hs : l'.Sound) : LotsOk a' where
  ids := by
    rw [h.lots, Table.map_updateKey]
    · exact hok.ids
    · intro x _ hx
      exact h.id.trans hx.symm
  ids_lt := by
    rw [h.lots]
    intro k hk
    rcases Table.mem_updateKey.mp hk with ⟨hk, -⟩ | ⟨x, hx, hxl, rfl⟩
    · exact lt_of_lt_of_le (hok.ids_lt k hk) h.only.nextId
    · rw [h.id]
      exact lt_of_lt_of_le (hok.ids_lt l h.mem) h.only.nextId
  sound := by
    rw [h.lots]
    intro k hk
    rcases Table.mem_updateKey.mp hk with ⟨hk, -⟩ | ⟨x, hx, hxl, rfl⟩
    · exact hok.sound k hk
    · exact hs
  entries := by
    rw [h.lots, Table.map_updateKey]
    · exact hok.entries
    · intro x hx hxl
      rw [List.inj_on_of_nodup_map hok.ids hx h.mem hxl, h.entry]

theorem held (h : Replaces a a' l l') (hok : LotsOk a) (hs : l'.Sound) :
    a'.held = a.held - l.creditsRemaining + l'.creditsRemaining := by
  rw [(h.lotsOk hok hs).held_eq, hok.held_eq, h.lots, Table.sum_updateKey hok.ids h.mem]

/-- The other rows stand. -/
theorem mem_of_ne (h : Replaces a a' l l') {k : Lot} (hk : k ∈ a.lots) (hne : k.id ≠ l.id) :
    k ∈ a'.lots := by
  rw [h.lots]
  exact Table.mem_updateKey.mpr (Or.inl ⟨hk, hne⟩)

/-- The rest of a queue stands: its ids are not this lot's. -/
theorem queue (h : Replaces a a' l l') {rest : List Lot} (hnot : l.id ∉ rest.map Lot.id)
    (hq : ∀ k ∈ rest, k ∈ a.lots ∧ k.closedAt = none) :
    ∀ k ∈ rest, k ∈ a'.lots ∧ k.closedAt = none := by
  intro k hk
  obtain ⟨hkmem, hkopen⟩ := hq k hk
  refine ⟨h.mem_of_ne hkmem ?_, hkopen⟩
  intro hid
  exact hnot (hid ▸ List.mem_map_of_mem hk)

theorem mem_new (h : Replaces a a' l l') : l' ∈ a'.lots := by
  rw [h.lots]
  exact Table.mem_updateKey.mpr (Or.inr ⟨l, h.mem, rfl, rfl⟩)

end Replaces

/-! ## The statements -/

section Rows

variable {l l' : Lot} {total remaining : ℤ} {closedAt : Option ℕ}

/-- A written row moves three columns and nothing else. -/
theorem Lot.write_ok (h : l.write total remaining closedAt = .ok l') :
    l'.creditsTotal = total ∧ l'.creditsRemaining = remaining ∧ l'.closedAt = closedAt ∧
      l'.id = l.id ∧ l'.ledgerEntryId = l.ledgerEntryId ∧ l'.rates = l.rates ∧
      l'.openedAt = l.openedAt ∧ l'.expiresAt = l.expiresAt := by
  unfold Lot.write at h
  split at h
  · cases h
    exact ⟨rfl, rfl, rfl, rfl, rfl, rfl, rfl, rfl⟩
  · cases h

/-- What a row looks like after `_TAKE_FROM_LOT`. -/
theorem takeRow_ok {seen take : ℤ} {now : ℕ} (h : takeRow seen take now l = .ok (some l')) :
    l.creditsRemaining = seen ∧ l.closedAt = none ∧
      l'.creditsRemaining = l.creditsRemaining - take ∧ l'.id = l.id ∧
      l'.ledgerEntryId = l.ledgerEntryId ∧ l'.creditsTotal = l.creditsTotal ∧ l'.Sound := by
  unfold takeRow at h
  split at h
  · rename_i hc
    cases hw : l.write l.creditsTotal (l.creditsRemaining - take)
        (if l.creditsRemaining - take = 0 then some now else l.closedAt) with
    | error e => rw [hw] at h; cases h
    | ok k =>
      rw [hw] at h
      cases h
      obtain ⟨ht, hr, hcl, hid, he, -⟩ := Lot.write_ok hw
      refine ⟨hc.1, hc.2, hr, hid, he, ht, ?_⟩
      have hn := l'.remaining_nonneg
      unfold Lot.Sound
      rw [hcl, hr]
      split
      · simp; omega
      · simp only [hc.2, true_iff]; omega
  · cases h

/-- What a row looks like after `_CLOSE_LOT`. -/
theorem closeRow_ok {seen : ℤ} {now : ℕ} (h : closeRow seen now l = .ok (some l')) :
    l.creditsRemaining = seen ∧ l.closedAt = none ∧ l'.creditsRemaining = 0 ∧ l'.id = l.id ∧
      l'.ledgerEntryId = l.ledgerEntryId ∧ l'.creditsTotal = l.creditsTotal ∧ l'.Sound := by
  unfold closeRow at h
  split at h
  · rename_i hc
    cases hw : l.write l.creditsTotal 0 (some now) with
    | error e => rw [hw] at h; cases h
    | ok k =>
      rw [hw] at h
      cases h
      obtain ⟨ht, hr, hcl, hid, he, -⟩ := Lot.write_ok hw
      refine ⟨hc.1, hc.2, hr, hid, he, ht, ?_⟩
      unfold Lot.Sound
      rw [hcl, hr]
      simp
  · cases h

/-- What a row looks like after `_RESTATE_LOT`. -/
theorem restateRow_ok {delta seenTotal seenRemaining : ℤ} {now : ℕ}
    (h : restateRow delta seenTotal seenRemaining now l = .ok (some l')) :
    l.creditsTotal = seenTotal ∧ l.creditsRemaining = seenRemaining ∧
      l'.creditsTotal = l.creditsTotal + delta ∧
      l'.creditsRemaining = max (l.creditsRemaining + delta) 0 ∧ l'.id = l.id ∧
      l'.ledgerEntryId = l.ledgerEntryId ∧ l'.Sound := by
  unfold restateRow at h
  split at h
  · rename_i hc
    cases hw : l.write (l.creditsTotal + delta) (max (l.creditsRemaining + delta) 0)
        (if max (l.creditsRemaining + delta) 0 = 0 then some (l.closedAt.getD now) else none) with
    | error e => rw [hw] at h; cases h
    | ok k =>
      rw [hw] at h
      cases h
      obtain ⟨ht, hr, hcl, hid, he, -⟩ := Lot.write_ok hw
      refine ⟨hc.1, hc.2, ht, hr, hid, he, ?_⟩
      unfold Lot.Sound
      rw [hcl, hr]
      split
      · simp_all
      · simp only [true_iff]; omega
  · cases h

end Rows

section Statements

variable {a a' : Account} {lotId : ℕ} {ok : Bool}

/-- A statement by id matched no row and wrote nothing, or rewrote the one row. -/
theorem execOnLot_ok {stmt : ℕ → Lot → Except Problem (Option Lot)}
    (h : execOnLot lotId stmt a = .ok (ok, a')) :
    (ok = false ∧ LotsOnly a a' ∧ a'.lots = a.lots ∧
      ∀ l, a.readLot lotId = some l → stmt (a.clock + 1) l = .ok none) ∨
    (ok = true ∧ ∃ l l', a.readLot lotId = some l ∧ stmt (a.clock + 1) l = .ok (some l') ∧
      LotsOnly a a' ∧ a'.lots = Table.updateKey Lot.id lotId (fun _ => l') a.lots) := by
  simp only [execOnLot, Tx.bind_ok, clockTimestamp_ok, Tx.get_ok] at h
  obtain ⟨_, _, h₁, _, _, h₂, h⟩ := h
  cases h₁
  cases h₂
  have hframe : LotsOnly a a.tick := ⟨rfl, rfl, rfl, rfl, Nat.le_succ _, le_refl _⟩
  have hread : a.tick.readLot lotId = a.readLot lotId := rfl
  rw [hread] at h
  cases hl : a.readLot lotId with
  | none =>
    rw [hl] at h
    cases Tx.pure_ok.mp h
    exact Or.inl ⟨rfl, hframe, rfl, by intro l hl'; cases hl'⟩
  | some l =>
    simp only [hl] at h
    cases hstmt : stmt (a.clock + 1) l with
    | error e =>
      rw [hstmt] at h
      exact (Tx.throw_ok.mp h).elim
    | ok o =>
      cases o with
      | none =>
        rw [hstmt] at h
        cases Tx.pure_ok.mp h
        refine Or.inl ⟨rfl, hframe, rfl, ?_⟩
        intro k hk
        cases hk
        exact hstmt
      | some l' =>
        rw [hstmt] at h
        obtain ⟨_, _, h₃, h₄⟩ := Tx.bind_ok.mp h
        cases Tx.set_ok.mp h₃
        cases Tx.pure_ok.mp h₄
        exact Or.inr ⟨rfl, l, l', rfl, hstmt, hframe.trans ⟨rfl, rfl, rfl, rfl, le_refl _, le_refl _⟩, rfl⟩

theorem readLot_some {l : Lot} (h : a.readLot lotId = some l) : l ∈ a.lots ∧ l.id = lotId :=
  Table.findKey_some h

theorem LotsOk.readLot_of_mem (hok : LotsOk a) {l : Lot} (hl : l ∈ a.lots) :
    a.readLot l.id = some l :=
  Table.findKey_of_mem hok.ids hl

/-- The successful case of a statement as a replaced row. -/
theorem replaces_of_exec {l l' : Lot} (hread : a.readLot lotId = some l)
    (honly : LotsOnly a a')
    (hlots : a'.lots = Table.updateKey Lot.id lotId (fun _ => l') a.lots) (hid : l'.id = l.id)
    (he : l'.ledgerEntryId = l.ledgerEntryId) : Replaces a a' l l' := by
  obtain ⟨hmem, rfl⟩ := readLot_some hread
  exact ⟨honly, hmem, hlots, hid, he⟩

/-- A statement that changed no row changed nothing the wallet counts. -/
theorem lotsOk_of_lots_eq (honly : LotsOnly a a') (hlots : a'.lots = a.lots) (hok : LotsOk a) :
    LotsOk a' ∧ a'.held = a.held := by
  refine ⟨⟨by rw [hlots]; exact hok.ids, ?_, by rw [hlots]; exact hok.sound,
    by rw [hlots]; exact hok.entries⟩, ?_⟩
  · rw [hlots]
    intro l hl
    exact lt_of_lt_of_le (hok.ids_lt l hl) honly.nextId
  · simp only [Account.held, Account.readOpenLots, hlots]

/-- **Close without spending.** Under the lock the row read is the row closed, and the
lots hold that much less. -/
theorem closeLot_ok {seen : ℤ} (hok : LotsOk a) (h : closeLot lotId seen a = .ok (ok, a')) :
    LotsOnly a a' ∧ LotsOk a' ∧ (ok = true → a'.held = a.held - seen) := by
  rcases execOnLot_ok h with ⟨rfl, honly, hlots, -⟩ | ⟨rfl, l, l', hread, hstmt, honly, hlots⟩
  · obtain ⟨hok', -⟩ := lotsOk_of_lots_eq honly hlots hok
    exact ⟨honly, hok', by simp⟩
  · obtain ⟨hseen, -, hr, hid, he, -, hs⟩ := closeRow_ok hstmt
    have hrep := replaces_of_exec hread honly hlots hid he
    refine ⟨honly, hrep.lotsOk hok hs, fun _ => ?_⟩
    rw [hrep.held hok hs, hr, hseen]
    omega

/-- **Restate.** The lot moves by the delta and floors at nothing; what it could not give
up is the shortfall. -/
theorem adjustLotForRestatement_ok {delta : ℤ} {r : LotRestatement} (hok : LotsOk a)
    (h : adjustLotForRestatement lotId delta a = .ok (r, a')) :
    ∃ l, a.readLot lotId = some l ∧ LotsOnly a a' ∧ LotsOk a' ∧
      r.shortfall = max (-delta - l.creditsRemaining) 0 ∧
      a'.held = a.held + delta + r.shortfall := by
  simp only [adjustLotForRestatement, Tx.ite_ok, Tx.throw_ok, and_false, false_or, Tx.bind_ok,
    Tx.get_ok, Tx.ofOption_ok, or_false, Tx.pure_ok] at h
  obtain ⟨-, _, _, h₁, l, _, ⟨_, hl, h₂⟩, -, _, _, hexec, hch, hr⟩ := h
  cases h₁
  cases h₂
  cases hr
  rcases execOnLot_ok hexec with ⟨rfl, -⟩ | ⟨-, k, l', hread, hstmt, honly, hlots⟩
  · cases hch
  · rw [hl] at hread
    cases hread
    obtain ⟨-, -, -, hrem, hid, he, hs⟩ := restateRow_ok hstmt
    have hrep := replaces_of_exec hl honly hlots hid he
    refine ⟨l, hl, honly, hrep.lotsOk hok hs, rfl, ?_⟩
    rw [hrep.held hok hs, hrem]
    simp only
    omega

/-- A new row under a fresh id and a free entry. -/
theorem lotsOk_append {l : Lot} (honly : LotsOnly a a') (hlots : a'.lots = a.lots ++ [l])
    (hlo : a.nextId ≤ l.id) (hhi : l.id < a'.nextId) (hs : l.Sound)
    (hfree : ∀ k ∈ a.lots, k.ledgerEntryId ≠ l.ledgerEntryId) (hok : LotsOk a) :
    LotsOk a' ∧ a'.held = a.held + l.creditsRemaining := by
  have hok' : LotsOk a' := by
    refine ⟨?_, ?_, ?_, ?_⟩ <;> rw [hlots]
    · rw [List.map_append, List.nodup_append]
      refine ⟨hok.ids, by simp, ?_⟩
      intro x hx y hy
      obtain ⟨k, hk, rfl⟩ := List.mem_map.mp hx
      have := hok.ids_lt k hk
      simp only [List.map_cons, List.map_nil, List.mem_singleton] at hy
      omega
    · intro k hk
      rcases List.mem_append.mp hk with hk | hk
      · exact lt_of_lt_of_le (hok.ids_lt k hk) honly.nextId
      · obtain rfl := List.mem_singleton.mp hk
        exact hhi
    · intro k hk
      rcases List.mem_append.mp hk with hk | hk
      · exact hok.sound k hk
      · obtain rfl := List.mem_singleton.mp hk
        exact hs
    · rw [List.map_append, List.nodup_append]
      refine ⟨hok.entries, by simp, ?_⟩
      intro x hx y hy
      obtain ⟨k, hk, rfl⟩ := List.mem_map.mp hx
      simp only [List.map_cons, List.map_nil, List.mem_singleton] at hy
      rw [hy]
      exact hfree k hk
  refine ⟨hok', ?_⟩
  rw [hok'.held_eq, hok.held_eq, hlots]
  simp

/-- **Open.** A lot that opens puts its credits on the queue and nothing else. -/
theorem openLot_ok {credits : ℤ} {rates : LotRates} {source : LotSource}
    {packId overrideId : Option String} {entryId newId : ℕ} {openedAt expiresAt : Option ℕ}
    (hok : LotsOk a)
    (h : openLot credits rates source packId entryId overrideId openedAt expiresAt a =
      .ok (newId, a')) :
    LotsOnly a a' ∧ LotsOk a' ∧ a'.held = a.held + credits ∧ 0 < credits := by
  unfold openLot at h
  split at h
  · rename_i hc
    simp only [Tx.bind_ok, uuid7_ok, clockTimestamp_ok, Tx.get_ok, Tx.ite_ok, Tx.throw_ok,
      and_false, false_or, Tx.set_ok, Tx.pure_ok] at h
    obtain ⟨_, _, h₁, _, _, h₂, _, _, h₃, hfresh, _, _, h₄, h₅⟩ := h
    cases h₁
    cases h₂
    cases h₃
    cases h₄
    cases h₅
    have honly : ∀ ls, LotsOnly a (a.mint.tick.setLots ls) :=
      fun _ => ⟨rfl, rfl, rfl, rfl, Nat.le_succ _, Nat.le_succ _⟩
    let lot := newLot a.nextId (a.mint.clock + 1) credits rates source packId entryId overrideId
      openedAt expiresAt hc
    have hsound : lot.Sound := by simp [Lot.Sound, lot, newLot, hc.1]
    have hfree : ∀ k ∈ a.lots, k.ledgerEntryId ≠ lot.ledgerEntryId := by
      intro k hk hke
      apply hfresh
      rw [List.any_eq_true]
      exact ⟨k, hk, decide_eq_true hke⟩
    obtain ⟨hok', hheld⟩ := lotsOk_append (honly (a.lots ++ [lot])) rfl (le_refl _)
      (Nat.lt_succ_self _) hsound hfree hok
    exact ⟨honly _, hok', hheld, hc.1⟩
  · exact (Tx.throw_ok.mp h).elim

end Statements

/-! ## What one lot pays -/

namespace Want

/-- A rate to price what the lots cannot pay is positive. -/
def Priced : Want → Prop
  | .call _ _ pricedAt => 0 < pricedAt
  | .aiAssist _ => True

theorem priced_ofDemand (d : LotDemand) : (ofDemand d).Priced := by
  cases d with
  | call minutes tier fallback => exact fallback.rateFor_pos tier
  | aiAssist credits => trivial

theorem priced_after (w : Want) (l : Lot) : (w.after l).Priced := by
  cases w with
  | call minutesLeft tier pricedAt => exact l.rates.rateFor_pos tier
  | aiAssist creditsLeft => trivial

theorem portion_le (w : Want) (l : Lot) : w.portion l ≤ l.creditsRemaining := by
  cases w with
  | call minutesLeft tier pricedAt =>
    simp only [portion, portionForCall]
    split
    · exact min_le_right _ _
    · exact le_refl _
  | aiAssist creditsLeft => exact min_le_right _ _

theorem portion_nonneg {w : Want} (h : w.pending = true) (l : Lot) : 0 ≤ w.portion l := by
  have hn := l.remaining_nonneg
  cases w with
  | call minutesLeft tier pricedAt =>
    simp only [pending, decide_eq_true_eq] at h
    simp only [portion, portionForCall]
    split
    · have hrate : (0 : ℚ) ≤ l.rateFor tier := by
        have := l.rates.rateFor_pos tier
        exact_mod_cast this.le
      exact le_min (Dec.roundHalfUp_nonneg (Dec.ctx_nonneg (mul_nonneg h.le hrate))) hn
    · exact hn
  | aiAssist creditsLeft =>
    simp only [pending, decide_eq_true_eq] at h
    exact le_min h.le hn

@[simp] theorem split_credits (w : Want) (l : Lot) : (w.split l).credits = w.portion l := by
  cases w <;> rfl

/-- **A lot that kept something has met the demand.** -/
theorem not_pending_after {w : Want} {l : Lot} (h : w.portion l ≠ l.creditsRemaining) :
    (w.after l).pending = false := by
  cases w with
  | call minutesLeft tier pricedAt =>
    simp only [portion, portionForCall] at h
    split at h
    · rename_i hle
      simp [after, pending, portionForCall, hle]
    · exact absurd rfl h
  | aiAssist creditsLeft =>
    have hmin : min creditsLeft l.creditsRemaining = creditsLeft := by
      simp only [portion] at h
      omega
    simp [after, pending, hmin]

/-- What no lot could pay is never negative, and nothing when the demand was met. -/
theorem overdraft_credits {w : Want} (h : w.Priced) :
    0 ≤ creditsOf w.overdraft ∧ (w.pending = false → creditsOf w.overdraft = 0) := by
  cases w with
  | call minutesLeft tier pricedAt =>
    simp only [overdraft, pending, decide_eq_false_iff_not]
    split
    · rename_i hpos
      have hrate : (0 : ℚ) ≤ pricedAt := by
        have : 0 < pricedAt := h
        exact_mod_cast this.le
      have := Dec.roundHalfUp_nonneg (Dec.ctx_nonneg (mul_nonneg hpos.le hrate))
      exact ⟨by simpa [creditsOf, money] using this, fun hc => absurd hpos hc⟩
    · simp [creditsOf]
  | aiAssist creditsLeft =>
    simp only [overdraft, pending, decide_eq_false_iff_not]
    split
    · rename_i hpos
      exact ⟨by simpa [creditsOf] using hpos.le, fun hc => absurd hpos hc⟩
    · simp [creditsOf]

end Want

/-! ## The walk -/

section Walk

variable {a a' : Account}

/-- Under the lock the lot read is the row in the table, so the swap holds at once. -/
theorem drawLot_ok {want : Want} {tries tries' : ℕ} {l : Lot} {drawn : Option Lot}
    (hok : LotsOk a) (hl : l ∈ a.lots) (hopen : l.closedAt = none)
    (h : drawLot want tries l a = .ok ((tries', drawn), a')) :
    drawn = some l ∧ ∃ l', Replaces a a' l l' ∧ l'.Sound ∧
      l'.creditsRemaining = l.creditsRemaining - want.portion l := by
  unfold drawLot at h
  obtain ⟨ok, a₁, hexec, h⟩ := Tx.bind_ok.mp h
  rcases execOnLot_ok hexec with ⟨-, -, -, hmiss⟩ | ⟨rfl, k, l', hread, hstmt, honly, hlots⟩
  · -- a swap that misses contradicts the read it was made from
    have hnone := hmiss l (hok.readLot_of_mem hl)
    unfold takeRow at hnone
    rw [if_pos ⟨rfl, hopen⟩] at hnone
    cases hw : l.write l.creditsTotal (l.creditsRemaining - want.portion l)
        (if l.creditsRemaining - want.portion l = 0 then some (a.clock + 1) else l.closedAt) <;>
      rw [hw] at hnone <;> cases hnone
  · rw [hok.readLot_of_mem hl] at hread
    cases hread
    obtain ⟨-, -, hr, hid, he, -, hs⟩ := takeRow_ok hstmt
    simp only [if_true, Tx.pure_ok] at h
    cases h
    exact ⟨rfl, l', replaces_of_exec (hok.readLot_of_mem hl) honly hlots hid he, hs, hr⟩

/-- **The walk over a queue of open lots.** It takes the sum of its splits off them, never
more than they hold, and all of it when the demand is not met at the end. -/
theorem walk_ok : ∀ {queue : List Lot} {want want' : Want} {tries : ℕ} {splits : List LotSplit}
    {a a' : Account}, LotsOk a → want.Priced → (queue.map Lot.id).Nodup →
    (∀ l ∈ queue, l ∈ a.lots ∧ l.closedAt = none) →
    walk want tries queue a = .ok ((want', splits), a') →
    LotsOnly a a' ∧ LotsOk a' ∧ want'.Priced ∧ a'.held = a.held - creditsOf splits ∧
      0 ≤ creditsOf splits ∧
      (want'.pending = true → creditsOf splits = (queue.map Lot.creditsRemaining).sum) := by
  intro queue
  induction queue with
  | nil =>
    intro want want' tries splits a a' hok hp _ _ h
    cases Tx.pure_ok.mp h
    exact ⟨LotsOnly.refl a, hok, hp, by simp [creditsOf], by simp [creditsOf],
      fun _ => by simp [creditsOf]⟩
  | cons l queue ih =>
    intro want want' tries splits a a' hok hp hnd hq h
    unfold walk at h
    rcases Tx.ite_ok.mp h with ⟨hpend, h⟩ | ⟨hpend, h⟩
    · obtain ⟨⟨tries₁, drawn⟩, a₁, hdraw, h⟩ := Tx.bind_ok.mp h
      obtain ⟨hlmem, hlopen⟩ := hq l List.mem_cons_self
      obtain ⟨rfl, l', hrep, hs, hrem⟩ := drawLot_ok hok hlmem hlopen hdraw
      have hok₁ := hrep.lotsOk hok hs
      have hheld₁ := hrep.held hok hs
      rw [List.map_cons, List.nodup_cons] at hnd
      have hq₁ := hrep.queue hnd.1 fun k hk => hq k (List.mem_cons_of_mem _ hk)
      have hpos := Want.portion_nonneg hpend l
      have hcons : ∀ more, creditsOf (want.split l :: more) = want.portion l + creditsOf more := by
        intro more
        simp [creditsOf]
      rcases Tx.ite_ok.mp h with ⟨hall, h⟩ | ⟨hpart, h⟩
      · obtain ⟨⟨rest, more⟩, a₂, hrest, h⟩ := Tx.bind_ok.mp h
        cases Tx.pure_ok.mp h
        obtain ⟨honly, hok₂, hp₂, hheld₂, hnn, hfull⟩ :=
          ih hok₁ (want.priced_after l) hnd.2 hq₁ hrest
        refine ⟨hrep.only.trans honly, hok₂, hp₂, by rw [hcons]; omega, by rw [hcons]; omega, ?_⟩
        intro hp'
        rw [hcons, hfull hp', hall, List.map_cons, List.sum_cons]
      · cases Tx.pure_ok.mp h
        have hnil : creditsOf [] = 0 := rfl
        refine ⟨hrep.only, hok₁, want.priced_after l, by rw [hcons]; omega,
          by rw [hcons]; omega, ?_⟩
        intro hp'
        rw [Want.not_pending_after hpart] at hp'
        cases hp'
    · cases Tx.pure_ok.mp h
      exact ⟨LotsOnly.refl a, hok, hp, by simp [creditsOf], by simp [creditsOf],
        fun hp' => absurd hp' hpend⟩

/-- A demand for nothing reads nothing. -/
theorem walk_of_not_pending {want : Want} {tries : ℕ} {queue : List Lot}
    (h : want.pending = false) : walk want tries queue a = .ok ((want, []), a) := by
  cases queue with
  | nil => rfl
  | cons l queue => simp only [walk, h, Bool.false_eq_true, if_false]; rfl

theorem readOpenLots_ids (hok : LotsOk a) : (a.readOpenLots.map Lot.id).Nodup := by
  have hperm : (a.readOpenLots.map Lot.id).Perm ((a.lots.filter Lot.isOpen).map Lot.id) :=
    (List.perm_insertionSort _ _).map _
  rw [hperm.nodup_iff]
  exact hok.ids.sublist (List.filter_sublist.map _)

/-- **What a debit does to the lots**: it leaves them holding `max (held - D) 0`. -/
theorem consume_ok {demand : LotDemand} {splits : List LotSplit} (hok : LotsOk a)
    (h : consume demand a = .ok (splits, a')) :
    LotsOnly a a' ∧ LotsOk a' ∧ a'.held = max (a.held - creditsOf splits) 0 ∧
      0 ≤ creditsOf splits := by
  unfold consume at h
  obtain ⟨_, _, hget, h⟩ := Tx.bind_ok.mp h
  cases Tx.get_ok.mp hget
  obtain ⟨⟨want, drawn⟩, a₁, hwalk, h⟩ := Tx.bind_ok.mp h
  cases Tx.pure_ok.mp h
  obtain ⟨honly, hok', hp, hheld, hnn, hfull⟩ := walk_ok hok (Want.priced_ofDemand demand)
    (readOpenLots_ids hok) (fun l hl => (mem_readOpenLots).mp hl) hwalk
  obtain ⟨hover, hmet⟩ := Want.overdraft_credits hp
  have happ : creditsOf (drawn ++ want.overdraft) = creditsOf drawn + creditsOf want.overdraft := by
    simp [creditsOf]
  have hheld' := held_nonneg a'
  refine ⟨honly, hok', ?_, by omega⟩
  rw [happ]
  cases hpend : want.pending with
  | false =>
    have := hmet hpend
    omega
  | true =>
    -- nothing was met in full, so every open lot was emptied
    have hall : creditsOf drawn = a.held := hfull hpend
    omega

/-! ## Rupees at face value -/

/-- Rupees are taken to the tick: what the lots paid and what is left are the demand. -/
theorem walk_aiAssist : ∀ {queue : List Lot} {c : ℤ} {want' : Want} {tries : ℕ}
    {splits : List LotSplit} {a a' : Account}, LotsOk a → (queue.map Lot.id).Nodup →
    (∀ l ∈ queue, l ∈ a.lots ∧ l.closedAt = none) →
    walk (.aiAssist c) tries queue a = .ok ((want', splits), a') →
    want' = .aiAssist (c - creditsOf splits) ∧ (0 ≤ c → creditsOf splits ≤ c) := by
  intro queue
  induction queue with
  | nil =>
    intro c want' tries splits a a' _ _ _ h
    cases Tx.pure_ok.mp h
    simp [creditsOf]
  | cons l queue ih =>
    intro c want' tries splits a a' hok hnd hq h
    unfold walk at h
    rcases Tx.ite_ok.mp h with ⟨hpend, h⟩ | ⟨hpend, h⟩
    · obtain ⟨⟨tries₁, drawn⟩, a₁, hdraw, h⟩ := Tx.bind_ok.mp h
      obtain ⟨hlmem, hlopen⟩ := hq l List.mem_cons_self
      obtain ⟨rfl, l', hrep, hs, hrem⟩ := drawLot_ok hok hlmem hlopen hdraw
      rw [List.map_cons, List.nodup_cons] at hnd
      have hq₁ := hrep.queue hnd.1 fun k hk => hq k (List.mem_cons_of_mem _ hk)
      have hcons : ∀ more, creditsOf ((Want.aiAssist c).split l :: more) =
          min c l.creditsRemaining + creditsOf more := by
        intro more
        simp [creditsOf, Want.portion]
      rcases Tx.ite_ok.mp h with ⟨hall, h⟩ | ⟨hpart, h⟩
      · obtain ⟨⟨rest, more⟩, a₂, hrest, h⟩ := Tx.bind_ok.mp h
        cases Tx.pure_ok.mp h
        obtain ⟨hw, hle⟩ := ih (hrep.lotsOk hok hs) hnd.2 hq₁ hrest
        rw [hw, hcons]
        refine ⟨by congr 1; omega, fun hc => ?_⟩
        have := hle (by omega)
        omega
      · cases Tx.pure_ok.mp h
        have hnil : creditsOf [] = 0 := rfl
        rw [hcons, hnil]
        refine ⟨by simp [Want.after], fun hc => ?_⟩
        omega
    · cases Tx.pure_ok.mp h
      simp [creditsOf]

/-- A demand in rupees is met exactly, by the lots and the overdraft together. -/
theorem consume_aiAssist_ok {c : ℤ} {splits : List LotSplit} (hok : LotsOk a)
    (h : consume (.aiAssist c) a = .ok (splits, a')) : creditsOf splits = max c 0 := by
  unfold consume at h
  obtain ⟨_, _, hget, h⟩ := Tx.bind_ok.mp h
  cases Tx.get_ok.mp hget
  obtain ⟨⟨want, drawn⟩, a₁, hwalk, h⟩ := Tx.bind_ok.mp h
  cases Tx.pure_ok.mp h
  have hdemand : Want.ofDemand (.aiAssist (c : ℚ)) = .aiAssist c := by
    simp [Want.ofDemand, money]
  rw [hdemand] at hwalk
  obtain ⟨rfl, hle⟩ := walk_aiAssist hok (readOpenLots_ids hok)
    (fun l hl => (mem_readOpenLots).mp hl) hwalk
  have happ : creditsOf (drawn ++ (Want.aiAssist (c - creditsOf drawn)).overdraft) =
      creditsOf drawn + max (c - creditsOf drawn) 0 := by
    simp only [Want.overdraft]
    split
    · rename_i hpos
      simp only [creditsOf, List.map_append, List.sum_append, List.map_cons, List.map_nil,
        List.sum_cons, List.sum_nil, add_zero]
      rw [max_eq_left]
      exact hpos.le
    · rename_i hneg
      have : max (c - creditsOf drawn) 0 = 0 := by omega
      rw [this, List.append_nil, add_zero]
  rw [happ]
  by_cases hc : 0 ≤ c
  · have := hle hc
    omega
  · -- nothing is asked for, so nothing is drawn
    have hnone : creditsOf drawn = 0 := by
      rw [walk_of_not_pending (by simp [Want.pending]; omega)] at hwalk
      simp only [Except.ok.injEq, Prod.mk.injEq] at hwalk
      rw [← hwalk.1.2]
      rfl
    omega

end Walk

end Billing

end Calevate
