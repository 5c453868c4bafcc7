import Calevate.Billing.Helpers.LotSteps

/-!
# Helpers — the queue

What one debit takes from each lot. `consume_takes` says it for every demand: each lot falls
by the splits that name it, and a lot gives something up only once every older open lot is
empty. Under the lock a debit always goes through (`consume_total`): the swap is made from the
row just read, and the portion is within what it holds.
-/

namespace Calevate

namespace Billing

open Lib

/-- What the lot with this id still holds. -/
def Account.remainingOf (a : Account) (lotId : ℕ) : ℤ :=
  ((a.readLot lotId).map Lot.creditsRemaining).getD 0

/-- What these splits took from the lot with this id. -/
def splitsOf (splits : List LotSplit) (lotId : ℕ) : ℤ :=
  creditsOf (splits.filter fun s => s.lotId = some lotId)

section SplitsOf

variable {s : LotSplit} {r t : List LotSplit} {i : ℕ}

@[simp] theorem splitsOf_nil : splitsOf [] i = 0 := rfl

theorem splitsOf_cons : splitsOf (s :: t) i =
    (if s.lotId = some i then s.credits else 0) + splitsOf t i := by
  by_cases h : s.lotId = some i <;> simp [splitsOf, creditsOf, h]

@[simp] theorem splitsOf_append : splitsOf (r ++ t) i = splitsOf r i + splitsOf t i := by
  simp [splitsOf, creditsOf]

theorem splitsOf_eq_zero (h : ∀ s ∈ t, s.lotId ≠ some i) : splitsOf t i = 0 := by
  have : t.filter (fun s => decide (s.lotId = some i)) = [] := by
    rw [List.filter_eq_nil_iff]
    intro s hs
    simpa using h s hs
  rw [splitsOf, this]
  rfl

theorem splitsOf_nonneg (h : ∀ s ∈ t, 0 ≤ s.credits) : 0 ≤ splitsOf t i := by
  apply List.sum_nonneg
  intro x hx
  obtain ⟨s, hs, rfl⟩ := List.mem_map.mp hx
  exact h s (List.mem_of_mem_filter hs)

/-- One lot's share is at most the whole. -/
theorem splitsOf_le (h : ∀ s ∈ t, 0 ≤ s.credits) : splitsOf t i ≤ creditsOf t := by
  induction t with
  | nil => exact le_refl _
  | cons s t ih =>
    have hs := h s List.mem_cons_self
    have ht := ih fun x hx => h x (List.mem_cons_of_mem _ hx)
    have hcons : creditsOf (s :: t) = s.credits + creditsOf t := by simp [creditsOf]
    rw [splitsOf_cons, hcons]
    split <;> omega

end SplitsOf

section Remaining

variable {a a' : Account}

theorem LotsOk.remainingOf_of_mem (hok : LotsOk a) {l : Lot} (hl : l ∈ a.lots) :
    a.remainingOf l.id = l.creditsRemaining := by
  unfold Account.remainingOf
  rw [hok.readLot_of_mem hl]
  rfl

theorem remainingOf_of_lots_eq (h : a'.lots = a.lots) (i : ℕ) :
    a'.remainingOf i = a.remainingOf i := by
  unfold Account.remainingOf Account.readLot
  rw [h]

/-- No lot, nothing left. -/
theorem remainingOf_of_notMem {i : ℕ} (h : ∀ l ∈ a.lots, l.id ≠ i) : a.remainingOf i = 0 := by
  have : a.readLot i = none := Table.findKey_eq_none.mpr h
  unfold Account.remainingOf
  rw [this]
  rfl

theorem remainingOf_nonneg (a : Account) (i : ℕ) : 0 ≤ a.remainingOf i := by
  unfold Account.remainingOf
  cases a.readLot i with
  | none => exact le_refl _
  | some l => exact l.remaining_nonneg

theorem Replaces.remainingOf {l l' : Lot} (h : Replaces a a' l l') (hok : LotsOk a)
    (hok' : LotsOk a') (i : ℕ) :
    a'.remainingOf i = if i = l.id then l'.creditsRemaining else a.remainingOf i := by
  by_cases hi : i = l.id
  · rw [if_pos hi, hi, ← h.id]
    exact hok'.remainingOf_of_mem h.mem_new
  · rw [if_neg hi]
    by_cases hmem : ∃ k ∈ a.lots, k.id = i
    · obtain ⟨k, hk, rfl⟩ := hmem
      rw [hok.remainingOf_of_mem hk, hok'.remainingOf_of_mem (h.mem_of_ne hk hi)]
    · have hnone : ∀ k ∈ a.lots, k.id ≠ i := by
        intro k hk hid
        exact hmem ⟨k, hk, hid⟩
      rw [remainingOf_of_notMem hnone, remainingOf_of_notMem]
      rw [h.lots]
      intro k hk hid
      rcases Table.mem_updateKey.mp hk with ⟨hk, -⟩ | ⟨-, -, -, rfl⟩
      · exact hnone k hk hid
      · exact hi (hid.symm.trans h.id)

/-- A new lot holds what it opened with, and the others stand. -/
theorem remainingOf_append {l : Lot} (hlots : a'.lots = a.lots ++ [l]) (hok : LotsOk a)
    (hok' : LotsOk a') (i : ℕ) :
    a'.remainingOf i = if i = l.id then l.creditsRemaining else a.remainingOf i := by
  by_cases hi : i = l.id
  · rw [if_pos hi, hi]
    exact hok'.remainingOf_of_mem (by rw [hlots]; simp)
  · rw [if_neg hi]
    by_cases hmem : ∃ k ∈ a.lots, k.id = i
    · obtain ⟨k, hk, rfl⟩ := hmem
      rw [hok.remainingOf_of_mem hk, hok'.remainingOf_of_mem (by rw [hlots]; simp [hk])]
    · have hnone : ∀ k ∈ a.lots, k.id ≠ i := by
        intro k hk hid
        exact hmem ⟨k, hk, hid⟩
      rw [remainingOf_of_notMem hnone, remainingOf_of_notMem]
      rw [hlots]
      intro k hk hid
      rcases List.mem_append.mp hk with hk | hk
      · exact hnone k hk hid
      · rw [List.mem_singleton.mp hk] at hid
        exact hi hid.symm

end Remaining

/-! ## The walk, lot by lot -/

instance : Std.Total Lot.fifoLe :=
  ⟨fun l k => by unfold Lot.fifoLe; omega⟩

instance : IsTrans Lot Lot.fifoLe :=
  ⟨fun l k m h h' => by unfold Lot.fifoLe at h h' ⊢; omega⟩

theorem readOpenLots_sorted (a : Account) : a.readOpenLots.Pairwise Lot.fifoLe :=
  List.pairwise_insertionSort _ _

@[simp] theorem Want.split_lotId (w : Want) (l : Lot) : (w.split l).lotId = some l.id := by
  cases w <;> rfl

/-- The oldest-first rule: the later of two lots gives something up only if the earlier one
has nothing left. -/
def DrainsFirst (a a' : Account) (l k : Lot) : Prop :=
  a'.remainingOf k.id < a.remainingOf k.id → a'.remainingOf l.id = 0

/-- **What the walk takes.** Each lot falls by its own splits, which name lots of the queue
only, and no lot is touched while an earlier one has something left. -/
theorem walk_takes : ∀ {queue : List Lot} {want want' : Want} {tries : ℕ}
    {splits : List LotSplit} {a a' : Account}, BooksOk a → (queue.map Lot.id).Nodup →
    (∀ l ∈ queue, l ∈ a.lots ∧ l.closedAt = none) →
    walk want tries queue a = .ok ((want', splits), a') →
    (∀ i, a'.remainingOf i = a.remainingOf i - splitsOf splits i) ∧
      (∀ s ∈ splits, ∃ l ∈ queue, s.lotId = some l.id) ∧ (∀ s ∈ splits, 0 ≤ s.credits) ∧
      queue.Pairwise (DrainsFirst a a') := by
  intro queue
  induction queue with
  | nil =>
    intro want want' tries splits a a' _ _ _ h
    cases Tx.pure_ok.mp h
    exact ⟨fun i => by simp, by simp, by simp, List.Pairwise.nil⟩
  | cons l queue ih =>
    intro want want' tries splits a a' ha hnd hq h
    unfold walk at h
    rcases Tx.ite_ok.mp h with ⟨hpend, h⟩ | ⟨-, h⟩
    · obtain ⟨⟨tries₁, drawn⟩, a₁, hdraw, h⟩ := Tx.bind_ok.mp h
      obtain ⟨hlmem, hlopen⟩ := hq l List.mem_cons_self
      obtain ⟨rfl, l', hrep, hs, hrem⟩ := drawLot_ok ha.lots hlmem hlopen hdraw
      have hb₁ : BooksOk a₁ := ⟨hrep.only.ledgerOk ha.ledger, hrep.lotsOk ha.lots hs⟩
      have hpos := Want.portion_nonneg hpend l
      have hswap := hrep.remainingOf ha.lots hb₁.lots
      have hl := ha.lots.remainingOf_of_mem hlmem
      rw [List.map_cons, List.nodup_cons] at hnd
      have hne : ∀ k ∈ queue, k.id ≠ l.id := by
        intro k hk hid
        exact hnd.1 (hid ▸ List.mem_map_of_mem hk)
      have hq₁ := hrep.queue hnd.1 fun k hk => hq k (List.mem_cons_of_mem _ hk)
      -- the first lot falls by its own split and the rest of the queue by theirs
      have htake : ∀ i more, a₁.remainingOf i - splitsOf more i =
          a.remainingOf i - splitsOf (want.split l :: more) i := by
        intro i more
        rw [splitsOf_cons, hswap i, Want.split_lotId, Want.split_credits]
        by_cases hi : i = l.id
        · rw [if_pos hi, if_pos (by rw [hi]), hi, hl, hrem]
          omega
        · rw [if_neg hi, if_neg (by simpa using fun h => hi h.symm)]
          omega
      rcases Tx.ite_ok.mp h with ⟨hall, h⟩ | ⟨-, h⟩
      · obtain ⟨⟨rest, more⟩, a₂, hrest, h⟩ := Tx.bind_ok.mp h
        cases Tx.pure_ok.mp h
        obtain ⟨htakes, hnames, hnn, hfifo⟩ := ih hb₁ hnd.2 hq₁ hrest
        have hempty : a'.remainingOf l.id = 0 := by
          have hnone : splitsOf more l.id = 0 := by
            apply splitsOf_eq_zero
            intro s hsm hsl
            obtain ⟨k, hk, hks⟩ := hnames s hsm
            rw [hks] at hsl
            exact hne k hk (Option.some.inj hsl)
          rw [htakes, hnone, hswap, if_pos rfl, hrem, hall]
          omega
        refine ⟨fun i => (htakes i).trans (htake i more), ?_, ?_, List.pairwise_cons.mpr ⟨?_, ?_⟩⟩
        · intro s hsm
          rcases List.mem_cons.mp hsm with rfl | hsm
          · exact ⟨l, List.mem_cons_self, want.split_lotId l⟩
          · obtain ⟨k, hk, hks⟩ := hnames s hsm
            exact ⟨k, List.mem_cons_of_mem _ hk, hks⟩
        · intro s hsm
          rcases List.mem_cons.mp hsm with rfl | hsm
          · rw [Want.split_credits]
            exact hpos
          · exact hnn s hsm
        · intro k hk _
          exact hempty
        · refine hfifo.imp_of_mem ?_
          intro j k _ hk hjk hless
          apply hjk
          rwa [hswap, if_neg (hne k hk)]
      · cases Tx.pure_ok.mp h
        refine ⟨fun i => ?_, ?_, ?_, List.pairwise_cons.mpr ⟨?_, ?_⟩⟩
        · rw [← htake i [], splitsOf_nil, sub_zero]
        · intro s hsm
          rw [List.mem_singleton.mp hsm]
          exact ⟨l, List.mem_cons_self, want.split_lotId l⟩
        · intro s hsm
          rw [List.mem_singleton.mp hsm, Want.split_credits]
          exact hpos
        · -- the first lot kept something, so the walk ended there
          intro k hk hless
          rw [hswap, if_neg (hne k hk)] at hless
          omega
        · apply List.pairwise_of_forall_mem_list
          intro j _ k hk hless
          rw [hswap, if_neg (hne k hk)] at hless
          omega
    · cases Tx.pure_ok.mp h
      refine ⟨fun i => by simp, by simp, by simp, ?_⟩
      apply List.pairwise_of_forall_mem_list
      intro j _ k _ hless
      omega

theorem Want.overdraft_nonneg {w : Want} (h : w.Priced) : ∀ s ∈ w.overdraft, 0 ≤ s.credits := by
  have hsum := (Want.overdraft_credits h).1
  intro s hs
  cases w with
  | call minutesLeft tier pricedAt =>
    simp only [Want.overdraft] at hs hsum
    split at hs
    · rename_i hpos
      rw [if_pos hpos] at hsum
      rw [List.mem_singleton.mp hs]
      simpa [creditsOf] using hsum
    · cases hs
  | aiAssist creditsLeft =>
    simp only [Want.overdraft] at hs
    split at hs
    · rename_i hpos
      rw [List.mem_singleton.mp hs]
      exact hpos.le
    · cases hs

theorem Want.overdraft_lotId {w : Want} : ∀ s ∈ w.overdraft, s.lotId = none := by
  cases w with
  | call minutesLeft tier pricedAt =>
    unfold Want.overdraft
    split <;> simp
  | aiAssist creditsLeft =>
    unfold Want.overdraft
    split <;> simp

section Consume

variable {a a' : Account} {demand : LotDemand} {splits : List LotSplit}

/-- **What a debit takes**, from each lot and in which order. -/
theorem consume_takes (ha : BooksOk a) (h : consume demand a = .ok (splits, a')) :
    (∀ i, a'.remainingOf i = a.remainingOf i - splitsOf splits i) ∧
      (∀ s ∈ splits, 0 ≤ s.credits) ∧ a.readOpenLots.Pairwise (DrainsFirst a a') := by
  unfold consume at h
  obtain ⟨_, _, hget, h⟩ := Tx.bind_ok.mp h
  cases Tx.get_ok.mp hget
  obtain ⟨⟨want, drawn⟩, a₁, hwalk, h⟩ := Tx.bind_ok.mp h
  cases Tx.pure_ok.mp h
  obtain ⟨htakes, -, hnn, hfifo⟩ := walk_takes ha (readOpenLots_ids ha.lots)
    (fun l hl => mem_readOpenLots.mp hl) hwalk
  have hover : ∀ i, splitsOf want.overdraft i = 0 := by
    intro i
    apply splitsOf_eq_zero
    intro s hs
    rw [Want.overdraft_lotId s hs]
    simp
  have hpriced := (walk_ok ha.lots (Want.priced_ofDemand demand) (readOpenLots_ids ha.lots)
    (fun l hl => mem_readOpenLots.mp hl) hwalk).2.2.1
  refine ⟨fun i => ?_, fun s hs => ?_, hfifo⟩
  · rw [splitsOf_append, hover, add_zero]
    exact htakes i
  · rcases List.mem_append.mp hs with hs | hs
    · exact hnn s hs
    · exact Want.overdraft_nonneg hpriced s hs

/-- A debit names lots of the wallet only. -/
theorem consume_names (ha : BooksOk a) (h : consume demand a = .ok (splits, a')) :
    ∀ s ∈ splits, ∀ i, s.lotId = some i → ∃ l ∈ a.lots, l.id = i := by
  unfold consume at h
  obtain ⟨_, _, hget, h⟩ := Tx.bind_ok.mp h
  cases Tx.get_ok.mp hget
  obtain ⟨⟨want, drawn⟩, a₁, hwalk, h⟩ := Tx.bind_ok.mp h
  cases Tx.pure_ok.mp h
  have hnames := (walk_takes ha (readOpenLots_ids ha.lots)
    (fun l hl => mem_readOpenLots.mp hl) hwalk).2.1
  intro s hs i hi
  rcases List.mem_append.mp hs with hs | hs
  · obtain ⟨l, hl, hsl⟩ := hnames s hs
    exact ⟨l, (mem_readOpenLots.mp hl).1, Option.some.inj (hsl.symm.trans hi)⟩
  · rw [Want.overdraft_lotId s hs] at hi
    cases hi

/-! ## A debit goes through -/

/-- A statement that rewrites the lot it reads goes through. -/
theorem execOnLot_total {stmt : ℕ → Lot → Except Problem (Option Lot)} {l l' : Lot} (hok : LotsOk a)
    (hl : l ∈ a.lots) (hrow : stmt (a.clock + 1) l = .ok (some l')) :
    execOnLot l.id stmt a =
      .ok (true, a.tick.setLots (Table.updateKey Lot.id l.id (fun _ => l') a.lots)) := by
  have hread : a.tick.readLot l.id = some l := hok.readLot_of_mem hl
  simp only [execOnLot, Tx.bind_ok, clockTimestamp_ok, Tx.get_ok]
  refine ⟨_, _, rfl, _, _, rfl, ?_⟩
  rw [hread]
  simp only [hrow]
  exact Tx.bind_ok.mpr ⟨_, _, Tx.set_ok.mpr rfl, Tx.pure_ok.mpr rfl⟩

theorem drawLot_total {want : Want} {tries : ℕ} {l : Lot} (hok : LotsOk a) (hl : l ∈ a.lots)
    (hopen : l.closedAt = none) (hpend : want.pending = true) :
    ∃ a₁, drawLot want tries l a = .ok ((tries, some l), a₁) := by
  have hpos := Want.portion_nonneg hpend l
  have hle := want.portion_le l
  have hw := l.remaining_within_total
  have ht := l.total_positive
  have hrow : ∃ l', takeRow l.creditsRemaining (want.portion l) (a.clock + 1) l =
      .ok (some l') := by
    unfold takeRow Lot.write
    rw [if_pos ⟨rfl, hopen⟩, dif_pos ⟨ht, by omega, by omega⟩]
    exact ⟨_, rfl⟩
  obtain ⟨l', hl'⟩ := hrow
  refine ⟨a.tick.setLots (Table.updateKey Lot.id l.id (fun _ => l') a.lots), ?_⟩
  unfold drawLot
  refine Tx.bind_ok.mpr ⟨true, _, execOnLot_total hok hl hl', ?_⟩
  rw [if_pos rfl]
  exact Tx.pure_ok.mpr rfl

/-- A lot is restated downwards by less than it was worth, always. -/
theorem adjustLot_total {l : Lot} {amount : ℤ} (hok : LotsOk a) (hl : l ∈ a.lots)
    (hpos : 0 < amount) (hsmall : amount < l.creditsTotal) :
    ∃ r, adjustLotForRestatement l.id (-amount) a = .ok r := by
  have hw := l.remaining_within_total
  have hn := l.remaining_nonneg
  have hrow : ∃ l', restateRow (-amount) l.creditsTotal l.creditsRemaining (a.clock + 1) l =
      .ok (some l') := by
    unfold restateRow Lot.write
    rw [if_pos ⟨rfl, rfl⟩, dif_pos ⟨by omega, by omega, by omega⟩]
    exact ⟨_, rfl⟩
  obtain ⟨l', hl'⟩ := hrow
  simp only [adjustLotForRestatement, Tx.ite_ok, Tx.throw_ok, and_false, false_or, Tx.bind_ok,
    Tx.get_ok, Tx.ofOption_ok, or_false, Tx.pure_ok]
  exact ⟨_, by omega, _, _, rfl, l, _, ⟨l, hok.readLot_of_mem hl, rfl⟩, by omega, true, _,
    execOnLot_total hok hl hl', rfl, rfl⟩

theorem walk_total : ∀ {queue : List Lot} {want : Want} {tries : ℕ} {a : Account}, LotsOk a →
    (queue.map Lot.id).Nodup → (∀ l ∈ queue, l ∈ a.lots ∧ l.closedAt = none) →
    ∃ r, walk want tries queue a = .ok r := by
  intro queue
  induction queue with
  | nil =>
    intro want tries a _ _ _
    exact ⟨_, rfl⟩
  | cons l queue ih =>
    intro want tries a hok hnd hq
    unfold walk
    by_cases hpend : want.pending = true
    · obtain ⟨hlmem, hlopen⟩ := hq l List.mem_cons_self
      obtain ⟨a₁, hdraw⟩ := @drawLot_total a want tries l hok hlmem hlopen hpend
      obtain ⟨-, l', hrep, hs, -⟩ := drawLot_ok hok hlmem hlopen hdraw
      rw [List.map_cons, List.nodup_cons] at hnd
      have hq₁ := hrep.queue hnd.1 fun k hk => hq k (List.mem_cons_of_mem _ hk)
      rw [if_pos hpend]
      by_cases hall : want.portion l = l.creditsRemaining
      · obtain ⟨⟨⟨rest, more⟩, a₂⟩, hrest⟩ := @ih (want.after l) tries a₁ (hrep.lotsOk hok hs) hnd.2 hq₁
        refine ⟨((rest, want.split l :: more), a₂), Tx.bind_ok.mpr ⟨_, _, hdraw, ?_⟩⟩
        simp only [hall, if_true]
        exact Tx.bind_ok.mpr ⟨_, _, hrest, Tx.pure_ok.mpr rfl⟩
      · refine ⟨((want.after l, [want.split l]), a₁), Tx.bind_ok.mpr ⟨_, _, hdraw, ?_⟩⟩
        simp only [hall, if_false]
        exact Tx.pure_ok.mpr rfl
    · rw [if_neg hpend]
      exact ⟨_, rfl⟩

/-- **Under the lock no debit is contended.** -/
theorem consume_total (hok : LotsOk a) (demand : LotDemand) :
    ∃ r, consume demand a = .ok r := by
  obtain ⟨⟨⟨want, drawn⟩, a₁⟩, hwalk⟩ := @walk_total a.readOpenLots (Want.ofDemand demand)
    maxCasAttempts a hok (readOpenLots_ids hok) fun l hl => mem_readOpenLots.mp hl
  unfold consume
  exact ⟨_, Tx.bind_ok.mpr ⟨_, _, Tx.get_ok.mpr rfl, Tx.bind_ok.mpr ⟨_, _, hwalk,
    Tx.pure_ok.mpr rfl⟩⟩⟩

end Consume

end Billing

end Calevate
