import Calevate.Billing.Helpers.Lapses
import Calevate.Billing.Helpers.Rounds
import Calevate.Lib.Reference

/-!
# Which lots a reversal empties

A refund, a dispute's hold and a correction all take credit back through
`remove_credit_from_lots`, and the lots they take it from decide what the client's remaining
credit costs. A reversal smaller than the purchase comes off the purchase's own lot first and
only then off the others, oldest first; a reversal of the whole purchase cannot restate its lot
to nothing and is spent off the queue like any charge, so an older lot pays before the
purchase's own (`whole_reversal_spares_own_lot`).
-/

namespace Calevate

namespace Billing

open Lib

/-- `l` stands before `k` in the queue. -/
def Lot.before (l k : Lot) : Prop := ¬ k.fifoLe l

instance (l k : Lot) : Decidable (l.before k) := inferInstanceAs (Decidable (¬ _))

/-- What the open lots that stand before this one hold. -/
def Account.olderOpen (a : Account) (l : Lot) : ℤ :=
  ((a.readOpenLots.filter fun k => k.before l).map Lot.creditsRemaining).sum

section Order

variable {a a' : Account}

/-- **A debit empties the older lot first.** -/
theorem consume_oldest_first {demand : LotDemand} {splits : List LotSplit} (ha : BooksOk a)
    (h : consume demand a = .ok (splits, a')) {j k : Lot} (hj : j ∈ a.lots) (hk : k ∈ a.lots)
    (hjopen : j.closedAt = none) (hkopen : k.closedAt = none) (hjk : j.before k) :
    DrainsFirst a a' j k := by
  have hboth := (readOpenLots_sorted a).and (consume_takes ha h).2.2
  -- in either order of the two rows, the one that stands before is the one that drains first
  have hsymm : a.readOpenLots.Pairwise fun x y =>
      (x.before y → DrainsFirst a a' x y) ∧ (y.before x → DrainsFirst a a' y x) := by
    refine hboth.imp ?_
    intro x y hxy
    exact ⟨fun _ => hxy.2, fun hyx => absurd hxy.1 hyx⟩
  have : Std.Symm fun x y : Lot =>
      (x.before y → DrainsFirst a a' x y) ∧ (y.before x → DrainsFirst a a' y x) :=
    ⟨fun x y hxy => ⟨hxy.2, hxy.1⟩⟩
  have hne : j ≠ k := by
    rintro rfl
    exact hjk (Or.inr ⟨rfl, le_refl _⟩)
  exact (hsymm.forall (mem_readOpenLots.mpr ⟨hj, hjopen⟩) (mem_readOpenLots.mpr ⟨hk, hkopen⟩)
    hne).1 hjk

/-- A debit gives no lot anything. -/
theorem consume_remaining_le {demand : LotDemand} {splits : List LotSplit} (ha : BooksOk a)
    (h : consume demand a = .ok (splits, a')) (i : ℕ) : a'.remainingOf i ≤ a.remainingOf i := by
  obtain ⟨htakes, hnn, -⟩ := consume_takes ha h
  have := splitsOf_nonneg (i := i) hnn
  rw [htakes]
  omega

theorem ownTake_of_ne {l : Lot} {own : ℤ} {i : ℕ} (h : i ≠ l.id) : ownTake (some l) own i = 0 := by
  rw [ownTake, if_neg (by simpa using fun hid => h hid.symm)]

theorem ownTake_self {l : Lot} {own : ℤ} : ownTake (some l) own l.id = own := by
  simp [ownTake]

/-- **Off the queue, a reversal empties the older lot first.** -/
theorem RemovalPath.queue_order {lot : Option Lot} {amount : ℤ} {r : CreditRemoval}
    (h : RemovalPath a a' lot amount r) (ha : BooksOk a) (hpos : 0 < amount)
    (hcase : ∀ l, lot = some l → 0 < a.unrestated lot ∨ l.creditsTotal ≤ amount)
    {j k : Lot} (hj : j ∈ a.lots) (hk : k ∈ a.lots) (hjopen : j.closedAt = none)
    (hkopen : k.closedAt = none) (hjk : j.before k) : DrainsFirst a a' j k := by
  cases h with
  | lapsed lapse a₁ pos figure given rest =>
    obtain ⟨-, hlots, rows, heff, -⟩ := restateLapseOf_effect ha hpos given
    rcases rest with ⟨-, -, rfl⟩ | ⟨-, hcons⟩
    · intro hless
      rw [remainingOf_of_lots_eq hlots] at hless
      omega
    · have hdrain := consume_oldest_first heff.books hcons (hlots ▸ hj) (hlots ▸ hk) hjopen hkopen
        hjk
      intro hless
      exact hdrain (by rwa [remainingOf_of_lots_eq hlots])
  | own l found none small figure restated a₁ swap rest =>
    rcases hcase l found with hu | ht
    · omega
    · omega
  | queue none large figure debit => exact consume_oldest_first ha debit hj hk hjopen hkopen hjk

/-- **A reversal smaller than its purchase empties the purchase's own lot first**, and what is
left over comes off the others, oldest first. -/
theorem RemovalPath.own_order {l : Lot} {amount : ℤ} {r : CreditRemoval}
    (h : RemovalPath a a' (some l) amount r) (ha : BooksOk a) (hl : l ∈ a.lots) (hpos : 0 < amount)
    (hnone : a.unrestated (some l) ≤ 0) (hsmall : amount < l.creditsTotal) :
    a'.remainingOf l.id = l.creditsRemaining - min amount l.creditsRemaining ∧
      (∀ k ∈ a.lots, k.id ≠ l.id → a'.remainingOf k.id < a.remainingOf k.id →
        a'.remainingOf l.id = 0) ∧
      ∀ j ∈ a.lots, ∀ k ∈ a.lots, j.id ≠ l.id → k.id ≠ l.id → j.closedAt = none →
        k.closedAt = none → j.before k → DrainsFirst a a' j k := by
  cases h with
  | lapsed lapse a₁ pos figure given rest =>
    have := (restateLapseOf_effect ha hpos given).1
    omega
  | queue none large figure debit =>
    have := large l rfl
    omega
  | own l' found none small figure restated a₁ swap rest =>
    cases found
    obtain ⟨heff, hsf⟩ := restate_own_effect ha hl swap
    have hn := l.remaining_nonneg
    have hown : a₁.remainingOf l.id = l.creditsRemaining - min amount l.creditsRemaining := by
      rw [heff.remaining, ownTake_self, ha.lots.remainingOf_of_mem hl]
    have hothers : ∀ i, i ≠ l.id → a₁.remainingOf i = a.remainingOf i := by
      intro i hi
      rw [heff.remaining, ownTake_of_ne hi, sub_zero]
    rcases rest with ⟨hno, -, rfl⟩ | ⟨hyes, hcons⟩
    · refine ⟨hown, ?_, ?_⟩
      · intro k hk hne hless
        rw [hothers k.id hne] at hless
        omega
      · intro j hj k hk _ hne _ _ _ hless
        rw [hothers k.id hne] at hless
        omega
    · -- the lot could not cover the reversal, so it was left empty
      have hempty : a'.remainingOf l.id = 0 := by
        have := consume_remaining_le heff.books hcons l.id
        have := remainingOf_nonneg a' l.id
        omega
      refine ⟨by omega, fun _ _ _ _ => hempty, ?_⟩
      intro j hj k hk hjne hkne hjopen hkopen hjk hless
      obtain ⟨m, m', hread, hrep, -⟩ := adjustLot_swap ha swap
      obtain ⟨-, hm⟩ := readLot_some hread
      have hdrain := consume_oldest_first heff.books hcons
        (hrep.mem_of_ne hj (by rwa [hm])) (hrep.mem_of_ne hk (by rwa [hm])) hjopen hkopen hjk
      exact hdrain (by rwa [hothers k.id hkne])

end Order

/-! ## A reversal goes through -/

/-- A reference of the compensating kind starts like no other. -/
theorem restatedRef_ne {t : String} {lotId fresh : ℕ} :
    "adjust:" ++ t ≠ creditExpiryRestatedRef lotId fresh ∧
      "credit_expiry:" ++ t ≠ creditExpiryRestatedRef lotId fresh ∧
      "lot_rates:" ++ t ≠ creditExpiryRestatedRef lotId fresh ∧
      "dispute_hold:" ++ t ≠ creditExpiryRestatedRef lotId fresh ∧
      "dispute_release:" ++ t ≠ creditExpiryRestatedRef lotId fresh := by
  rw [creditExpiryRestatedRef_eq]
  refine ⟨?_, ?_, ?_, ?_, ?_⟩ <;> intro h <;> have := congrArg String.toList h <;>
    simp [String.toList_append] at this

/-- **A compensating row's reference was minted before its id**, so a fresh one is free. -/
theorem Entry.Wrote.minted {e : Entry} (h : e.Wrote) (hreason : e.reason = .adjustment)
    {lotId fresh : ℕ} (href : e.ref = some (creditExpiryRestatedRef lotId fresh)) :
    fresh < e.id := by
  have hne := fun t => @restatedRef_ne t lotId fresh
  cases h with
  | inflow w amount sign paid row =>
    obtain ⟨-, hr, hw, -⟩ := row
    rw [hw, Option.some.injEq] at href
    rw [hreason] at hr
    cases w with
    | correction target x => exact absurd ((adjustmentRef_eq _ _).symm.trans href) (hne _).1
    | release d suffix p =>
      exact absurd (String.append_assoc.symm.trans href) (hne _).2.2.2.2
    | topup ref => cases hr
    | packBonus p => cases hr
    | grant r => cases hr
    | restatement p c => cases hr
  | outflow w amount pos removal within row =>
    obtain ⟨-, hr, hw, -⟩ := row
    rw [hw, Option.some.injEq] at href
    rw [hreason] at hr
    cases w with
    | correction target x => exact absurd ((adjustmentRef_eq _ _).symm.trans href) (hne _).1
    | hold d => exact absurd (String.append_assoc.symm.trans href) (hne _).2.2.2.1
    | refund event => cases hr
    | clawback event grant => cases hr
  | usage ref splits kind pos row =>
    rw [row.2.1] at hreason
    cases hreason
  | expiry i amount pos row =>
    rw [row.2.2.1, Option.some.injEq] at href
    exact absurd href (hne _).2.1
  | restatedLapse i amount pos row =>
    obtain ⟨fresh', hlt, -, -, hw, -⟩ := row
    rw [hw, Option.some.injEq, creditExpiryRestatedRef_eq, creditExpiryRestatedRef_eq] at href
    have hfresh := (Lib.Reference.pair_inj (append_left_cancel.mp href)).2
    omega
  | marker i packId marks delta ref unrestated =>
    rw [ref, Option.some.injEq] at href
    exact absurd ((lotRepriceRef_eq _ _).symm.trans href) (hne _).2.2.1

/-! ## What the queue takes from one lot -/

/-- A walk over rupees takes from a lot what the lots before it could not pay. -/
theorem walk_aiAssist_share : ∀ {older younger : List Lot} {l : Lot} {c : ℤ} {want' : Want}
    {tries : ℕ} {splits : List LotSplit} {a a' : Account}, BooksOk a →
    ((older ++ l :: younger).map Lot.id).Nodup →
    (∀ k ∈ older ++ l :: younger, k ∈ a.lots ∧ k.closedAt = none) →
    walk (.aiAssist c) tries (older ++ l :: younger) a = .ok ((want', splits), a') →
    splitsOf splits l.id =
      max 0 (min l.creditsRemaining (c - (older.map Lot.creditsRemaining).sum)) := by
  intro older
  induction older with
  | nil =>
    intro younger l c want' tries splits a a' ha hnd hq h
    have hn := l.remaining_nonneg
    rw [List.nil_append] at h hnd hq
    unfold walk at h
    rcases Tx.ite_ok.mp h with ⟨hpend, h⟩ | ⟨hpend, h⟩
    · obtain ⟨⟨tries₁, drawn⟩, a₁, hdraw, h⟩ := Tx.bind_ok.mp h
      obtain ⟨hlmem, hlopen⟩ := hq l List.mem_cons_self
      obtain ⟨rfl, l', hrep, hs, hrem⟩ := drawLot_ok ha.lots hlmem hlopen hdraw
      have hb₁ : BooksOk a₁ := ⟨hrep.only.ledgerOk ha.ledger, hrep.lotsOk ha.lots hs⟩
      rw [List.map_cons, List.nodup_cons] at hnd
      have hpos : 0 < c := by simpa [Want.pending] using hpend
      -- nothing after the lot names it
      have hshare : ∀ more, (∀ s ∈ more, s.lotId ≠ some l.id) →
          splitsOf ((Want.aiAssist c).split l :: more) l.id = min c l.creditsRemaining := by
        intro more hmore
        rw [splitsOf_cons, Want.split_lotId, if_pos rfl, splitsOf_eq_zero hmore, add_zero]
        rfl
      have hfigure : min c l.creditsRemaining =
          max 0 (min l.creditsRemaining (c - ([].map Lot.creditsRemaining).sum)) := by
        simp only [List.map_nil, List.sum_nil]
        omega
      rcases Tx.ite_ok.mp h with ⟨hall, h⟩ | ⟨-, h⟩
      · obtain ⟨⟨rest, more⟩, a₂, hrest, h⟩ := Tx.bind_ok.mp h
        cases Tx.pure_ok.mp h
        have hq₁ := hrep.queue hnd.1 fun k hk => hq k (List.mem_cons_of_mem _ hk)
        obtain ⟨-, hnames, -⟩ := walk_takes hb₁ hnd.2 hq₁ hrest
        refine (hshare more fun s hs hsl => ?_).trans hfigure
        obtain ⟨k, hk, hks⟩ := hnames s hs
        rw [hks] at hsl
        exact hnd.1 (Option.some.inj hsl ▸ List.mem_map_of_mem hk)
      · cases Tx.pure_ok.mp h
        exact (hshare [] (by simp)).trans hfigure
    · cases Tx.pure_ok.mp h
      have hneg : ¬ 0 < c := by simpa [Want.pending] using hpend
      simp only [List.map_nil, List.sum_nil, splitsOf_nil]
      omega
  | cons x older ih =>
    intro younger l c want' tries splits a a' ha hnd hq h
    have hn := x.remaining_nonneg
    have hrest : 0 ≤ (older.map Lot.creditsRemaining).sum := by
      apply List.sum_nonneg
      intro r hr
      obtain ⟨k, -, rfl⟩ := List.mem_map.mp hr
      exact k.remaining_nonneg
    rw [List.cons_append] at h hnd hq
    rw [List.map_cons, List.nodup_cons] at hnd
    have hne : x.id ≠ l.id := by
      intro hid
      exact hnd.1 (hid ▸ List.mem_map_of_mem (List.mem_append_right _ List.mem_cons_self))
    rw [List.map_cons, List.sum_cons]
    unfold walk at h
    rcases Tx.ite_ok.mp h with ⟨hpend, h⟩ | ⟨hpend, h⟩
    · obtain ⟨⟨tries₁, drawn⟩, a₁, hdraw, h⟩ := Tx.bind_ok.mp h
      obtain ⟨hxmem, hxopen⟩ := hq x List.mem_cons_self
      obtain ⟨rfl, x', hrep, hs, hrem⟩ := drawLot_ok ha.lots hxmem hxopen hdraw
      have hb₁ : BooksOk a₁ := ⟨hrep.only.ledgerOk ha.ledger, hrep.lotsOk ha.lots hs⟩
      have hskip : ∀ more, splitsOf ((Want.aiAssist c).split x :: more) l.id =
          splitsOf more l.id := by
        intro more
        rw [splitsOf_cons, Want.split_lotId, if_neg (by simpa using hne), zero_add]
      rcases Tx.ite_ok.mp h with ⟨hall, h⟩ | ⟨hpart, h⟩
      · obtain ⟨⟨rest, more⟩, a₂, hwalk, h⟩ := Tx.bind_ok.mp h
        cases Tx.pure_ok.mp h
        have hq₁ := hrep.queue hnd.1 fun k hk => hq k (List.mem_cons_of_mem _ hk)
        have hshare := ih hb₁ hnd.2 hq₁ hwalk
        have hall' : min c x.creditsRemaining = x.creditsRemaining := hall
        rw [hskip, hshare]
        congr 2
        omega
      · cases Tx.pure_ok.mp h
        have hpart' : min c x.creditsRemaining ≠ x.creditsRemaining := hpart
        rw [hskip, splitsOf_nil]
        omega
    · cases Tx.pure_ok.mp h
      have hneg : ¬ 0 < c := by simpa [Want.pending] using hpend
      rw [splitsOf_nil]
      omega

/-- The lots before one in the queue are the older ones. -/
theorem olderOpen_eq {a : Account} (hok : LotsOk a) {older younger : List Lot} {l : Lot}
    (h : a.readOpenLots = older ++ l :: younger) :
    a.olderOpen l = (older.map Lot.creditsRemaining).sum := by
  have hsorted := readOpenLots_sorted a
  have hids := readOpenLots_ids hok
  rw [h, List.pairwise_append, List.pairwise_cons] at hsorted
  obtain ⟨-, ⟨hyounger, -⟩, hcross⟩ := hsorted
  rw [h, List.map_append, List.nodup_append] at hids
  have holder : older.filter (fun k => k.before l) = older := by
    rw [List.filter_eq_self]
    intro k hk
    have hkl := hcross k hk l List.mem_cons_self
    have hne : k.id ≠ l.id :=
      hids.2.2 _ (List.mem_map_of_mem hk) _ (List.mem_map_of_mem List.mem_cons_self)
    have : ¬ l.fifoLe k := by
      unfold Lot.fifoLe at hkl ⊢
      omega
    exact decide_eq_true this
  have hrest : (l :: younger).filter (fun k => k.before l) = [] := by
    rw [List.filter_eq_nil_iff]
    intro k hk hb
    rcases List.mem_cons.mp hk with rfl | hk
    · exact of_decide_eq_true hb (Or.inr ⟨rfl, le_refl _⟩)
    · exact of_decide_eq_true hb (hyounger k hk)
  unfold Account.olderOpen
  rw [h, List.filter_append, holder, hrest, List.append_nil]

/-- **Off the queue, an open lot is left what the amount did not reach.** -/
theorem consume_share {a a' : Account} {amount : ℤ} {splits : List LotSplit} (ha : BooksOk a)
    (h : consume (.aiAssist amount) a = .ok (splits, a')) {l : Lot} (hl : l ∈ a.lots)
    (hopen : l.closedAt = none) :
    a'.remainingOf l.id =
      l.creditsRemaining - max 0 (min l.creditsRemaining (amount - a.olderOpen l)) := by
  have htakes := (consume_takes ha h).1 l.id
  unfold consume at h
  obtain ⟨_, _, hget, h⟩ := Tx.bind_ok.mp h
  cases Tx.get_ok.mp hget
  obtain ⟨⟨want, drawn⟩, a₁, hwalk, h⟩ := Tx.bind_ok.mp h
  cases Tx.pure_ok.mp h
  have hdemand : Want.ofDemand (.aiAssist (amount : ℚ)) = .aiAssist amount := by
    simp [Want.ofDemand, money]
  rw [hdemand] at hwalk
  obtain ⟨older, younger, hq⟩ := List.append_of_mem (mem_readOpenLots.mpr ⟨hl, hopen⟩)
  have hnd := readOpenLots_ids ha.lots
  have hmem : ∀ k ∈ a.readOpenLots, k ∈ a.lots ∧ k.closedAt = none :=
    fun k hk => mem_readOpenLots.mp hk
  rw [olderOpen_eq ha.lots hq]
  rw [hq] at hwalk hnd hmem
  have hshare := walk_aiAssist_share ha hnd hmem hwalk
  have hover : splitsOf want.overdraft l.id = 0 := by
    apply splitsOf_eq_zero
    intro s hs
    rw [Want.overdraft_lotId s hs]
    simp
  rw [htakes, splitsOf_append, hover, hshare, ha.lots.remainingOf_of_mem hl, add_zero]

/-! ## The result -/

section Result

variable {a a' : Account}

/-- The reference of a compensating row is free: it carries an id that was not given out yet. -/
theorem restatedRef_free (ha : BooksOk a) (hw : ∀ e ∈ a.ledger, e.Wrote) (lotId : ℕ) :
    ¬ a.mint.keyTaken .adjustment (some (creditExpiryRestatedRef lotId a.nextId)) := by
  rintro ⟨-, e, he, hreason, href⟩
  have hminted := (hw e he).minted hreason href
  have hid := ha.ledger.ids_lt e he
  omega

theorem restateLapseOf_total (ha : BooksOk a) (hw : ∀ e ∈ a.ledger, e.Wrote) (lot : Option Lot)
    (amount : ℤ) : ∃ r, restateLapseOf lot amount a = .ok r := by
  cases lot with
  | none => exact ⟨_, rfl⟩
  | some l =>
    simp only [restateLapseOf, restateLapsedCredit, Tx.bind_ok, Tx.get_ok, Tx.ite_ok, Tx.pure_ok,
      uuid7_ok]
    by_cases hle : min amount (a.lapsedUnrestated l.id) ≤ 0
    · exact ⟨_, _, _, rfl, Or.inl ⟨hle, rfl⟩⟩
    · obtain ⟨b, hrec⟩ := @recordEntry_free a.mint (min amount (a.lapsedUnrestated l.id))
        .adjustment (some (creditExpiryRestatedRef l.id a.nextId))
        { kind := some .creditExpiryRestated, lotId := some l.id } true false
        (restatedRef_free ha hw l.id) (by omega) (by simp)
      exact ⟨_, _, _, rfl, Or.inr ⟨hle, _, _, rfl, _, _, hrec, rfl⟩⟩

/-- **Under the lock a reversal always goes through.** -/
theorem removeCreditFromLots_total (ha : BooksOk a) (hw : ∀ e ∈ a.ledger, e.Wrote)
    (entryId : Option ℕ) {amount : ℤ} (hpos : 0 < amount) :
    ∃ r, removeCreditFromLots entryId amount a = .ok r := by
  obtain ⟨⟨lapse, a₁⟩, hlapse⟩ := restateLapseOf_total ha hw (a.correctedLot entryId) amount
  obtain ⟨hfig, -, rows, heff, hrows⟩ := restateLapseOf_effect ha hpos hlapse
  unfold removeCreditFromLots
  simp only [Tx.bind_ok, Tx.get_ok, Tx.ite_ok]
  by_cases hl : 0 < lapse
  · by_cases hall : amount - lapse ≤ 0
    · exact ⟨_, _, _, rfl, _, _, hlapse, Or.inl ⟨hl, Or.inl ⟨hall, Tx.pure_ok.mpr rfl⟩⟩⟩
    · obtain ⟨⟨splits, a₂⟩, hcons⟩ := consume_total heff.books.lots (.aiAssist (amount - lapse))
      exact ⟨_, _, _, rfl, _, _, hlapse, Or.inl ⟨hl, Or.inr ⟨hall, _, _, hcons,
        Tx.pure_ok.mpr rfl⟩⟩⟩
  · have hsame : a₁ = a := by
      rcases hrows with ⟨-, -, hr⟩ | ⟨-, -, -, -, hgt, -⟩
      · exact hr
      · omega
    subst hsame
    suffices hrest : ∃ r, removeUnlapsed (a₁.correctedLot entryId) amount a₁ = .ok r by
      obtain ⟨r, hr⟩ := hrest
      exact ⟨r, _, _, rfl, _, _, hlapse, Or.inr ⟨hl, hr⟩⟩
    unfold removeUnlapsed
    cases hfil : (a₁.correctedLot entryId).filter fun l => amount < l.creditsTotal with
    | none =>
      obtain ⟨⟨splits, a₂⟩, hcons⟩ := consume_total ha.lots (.aiAssist amount)
      exact ⟨_, Tx.bind_ok.mpr ⟨_, _, hcons, Tx.pure_ok.mpr rfl⟩⟩
    | some l =>
      obtain ⟨hlot, hsmall⟩ := Option.filter_eq_some_iff.mp hfil
      obtain ⟨⟨restated, a₂⟩, hadj⟩ := adjustLot_total ha.lots (correctedLot_mem hlot) hpos
        (by simpa using hsmall)
      obtain ⟨-, -, -, -, -, hb, -⟩ := adjustLot_swap ha hadj
      by_cases hno : restated.shortfall ≤ 0
      · exact ⟨_, Tx.bind_ok.mpr ⟨_, _, hadj, Tx.ite_ok.mpr (Or.inl ⟨hno, Tx.pure_ok.mpr rfl⟩)⟩⟩
      · obtain ⟨⟨splits, a₃⟩, hcons⟩ := consume_total hb.lots (.aiAssist restated.shortfall)
        exact ⟨_, Tx.bind_ok.mpr ⟨_, _, hadj, Tx.ite_ok.mpr (Or.inr ⟨hno, Tx.bind_ok.mpr
          ⟨_, _, hcons, Tx.pure_ok.mpr rfl⟩⟩)⟩⟩

/-- **The reversed purchase's own lot pays first.** It gives up all it can of the amount; no
other lot loses credit while it still has some; all of them together give up no more than the
amount, so the others only what is left over; and of the others the older pays first. -/
structure OwnLotFirst (a a' : Account) (lot : Option Lot) (amountInr : ℤ) : Prop where
  own : ∀ l, lot = some l →
    a'.remainingOf l.id = l.creditsRemaining - min amountInr l.creditsRemaining
  spared : ∀ l, lot = some l → ∀ k ∈ a.lots, k.id ≠ l.id →
    a'.remainingOf k.id < a.remainingOf k.id → a'.remainingOf l.id = 0
  rest : a.held - a'.held ≤ amountInr
  oldest : ∀ j ∈ a.lots, ∀ k ∈ a.lots, (∀ l, lot = some l → j.id ≠ l.id ∧ k.id ≠ l.id) →
    j.closedAt = none → k.closedAt = none → j.before k → DrainsFirst a a' j k

/-- When the queue spares no lot for the purchase's own: the reversal is smaller than what was
sold, or nothing is left of it, or it reaches past every older open lot. -/
def Account.reachesOwnLot (a : Account) (l : Lot) (amountInr : ℤ) : Prop :=
  amountInr < l.creditsTotal ∨ l.creditsRemaining = 0 ∨
    a.olderOpen l + l.creditsRemaining ≤ amountInr

/-- Once the own lot pays first, the rest of the rule follows. -/
theorem RemovalPath.ownLotFirst {lot : Option Lot} {amount : ℤ} {r : CreditRemoval}
    (h : RemovalPath a a' lot amount r) (ha : BooksOk a) (hlapse : LapseOk a)
    (hmem : ∀ l, lot = some l → l ∈ a.lots) (hpos : 0 < amount)
    (hheld : a.held - a'.held ≤ amount)
    (hreach : ∀ l, lot = some l → a.reachesOwnLot l amount) : OwnLotFirst a a' lot amount := by
  -- when the queue pays, all that is needed of the own lot is that it ends empty
  have hqueue : (∀ l, lot = some l → 0 < a.unrestated lot ∨ l.creditsTotal ≤ amount) →
      (∀ l, lot = some l → a'.remainingOf l.id = 0) → OwnLotFirst a a' lot amount := by
    intro hcase hempty
    refine ⟨fun l hl => ?_, fun l hl _ _ _ _ => hempty l hl, hheld, ?_⟩
    · rw [hempty l hl]
      have hw := l.remaining_within_total
      have hn := l.remaining_nonneg
      rcases hcase l hl with hu | ht
      · have hz := hlapse.remaining_zero ha (hmem l hl) (by rw [hl] at hu; exact hu)
        omega
      · omega
    · intro j hj k hk _ hjo hko hjk
      exact h.queue_order ha hpos hcase hj hk hjo hko hjk
  by_cases hu : 0 < a.unrestated lot
  · refine hqueue (fun _ _ => Or.inl hu) fun l hl => ?_
    subst hl
    have hz := hlapse.remaining_zero ha (hmem l rfl) hu
    have hle : a'.remainingOf l.id ≤ a.remainingOf l.id := by
      cases h with
      | lapsed lapse a₁ pos figure given rest =>
        obtain ⟨-, hlots, rows, heff, -⟩ := restateLapseOf_effect ha hpos given
        rcases rest with ⟨-, -, rfl⟩ | ⟨-, hcons⟩
        · rw [remainingOf_of_lots_eq hlots]
        · have := consume_remaining_le heff.books hcons l.id
          rwa [remainingOf_of_lots_eq hlots] at this
      | own l' found none small figure restated a₁ swap rest => omega
      | queue none large figure debit => omega
    have := remainingOf_nonneg a' l.id
    rw [ha.lots.remainingOf_of_mem (hmem l rfl), hz] at hle
    omega
  · cases hlot : lot with
    | none =>
      subst hlot
      exact hqueue (by simp) (by simp)
    | some l =>
      subst hlot
      by_cases hsmall : amount < l.creditsTotal
      · obtain ⟨hown, hspared, hold⟩ := h.own_order ha (hmem l rfl) hpos (by omega) hsmall
        refine ⟨?_, ?_, hheld, ?_⟩
        · intro l' hl'
          cases hl'
          exact hown
        · intro l' hl' k hk hne hless
          cases hl'
          exact hspared k hk hne hless
        · intro j hj k hk hnot hjo hko hjk
          exact hold j hj k hk (hnot l rfl).1 (hnot l rfl).2 hjo hko hjk
      · have hlarge : ∀ l', some l = some l' → l'.creditsTotal ≤ amount := by
          intro l' hl'
          cases hl'
          omega
        refine hqueue (fun l' hl' => Or.inr (hlarge l' hl')) fun l' hl' => ?_
        cases hl'
        cases h with
        | lapsed lapse a₁ pos figure given rest =>
          have := (restateLapseOf_effect ha hpos given).1
          omega
        | own l' found none small figure restated a₁ swap rest =>
          cases found
          omega
        | queue none large figure debit =>
          by_cases hopen : l.closedAt = .none
          · have hshare := consume_share ha debit (hmem l rfl) hopen
            have hn := l.remaining_nonneg
            rcases hreach l rfl with hs | hz | hr
            · omega
            · omega
            · omega
          · have hz := (ha.lots.sound l (hmem l rfl)).closed hopen
            have hle := consume_remaining_le ha debit l.id
            have := remainingOf_nonneg a' l.id
            rw [ha.lots.remainingOf_of_mem (hmem l rfl), hz] at hle
            omega

/-- And where it does not reach the own lot, that lot keeps some of what it should have paid. -/
theorem RemovalPath.reachesOwnLot {l : Lot} {amount : ℤ} {r : CreditRemoval}
    (h : RemovalPath a a' (some l) amount r) (ha : BooksOk a) (hlapse : LapseOk a)
    (hl : l ∈ a.lots) (hpos : 0 < amount) (hfirst : OwnLotFirst a a' (some l) amount) :
    a.reachesOwnLot l amount := by
  unfold Account.reachesOwnLot
  cases h with
  | lapsed lapse a₁ pos figure given rest =>
    have hfig := (restateLapseOf_effect ha hpos given).1
    have hu : 0 < a.lapsedUnrestated l.id := by
      have : a.unrestated (some l) = a.lapsedUnrestated l.id := rfl
      omega
    exact Or.inr (Or.inl (hlapse.remaining_zero ha hl hu))
  | own l' found none small figure restated a₁ swap rest =>
    cases found
    exact Or.inl small
  | queue none large figure debit =>
    have hlarge := large l rfl
    have hw := l.remaining_within_total
    have hn := l.remaining_nonneg
    have hown := hfirst.own l rfl
    by_cases hopen : l.closedAt = .none
    · have hshare := consume_share ha debit hl hopen
      omega
    · exact Or.inr (Or.inl ((ha.lots.sound l hl).closed hopen))

end Result

/-- **When a reversal empties the reversed purchase's own lot first.** In every reachable state
and for every reversal, of an entry with a lot or without: the reversal goes through, and it
keeps the rule exactly when the lot of the purchase is reached. -/
theorem reversal_own_lot_first (ops : List Op) (entryId : Option ℕ) (amountInr : ℤ)
    (hpos : 0 < amountInr) :
    (∃ r a', removeCreditFromLots entryId amountInr (runOps ops {}) = .ok (r, a') ∧
      OwnLotFirst (runOps ops {}) a' (entryId.bind (runOps ops {}).purchaseLotOfEntry) amountInr) ↔
    ∀ l, entryId.bind (runOps ops {}).purchaseLotOfEntry = some l →
      (runOps ops {}).reachesOwnLot l amountInr := by
  obtain ⟨ha, hw⟩ := wrote_of_run ops
  have hlapse := (LapseOk.run ops).2
  generalize runOps ops {} = a at ha hw hlapse
  have hmem : ∀ l, a.correctedLot entryId = some l → l ∈ a.lots := fun l => correctedLot_mem
  constructor
  · rintro ⟨r, a', hrun, hfirst⟩ l hl
    have hpath := removeCreditFromLots_path ha hpos hrun
    have hl' : a.correctedLot entryId = some l := hl
    rw [hl'] at hpath
    rw [hl] at hfirst
    exact hpath.reachesOwnLot ha hlapse (hmem l hl') hpos hfirst
  · intro hreach
    obtain ⟨⟨r, a'⟩, hrun⟩ := removeCreditFromLots_total ha hw entryId hpos
    obtain ⟨rows, hm, -, hnn, -⟩ := removeCreditFromLots_moves ha hpos hrun
    have hheld := hm.held
    exact ⟨r, a', hrun, (removeCreditFromLots_path ha hpos hrun).ownLotFirst ha hlapse hmem hpos
      (by omega) hreach⟩

/-- A hundred rupees bought first, fifty bought after. -/
def twoPurchases : List Op :=
  [.topup onePackCtx 10000 "utr-1" none, .topup onePackCtx 5000 "utr-2" none]

/-- Thirty of the fifty rupees are reversed, and the lot of the fifty pays. -/
theorem reversal_own_lot_first_partial : 0 < (300000 : ℤ) ∧
    ((∃ r a', removeCreditFromLots (some 2) 300000 (runOps twoPurchases {}) = .ok (r, a') ∧
      OwnLotFirst (runOps twoPurchases {}) a'
        ((some 2 : Option ℕ).bind (runOps twoPurchases {}).purchaseLotOfEntry) 300000) ↔
    ∀ l, (some 2 : Option ℕ).bind (runOps twoPurchases {}).purchaseLotOfEntry = some l →
      (runOps twoPurchases {}).reachesOwnLot l 300000) :=
  ⟨by decide, reversal_own_lot_first twoPurchases (some 2) 300000 (by decide)⟩

/-- **A reversal of the whole purchase spares its own lot**: all fifty rupees come off the older
hundred, and the lot that was sold keeps every one of its own. -/
theorem whole_reversal_spares_own_lot :
    ¬ ∀ (ops : List Op) (entryId : Option ℕ) (amountInr : ℤ), 0 < amountInr →
      ∃ r a', removeCreditFromLots entryId amountInr (runOps ops {}) = .ok (r, a') ∧
        OwnLotFirst (runOps ops {}) a' (entryId.bind (runOps ops {}).purchaseLotOfEntry)
          amountInr := by
  intro h
  obtain ⟨r, a', hrun, hfirst⟩ := h twoPurchases (some 2) 500000 (by decide)
  have hlot : ((runOps twoPurchases {}).purchaseLotOfEntry 2).map
      (fun l => (l.id, l.creditsRemaining)) = some (3, 500000) := by decide +kernel
  obtain ⟨l, hl, hfacts⟩ := Option.map_eq_some_iff.mp hlot
  obtain ⟨hid, hrem⟩ := Prod.mk.inj hfacts
  have hafter : (Tx.commit (removeCreditFromLots (some 2) 500000)
      (runOps twoPurchases {})).remainingOf 3 = 500000 := by decide +kernel
  rw [Tx.commit_of_ok hrun] at hafter
  have hown := hfirst.own l hl
  rw [hid, hrem, hafter] at hown
  omega

end Billing

end Calevate
