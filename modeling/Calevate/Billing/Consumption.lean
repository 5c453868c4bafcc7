import Calevate.Billing.Helpers.Lots

/-!
# Oldest first

What `consume` does to a queue of lots when no other writer is about, as a function of the
queue and the demand: which lots it draws, how much of each, and what is left for the
overdraft. The arithmetic it runs in is a parameter. Under the decimal context it is what
the walk over the table computes (`consume_eq`); with quotients taken exactly it is first
in first out to the last minute (`consumeCall_fifo`).
-/

namespace Calevate

namespace Billing

open Lib

/-- What one lot gives a call. -/
structure Draw where
  lot : Lot
  taken : ℤ
  reported : ℚ
  used : ℚ

/-- `_portion_for_call`, with `keep` for what the arithmetic keeps of a result. -/
def Draw.portion (keep : ℚ → ℚ) (l : Lot) (minutesLeft : ℚ) (tier : VoiceTier) : Draw :=
  let rate := l.rateFor tier
  let covered := keep (l.creditsRemaining / rate)
  if minutesLeft ≤ covered then
    ⟨l, min (money (keep (minutesLeft * rate))) l.creditsRemaining, minutesLeft, minutesLeft⟩
  else ⟨l, l.creditsRemaining, minutesDown covered, covered⟩

/-- The split it comes back as. -/
def Draw.split (d : Draw) (tier : VoiceTier) : LotSplit :=
  { lotId := some d.lot.id, credits := d.taken,
    call := some (d.reported, d.lot.rateFor tier, tier) }

/-- The loop variables of `_consume_call` at its end. -/
structure Drawn where
  draws : List Draw
  minutesLeft : ℚ
  pricedAt : ℤ

/-- The loop of `_consume_call`. The index stands still after a lot that kept something, and
so does the loop: there is nothing left to draw. -/
def drawCall (keep : ℚ → ℚ) (tier : VoiceTier) : List Lot → ℚ → ℤ → Drawn
  | [], minutesLeft, pricedAt => ⟨[], minutesLeft, pricedAt⟩
  | l :: lots, minutesLeft, pricedAt =>
    if 0 < minutesLeft then
      let draw := Draw.portion keep l minutesLeft tier
      let minutesLeft := keep (minutesLeft - draw.used)
      if draw.taken = l.creditsRemaining then
        let rest := drawCall keep tier lots minutesLeft (l.rateFor tier)
        { rest with draws := draw :: rest.draws }
      else ⟨[draw], minutesLeft, l.rateFor tier⟩
    else ⟨[], minutesLeft, pricedAt⟩

/-- The overdraft split, when there is one. -/
def Drawn.overdraft (keep : ℚ → ℚ) (tier : VoiceTier) (d : Drawn) : List LotSplit :=
  if 0 < d.minutesLeft then
    [{ lotId := none, credits := money (keep (d.minutesLeft * d.pricedAt)),
       call := some (minutesDown d.minutesLeft, d.pricedAt, tier) }]
  else []

/-- **`_consume_call`.** -/
def consumeCall (keep : ℚ → ℚ) (lots : List Lot) (minutes : ℚ) (tier : VoiceTier)
    (fallback : LotRates) : List LotSplit :=
  let drawn := drawCall keep tier lots minutes (fallback.rateFor tier)
  drawn.draws.map (fun d => d.split tier) ++ drawn.overdraft keep tier

/-! ## The walk over the table computes it -/

section Refinement

variable {a a' : Account} {tier : VoiceTier}

theorem walk_call : ∀ {queue : List Lot} {minutesLeft : ℚ} {pricedAt : ℤ} {want' : Want}
    {tries : ℕ} {splits : List LotSplit} {a a' : Account}, LotsOk a →
    (queue.map Lot.id).Nodup → (∀ l ∈ queue, l ∈ a.lots ∧ l.closedAt = none) →
    walk (.call minutesLeft tier pricedAt) tries queue a = .ok ((want', splits), a') →
    want' = .call (drawCall Dec.ctx tier queue minutesLeft pricedAt).minutesLeft tier
        (drawCall Dec.ctx tier queue minutesLeft pricedAt).pricedAt ∧
      splits = (drawCall Dec.ctx tier queue minutesLeft pricedAt).draws.map
        fun d => d.split tier := by
  intro queue
  induction queue with
  | nil =>
    intro minutesLeft pricedAt want' tries splits a a' _ _ _ h
    cases Tx.pure_ok.mp h
    exact ⟨rfl, rfl⟩
  | cons l queue ih =>
    intro minutesLeft pricedAt want' tries splits a a' hok hnd hq h
    have hportion : (Draw.portion Dec.ctx l minutesLeft tier).taken =
          (portionForCall l minutesLeft tier).1 ∧
        (Draw.portion Dec.ctx l minutesLeft tier).reported =
          (portionForCall l minutesLeft tier).2.1 ∧
        (Draw.portion Dec.ctx l minutesLeft tier).used =
          (portionForCall l minutesLeft tier).2.2 ∧
        (Draw.portion Dec.ctx l minutesLeft tier).lot = l := by
      unfold Draw.portion portionForCall
      dsimp only
      split <;> exact ⟨rfl, rfl, rfl, rfl⟩
    obtain ⟨htaken, hreported, hused, hlot⟩ := hportion
    have hsplit : (Draw.portion Dec.ctx l minutesLeft tier).split tier =
        (Want.call minutesLeft tier pricedAt).split l := by
      rw [Draw.split, htaken, hreported, hlot]
      rfl
    unfold walk at h
    unfold drawCall
    rcases Tx.ite_ok.mp h with ⟨hpend, h⟩ | ⟨hpend, h⟩
    · have hpos : 0 < minutesLeft := by simpa [Want.pending] using hpend
      obtain ⟨⟨tries₁, drawn⟩, a₁, hdraw, h⟩ := Tx.bind_ok.mp h
      obtain ⟨hlmem, hlopen⟩ := hq l List.mem_cons_self
      obtain ⟨rfl, l', hrep, hs, hrem⟩ := drawLot_ok hok hlmem hlopen hdraw
      rw [List.map_cons, List.nodup_cons] at hnd
      have hq₁ := hrep.queue hnd.1 fun k hk => hq k (List.mem_cons_of_mem _ hk)
      rw [if_pos hpos]
      dsimp only
      rw [htaken, hused]
      rcases Tx.ite_ok.mp h with ⟨hall, h⟩ | ⟨hpart, h⟩
      · obtain ⟨⟨rest, more⟩, a₂, hrest, h⟩ := Tx.bind_ok.mp h
        cases Tx.pure_ok.mp h
        obtain ⟨hwant, hmore⟩ := ih (hrep.lotsOk hok hs) hnd.2 hq₁ hrest
        have hall' : (portionForCall l minutesLeft tier).1 = l.creditsRemaining := hall
        rw [if_pos hall', hmore, List.map_cons, hsplit]
        exact ⟨hwant, rfl⟩
      · cases Tx.pure_ok.mp h
        have hpart' : (portionForCall l minutesLeft tier).1 ≠ l.creditsRemaining := hpart
        rw [if_neg hpart', List.map_cons, List.map_nil, hsplit]
        exact ⟨rfl, rfl⟩
    · have hpos : ¬ 0 < minutesLeft := by simpa [Want.pending] using hpend
      cases Tx.pure_ok.mp h
      rw [if_neg hpos]
      exact ⟨rfl, rfl⟩

/-- **The splits a debit comes back with are those of the queue it read**, in the decimal
context's arithmetic. -/
theorem consume_eq {minutes : ℚ} {fallback : LotRates} {splits : List LotSplit} (hok : LotsOk a)
    (h : consume (.call minutes tier fallback) a = .ok (splits, a')) :
    splits = consumeCall Dec.ctx a.readOpenLots minutes tier fallback := by
  unfold consume at h
  obtain ⟨_, _, hget, h⟩ := Tx.bind_ok.mp h
  cases Tx.get_ok.mp hget
  obtain ⟨⟨want, drawn⟩, a₁, hwalk, h⟩ := Tx.bind_ok.mp h
  cases Tx.pure_ok.mp h
  obtain ⟨rfl, rfl⟩ := walk_call hok (readOpenLots_ids hok)
    (fun l hl => mem_readOpenLots.mp hl) hwalk
  rfl

end Refinement

/-! ## First in, first out -/

/-- A reported figure is at most the exact one, and short of it by less than its last place. -/
def ReportsDown (reported used : ℚ) : Prop := reported ≤ used ∧ used - reported < 1 / 10000

theorem minutesDown_reports {minutes : ℚ} (h : 0 ≤ minutes) :
    ReportsDown (minutesDown minutes) minutes := by
  have hscaled : 0 ≤ minutes * 10000 := mul_nonneg h (by norm_num)
  have hle := Int.floor_le (minutes * 10000)
  have hlt := Int.lt_floor_add_one (minutes * 10000)
  rw [minutesDown, Dec.roundDown, if_pos hscaled]
  constructor
  · rw [div_le_iff₀ (by norm_num)]
    exact hle
  · rw [sub_lt_iff_lt_add, ← add_div, lt_div_iff₀ (by norm_num)]
    linarith

/-- **First in, first out**, of what a queue gave to a demand for minutes. -/
structure Fifo (lots : List Lot) (minutes : ℚ) (tier : VoiceTier) (fallback : ℤ) (d : Drawn) :
    Prop where
  /-- The lots drawn are the first of the queue, all but at most the last of them drained. -/
  in_order : ∃ drained part rest, d.draws = drained ++ part ∧ part.length ≤ 1 ∧
    lots = d.draws.map Draw.lot ++ rest ∧
    (∀ x ∈ drained, x.taken = x.lot.creditsRemaining) ∧
    ∀ x ∈ part, x.taken < x.lot.creditsRemaining
  within : ∀ x ∈ d.draws, 0 ≤ x.taken ∧ x.taken ≤ x.lot.creditsRemaining
  /-- The minutes used and the minutes left are the demand. -/
  conserved : (d.draws.map Draw.used).sum + d.minutesLeft = minutes
  left_nonneg : 0 ≤ d.minutesLeft
  /-- An overdraft means an empty queue. -/
  overdrawn : 0 < d.minutesLeft → d.draws.map Draw.lot = lots ∧
    ∀ x ∈ d.draws, x.taken = x.lot.creditsRemaining
  priced : d.pricedAt = (d.draws.getLast?.map fun x => x.lot.rateFor tier).getD fallback
  reported : ∀ x ∈ d.draws, ReportsDown x.reported x.used

namespace Fifo

variable {lots : List Lot} {minutes : ℚ} {tier : VoiceTier} {fallback : ℤ} {d : Drawn}
  {l : Lot} {x : Draw}

/-- Nothing is drawn from no lots, nor for no minutes. -/
theorem nothing (h : 0 ≤ minutes) (hnone : lots = [] ∨ minutes = 0) :
    Fifo lots minutes tier fallback ⟨[], minutes, fallback⟩ where
  in_order := ⟨[], [], lots, rfl, Nat.zero_le 1, rfl, by simp, by simp⟩
  within := by simp
  conserved := by simp
  left_nonneg := h
  overdrawn := by
    intro hpos
    rcases hnone with rfl | rfl
    · exact ⟨rfl, by simp⟩
    · exact absurd hpos (lt_irrefl 0)
  priced := rfl
  reported := by simp

/-- A drained lot in front of a queue. -/
theorem drained (h : Fifo lots (minutes - x.used) tier (l.rateFor tier) d) (hlot : x.lot = l)
    (htaken : x.taken = l.creditsRemaining) (hreported : ReportsDown x.reported x.used) :
    Fifo (l :: lots) minutes tier fallback { d with draws := x :: d.draws } where
  in_order := by
    obtain ⟨drained, part, rest, hdraws, hpart, hlots, hdrained, hkept⟩ := h.in_order
    refine ⟨x :: drained, part, rest, by rw [hdraws, List.cons_append], hpart, ?_, ?_, hkept⟩
    · rw [List.map_cons, hlot, List.cons_append, ← hlots]
    · intro y hy
      rcases List.mem_cons.mp hy with rfl | hy
      · rw [htaken, hlot]
      · exact hdrained y hy
  within := by
    intro y hy
    rcases List.mem_cons.mp hy with rfl | hy
    · rw [htaken, hlot]
      exact ⟨l.remaining_nonneg, le_refl _⟩
    · exact h.within y hy
  conserved := by
    have hrest := h.conserved
    rw [List.map_cons, List.sum_cons]
    linarith
  left_nonneg := h.left_nonneg
  overdrawn := by
    intro hpos
    obtain ⟨hlots, hall⟩ := h.overdrawn hpos
    refine ⟨by rw [List.map_cons, hlot, hlots], fun y hy => ?_⟩
    rcases List.mem_cons.mp hy with rfl | hy
    · rw [htaken, hlot]
    · exact hall y hy
  priced := by
    rw [h.priced, List.getLast?_cons]
    cases d.draws.getLast? with
    | none => simp [hlot]
    | some y => rfl
  reported := by
    intro y hy
    rcases List.mem_cons.mp hy with rfl | hy
    · exact hreported
    · exact h.reported y hy

/-- A lot that meets the demand and keeps something. -/
theorem met (hlot : x.lot = l) (hnonneg : 0 ≤ x.taken) (htaken : x.taken < l.creditsRemaining)
    (hused : x.used = minutes) (hreported : ReportsDown x.reported x.used) :
    Fifo (l :: lots) minutes tier fallback ⟨[x], 0, l.rateFor tier⟩ where
  in_order := by
    refine ⟨[], [x], lots, rfl, Nat.le_refl 1, by rw [List.map_singleton, hlot]; rfl, by simp, ?_⟩
    intro y hy
    rw [List.mem_singleton.mp hy, hlot]
    exact htaken
  within := by
    intro y hy
    rw [List.mem_singleton.mp hy, hlot]
    exact ⟨hnonneg, htaken.le⟩
  conserved := by rw [List.map_singleton, List.sum_singleton, add_zero, hused]
  left_nonneg := le_refl 0
  overdrawn := fun hpos => absurd hpos (lt_irrefl 0)
  priced := by simp [hlot]
  reported := by
    intro y hy
    rw [List.mem_singleton.mp hy]
    exact hreported

end Fifo

/-- **The loop is first in, first out**, its quotients taken exactly. -/
theorem drawCall_fifo (tier : VoiceTier) (lots : List Lot) {minutes : ℚ} (h : 0 ≤ minutes)
    (fallback : ℤ) : Fifo lots minutes tier fallback (drawCall id tier lots minutes fallback) := by
  induction lots generalizing minutes fallback with
  | nil => exact Fifo.nothing h (Or.inl rfl)
  | cons l lots ih =>
    unfold drawCall
    split
    case isFalse hpos => exact Fifo.nothing h (Or.inr (le_antisymm (not_lt.mp hpos) h))
    case isTrue hpos =>
      have hrate : (0 : ℚ) < l.rateFor tier := by exact_mod_cast l.rates.rateFor_pos tier
      have hremaining : (0 : ℚ) ≤ l.creditsRemaining := by exact_mod_cast l.remaining_nonneg
      dsimp only [id]
      by_cases hmeets : minutes ≤ l.creditsRemaining / l.rateFor tier
      · -- the lot pays for all that is left, and the half-up figure may still drain it
        have hportion : Draw.portion id l minutes tier =
            ⟨l, min (money (minutes * l.rateFor tier)) l.creditsRemaining, minutes, minutes⟩ :=
          if_pos hmeets
        have hmoney : 0 ≤ money (minutes * l.rateFor tier) :=
          Dec.roundHalfUp_nonneg (mul_nonneg h hrate.le)
        have hreported : ReportsDown minutes minutes := ⟨le_refl _, by norm_num⟩
        rw [hportion]
        dsimp only
        rw [sub_self]
        split
        · rename_i hall
          refine Fifo.drained ?_ rfl hall hreported
          dsimp only
          rw [sub_self]
          exact ih (le_refl 0) _
        · rename_i hpart
          have hle := min_le_right (money (minutes * l.rateFor tier)) l.creditsRemaining
          exact Fifo.met rfl (le_min hmoney l.remaining_nonneg) (lt_of_le_of_ne hle hpart) rfl
            hreported
      · have hportion : Draw.portion id l minutes tier =
            ⟨l, l.creditsRemaining, minutesDown (l.creditsRemaining / l.rateFor tier),
              l.creditsRemaining / l.rateFor tier⟩ := if_neg hmeets
        rw [hportion]
        dsimp only
        rw [if_pos rfl]
        exact Fifo.drained (ih (by linarith) _) rfl rfl
          (minutesDown_reports (div_nonneg hremaining hrate.le))

/-- **A call is drawn first in, first out.** The splits are those of draws that take the lots
in order, drain all but at most the last, and with the overdraft's minutes make up the demand
exactly; an overdraft is priced at the last lot drained, and what is reported of it is rounded
down as what is reported of the lots is. -/
theorem consumeCall_fifo (lots : List Lot) (minutes : ℚ) (tier : VoiceTier)
    (fallback : LotRates) (h : 0 ≤ minutes) :
    ∃ d : Drawn, consumeCall id lots minutes tier fallback =
        d.draws.map (fun x => x.split tier) ++ d.overdraft id tier ∧
      Fifo lots minutes tier (fallback.rateFor tier) d ∧
      (d.minutesLeft = 0 → d.overdraft id tier = []) ∧
      (0 < d.minutesLeft → ∃ reported, d.overdraft id tier =
        [{ lotId := none, credits := money (d.minutesLeft * d.pricedAt),
           call := some (reported, d.pricedAt, tier) }] ∧ ReportsDown reported d.minutesLeft) := by
  refine ⟨_, rfl, drawCall_fifo tier lots h _, fun hzero => ?_, fun hpos => ?_⟩
  · rw [Drawn.overdraft, if_neg (by rw [hzero]; exact lt_irrefl 0)]
  · exact ⟨_, if_pos hpos, minutesDown_reports hpos.le⟩

/-- Ten rupees at three rupees a minute, five on the dearer voice. -/
def tenRupees : Lot :=
  newLot 1 0 100000 ⟨30000, 50000, by decide, by decide⟩ .topup none 1 none none none
    ⟨by decide, by decide⟩

theorem consumeCall_fifo_tenRupees :
    ∃ d : Drawn, consumeCall id [tenRupees] 4 .value tenRupees.rates =
        d.draws.map (fun x => x.split .value) ++ d.overdraft id .value ∧
      Fifo [tenRupees] 4 .value (tenRupees.rates.rateFor .value) d ∧
      (d.minutesLeft = 0 → d.overdraft id .value = []) ∧
      (0 < d.minutesLeft → ∃ reported, d.overdraft id .value =
        [{ lotId := none, credits := money (d.minutesLeft * d.pricedAt),
           call := some (reported, d.pricedAt, .value) }] ∧ ReportsDown reported d.minutesLeft) :=
  consumeCall_fifo [tenRupees] 4 .value tenRupees.rates (by norm_num)

end Billing

end Calevate
