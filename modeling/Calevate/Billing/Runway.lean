import Calevate.Billing.Consumption

/-!
# The runway

`runway` sums what every open lot still pays for at its own rate and rounds the total down
once; a call walks the same lots one at a time. With quotients taken exactly the walk leaves
over exactly what the demand has beyond that sum (`drawCall_minutesLeft`), so the figure
quoted is what a call can have, to its last place.
-/

namespace Calevate

namespace Billing

open Lib

/-! ## The figure -/

/-- The minutes a lot still pays for on a voice. -/
def Lot.minutesAt (l : Lot) (tier : VoiceTier) : ℚ := l.creditsRemaining / l.rateFor tier

/-- The minutes a queue of lots still pays for, before they are rounded. -/
def minutesHeld (lots : List Lot) (tier : VoiceTier) : ℚ :=
  (lots.map fun l => l.minutesAt tier).sum

/-- What `runway` returns. -/
structure RunwayMinutes where
  clearMinutes : ℚ
  studioMinutes : ℚ

/-- **`lots.runway`.** -/
def Account.runway (a : Account) : RunwayMinutes where
  clearMinutes := minutesDown (minutesHeld a.readOpenLots .value)
  studioMinutes := minutesDown (minutesHeld a.readOpenLots .premium)

/-- The figure quoted for a voice. -/
def RunwayMinutes.forTier (r : RunwayMinutes) : VoiceTier → ℚ
  | .value => r.clearMinutes
  | .premium => r.studioMinutes

variable {l : Lot} {lots : List Lot} {tier : VoiceTier} {minutes : ℚ}

theorem Account.runway_forTier (a : Account) (tier : VoiceTier) :
    a.runway.forTier tier = minutesDown (minutesHeld a.readOpenLots tier) := by
  cases tier <;> rfl

theorem Lot.rateFor_pos (l : Lot) (tier : VoiceTier) : (0 : ℚ) < l.rateFor tier := by
  exact_mod_cast l.rates.rateFor_pos tier

theorem Lot.minutesAt_nonneg (l : Lot) (tier : VoiceTier) : 0 ≤ l.minutesAt tier :=
  div_nonneg (by exact_mod_cast l.remaining_nonneg) (l.rateFor_pos tier).le

theorem minutesHeld_cons : minutesHeld (l :: lots) tier = l.minutesAt tier + minutesHeld lots tier :=
  List.sum_cons

theorem minutesHeld_nonneg (lots : List Lot) (tier : VoiceTier) : 0 ≤ minutesHeld lots tier := by
  induction lots with
  | nil => exact le_refl 0
  | cons l lots ih =>
    rw [minutesHeld_cons]
    exact add_nonneg (l.minutesAt_nonneg tier) ih

/-! ## The walk -/

/-- A lot that pays for all that is left takes all of it. -/
theorem Draw.portion_used_of_le (h : minutes ≤ l.minutesAt tier) :
    (Draw.portion id l minutes tier).used = minutes := by
  have hmeets : minutes ≤ id ((l.creditsRemaining : ℚ) / l.rateFor tier) := h
  rw [Draw.portion, if_pos hmeets]

/-- A lot that does not is drained, and gives what its credit pays for. -/
theorem Draw.portion_of_lt (h : l.minutesAt tier < minutes) :
    (Draw.portion id l minutes tier).used = l.minutesAt tier ∧
      (Draw.portion id l minutes tier).taken = l.creditsRemaining := by
  have hshort : ¬ minutes ≤ id ((l.creditsRemaining : ℚ) / l.rateFor tier) := not_le.mpr h
  rw [Draw.portion, if_neg hshort]
  exact ⟨rfl, rfl⟩

/-- **What the walk leaves over** is what the demand has beyond all that the lots hold. -/
theorem drawCall_minutesLeft (tier : VoiceTier) (lots : List Lot) (h : 0 ≤ minutes)
    (pricedAt : ℤ) :
    (drawCall id tier lots minutes pricedAt).minutesLeft =
      max 0 (minutes - minutesHeld lots tier) := by
  induction lots generalizing minutes pricedAt with
  | nil =>
    have hnone : minutesHeld [] tier = 0 := rfl
    rw [hnone, sub_zero, max_eq_right h]
    rfl
  | cons l lots ih =>
    have hlots := minutesHeld_nonneg lots tier
    rw [minutesHeld_cons]
    unfold drawCall
    split
    case isFalse hpos =>
      have hl := l.minutesAt_nonneg tier
      rw [max_eq_left (by linarith)]
      exact le_antisymm (not_lt.mp hpos) h
    case isTrue hpos =>
      dsimp only [id]
      by_cases hmeets : minutes ≤ l.minutesAt tier
      · -- nothing is left, whether or not the half-up figure drained the lot
        rw [Draw.portion_used_of_le hmeets, sub_self, max_eq_left (by linarith)]
        split
        · dsimp only
          rw [ih (le_refl 0), max_eq_left (by linarith)]
        · rfl
      · obtain ⟨hused, htaken⟩ := Draw.portion_of_lt (not_le.mp hmeets)
        have hrest : 0 ≤ minutes - l.minutesAt tier := by linarith [not_le.mp hmeets]
        rw [hused, if_pos htaken]
        dsimp only
        rw [ih hrest, sub_sub]

/-- A portion without a lot is what the walk left over. -/
theorem overdraft_mem_consumeCall (fallback : LotRates) :
    (∃ s ∈ consumeCall id lots minutes tier fallback, s.lotId = none) ↔
      0 < (drawCall id tier lots minutes (fallback.rateFor tier)).minutesLeft := by
  rw [consumeCall, Drawn.overdraft]
  constructor
  · rintro ⟨s, hs, hnone⟩
    rcases List.mem_append.mp hs with hs | hs
    · obtain ⟨d, _, rfl⟩ := List.mem_map.mp hs
      cases hnone
    · split at hs
      · assumption
      · cases hs
  · intro hpos
    rw [if_pos hpos]
    exact ⟨_, List.mem_append_right _ (List.mem_singleton_self _), rfl⟩

/-- **A call overdraws exactly when it asks for more than the lots hold.** -/
theorem overdrawn_iff (lots : List Lot) (tier : VoiceTier) (minutes : ℚ) (fallback : LotRates) :
    (∃ s ∈ consumeCall id lots minutes tier fallback, s.lotId = none) ↔
      minutesHeld lots tier < minutes := by
  rw [overdraft_mem_consumeCall]
  rcases lt_or_ge minutes 0 with hneg | hpos
  · -- a demand for less than nothing draws nothing
    have hheld := minutesHeld_nonneg lots tier
    have hidle : (drawCall id tier lots minutes (fallback.rateFor tier)).minutesLeft = minutes := by
      cases lots with
      | nil => rfl
      | cons l lots => rw [drawCall, if_neg (not_lt.mpr hneg.le)]
    rw [hidle]
    exact ⟨fun h => absurd h (not_lt.mpr hneg.le), fun h => absurd (hheld.trans_lt h) hneg.not_gt⟩
  · rw [drawCall_minutesLeft tier lots hpos, lt_max_iff, sub_pos]
    exact ⟨fun h => h.resolve_left (lt_irrefl 0), Or.inr⟩

/-- **The runway quoted is what a call is given.** On either voice, a call of no more than the
quoted minutes is paid by the lots alone, and a call longer by a unit of the figure's last
place or more is not. -/
theorem runway_delivered (a : Account) (tier : VoiceTier) (minutes : ℚ) (fallback : LotRates) :
    (minutes ≤ a.runway.forTier tier →
      ∀ s ∈ consumeCall id a.readOpenLots minutes tier fallback, s.lotId ≠ none) ∧
    (a.runway.forTier tier + 1 / 10000 ≤ minutes →
      ∃ s ∈ consumeCall id a.readOpenLots minutes tier fallback, s.lotId = none) := by
  obtain ⟨hle, hnear⟩ := minutesDown_reports (minutesHeld_nonneg a.readOpenLots tier)
  rw [a.runway_forTier]
  constructor
  · intro hquoted s hs hnone
    have hmore := (overdrawn_iff _ _ _ _).mp ⟨s, hs, hnone⟩
    linarith
  · intro hmore
    exact (overdrawn_iff _ _ _ _).mpr (by linarith)

/-- A wallet of one lot of ten rupees. -/
def oneLot : Account := { lots := [tenRupees] }

theorem runway_delivered_oneLot :
    (∀ s ∈ consumeCall id oneLot.readOpenLots (33333 / 10000) .value tenRupees.rates,
      s.lotId ≠ none) ∧
    ∃ s ∈ consumeCall id oneLot.readOpenLots (33334 / 10000) .value tenRupees.rates,
      s.lotId = none :=
  ⟨(runway_delivered oneLot .value (33333 / 10000) tenRupees.rates).1 (by decide +kernel),
    (runway_delivered oneLot .value (33334 / 10000) tenRupees.rates).2 (by decide +kernel)⟩

end Billing

end Calevate
