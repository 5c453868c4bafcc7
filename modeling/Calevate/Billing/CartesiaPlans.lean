import Calevate.Lib.Bisection
import Calevate.Lib.Decimal
import Mathlib.Algebra.Order.Archimedean.Basic

/-!
# Voice plans

A Cartesia plan is a monthly fee, an allotment of characters and a price past it. In dollars
the gap between a dearer plan and a cheaper one only ever closes as the volume grows
(`usdGap_antitone`), and a positive rate of exchange scales both, so the search for the volume
where the dearer plan catches up is a bisection of a condition that fails for good.

Volumes are in call minutes, money in rupees, and nothing is rounded.
-/

namespace Calevate.Billing

open Lib

/-! ## The plans -/

/-- `rates.CartesiaPlan`. No figure of a plan is negative. -/
structure CartesiaPlan where
  planId : String
  feeUsd : ℚ
  includedCredits : ℚ
  overageUsdPerMillionCredits : ℚ
  ttsConcurrency : ℕ
  fee_nonneg : 0 ≤ feeUsd
  included_nonneg : 0 ≤ includedCredits
  overage_nonneg : 0 ≤ overageUsdPerMillionCredits

/-- `TTS_ASSUMED_CHARS_PER_CALL_MINUTE`. -/
def ttsAssumedCharsPerCallMinute : ℚ × ℚ := (360, 540)

/-- `CARTESIA_CREDITS_PER_CHARACTER`. -/
def cartesiaCreditsPerCharacter : ℚ := 1

namespace CartesiaPlan

variable (p : CartesiaPlan) (usdInr : ℚ)

/-- `CartesiaPlan.fee_inr`. -/
def feeInr : ℚ := p.feeUsd * usdInr

/-- `CartesiaPlan.overage_inr_per_character`. -/
def overageInrPerCharacter : ℚ :=
  p.overageUsdPerMillionCredits * usdInr / 1000000 / cartesiaCreditsPerCharacter

/-- `CartesiaPlan.included_call_minutes`. -/
def includedCallMinutes : ℚ := p.includedCredits / ttsAssumedCharsPerCallMinute.2

/-- `CartesiaPlan.marginal_inr_per_call_minute`. -/
def marginalInrPerCallMinute : ℚ := p.overageInrPerCharacter usdInr * ttsAssumedCharsPerCallMinute.2

/-- `CartesiaPlan.monthly_inr_for_characters`. -/
def monthlyInrForCharacters (characters : ℚ) : ℚ :=
  p.feeInr usdInr + max 0 (characters - p.includedCredits) * p.overageInrPerCharacter usdInr

/-- `CartesiaPlan.monthly_inr`. -/
def monthlyInr (callMinutes : ℚ) : ℚ :=
  p.monthlyInrForCharacters usdInr (callMinutes * ttsAssumedCharsPerCallMinute.2)

/-- The characters of a month past the allotment. -/
def charactersPast (callMinutes : ℚ) : ℚ := max 0 (callMinutes * 540 - p.includedCredits)

/-- A month's cost in the plan's own currency. -/
def monthlyUsd (callMinutes : ℚ) : ℚ :=
  p.feeUsd + p.charactersPast callMinutes * p.overageUsdPerMillionCredits / 1000000

variable {p} {usdInr}

theorem charactersPast_nonneg (callMinutes : ℚ) : 0 ≤ p.charactersPast callMinutes :=
  le_max_left _ _

/-- **A month's cost moves with the rate of exchange and with nothing else.** -/
theorem monthlyInr_eq (callMinutes : ℚ) :
    p.monthlyInr usdInr callMinutes = p.monthlyUsd callMinutes * usdInr := by
  unfold monthlyInr monthlyInrForCharacters monthlyUsd charactersPast feeInr
    overageInrPerCharacter
  have hrate : ttsAssumedCharsPerCallMinute.2 = 540 := rfl
  have hcredit : cartesiaCreditsPerCharacter = 1 := rfl
  rw [hrate, hcredit]
  ring

end CartesiaPlan

/-! ## The crossover -/

/-- The dearer plan still costs more at a volume. -/
def stillDearer (cheaper dearer : CartesiaPlan) (usdInr : ℚ) (callMinutes : ℕ) : Bool :=
  decide (cheaper.monthlyInr usdInr callMinutes < dearer.monthlyInr usdInr callMinutes)

/-- **`cartesia_plan_crossover_call_minutes`.** -/
def cartesiaPlanCrossoverCallMinutes (fuel : ℕ) (cheaper dearer : CartesiaPlan) (usdInr : ℚ) :
    Option ℕ :=
  Bisection.search (stillDearer cheaper dearer usdInr) fuel

variable {cheaper dearer : CartesiaPlan} {usdInr : ℚ}

theorem stillDearer_iff (h : 0 < usdInr) (callMinutes : ℕ) :
    stillDearer cheaper dearer usdInr callMinutes = true ↔
      cheaper.monthlyUsd callMinutes < dearer.monthlyUsd callMinutes := by
  rw [stillDearer, decide_eq_true_eq, CartesiaPlan.monthlyInr_eq, CartesiaPlan.monthlyInr_eq]
  exact mul_lt_mul_iff_left₀ h

/-- Two plans, one of them with the higher fee, no smaller allotment and the lower price past
it. -/
structure Dearer (cheaper dearer : CartesiaPlan) : Prop where
  fee : cheaper.feeUsd < dearer.feeUsd
  included : cheaper.includedCredits ≤ dearer.includedCredits
  overage : dearer.overageUsdPerMillionCredits < cheaper.overageUsdPerMillionCredits

/-- A larger allotment is passed by no more of the same stretch. -/
theorem past_sub_past_le {a b i j : ℚ} (hab : a ≤ b) (hij : i ≤ j) :
    max 0 (b - j) - max 0 (a - j) ≤ max 0 (b - i) - max 0 (a - i) := by
  rcases le_total a i with hai | hai <;> rcases le_total b j with hbj | hbj
  · rw [max_eq_left (by linarith : b - j ≤ 0), max_eq_left (by linarith : a - j ≤ 0),
      max_eq_left (by linarith : a - i ≤ 0), sub_zero, sub_zero]
    exact le_max_left _ _
  · rw [max_eq_right (by linarith : 0 ≤ b - j), max_eq_left (by linarith : a - j ≤ 0),
      max_eq_left (by linarith : a - i ≤ 0), max_eq_right (by linarith : 0 ≤ b - i)]
    linarith
  · rw [max_eq_left (by linarith : b - j ≤ 0), max_eq_left (by linarith : a - j ≤ 0),
      max_eq_right (by linarith : 0 ≤ a - i), max_eq_right (by linarith : 0 ≤ b - i)]
    linarith
  · rw [max_eq_right (by linarith : 0 ≤ b - j), max_eq_right (by linarith : 0 ≤ a - i),
      max_eq_right (by linarith : 0 ≤ b - i)]
    rcases le_total a j with haj | haj
    · rw [max_eq_left (by linarith : a - j ≤ 0)]
      linarith
    · rw [max_eq_right (by linarith : 0 ≤ a - j)]
      linarith

/-- **The gap only closes.** Over any further stretch the dearer plan's cost grows by no more
than the cheaper plan's. -/
theorem usdGap_antitone (h : Dearer cheaper dearer) {u v : ℚ} (huv : u ≤ v) :
    dearer.monthlyUsd v - cheaper.monthlyUsd v ≤ dearer.monthlyUsd u - cheaper.monthlyUsd u := by
  have hcharacters : u * 540 ≤ v * 540 := by linarith
  have hpast : dearer.charactersPast v - dearer.charactersPast u ≤
      cheaper.charactersPast v - cheaper.charactersPast u :=
    past_sub_past_le hcharacters h.included
  have hgrows : 0 ≤ cheaper.charactersPast v - cheaper.charactersPast u := by
    have hmono : cheaper.charactersPast u ≤ cheaper.charactersPast v :=
      max_le_max (le_refl 0) (by linarith)
    linarith
  have hpriced : (dearer.charactersPast v - dearer.charactersPast u) *
        dearer.overageUsdPerMillionCredits ≤
      (cheaper.charactersPast v - cheaper.charactersPast u) *
        cheaper.overageUsdPerMillionCredits :=
    calc _ ≤ (cheaper.charactersPast v - cheaper.charactersPast u) *
          dearer.overageUsdPerMillionCredits :=
        mul_le_mul_of_nonneg_right hpast dearer.overage_nonneg
      _ ≤ _ := mul_le_mul_of_nonneg_left h.overage.le hgrows
  unfold CartesiaPlan.monthlyUsd
  linarith

theorem monthlyUsd_zero (p : CartesiaPlan) : p.monthlyUsd 0 = p.feeUsd := by
  have hnone : p.charactersPast 0 = 0 := max_eq_left (by linarith [p.included_nonneg])
  rw [CartesiaPlan.monthlyUsd, hnone, zero_mul, zero_div, add_zero]

/-- **The dearer plan catches up**, at some power of two. -/
theorem catches_up (h : Dearer cheaper dearer) :
    ∃ k : ℕ, dearer.monthlyUsd (2 ^ k : ℕ) ≤ cheaper.monthlyUsd (2 ^ k : ℕ) := by
  have hslope : 0 < cheaper.overageUsdPerMillionCredits - dearer.overageUsdPerMillionCredits := by
    linarith [h.overage]
  -- the volume at which the difference in price has paid for the fee and the lost allotment
  obtain ⟨k, hk⟩ := exists_nat_gt ((dearer.feeUsd * 1000000 +
    cheaper.includedCredits * cheaper.overageUsdPerMillionCredits) /
      ((cheaper.overageUsdPerMillionCredits - dearer.overageUsdPerMillionCredits) * 540))
  refine ⟨k, ?_⟩
  have hpow : (k : ℚ) ≤ (2 ^ k : ℕ) := by exact_mod_cast Nat.lt_two_pow_self.le
  have hpaid := (div_lt_iff₀ (by linarith)).mp (hk.trans_le hpow)
  generalize ((2 ^ k : ℕ) : ℚ) = v at hpow hpaid
  have hv : 0 ≤ v := (Nat.cast_nonneg k).trans hpow
  have hdearer : dearer.charactersPast v ≤ v * 540 :=
    max_le (by linarith) (by linarith [dearer.included_nonneg])
  have hcheaper : v * 540 - cheaper.includedCredits ≤ cheaper.charactersPast v := le_max_right _ _
  have hdear := mul_le_mul_of_nonneg_right hdearer dearer.overage_nonneg
  have hcheap := mul_le_mul_of_nonneg_right hcheaper cheaper.overage_nonneg
  have hfee := cheaper.fee_nonneg
  unfold CartesiaPlan.monthlyUsd
  linarith

/-- The condition holds at nought, fails for good once it fails, and fails at some power of two. -/
theorem search_crossover (h : Dearer cheaper dearer) :
    ∃ n : ℕ, ∀ (usdInr : ℚ), 0 < usdInr → ∀ fuel ≥ n, ∃ v : ℕ,
      cartesiaPlanCrossoverCallMinutes fuel cheaper dearer usdInr = some v ∧
      stillDearer cheaper dearer usdInr v = false ∧
      ∀ w, stillDearer cheaper dearer usdInr w = false → v ≤ w := by
  obtain ⟨k, hk⟩ := catches_up h
  refine ⟨k + 1, fun usdInr hpos fuel hfuel => ?_⟩
  refine Bisection.search_least (k := k) ?_ ?_ ?_ (by omega)
  · rw [stillDearer_iff hpos, Nat.cast_zero, monthlyUsd_zero, monthlyUsd_zero]
    exact h.fee
  · rw [Bool.eq_false_iff, ne_eq, stillDearer_iff hpos, not_lt]
    exact hk
  · intro u v huv
    rw [stillDearer_iff hpos, stillDearer_iff hpos]
    intro hv
    have hgap := usdGap_antitone h (by exact_mod_cast huv : (u : ℚ) ≤ v)
    linarith

theorem proFee_nonneg : (0 : ℚ) ≤ 5 := by norm_num

theorem proIncluded_nonneg : (0 : ℚ) ≤ 100000 := by norm_num

theorem proOverage_nonneg : (0 : ℚ) ≤ 65 := by norm_num

/-- `CARTESIA_PRO_PLAN`. -/
def cartesiaProPlan : CartesiaPlan where
  planId := "pro"
  feeUsd := 5
  includedCredits := 100000
  overageUsdPerMillionCredits := 65
  ttsConcurrency := 3
  fee_nonneg := proFee_nonneg
  included_nonneg := proIncluded_nonneg
  overage_nonneg := proOverage_nonneg

theorem startupFee_nonneg : (0 : ℚ) ≤ 49 := by norm_num

theorem startupIncluded_nonneg : (0 : ℚ) ≤ 1250000 := by norm_num

theorem startupOverage_nonneg : (0 : ℚ) ≤ 45 := by norm_num

/-- `CARTESIA_STARTUP_PLAN`. -/
def cartesiaStartupPlan : CartesiaPlan where
  planId := "startup"
  feeUsd := 49
  includedCredits := 1250000
  overageUsdPerMillionCredits := 45
  ttsConcurrency := 5
  fee_nonneg := startupFee_nonneg
  included_nonneg := startupIncluded_nonneg
  overage_nonneg := startupOverage_nonneg

theorem startup_dearer : Dearer cartesiaProPlan cartesiaStartupPlan := by
  constructor <;> norm_num [cartesiaProPlan, cartesiaStartupPlan]

end Calevate.Billing
