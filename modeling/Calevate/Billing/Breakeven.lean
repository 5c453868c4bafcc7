import Calevate.Billing.CartesiaPlans
import Calevate.Billing.Overage
import Calevate.Lib.Ladder

/-!
# How many minutes a rate needs

What a Studio minute costs at a volume is an envelope: the fee is spread until an allotment is
spent, and from there the figure rises towards the cost of one more minute on the plan with the
lowest overage, without ever reaching it (`exactCost_lt_curveLimit`, `curveLimit_le`). Rounded to
four places it does reach a last figure, `settledCost`, and stays on it.

The break-even is refused at a rate that is not above the limit as it rounds,
`cartesiaBestMarginalCostInrPerMin`. Above it the answer is the least volume from which the rate
clears its cost for good (`breakeven_least`).
-/

namespace Calevate.Billing

open Lib

/-! ## The shared legs -/

/-- A rupee figure at `MONEY_Q`. -/
def moneyQ (rupees : ℚ) : ℚ := Dec.roundHalfUp (10000 * rupees) / 10000

/-- `PLANNING_USD_INR`. -/
def planningUsdInr : ℚ := 95

/-- `_usd_mtok_to_inr_ktok`, of a price in US cents. -/
def usdMtokToInrKtok (cents : ℕ) : ℚ := moneyQ (cents / 100 * planningUsdInr / 1000)

/-- `AZURE_OPENAI_DEFAULT_MODEL`'s list price. -/
def azureOpenaiDefaultPrice : LlmPrice := ⟨15, 60⟩

/-- `_reference_call_inr_per_minute`, over `REFERENCE_CALL`. -/
def referenceCallInrPerMinute (minutes : ℕ) (price : LlmPrice) (promptTokens : ℕ) : ℚ :=
  let turns := minutes * 6
  let inputTokens := promptTokens * turns + 60 * (turns * (turns - 1) / 2)
  let outputTokens := 35 * turns
  moneyQ ((inputTokens * usdMtokToInrKtok price.inputUsdPerMtok +
    outputTokens * usdMtokToInrKtok price.outputUsdPerMtok) / 1000 / minutes)

/-- `llm_cost_inr_per_minute`. -/
def llmCostInrPerMinute (minutes : ℕ) (price : LlmPrice) : ℚ :=
  referenceCallInrPerMinute minutes price 900

/-- `stt_rate_inr_per_minute`. -/
def sttRateInrPerMinute : ℚ := 30 / 60

/-- `ENGINE_PLATFORM_FEE_USD_PER_MIN`. -/
def enginePlatformFeeUsdPerMin : ℚ := 1 / 100

/-- `COST_FLOOR_REFERENCE_CALL_MINUTES`. -/
def costFloorReferenceCallMinutes : ℕ := 10

/-- `ex_tts_cost_inr_per_min_at`. -/
def exTtsCostInrPerMinAt (usdInr : ℚ) : ℚ :=
  enginePlatformFeeUsdPerMin * usdInr + sttRateInrPerMinute +
    llmCostInrPerMinute costFloorReferenceCallMinutes azureOpenaiDefaultPrice

/-! ## The curve -/

/-- `cartesia_cheapest_plan`, over `CARTESIA_PLANS`. -/
def cartesiaCheapestPlan (callMinutes usdInr : ℚ) : CartesiaPlan :=
  Ladder.best (fun p best => p.monthlyInr usdInr callMinutes < best.monthlyInr usdInr callMinutes)
    cartesiaProPlan [cartesiaStartupPlan]

/-- `CartesiaPlan.exact_tts_inr_per_call_minute`, at a positive volume. -/
def CartesiaPlan.exactTtsInrPerCallMinute (p : CartesiaPlan) (usdInr callMinutes : ℚ) : ℚ :=
  p.monthlyInr usdInr callMinutes / callMinutes

/-- What a call minute costs at a volume, before it is rounded. -/
def exactCostInrPerCallMinute (callMinutes usdInr : ℚ) : ℚ :=
  exTtsCostInrPerMinAt usdInr +
    (cartesiaCheapestPlan callMinutes usdInr).exactTtsInrPerCallMinute usdInr callMinutes

/-- **`cartesia_cost_inr_per_call_minute`**, rounded once. -/
def cartesiaCostInrPerCallMinute (callMinutes usdInr : ℚ) : ℚ :=
  moneyQ (exactCostInrPerCallMinute callMinutes usdInr)

/-- `cartesia_best_marginal_cost_inr_per_min`. -/
def cartesiaBestMarginalCostInrPerMin (usdInr : ℚ) : ℚ :=
  moneyQ (exTtsCostInrPerMinAt usdInr +
    min (cartesiaProPlan.marginalInrPerCallMinute usdInr)
      (cartesiaStartupPlan.marginalInrPerCallMinute usdInr))

/-! ## The search -/

/-- `cartesia_envelope_stable_call_minutes`. -/
def cartesiaEnvelopeStableCallMinutes (fuel : ℕ) (usdInr : ℚ) : Option ℚ :=
  (cartesiaPlanCrossoverCallMinutes fuel cartesiaProPlan cartesiaStartupPlan usdInr).map
    fun crossover => max (crossover : ℚ) cartesiaStartupPlan.includedCallMinutes

/-- The rate is below what a minute costs at this volume. -/
def underwater (rateInrPerMin usdInr : ℚ) (volume : ℕ) : Bool :=
  decide (rateInrPerMin < cartesiaCostInrPerCallMinute volume usdInr)

/-- **`cartesia_rung_breakeven_call_minutes`**: the inner `none` is its answer that no volume is
enough, the outer one a search still under way. -/
def cartesiaRungBreakevenCallMinutes (fuel : ℕ) (rateInrPerMin usdInr : ℚ) : Option (Option ℕ) :=
  if rateInrPerMin ≤ cartesiaBestMarginalCostInrPerMin usdInr then some none
  else
    (cartesiaEnvelopeStableCallMinutes fuel usdInr).map fun stable =>
      some (Bisection.lastWhere (underwater rateInrPerMin usdInr) (Dec.roundHalfUp stable).toNat + 1)

/-- The rate clears the cost at this whole volume and at every larger one. -/
def SafeFrom (rateInrPerMin usdInr : ℚ) (v : ℕ) : Prop :=
  1 ≤ v ∧ ∀ w : ℕ, v ≤ w → cartesiaCostInrPerCallMinute w usdInr ≤ rateInrPerMin

/-! ## Where the curve goes -/

/-- What the curve rises towards: one more minute on the plan with the lowest overage. -/
def curveLimit (usdInr : ℚ) : ℚ :=
  exTtsCostInrPerMinAt usdInr + cartesiaStartupPlan.marginalInrPerCallMinute usdInr

/-- The last figure the rounded curve takes: the limit rounded, a tie going down because the
curve stays below it. -/
def settledCost (usdInr : ℚ) : ℚ := ⌈10000 * curveLimit usdInr - 1 / 2⌉ / 10000

variable {usdInr rateInrPerMin : ℚ} {w : ℕ}

theorem proMonthly (usdInr : ℚ) (w : ℕ) : cartesiaProPlan.monthlyInr usdInr w =
    (5 + max 0 ((w : ℚ) * 540 - 100000) * 65 / 1000000) * usdInr :=
  CartesiaPlan.monthlyInr_eq _

theorem startupMonthly (usdInr : ℚ) (w : ℕ) : cartesiaStartupPlan.monthlyInr usdInr w =
    (49 + max 0 ((w : ℚ) * 540 - 1250000) * 45 / 1000000) * usdInr :=
  CartesiaPlan.monthlyInr_eq _

theorem startupMarginal (usdInr : ℚ) :
    cartesiaStartupPlan.marginalInrPerCallMinute usdInr = 243 / 10000 * usdInr := by
  have hdef : cartesiaStartupPlan.marginalInrPerCallMinute usdInr =
      45 * usdInr / 1000000 / 1 * 540 := rfl
  rw [hdef]
  ring

theorem proMarginal (usdInr : ℚ) :
    cartesiaProPlan.marginalInrPerCallMinute usdInr = 351 / 10000 * usdInr := by
  have hdef : cartesiaProPlan.marginalInrPerCallMinute usdInr =
      65 * usdInr / 1000000 / 1 * 540 := rfl
  rw [hdef]
  ring

theorem cheapest_le_startup (usdInr : ℚ) (w : ℕ) :
    (cartesiaCheapestPlan w usdInr).monthlyInr usdInr w ≤
      cartesiaStartupPlan.monthlyInr usdInr w :=
  not_lt.mp (Ladder.best_unbeaten
    (fun p best : CartesiaPlan => p.monthlyInr usdInr w < best.monthlyInr usdInr w)
    cartesiaProPlan [cartesiaStartupPlan] (fun _ _ => lt_asymm)
    (fun _ _ _ hxy hyz => not_lt.mpr ((not_lt.mp hyz).trans (not_lt.mp hxy)))
    _ (List.mem_cons_of_mem _ List.mem_cons_self))

theorem cheapest_eq (usdInr : ℚ) (w : ℕ) : cartesiaCheapestPlan w usdInr = cartesiaProPlan ∨
    cartesiaCheapestPlan w usdInr = cartesiaStartupPlan := by
  have hmem := Ladder.best_mem
    (fun p best : CartesiaPlan => p.monthlyInr usdInr w < best.monthlyInr usdInr w)
    cartesiaProPlan [cartesiaStartupPlan]
  rcases List.mem_cons.mp hmem with h | h
  · exact Or.inl h
  · exact Or.inr (List.mem_singleton.mp h)

/-- Past its allotment the cheapest month is short of the limit by what the fee leaves of the
allotment's price. -/
theorem cheapest_lt (h : 0 < usdInr) (hw : 2315 ≤ w) :
    (cartesiaCheapestPlan w usdInr).monthlyInr usdInr w < 243 / 10000 * usdInr * w := by
  have hvolume : (2315 : ℚ) ≤ w := by exact_mod_cast hw
  refine (cheapest_le_startup usdInr w).trans_lt ?_
  rw [startupMonthly, max_eq_right (by linarith)]
  nlinarith

/-- And at no volume is it short by more. -/
theorem le_cheapest (h : 0 < usdInr) (w : ℕ) :
    (243 / 10000 * w - 29 / 4) * usdInr ≤ (cartesiaCheapestPlan w usdInr).monthlyInr usdInr w := by
  have hvolume : (0 : ℚ) ≤ w := Nat.cast_nonneg w
  rcases cheapest_eq usdInr w with hplan | hplan <;> rw [hplan]
  · rw [proMonthly]
    have hpast := le_max_right 0 ((w : ℚ) * 540 - 100000)
    exact mul_le_mul_of_nonneg_right (by linarith) h.le
  · rw [startupMonthly]
    have hpast := le_max_right 0 ((w : ℚ) * 540 - 1250000)
    exact mul_le_mul_of_nonneg_right (by linarith) h.le

/-- **The curve stays below its limit**, from the volume that spends the larger allotment. -/
theorem exactCost_lt_curveLimit (h : 0 < usdInr) (hw : 2315 ≤ w) :
    exactCostInrPerCallMinute w usdInr < curveLimit usdInr := by
  have hpos : (0 : ℚ) < w := by exact_mod_cast (by omega : 0 < w)
  have hless := (div_lt_iff₀ hpos).mpr (cheapest_lt h hw)
  rw [exactCostInrPerCallMinute, curveLimit, startupMarginal, CartesiaPlan.exactTtsInrPerCallMinute]
  linarith

/-- **And comes as close to it as one likes.** -/
theorem curveLimit_le (h : 0 < usdInr) (hw : 1 ≤ w) :
    curveLimit usdInr - 29 / 4 * usdInr / w ≤ exactCostInrPerCallMinute w usdInr := by
  have hpos : (0 : ℚ) < w := by exact_mod_cast hw
  have hmore : 243 / 10000 * usdInr - 29 / 4 * usdInr / w ≤
      (cartesiaCheapestPlan w usdInr).monthlyInr usdInr w / w := by
    rw [le_div_iff₀ hpos, sub_mul, div_mul_cancel₀ _ hpos.ne']
    linarith [le_cheapest h w]
  rw [exactCostInrPerCallMinute, curveLimit, startupMarginal, CartesiaPlan.exactTtsInrPerCallMinute]
  linarith

/-! ## Rounded to four places -/

theorem moneyQ_of_nonneg {x : ℚ} (h : 0 ≤ x) : moneyQ x = ⌊10000 * x + 1 / 2⌋ / 10000 := by
  rw [moneyQ, Dec.roundHalfUp, if_pos (by linarith)]

theorem exTtsCost_nonneg (h : 0 < usdInr) : 0 ≤ exTtsCostInrPerMinAt usdInr := by
  have hllm : llmCostInrPerMinute costFloorReferenceCallMinutes azureOpenaiDefaultPrice =
      2411 / 10000 := by
    decide +kernel
  rw [exTtsCostInrPerMinAt, hllm, enginePlatformFeeUsdPerMin, sttRateInrPerMinute]
  linarith

theorem monthlyInr_nonneg (p : CartesiaPlan) (h : 0 < usdInr) (callMinutes : ℚ) :
    0 ≤ p.monthlyInr usdInr callMinutes := by
  have hpast := p.charactersPast_nonneg callMinutes
  have hfee := p.fee_nonneg
  have hoverage := p.overage_nonneg
  rw [CartesiaPlan.monthlyInr_eq, CartesiaPlan.monthlyUsd]
  positivity

theorem exactCost_nonneg (h : 0 < usdInr) (w : ℕ) : 0 ≤ exactCostInrPerCallMinute w usdInr :=
  add_nonneg (exTtsCost_nonneg h) (div_nonneg (monthlyInr_nonneg _ h _) (Nat.cast_nonneg w))

theorem curveLimit_nonneg (h : 0 < usdInr) : 0 ≤ curveLimit usdInr := by
  rw [curveLimit, startupMarginal]
  linarith [exTtsCost_nonneg h]

/-- The best marginal cost is the limit rounded, a tie going up. -/
theorem bestMarginal_eq (h : 0 < usdInr) :
    cartesiaBestMarginalCostInrPerMin usdInr = moneyQ (curveLimit usdInr) := by
  rw [cartesiaBestMarginalCostInrPerMin, curveLimit, proMarginal, startupMarginal,
    min_eq_right (by linarith)]

/-- It is the last figure of the curve, or a ten-thousandth above it. -/
theorem bestMarginal_near (h : 0 < usdInr) :
    settledCost usdInr ≤ cartesiaBestMarginalCostInrPerMin usdInr ∧
      cartesiaBestMarginalCostInrPerMin usdInr ≤ settledCost usdInr + 1 / 10000 := by
  have hlow := Int.ceil_lt_add_one (10000 * curveLimit usdInr - 1 / 2)
  have hhigh := Int.le_ceil (10000 * curveLimit usdInr - 1 / 2)
  have hle : ⌈10000 * curveLimit usdInr - 1 / 2⌉ ≤ ⌊10000 * curveLimit usdInr + 1 / 2⌋ := by
    rw [Int.le_floor]
    linarith
  have hge : ⌊10000 * curveLimit usdInr + 1 / 2⌋ ≤ ⌈10000 * curveLimit usdInr - 1 / 2⌉ + 1 := by
    have hfloor := Int.floor_le (10000 * curveLimit usdInr + 1 / 2)
    have hcast : ((⌊10000 * curveLimit usdInr + 1 / 2⌋ : ℤ) : ℚ) ≤
        ((⌈10000 * curveLimit usdInr - 1 / 2⌉ + 1 : ℤ) : ℚ) := by
      push_cast
      linarith
    exact_mod_cast hcast
  rw [bestMarginal_eq h, moneyQ_of_nonneg (curveLimit_nonneg h), settledCost]
  constructor
  · exact div_le_div_of_nonneg_right (by exact_mod_cast hle) (by norm_num)
  · rw [← add_div]
    exact div_le_div_of_nonneg_right (by exact_mod_cast hge) (by norm_num)

/-- **Once the larger allotment is spent no figure is above the last one.** -/
theorem cost_le_settled (h : 0 < usdInr) (hw : 2315 ≤ w) :
    cartesiaCostInrPerCallMinute w usdInr ≤ settledCost usdInr := by
  have hlt := exactCost_lt_curveLimit h hw
  have hhigh := Int.le_ceil (10000 * curveLimit usdInr - 1 / 2)
  have hle : ⌊10000 * exactCostInrPerCallMinute w usdInr + 1 / 2⌋ ≤
      ⌈10000 * curveLimit usdInr - 1 / 2⌉ := by
    rw [← Int.lt_add_one_iff, Int.floor_lt]
    push_cast
    linarith
  rw [cartesiaCostInrPerCallMinute, moneyQ_of_nonneg (exactCost_nonneg h w), settledCost]
  exact div_le_div_of_nonneg_right (by exact_mod_cast hle) (by norm_num)

/-- **From some volume on every figure is the last one.** -/
theorem settled_le_cost (h : 0 < usdInr) : ∃ n : ℕ, ∀ w ≥ n,
    settledCost usdInr ≤ cartesiaCostInrPerCallMinute w usdInr := by
  have hlow := Int.ceil_lt_add_one (10000 * curveLimit usdInr - 1 / 2)
  have hroom : 0 < 10000 * curveLimit usdInr + 1 / 2 - ⌈10000 * curveLimit usdInr - 1 / 2⌉ := by
    linarith
  obtain ⟨n, hn⟩ := exists_nat_gt (72500 * usdInr /
    (10000 * curveLimit usdInr + 1 / 2 - ⌈10000 * curveLimit usdInr - 1 / 2⌉))
  refine ⟨n + 1, fun w hw => ?_⟩
  have hpos : (0 : ℚ) < w := by exact_mod_cast (by omega : 0 < w)
  have hmore : (n : ℚ) ≤ w := by exact_mod_cast (by omega : n ≤ w)
  have hshort : 72500 * usdInr / w ≤
      10000 * curveLimit usdInr + 1 / 2 - ⌈10000 * curveLimit usdInr - 1 / 2⌉ := by
    rw [div_le_iff₀ hpos, mul_comm _ (w : ℚ)]
    exact ((div_lt_iff₀ hroom).mp (hn.trans_le hmore)).le
  have hscale : 72500 * usdInr / w = 10000 * (29 / 4 * usdInr / w) := by ring
  have hclose := curveLimit_le h (by omega : 1 ≤ w)
  have hle : ⌈10000 * curveLimit usdInr - 1 / 2⌉ ≤
      ⌊10000 * exactCostInrPerCallMinute w usdInr + 1 / 2⌋ := by
    rw [Int.le_floor]
    linarith
  rw [cartesiaCostInrPerCallMinute, moneyQ_of_nonneg (exactCost_nonneg h w), settledCost]
  exact div_le_div_of_nonneg_right (by exact_mod_cast hle) (by norm_num)

/-- **Which rates have a volume**: those at or above the last figure of the curve. -/
theorem exists_safeFrom_iff (h : 0 < usdInr) :
    (∃ v, SafeFrom rateInrPerMin usdInr v) ↔ settledCost usdInr ≤ rateInrPerMin := by
  constructor
  · rintro ⟨v, -, hsafe⟩
    obtain ⟨n, hn⟩ := settled_le_cost h
    exact (hn (max n v) (le_max_left n v)).trans (hsafe _ (le_max_right n v))
  · intro hle
    exact ⟨2315, by omega, fun w hw => (cost_le_settled h hw).trans hle⟩

/-! ## The answer -/

theorem includedCallMinutes_startup : cartesiaStartupPlan.includedCallMinutes = 1250000 / 540 := rfl

/-- The pass reaches the volume that spends the larger allotment. -/
theorem le_ceiling (crossover : ℕ) :
    2315 ≤ (Dec.roundHalfUp (max (crossover : ℚ) cartesiaStartupPlan.includedCallMinutes)).toNat := by
  have hround : Dec.roundHalfUp (1250000 / 540) = 2315 := by decide +kernel
  have hmono := Dec.roundHalfUp_mono (by norm_num : (0 : ℚ) ≤ 1250000 / 540)
    (le_max_right (crossover : ℚ) (1250000 / 540))
  rw [includedCallMinutes_startup]
  omega

/-- **The pass finds the least volume**, when nothing past its ceiling is underwater. -/
theorem lastUnderwater_least {ceiling : ℕ}
    (hpast : ∀ w, ceiling < w → cartesiaCostInrPerCallMinute w usdInr ≤ rateInrPerMin) :
    SafeFrom rateInrPerMin usdInr
        (Bisection.lastWhere (underwater rateInrPerMin usdInr) ceiling + 1) ∧
      ∀ v, SafeFrom rateInrPerMin usdInr v →
        Bisection.lastWhere (underwater rateInrPerMin usdInr) ceiling + 1 ≤ v := by
  obtain ⟨hafter, hlast⟩ := Bisection.lastWhere_spec (underwater rateInrPerMin usdInr) ceiling
  refine ⟨⟨by omega, fun w hw => ?_⟩, fun v hv => ?_⟩
  · rcases Nat.lt_or_ge ceiling w with hout | hin
    · exact hpast w hout
    · exact not_lt.mp (of_decide_eq_false (hafter w (by omega) hin))
  · rcases hlast with hnone | hunder
    · rw [hnone]
      exact hv.1
    · by_contra hless
      exact absurd (of_decide_eq_true hunder) (not_lt.mpr (hv.2 _ (by omega)))

/-- **What the break-even answers.** Above the best marginal cost it is the least whole volume from
which the rate clears its cost for good; at or below it there is no answer, and there is no such
volume either, but for a rate that the rounded curve settles at or under. -/
theorem breakeven_least (rateInrPerMin usdInr : ℚ) (h : 0 < usdInr) :
    ∃ n : ℕ, ∀ fuel ≥ n, ∃ answer : Option ℕ,
      cartesiaRungBreakevenCallMinutes fuel rateInrPerMin usdInr = some answer ∧
      (∀ v, answer = some v ↔ cartesiaBestMarginalCostInrPerMin usdInr < rateInrPerMin ∧
        SafeFrom rateInrPerMin usdInr v ∧ ∀ u, SafeFrom rateInrPerMin usdInr u → v ≤ u) ∧
      (answer = none ↔ rateInrPerMin ≤ cartesiaBestMarginalCostInrPerMin usdInr) ∧
      (answer = none → (∃ v, SafeFrom rateInrPerMin usdInr v) →
        settledCost usdInr ≤ rateInrPerMin ∧
          rateInrPerMin ≤ cartesiaBestMarginalCostInrPerMin usdInr) := by
  obtain ⟨n, hcrossover⟩ := search_crossover startup_dearer
  refine ⟨n, fun fuel hfuel => ?_⟩
  obtain ⟨crossover, hsearch, -, -⟩ := hcrossover usdInr h fuel hfuel
  rw [cartesiaRungBreakevenCallMinutes]
  by_cases hrate : rateInrPerMin ≤ cartesiaBestMarginalCostInrPerMin usdInr
  · rw [if_pos hrate]
    refine ⟨none, rfl, fun v => ?_, ⟨fun _ => hrate, fun _ => rfl⟩, fun _ hvolume => ?_⟩
    · exact ⟨fun hnone => (nomatch hnone), fun hall => absurd hall.1 (not_lt.mpr hrate)⟩
    · exact ⟨(exists_safeFrom_iff h).mp hvolume, hrate⟩
  · have hstable : cartesiaEnvelopeStableCallMinutes fuel usdInr =
        some (max (crossover : ℚ) cartesiaStartupPlan.includedCallMinutes) := by
      rw [cartesiaEnvelopeStableCallMinutes, hsearch]
      rfl
    have hceiling := le_ceiling crossover
    have hsettled := (bestMarginal_near h).1.trans (not_le.mp hrate).le
    have hpast : ∀ w, (Dec.roundHalfUp
        (max (crossover : ℚ) cartesiaStartupPlan.includedCallMinutes)).toNat < w →
          cartesiaCostInrPerCallMinute w usdInr ≤ rateInrPerMin :=
      fun w hw => (cost_le_settled h (hceiling.trans (Nat.le_of_lt hw))).trans hsettled
    obtain ⟨hsafe, hleast⟩ := lastUnderwater_least hpast
    rw [if_neg hrate, hstable]
    refine ⟨_, rfl, fun v => ⟨?_, ?_⟩, ⟨fun hnone => (nomatch hnone), fun hle => absurd hle hrate⟩,
      fun hnone => (nomatch hnone)⟩
    · intro hv
      obtain rfl := Option.some.inj hv
      exact ⟨not_le.mp hrate, hsafe, hleast⟩
    · rintro ⟨-, hv, hvleast⟩
      exact congrArg some (le_antisymm (hleast v hv) (hvleast _ hsafe))

theorem breakeven_least_sixRupees :
    ∃ n : ℕ, ∀ fuel ≥ n, ∃ answer : Option ℕ,
      cartesiaRungBreakevenCallMinutes fuel 6 planningUsdInr = some answer ∧
      (∀ v, answer = some v ↔ cartesiaBestMarginalCostInrPerMin planningUsdInr < 6 ∧
        SafeFrom 6 planningUsdInr v ∧ ∀ u, SafeFrom 6 planningUsdInr u → v ≤ u) ∧
      (answer = none ↔ 6 ≤ cartesiaBestMarginalCostInrPerMin planningUsdInr) ∧
      (answer = none → (∃ v, SafeFrom 6 planningUsdInr v) →
        settledCost planningUsdInr ≤ 6 ∧ 6 ≤ cartesiaBestMarginalCostInrPerMin planningUsdInr) :=
  breakeven_least 6 planningUsdInr (by decide)

/-- At ₹3.9996 and ₹95 to the dollar there is no answer, and yet every volume from 2,315 on costs
no more than that. -/
theorem breakeven_none_at_settled :
    cartesiaRungBreakevenCallMinutes 20 (39996 / 10000) planningUsdInr = some none ∧
      SafeFrom (39996 / 10000) planningUsdInr 2315 := by
  have hrate : (0 : ℚ) < planningUsdInr := by decide
  refine ⟨if_pos (by decide +kernel), by omega, fun w hw => ?_⟩
  exact (cost_le_settled hrate hw).trans (by decide +kernel)

end Calevate.Billing
