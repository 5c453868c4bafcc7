import Calevate.Billing.MeteredMonth

/-!
# Whose minutes the allowance pays for

A month's included minutes are spent on the rung with the dearer rate, and what is left over
is charged a line for each rung. `splitOverage` leaves the dearer rung the fewest minutes any
division of the overage can leave it, so before the lines are rounded no division costs less
(`SpentOnDearer.least`). Each line is rounded to the paisa on its own, which can cost one
paisa more than another division's lines (`SpentOnDearer.near`).
-/

namespace Calevate.Billing

open Lib

/-! ## Divisions of the overage -/

/-- `minutes_by_rung`: a month's minutes, in hundredths. -/
def minutesByRung (usage : Rung → ℕ) : List (Rung × ℤ) := Rung.all.map fun rung => (rung, usage rung)

/-- What the second rung prices: its own minutes and the ones no rung is proved for. -/
def billableValue (usage : Rung → ℕ) : ℕ := usage .value + usage .unattributed

/-- A month's minutes past the allowance. -/
def overageOf (usage : Rung → ℕ) (plan : Plan) : ℤ :=
  max 0 ((usage .premium : ℤ) + billableValue usage - 100 * plan.includedMin)

/-- A way to divide a month's overage between the rungs, within what each was used. -/
structure Division (usage : Rung → ℕ) (plan : Plan) (premium value : ℤ) : Prop where
  premium_nonneg : 0 ≤ premium
  value_nonneg : 0 ≤ value
  premium_le : premium ≤ usage .premium
  value_le : value ≤ billableValue usage
  sum : premium + value = overageOf usage plan

/-- The lines of a division, priced. -/
def linesInr (plan : Plan) (premium value : ℤ) : ℤ :=
  ((overageRungs premium value plan.rate plan.rateValue).map OverageRung.amountInr).sum

/-- What a division costs before its lines are rounded. -/
def exactInr (plan : Plan) (premium value : ℤ) : ℚ :=
  match plan.rateValue with
  | none => (premium + value) * plan.rate.ticks / 100
  | some second => premium * plan.rate.ticks / 100 + value * second.ticks / 100

variable {usage : Rung → ℕ} {plan : Plan}

/-- A month's price is the lines of its own split. -/
theorem pricedOverage_eq (usage : Rung → ℕ) (plan : Plan) :
    (pricedOverage (minutesByRung usage) plan).overageMin = overageOf usage plan ∧
    ((pricedOverage (minutesByRung usage) plan).premiumMin,
        (pricedOverage (minutesByRung usage) plan).valueMin) =
      splitOverage (overageOf usage plan) (usage .premium) (billableValue usage)
        (100 * plan.includedMin) plan.rate plan.rateValue ∧
    (pricedOverage (minutesByRung usage) plan).totalInr =
      overageInr plan (usage .premium) (billableValue usage) := by
  have hsum : minutesSum (minutesByRung usage) = usage .premium + billableValue usage := by
    simp [minutesSum, minutesByRung, Rung.all, billableValue]
  have hpremium : minutesAt (minutesByRung usage) .premium = usage .premium := rfl
  have hvalue : minutesAt (minutesByRung usage) .value + minutesAt (minutesByRung usage) .unattributed =
      billableValue usage := by
    rw [billableValue, Nat.cast_add]
    rfl
  unfold pricedOverage overageInr overageOf
  rw [hsum, hpremium, hvalue]
  exact ⟨rfl, rfl, rfl⟩

/-- What the dearer rung is left with: its minutes past the allowance. -/
theorem dearer_eq {dearer rest included : ℤ} (hrest : 0 ≤ rest) :
    min (max 0 (dearer - min included dearer)) (max 0 (dearer + rest - included)) =
      max 0 (dearer - included) := by
  omega

/-- The split between two rates. -/
theorem splitOverage_eq {premium rest included : ℤ} (hpremium : 0 ≤ premium) (hrest : 0 ≤ rest)
    (rate second : Rate) :
    splitOverage (max 0 (premium + rest - included)) premium rest included rate (some second) =
      if second.ticks ≤ rate.ticks then
        (max 0 (premium - included),
          max 0 (premium + rest - included) - max 0 (premium - included))
      else
        (max 0 (premium + rest - included) - max 0 (rest - included), max 0 (rest - included)) := by
  simp only [splitOverage]
  split_ifs with hdear
  · rw [dearer_eq hrest]
  · rw [add_comm premium rest, dearer_eq hpremium]

/-- **The split of a plan with two rates is a division, and it leaves the dearer rung the
fewest minutes.** -/
theorem split_division {second : Rate} (h : plan.rateValue = some second) {premium value : ℤ}
    (hsplit : (premium, value) = splitOverage (overageOf usage plan) (usage .premium)
      (billableValue usage) (100 * plan.includedMin) plan.rate plan.rateValue) :
    Division usage plan premium value ∧ ∀ p v, Division usage plan p v →
      if second.ticks ≤ plan.rate.ticks then premium ≤ p else value ≤ v := by
  have hpremium : (0 : ℤ) ≤ usage .premium := Int.natCast_nonneg _
  have hvalue : (0 : ℤ) ≤ billableValue usage := Int.natCast_nonneg _
  have hincluded : (0 : ℤ) ≤ 100 * plan.includedMin := by positivity
  have hover : overageOf usage plan =
    max 0 ((usage .premium : ℤ) + billableValue usage - 100 * plan.includedMin) := rfl
  rw [h, hover, splitOverage_eq hpremium hvalue, ← hover] at hsplit
  split_ifs at hsplit ⊢ with hdear
  · obtain ⟨rfl, rfl⟩ := Prod.mk.inj hsplit
    constructor
    · constructor <;> omega
    · intro p v hd
      have hle := hd.value_le
      have hsum := hd.sum
      have hnonneg := hd.premium_nonneg
      omega
  · obtain ⟨rfl, rfl⟩ := Prod.mk.inj hsplit
    constructor
    · constructor <;> omega
    · intro p v hd
      have hle := hd.premium_le
      have hsum := hd.sum
      have hnonneg := hd.value_nonneg
      omega

/-! ## Rounded lines -/

/-- A line is at most half a paisa over its minutes times the rate, and less than half under. -/
theorem lineAmount_between {minutes : ℤ} (rate : Rate) (h0 : 0 ≤ minutes) (h1 : minutes < 10 ^ 16) :
    (lineAmount minutes rate : ℚ) ≤ minutes * rate.ticks / 100 + 50 ∧
      minutes * rate.ticks / 100 - 50 < (lineAmount minutes rate : ℚ) := by
  have hq : (0 : ℚ) ≤ minutes * rate.ticks / 100 / 100 := by
    have : (0 : ℚ) ≤ minutes := by exact_mod_cast h0
    positivity
  rw [lineAmount_eq h0 h1, toPaise, Dec.roundHalfUp, if_pos hq]
  have hfloor := Int.floor_le ((minutes : ℚ) * rate.ticks / 100 / 100 + 1 / 2)
  have hceil := Int.lt_floor_add_one ((minutes : ℚ) * rate.ticks / 100 / 100 + 1 / 2)
  rw [Int.cast_mul, Int.cast_ofNat]
  constructor <;> linarith

/-! ## The promise -/

/-- What the pricing of a month promises. -/
structure SpentOnDearer (plan : Plan) (usage : Rung → ℕ) (priced : PricedOverage) : Prop where
  /-- The two figures add to the overage. -/
  sum : priced.premiumMin + priced.valueMin = overageOf usage plan
  /-- With a second rate each is within what its rung was used. -/
  division : plan.rateValue ≠ none → Division usage plan priced.premiumMin priced.valueMin
  /-- Without one the base line carries everything. -/
  one_line : plan.rateValue = none →
    priced.premiumMin = overageOf usage plan ∧ priced.valueMin = 0
  /-- The price is the figures' own lines. -/
  lines : priced.totalInr = linesInr plan priced.premiumMin priced.valueMin
  /-- Before rounding no division costs less. -/
  least : ∀ p v, Division usage plan p v →
    exactInr plan priced.premiumMin priced.valueMin ≤ exactInr plan p v
  /-- After it none costs less by more than a paisa. -/
  near : overageOf usage plan < 10 ^ 16 → ∀ p v, Division usage plan p v →
    priced.totalInr ≤ linesInr plan p v + 100
  /-- More minutes on any rung never cost less. -/
  monotone : ∀ usage' : Rung → ℕ, (∀ rung, usage rung ≤ usage' rung) →
    priced.totalInr ≤ (pricedOverage (minutesByRung usage') plan).totalInr

/-- The exact cost of a plan with two rates. -/
theorem exactInr_some {second : Rate} (h : plan.rateValue = some second) (p v : ℤ) :
    exactInr plan p v = p * plan.rate.ticks / 100 + v * second.ticks / 100 := by
  rw [exactInr, h]

/-- **Fewer minutes on the dearer rung cost no more**, of divisions of one overage. -/
theorem exactInr_le {second : Rate} (h : plan.rateValue = some second) {premium value p v : ℤ}
    (hfewest : if second.ticks ≤ plan.rate.ticks then premium ≤ p else value ≤ v)
    (hsum : premium + value = p + v) : exactInr plan premium value ≤ exactInr plan p v := by
  have hvalue : (value : ℚ) = p + v - premium := by
    have : (premium : ℚ) + value = p + v := by exact_mod_cast hsum
    linarith
  rw [exactInr_some h, exactInr_some h]
  split_ifs at hfewest with hdear
  · have hmoved : (0 : ℚ) ≤ p - premium := by
      have : (premium : ℚ) ≤ p := by exact_mod_cast hfewest
      linarith
    have hrates : (0 : ℚ) ≤ plan.rate.ticks - second.ticks := by
      have : (second.ticks : ℚ) ≤ plan.rate.ticks := by exact_mod_cast hdear
      linarith
    have := mul_nonneg hmoved hrates
    rw [hvalue]
    linarith
  · have hmoved : (0 : ℚ) ≤ v - value := by
      have : (value : ℚ) ≤ v := by exact_mod_cast hfewest
      linarith
    have hrates : (0 : ℚ) ≤ second.ticks - plan.rate.ticks := by
      have : (plan.rate.ticks : ℚ) ≤ second.ticks := by exact_mod_cast (Nat.not_le.mp hdear).le
      linarith
    have := mul_nonneg hmoved hrates
    rw [hvalue] at this ⊢
    linarith

/-- The lines of a division, rounded, are within a paisa of what it costs. -/
theorem linesInr_between {second : Rate} (h : plan.rateValue = some second) {premium value : ℤ}
    (hd : Division usage plan premium value) (hfits : overageOf usage plan < 10 ^ 16) :
    (linesInr plan premium value : ℚ) ≤ exactInr plan premium value + 100 ∧
      exactInr plan premium value - 100 < (linesInr plan premium value : ℚ) := by
  have hsum := hd.sum
  have hp := hd.premium_nonneg
  have hv := hd.value_nonneg
  obtain ⟨hpremium, hpremium'⟩ := lineAmount_between plan.rate hp (by omega)
  obtain ⟨hvalue, hvalue'⟩ := lineAmount_between second hv (by omega)
  have hlines : linesInr plan premium value = lineAmount premium plan.rate + lineAmount value second := by
    simp [linesInr, overageRungs, h]
  rw [exactInr_some h, hlines]
  push_cast
  constructor <;> linarith

/-- A line, and so a bill, is whole paise. -/
theorem linesInr_dvd (plan : Plan) (premium value : ℤ) : 100 ∣ linesInr plan premium value := by
  unfold linesInr overageRungs
  have hline : ∀ m rate, 100 ∣ lineAmount m rate := fun m rate => Dvd.intro_left _ rfl
  cases plan.rateValue with
  | none => simpa using hline _ _
  | some second => simpa using dvd_add (hline _ _) (hline _ _)

/-- **The allowance is spent on the dearer rung.** -/
theorem pricedOverage_spentOnDearer (plan : Plan) (usage : Rung → ℕ) :
    SpentOnDearer plan usage (pricedOverage (minutesByRung usage) plan) := by
  obtain ⟨hover, hsplit, htotal⟩ := pricedOverage_eq usage plan
  have hlines : (pricedOverage (minutesByRung usage) plan).totalInr = linesInr plan
      (pricedOverage (minutesByRung usage) plan).premiumMin
      (pricedOverage (minutesByRung usage) plan).valueMin := rfl
  have hmono : ∀ usage' : Rung → ℕ, (∀ rung, usage rung ≤ usage' rung) →
      (pricedOverage (minutesByRung usage) plan).totalInr ≤
        (pricedOverage (minutesByRung usage') plan).totalInr := by
    intro usage' hle
    rw [htotal, (pricedOverage_eq usage' plan).2.2]
    refine overageInr_mono plan (Int.natCast_nonneg _) (Int.natCast_nonneg _)
      (Int.ofNat_le.mpr (hle _)) (Int.ofNat_le.mpr ?_)
    exact Nat.add_le_add (hle _) (hle _)
  generalize pricedOverage (minutesByRung usage) plan = priced at *
  cases hrate : plan.rateValue with
  | none =>
    rw [hrate] at hsplit
    obtain ⟨hpremium, hvalue⟩ : priced.premiumMin = overageOf usage plan ∧ priced.valueMin = 0 :=
      Prod.mk.inj hsplit
    have hsame : ∀ p v, Division usage plan p v → p + v = priced.premiumMin + priced.valueMin :=
      fun p v hd => by rw [hd.sum, hpremium, hvalue, add_zero]
    constructor
    case sum => rw [hpremium, hvalue, add_zero]
    case division => exact fun hne => absurd hrate hne
    case one_line => exact fun _ => ⟨hpremium, hvalue⟩
    case lines => exact hlines
    case least =>
      intro p v hd
      have : (p : ℚ) + v = priced.premiumMin + priced.valueMin := by exact_mod_cast hsame p v hd
      rw [exactInr, exactInr, hrate]
      dsimp only
      rw [this]
    case near =>
      intro _ p v hd
      have hone : linesInr plan p v = linesInr plan priced.premiumMin priced.valueMin := by
        simp only [linesInr, overageRungs, hrate, hsame p v hd]
      rw [hone, hlines]
      omega
    case monotone => exact hmono
  | some second =>
    obtain ⟨hdivision, hfewest⟩ := split_division hrate hsplit
    have hleast : ∀ p v, Division usage plan p v →
        exactInr plan priced.premiumMin priced.valueMin ≤ exactInr plan p v :=
      fun p v hd => exactInr_le hrate (hfewest p v hd) (hdivision.sum.trans hd.sum.symm)
    constructor
    case sum => exact hdivision.sum
    case division => exact fun _ => hdivision
    case one_line => exact fun hnone => absurd (hrate.symm.trans hnone) (Option.some_ne_none _)
    case lines => exact hlines
    case least => exact hleast
    case near =>
      intro hfits p v hd
      obtain ⟨hhigh, -⟩ := linesInr_between hrate hdivision hfits
      obtain ⟨-, hlow⟩ := linesInr_between hrate hd hfits
      have hlt : linesInr plan priced.premiumMin priced.valueMin < linesInr plan p v + 200 := by
        have hexact := hleast p v hd
        have : (linesInr plan priced.premiumMin priced.valueMin : ℚ) < linesInr plan p v + 200 := by
          linarith
        exact_mod_cast this
      -- both bills are whole paise, so less than two apart is at most one
      obtain ⟨a, ha⟩ := linesInr_dvd plan priced.premiumMin priced.valueMin
      obtain ⟨b, hb⟩ := linesInr_dvd plan p v
      rw [hlines]
      omega
    case monotone => exact hmono

theorem dearRate_fits : 14500 < 10 ^ 12 := by decide

theorem cheapRate_fits : 14000 < 10 ^ 12 := by decide

/-- A minute included, and two rates a little apart. -/
def twoRates : Plan := ⟨1, ⟨14500, dearRate_fits⟩, some ⟨14000, cheapRate_fits⟩, none⟩

/-- A minute included, and one rate. -/
def oneRate : Plan := ⟨1, ⟨14000, cheapRate_fits⟩, none, none⟩

/-- One minute on the base rung and a fiftieth elsewhere. -/
def oneMinute : Rung → ℕ
  | .premium => 100
  | .value => 2
  | .unattributed => 0

/-- A month can be charged three paise where another division's lines are two, and with one
rate the base line can carry minutes the base rung was never used for. -/
theorem split_not_least :
    (¬ ∀ (plan : Plan) (usage : Rung → ℕ) (p v : ℤ), Division usage plan p v →
      (pricedOverage (minutesByRung usage) plan).totalInr ≤ linesInr plan p v) ∧
    ¬ ∀ (plan : Plan) (usage : Rung → ℕ),
      (pricedOverage (minutesByRung usage) plan).premiumMin ≤ usage .premium := by
  constructor
  · intro h
    have hdivision : Division oneMinute twoRates 1 1 := by constructor <;> decide
    exact absurd (h _ _ _ _ hdivision) (by decide +kernel)
  · intro h
    exact absurd (h oneRate fun _ => 100) (by decide +kernel)

end Calevate.Billing
