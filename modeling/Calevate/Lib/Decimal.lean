import Mathlib.Data.Rat.Floor
import Mathlib.Data.Int.Log
import Mathlib.Tactic.Linarith
import Mathlib.Tactic.Positivity
import Mathlib.Tactic.FieldSimp
import Mathlib.Tactic.Ring

/-!
# Decimal arithmetic

A decimal number is a rational. Three things act on it: the rounding modes that
take a scaled value to an integer (`roundHalfUp`, `roundDown`, `roundHalfEven`),
the quantisation of a value at a fixed number of places, and `ctx`, the rounding
of every computed result to twenty-eight significant digits that an arithmetic
context applies.

`ctx_eq_self` is what makes most of a program's arithmetic exact: a value that
needs at most twenty-eight digits is left alone. Everywhere else `ctx_mono` is what is
left: the context never turns two values around.
-/

namespace Lib

namespace Dec

/-! ## Rounding modes -/

/-- To the nearest integer, ties away from zero. -/
def roundHalfUp (q : ℚ) : ℤ := if 0 ≤ q then ⌊q + 1 / 2⌋ else -⌊-q + 1 / 2⌋

/-- Towards zero. -/
def roundDown (q : ℚ) : ℤ := if 0 ≤ q then ⌊q⌋ else -⌊-q⌋

/-- To the nearest integer, ties to the even one. -/
def roundHalfEven (q : ℚ) : ℤ :=
  if q - ⌊q⌋ < 1 / 2 then ⌊q⌋
  else if 1 / 2 < q - ⌊q⌋ then ⌊q⌋ + 1
  else if ⌊q⌋ % 2 = 0 then ⌊q⌋ else ⌊q⌋ + 1

@[simp] theorem roundHalfUp_intCast (n : ℤ) : roundHalfUp n = n := by
  have h : ∀ m : ℤ, ⌊(m : ℚ) + 1 / 2⌋ = m := by
    intro m
    rw [Int.floor_eq_iff]
    constructor <;> linarith
  unfold roundHalfUp
  split
  · exact h n
  · rw [← Int.cast_neg, h, neg_neg]

@[simp] theorem roundHalfEven_intCast (n : ℤ) : roundHalfEven n = n := by
  simp [roundHalfEven]

theorem roundHalfUp_nonneg {q : ℚ} (h : 0 ≤ q) : 0 ≤ roundHalfUp q := by
  rw [roundHalfUp, if_pos h, Int.floor_nonneg]
  linarith

theorem roundHalfUp_mono {p q : ℚ} (hp : 0 ≤ p) (h : p ≤ q) : roundHalfUp p ≤ roundHalfUp q := by
  rw [roundHalfUp, roundHalfUp, if_pos hp, if_pos (hp.trans h)]
  exact Int.floor_mono (by linarith)

/-- Twice a rounded figure and the rounded double are at most one apart. -/
theorem roundHalfUp_double (q : ℚ) : |2 * roundHalfUp q - roundHalfUp (2 * q)| ≤ 1 := by
  have hhalf : ∀ x : ℚ, |2 * ⌊x + 1 / 2⌋ - ⌊2 * x + 1 / 2⌋| ≤ 1 := by
    intro x
    have hle := Int.floor_le (x + 1 / 2)
    have hlt := Int.lt_floor_add_one (x + 1 / 2)
    have hlow : 2 * ⌊x + 1 / 2⌋ - 1 ≤ ⌊2 * x + 1 / 2⌋ := by
      rw [Int.le_floor]
      push_cast
      linarith
    have hhigh : ⌊2 * x + 1 / 2⌋ < 2 * ⌊x + 1 / 2⌋ + 2 := by
      rw [Int.floor_lt]
      push_cast
      linarith
    rw [abs_le]
    omega
  unfold roundHalfUp
  by_cases h : 0 ≤ q
  · rw [if_pos h, if_pos (by linarith)]
    exact hhalf q
  · rw [if_neg h, if_neg (by linarith)]
    have hneg := hhalf (-q)
    rw [abs_le] at hneg ⊢
    rw [show -(2 * q) = 2 * -q by ring]
    omega

theorem roundHalfEven_near (q : ℚ) : |(roundHalfEven q : ℚ) - q| ≤ 1 / 2 := by
  have hle := Int.floor_le q
  have hlt := Int.lt_floor_add_one q
  unfold roundHalfEven
  rw [abs_le]
  split
  · constructor <;> linarith
  · split
    · push_cast
      constructor <;> linarith
    · split <;> push_cast <;> constructor <;> linarith

theorem roundHalfEven_nonneg {q : ℚ} (h : 0 ≤ q) : 0 ≤ roundHalfEven q := by
  have hf : 0 ≤ ⌊q⌋ := Int.floor_nonneg.mpr h
  unfold roundHalfEven
  split
  · exact hf
  · split
    · omega
    · split <;> omega

/-! ## The arithmetic context -/

/-- The exponent of the last of the twenty-eight digits kept of `q`. -/
def ctxExp (q : ℚ) : ℤ := Int.log 10 |q| - 27

/-- **What an arithmetic context keeps of an exact result**: twenty-eight significant
digits, ties to even. -/
def ctx (q : ℚ) : ℚ :=
  if q = 0 then 0 else roundHalfEven (q / 10 ^ ctxExp q) * 10 ^ ctxExp q

theorem ctxExp_pow_pos (q : ℚ) : (0 : ℚ) < 10 ^ ctxExp q := zpow_pos (by norm_num) _

@[simp] theorem ctx_zero : ctx 0 = 0 := by simp [ctx]

theorem ctx_nonneg {q : ℚ} (h : 0 ≤ q) : 0 ≤ ctx q := by
  unfold ctx
  split
  · exact le_refl _
  · have hpos := ctxExp_pow_pos q
    have hr : 0 ≤ roundHalfEven (q / 10 ^ ctxExp q) :=
      roundHalfEven_nonneg (div_nonneg h hpos.le)
    exact mul_nonneg (by exact_mod_cast hr) hpos.le

/-- **What the context loses** is less than one part in ten to the twenty-seventh. -/
theorem ctx_near (q : ℚ) : |ctx q - q| ≤ |q| / 10 ^ 27 := by
  unfold ctx
  split
  · rename_i h0; simp [h0]
  rename_i h0
  have hpos := ctxExp_pow_pos q
  have hpow : (10 : ℚ) ^ ctxExp q ≤ |q| / 10 ^ 27 := by
    have hlog : (10 : ℚ) ^ Int.log 10 |q| ≤ |q| := by
      exact_mod_cast Int.zpow_log_le_self (b := 10) (by norm_num) (abs_pos.mpr h0)
    rw [ctxExp, zpow_sub₀ (by norm_num : (10 : ℚ) ≠ 0)]
    norm_num at hlog ⊢
    linarith
  have hsplit : (roundHalfEven (q / 10 ^ ctxExp q) : ℚ) * 10 ^ ctxExp q - q =
      (roundHalfEven (q / 10 ^ ctxExp q) - q / 10 ^ ctxExp q) * 10 ^ ctxExp q := by
    field_simp
  rw [hsplit, abs_mul, abs_of_pos hpos]
  calc |(roundHalfEven (q / 10 ^ ctxExp q) : ℚ) - q / 10 ^ ctxExp q| * 10 ^ ctxExp q
      ≤ 1 / 2 * 10 ^ ctxExp q := mul_le_mul_of_nonneg_right (roundHalfEven_near _) hpos.le
    _ ≤ 10 ^ ctxExp q := by linarith
    _ ≤ |q| / 10 ^ 27 := hpow

/-- **A value of at most twenty-eight digits is exact.** -/
theorem ctx_eq_self {q : ℚ} {n : ℤ} {k : ℕ} (hq : q = n / 10 ^ k) (hn : |n| < 10 ^ 28) :
    ctx q = q := by
  unfold ctx
  split
  · rename_i h0; exact h0.symm
  rename_i h0
  have hlog : Int.log 10 |q| < 28 - k := by
    rw [← Int.lt_zpow_iff_log_lt (by norm_num) (abs_pos.mpr h0), hq, abs_div, abs_of_pos
      (by positivity : (0 : ℚ) < 10 ^ k), div_lt_iff₀ (by positivity)]
    have : (|n| : ℚ) < 10 ^ 28 := by exact_mod_cast hn
    calc (|(n : ℚ)|) < 10 ^ 28 := this
      _ = 10 ^ (28 - (k : ℤ)) * 10 ^ k := by
        rw [← zpow_natCast (10 : ℚ) k, ← zpow_add₀ (by norm_num : (10 : ℚ) ≠ 0)]
        norm_num
  -- the kept exponent is at or below the scale of `q`, so the scaled value is whole
  obtain ⟨j, hj⟩ : ∃ j : ℕ, (j : ℤ) = -ctxExp q - k := by
    refine ⟨(-ctxExp q - k).toNat, Int.toNat_of_nonneg ?_⟩
    unfold ctxExp
    omega
  have hexp : ctxExp q = -(k : ℤ) - j := by omega
  have hscaled : q / 10 ^ ctxExp q = ((n * 10 ^ j : ℤ) : ℚ) := by
    rw [hexp, hq, div_div, ← zpow_natCast (10 : ℚ) k, ← zpow_add₀ (by norm_num)]
    have : (k : ℤ) + (-(k : ℤ) - j) = -(j : ℤ) := by ring
    rw [this, zpow_neg, zpow_natCast]
    push_cast
    field_simp
  rw [hscaled, roundHalfEven_intCast, ← hscaled]
  exact div_mul_cancel₀ q (ctxExp_pow_pos q).ne'

/-! ## The context keeps the order -/

theorem roundHalfUp_nonpos {q : ℚ} (h : q ≤ 0) : roundHalfUp q ≤ 0 := by
  unfold roundHalfUp
  split
  · rename_i h0
    have hq : q = 0 := le_antisymm h h0
    rw [hq]
    norm_num
  · rw [neg_nonpos, Int.floor_nonneg]
    linarith

theorem roundHalfUp_le_roundHalfUp {p q : ℚ} (h : p ≤ q) : roundHalfUp p ≤ roundHalfUp q := by
  rcases le_or_gt 0 p with hp | hp
  · exact roundHalfUp_mono hp h
  rcases le_or_gt 0 q with hq | hq
  · exact (roundHalfUp_nonpos hp.le).trans (roundHalfUp_nonneg hq)
  · rw [roundHalfUp, roundHalfUp, if_neg (not_le.mpr hp), if_neg (not_le.mpr hq)]
    exact neg_le_neg (Int.floor_mono (by linarith))

@[simp] theorem roundDown_intCast (n : ℤ) : roundDown n = n := by
  unfold roundDown
  split
  · exact Int.floor_intCast n
  · rw [← Int.cast_neg, Int.floor_intCast, neg_neg]

theorem roundHalfEven_mono {p q : ℚ} (h : p ≤ q) : roundHalfEven p ≤ roundHalfEven q := by
  have hfloor : ⌊p⌋ ≤ ⌊q⌋ := Int.floor_mono h
  have hpfloor : roundHalfEven p ≤ ⌊p⌋ + 1 := by
    unfold roundHalfEven
    split
    · omega
    · split
      · omega
      · split <;> omega
  have hqfloor : ⌊q⌋ ≤ roundHalfEven q := by
    unfold roundHalfEven
    split
    · omega
    · split
      · omega
      · split <;> omega
  rcases hfloor.lt_or_eq with hlt | heq
  · omega
  -- over one floor the fractions decide, and the tie goes the same way for both
  · unfold roundHalfEven
    rw [heq]
    have hfrac : p - (⌊q⌋ : ℚ) ≤ q - ⌊q⌋ := by linarith
    by_cases hlow : q - (⌊q⌋ : ℚ) < 1 / 2
    · rw [if_pos hlow, if_pos (lt_of_le_of_lt hfrac hlow)]
    · by_cases hhigh : 1 / 2 < q - (⌊q⌋ : ℚ)
      · rw [if_neg hlow, if_pos hhigh]
        split
        · omega
        · split
          · omega
          · split <;> omega
      · have hnot : ¬ 1 / 2 < p - (⌊q⌋ : ℚ) := fun hp => hhigh (lt_of_lt_of_le hp hfrac)
        rw [if_neg hlow, if_neg hhigh, if_neg hnot]
        split
        · split <;> omega
        · exact le_refl _

theorem roundHalfEven_neg (q : ℚ) : roundHalfEven (-q) = -roundHalfEven q := by
  by_cases hint : (⌊q⌋ : ℚ) = q
  · rw [← hint, ← Int.cast_neg, roundHalfEven_intCast, roundHalfEven_intCast]
  have hlt : (⌊q⌋ : ℚ) < q := lt_of_le_of_ne (Int.floor_le q) hint
  have hsucc : q < ⌊q⌋ + 1 := Int.lt_floor_add_one q
  have hneg : ⌊-q⌋ = -⌊q⌋ - 1 := by
    rw [Int.floor_eq_iff]
    push_cast
    constructor <;> linarith
  unfold roundHalfEven
  rw [hneg]
  push_cast
  by_cases hlow : q - (⌊q⌋ : ℚ) < 1 / 2
  · rw [if_pos hlow, if_neg (by linarith), if_pos (by linarith)]
    ring
  · by_cases hhigh : 1 / 2 < q - (⌊q⌋ : ℚ)
    · rw [if_neg hlow, if_pos hhigh, if_pos (by linarith)]
      ring
    · rw [if_neg hlow, if_neg hhigh, if_neg (by linarith), if_neg (by linarith)]
      split <;> split <;> omega

@[simp] theorem ctxExp_neg (q : ℚ) : ctxExp (-q) = ctxExp q := by
  rw [ctxExp, ctxExp, abs_neg]

theorem ctx_neg (q : ℚ) : ctx (-q) = -ctx q := by
  unfold ctx
  by_cases h0 : q = 0
  · rw [if_pos h0, if_pos (neg_eq_zero.mpr h0), neg_zero]
  · rw [if_neg h0, if_neg (neg_ne_zero.mpr h0), ctxExp_neg, neg_div, roundHalfEven_neg]
    push_cast
    ring

/-- A positive value stays between the powers of ten around it. -/
theorem ctx_between {q : ℚ} (hq : 0 < q) :
    (10 : ℚ) ^ Int.log 10 q ≤ ctx q ∧ ctx q ≤ 10 ^ (Int.log 10 q + 1) := by
  have hpos := ctxExp_pow_pos q
  have habs : |q| = q := abs_of_pos hq
  have hlow : (10 : ℚ) ^ Int.log 10 q ≤ q := by
    exact_mod_cast Int.zpow_log_le_self (b := 10) (by norm_num) hq
  have hhigh : q ≤ (10 : ℚ) ^ (Int.log 10 q + 1) := by
    exact_mod_cast (Int.lt_zpow_succ_log_self (b := 10) (by norm_num) q).le
  have hscale : ∀ k : ℕ, (10 : ℚ) ^ (ctxExp q + k) = ((10 ^ k : ℤ) : ℚ) * 10 ^ ctxExp q := by
    intro k
    rw [zpow_add₀ (by norm_num), zpow_natCast, mul_comm]
    push_cast
    rfl
  have hlog : Int.log 10 q = ctxExp q + (27 : ℕ) := by
    rw [ctxExp, habs]
    push_cast
    ring
  have hlog' : Int.log 10 q + 1 = ctxExp q + (28 : ℕ) := by
    rw [hlog]
    push_cast
    ring
  rw [hlog, hscale] at hlow
  rw [hlog', hscale] at hhigh
  rw [hlog', hlog, hscale, hscale]
  unfold ctx
  rw [if_neg hq.ne']
  constructor
  · apply mul_le_mul_of_nonneg_right _ hpos.le
    have hdiv : ((10 ^ 27 : ℤ) : ℚ) ≤ q / 10 ^ ctxExp q := (le_div_iff₀ hpos).mpr hlow
    have hround := roundHalfEven_mono hdiv
    rw [roundHalfEven_intCast] at hround
    exact_mod_cast hround
  · apply mul_le_mul_of_nonneg_right _ hpos.le
    have hdiv : q / 10 ^ ctxExp q ≤ ((10 ^ 28 : ℤ) : ℚ) := (div_le_iff₀ hpos).mpr hhigh
    have hround := roundHalfEven_mono hdiv
    rw [roundHalfEven_intCast] at hround
    exact_mod_cast hround

theorem ctx_mono_of_pos {p q : ℚ} (hp : 0 < p) (h : p ≤ q) : ctx p ≤ ctx q := by
  have hq : 0 < q := lt_of_lt_of_le hp h
  have hlog : Int.log 10 p ≤ Int.log 10 q := Int.log_mono_right hp h
  rcases hlog.lt_or_eq with hlt | heq
  · calc ctx p ≤ 10 ^ (Int.log 10 p + 1) := (ctx_between hp).2
      _ ≤ 10 ^ Int.log 10 q := zpow_le_zpow_right₀ (by norm_num) hlt
      _ ≤ ctx q := (ctx_between hq).1
  · have hexp : ctxExp p = ctxExp q := by
      rw [ctxExp, ctxExp, abs_of_pos hp, abs_of_pos hq, heq]
    have hpos := ctxExp_pow_pos q
    unfold ctx
    rw [if_neg hp.ne', if_neg hq.ne', hexp]
    apply mul_le_mul_of_nonneg_right _ hpos.le
    exact_mod_cast roundHalfEven_mono (div_le_div_of_nonneg_right h hpos.le)

/-- **The context keeps the order** of the values it rounds. -/
theorem ctx_mono {p q : ℚ} (h : p ≤ q) : ctx p ≤ ctx q := by
  rcases lt_or_ge 0 p with hp | hp
  · exact ctx_mono_of_pos hp h
  have hp0 : ctx p ≤ 0 := by
    have := ctx_nonneg (q := -p) (by linarith)
    rw [ctx_neg] at this
    linarith
  rcases lt_or_ge q 0 with hq | hq
  · have hneg := ctx_mono_of_pos (p := -q) (q := -p) (by linarith) (by linarith)
    rw [ctx_neg, ctx_neg] at hneg
    linarith
  · exact hp0.trans (ctx_nonneg hq)

theorem ctx_pos {q : ℚ} (hq : 0 < q) : 0 < ctx q :=
  lt_of_lt_of_le (zpow_pos (by norm_num) _) (ctx_between hq).1

theorem ctx_neg_of_neg {q : ℚ} (hq : q < 0) : ctx q < 0 := by
  have := ctx_pos (q := -q) (by linarith)
  rw [ctx_neg] at this
  linarith

theorem ctx_intCast {n : ℤ} (hn : |n| < 10 ^ 28) : ctx n = n :=
  ctx_eq_self (k := 0) (by simp) hn

/-- **Rounding a quotient twice is rounding it once**, when the numerator is short of the
context's last digit. -/
theorem roundHalfUp_ctx_div {n p : ℤ} (hn : 0 ≤ n) (hp : 0 < p) (hfit : 2 * n < 10 ^ 27) :
    roundHalfUp (ctx (n / p)) = roundHalfUp (n / p) := by
  have hp' : (0 : ℚ) < p := by exact_mod_cast hp
  have hx : (0 : ℚ) ≤ (n : ℚ) / p := div_nonneg (by exact_mod_cast hn) hp'.le
  rw [roundHalfUp, roundHalfUp, if_pos (ctx_nonneg hx), if_pos hx, Int.floor_eq_iff]
  have hle := Int.floor_le ((n : ℚ) / p + 1 / 2)
  have hlt := Int.lt_floor_add_one ((n : ℚ) / p + 1 / 2)
  have hfloor : 0 ≤ ⌊(n : ℚ) / p + 1 / 2⌋ := Int.floor_nonneg.mpr (by linarith)
  have hsmall : (n : ℚ) / p ≤ n := by
    rw [div_le_iff₀ hp']
    have hone : (1 : ℚ) ≤ p := by exact_mod_cast hp
    have hn' : (0 : ℚ) ≤ n := by exact_mod_cast hn
    nlinarith
  generalize ⌊(n : ℚ) / p + 1 / 2⌋ = m at *
  have hm : m ≤ n := by
    have : (m : ℚ) < n + 1 := by linarith
    have : m < n + 1 := by exact_mod_cast this
    omega
  constructor
  · -- the half below is a value the context keeps, and it keeps the order
    have hhalf : ((m : ℚ) - 1 / 2) = ((10 * m - 5 : ℤ) : ℚ) / 10 ^ 1 := by
      push_cast
      ring
    have hkept : ctx ((m : ℚ) - 1 / 2) = (m : ℚ) - 1 / 2 :=
      ctx_eq_self hhalf (by rw [abs_lt]; omega)
    have hmono : ctx ((m : ℚ) - 1 / 2) ≤ ctx ((n : ℚ) / p) := ctx_mono (by linarith)
    rw [hkept] at hmono
    linarith
  · -- a quotient below the half above is below it by more than the context moves it
    have hgap : 2 * n + 1 ≤ (2 * m + 1) * p := by
      have hq : (n : ℚ) / p < (2 * m + 1) / 2 := by linarith
      rw [div_lt_div_iff₀ hp' (by norm_num)] at hq
      have : n * 2 < (2 * m + 1) * p := by exact_mod_cast hq
      omega
    have hgap' : (n : ℚ) / p + 1 / (2 * p) ≤ m + 1 / 2 := by
      have hq : (2 * (n : ℚ) + 1) ≤ (2 * m + 1) * p := by exact_mod_cast hgap
      have hsum : (n : ℚ) / p + 1 / (2 * p) = (2 * n + 1) / (2 * p) := by
        field_simp
      rw [hsum, div_le_iff₀ (by positivity)]
      linarith
    have hmoved : ((n : ℚ) / p) / 10 ^ 27 < 1 / (2 * p) := by
      have hq : (2 * (n : ℚ)) < 10 ^ 27 := by exact_mod_cast hfit
      rw [div_div, div_lt_div_iff₀ (by positivity) (by positivity)]
      nlinarith
    have hnear := abs_le.mp (ctx_near ((n : ℚ) / p))
    rw [abs_of_nonneg hx] at hnear
    linarith [hnear.2]

end Dec

end Lib
