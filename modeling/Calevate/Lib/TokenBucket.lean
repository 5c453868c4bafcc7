import Mathlib.Algebra.Order.Field.Basic
import Mathlib.Tactic.Linarith
import Mathlib.Tactic.Ring

/-!
# Token buckets

A bucket of at most `burst` tokens that refills at `rate`, with the refill worked out from when
it was last touched. `level` is what it holds at a time. A drawing takes a token where there is
one and puts the refill down either way: what is drawn is paid from the level, `level_draw`, and
a drawing that is refused leaves the level of every later time as it was, `level_refused`.
-/

namespace Lib

namespace TokenBucket

variable {K : Type*} [Field K] [LinearOrder K]

/-- What is put down of a bucket: its tokens, and when it was touched. -/
structure Bucket (K : Type*) where
  tokens : K
  touched : K
  deriving DecidableEq, Repr

/-- The tokens at a time; a bucket nobody touched is full. -/
def level (burst rate : K) (b : Option (Bucket K)) (now : K) : K :=
  match b with
  | none => burst
  | some b => min burst (b.tokens + (now - b.touched) * rate)

/-- One token drawn, or none where there is not one. -/
def draw (burst rate : K) (b : Option (Bucket K)) (now : K) : Bucket K × Bool :=
  if level burst rate b now < 1 then (⟨level burst rate b now, now⟩, false)
  else (⟨level burst rate b now - 1, now⟩, true)

/-- A bucket as drawings up to a time leave it. -/
def Sound (b : Option (Bucket K)) (now : K) : Prop :=
  ∀ c ∈ b, 0 ≤ c.tokens ∧ c.touched ≤ now

variable {burst rate now later : K} {b : Option (Bucket K)}

theorem level_le_burst : level burst rate b now ≤ burst := by
  cases b with
  | none => exact le_rfl
  | some b => exact min_le_left _ _

theorem Sound.mono (h : Sound b now) (hle : now ≤ later) : Sound b later :=
  fun c hc => ⟨(h c hc).1, (h c hc).2.trans hle⟩

variable [IsStrictOrderedRing K]

theorem Sound.level_nonneg (h : Sound b now) (hburst : 0 ≤ burst) (hrate : 0 ≤ rate) :
    0 ≤ level burst rate b now := by
  cases b with
  | none => exact hburst
  | some b =>
    obtain ⟨htokens, htouched⟩ := h b rfl
    have hrefill : 0 ≤ (now - b.touched) * rate := mul_nonneg (sub_nonneg.mpr htouched) hrate
    exact le_min hburst (add_nonneg htokens hrefill)

/-- A level rises no faster than the rate. -/
theorem level_later_le (burst : K) (b : Option (Bucket K)) (hrate : 0 ≤ rate)
    (hle : now ≤ later) :
    level burst rate b later ≤ level burst rate b now + (later - now) * rate := by
  have hrefill : 0 ≤ (later - now) * rate := mul_nonneg (sub_nonneg.mpr hle) hrate
  cases b with
  | none =>
    show burst ≤ burst + (later - now) * rate
    linarith
  | some b =>
    have hsplit : b.tokens + (later - b.touched) * rate =
        b.tokens + (now - b.touched) * rate + (later - now) * rate := by ring
    show min burst _ ≤ min burst _ + (later - now) * rate
    rw [hsplit, ← min_add_add_right]
    exact min_le_min (by linarith) le_rfl

/-- A level rises by the rate until the bucket is full. -/
theorem Sound.level_later (h : Sound b now) (hrate : 0 ≤ rate) : min burst ((later - now) * rate) ≤ level burst rate b later := by
  cases b with
  | none => exact min_le_left _ _
  | some b =>
    obtain ⟨htokens, htouched⟩ := h b rfl
    have hlonger : (later - now) * rate ≤ (later - b.touched) * rate :=
      mul_le_mul_of_nonneg_right (by linarith) hrate
    exact min_le_min le_rfl (by linarith)

/-- **A bucket left alone long enough is full.** -/
theorem level_full {c : Bucket K} (htokens : 0 ≤ c.tokens)
    (hlong : burst ≤ (now - c.touched) * rate) : level burst rate (some c) now = burst :=
  min_eq_left (by linarith)

/-- **A refused drawing changes no later level.** -/
theorem level_refused (hrate : 0 ≤ rate) (hle : now ≤ later) :
    level burst rate (some ⟨level burst rate b now, now⟩) later = level burst rate b later := by
  have hrefill : 0 ≤ (later - now) * rate := mul_nonneg (sub_nonneg.mpr hle) hrate
  cases b with
  | none => exact min_eq_left (by show burst ≤ burst + _; linarith)
  | some b =>
    show min burst (min burst (b.tokens + (now - b.touched) * rate) + (later - now) * rate) =
      min burst (b.tokens + (later - b.touched) * rate)
    have hsplit : b.tokens + (later - b.touched) * rate =
        b.tokens + (now - b.touched) * rate + (later - now) * rate := by ring
    rw [hsplit, ← min_add_add_right, ← min_assoc, min_eq_left (by linarith : burst ≤ _)]

/-- **A drawn token is paid from the level.** -/
theorem level_draw :
    level burst rate (some (draw burst rate b now).1) later +
        (if (draw burst rate b now).2 then 1 else 0) ≤
      level burst rate b now + (later - now) * rate := by
  unfold draw
  split
  · rw [if_neg Bool.false_ne_true, add_zero]
    exact min_le_right _ _
  · rw [if_pos rfl]
    have : level burst rate (some ⟨level burst rate b now - 1, now⟩) later ≤
        level burst rate b now - 1 + (later - now) * rate := min_le_right _ _
    linarith

end TokenBucket

end Lib
