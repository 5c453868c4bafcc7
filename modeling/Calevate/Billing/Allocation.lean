import Calevate.Lib.Decimal
import Calevate.Lib.Apportion
import Mathlib.Algebra.Order.BigOperators.Group.List
import Mathlib.Data.List.Induction

/-!
# Splitting a total into paise

`allocate_paise` as it runs: on decimals, in the arithmetic context of twenty-eight
digits, where a figure that needs more digits at paise is an error and a sum or a
difference that needs more is rounded. Amounts are counted in paise, which moves no
digit of a decimal.

The context shows in two places only. Figures past twenty-eight digits make the function
raise or its sums lose paise, so the main result asks that they fit (`Fits`); and two
discarded fractions the context cannot tell apart are a tie.
-/

namespace Calevate.Billing

open Lib

namespace Allocation

/-- What `quantize(PAISE)` keeps of a value, refused when it does not fit the context. -/
def quantize (mode : ℚ → ℤ) (value : ℚ) : Option ℤ :=
  if |mode value| < 10 ^ 28 then some (mode value) else none

/-- `sum(...)`: every partial sum as the context leaves it. -/
def sum (values : List ℚ) : ℚ := values.foldl (fun acc value => Dec.ctx (acc + value)) 0

/-- `service.to_paise`. -/
def toPaise (value : ℚ) : Option ℤ := quantize Dec.roundHalfUp value

/-- Why `allocate_paise` raises. -/
inductive Refusal where
  | invalidOperation
  | notWholePaise
  | notTheirTotal
  deriving DecidableEq, Repr

/-- The sort key of a part: the discarded fraction, negated. -/
def discarded (part : ℚ) : ℚ := Dec.ctx (⌊part⌋ - part)

/-- `order[:owed]`: the positions, the biggest discarded fraction first, ties by position. -/
def order (parts : List ℚ) (n : ℕ) : List ℕ :=
  Apportion.ranked (fun i => discarded (parts.getD i 0)) parts.length n

/-- `owed`, of a total and the floors. -/
def owed (floors : List ℤ) (total : ℚ) : ℤ :=
  Dec.roundDown (Dec.ctx (Dec.ctx (total - sum (floors.map fun n : ℤ => (n : ℚ)))))

/-- The floors, one paisa more on each part that comes first. -/
def handOut (parts : List ℚ) (floors : List ℤ) (n : ℕ) : List ℤ :=
  Apportion.bump floors (order parts n)

/-- **`allocate_paise`.** -/
def allocatePaise (parts : List ℚ) (total : ℚ) : Except Refusal (List ℤ) :=
  if parts = [] then .ok []
  else
    match quantize Int.floor total with
    | none => .error .invalidOperation
    | some whole =>
      if total ≠ whole then .error .notWholePaise
      else
        match parts.mapM (quantize Int.floor) with
        | none => .error .invalidOperation
        | some floors =>
          if 0 ≤ owed floors total ∧ owed floors total ≤ parts.length then
            .ok (handOut parts floors (owed floors total).toNat)
          else .error .notTheirTotal

/-! ## What fits the context -/

/-- A part's magnitude, rounded up to whole paise. -/
def magnitude (part : ℚ) : ℤ := ⌈|part|⌉

/-- The magnitudes of the parts add to less than twenty-eight digits of paise. -/
def Fits (parts : List ℚ) : Prop := (parts.map magnitude).sum < 10 ^ 28

instance : DecidablePred Fits :=
  fun parts => inferInstanceAs (Decidable ((parts.map magnitude).sum < 10 ^ 28))

theorem magnitude_nonneg (part : ℚ) : 0 ≤ magnitude part := Int.ceil_nonneg (abs_nonneg part)

theorem floor_ge (part : ℚ) : -magnitude part ≤ ⌊part⌋ := by
  rw [Int.le_floor]
  push_cast
  have hceil : |part| ≤ (magnitude part : ℚ) := Int.le_ceil _
  linarith [neg_abs_le part]

theorem ceil_le (part : ℚ) : ⌈part⌉ ≤ magnitude part := Int.ceil_le_ceil (le_abs_self part)

/-- A part with a fraction has a magnitude of at least one paisa. -/
theorem ceil_sub_floor_le (part : ℚ) : ⌈part⌉ - ⌊part⌋ ≤ magnitude part := by
  rcases eq_or_ne part 0 with rfl | hne
  · simp [magnitude]
  · have hpos : 0 < magnitude part := Int.ceil_pos.mpr (abs_pos.mpr hne)
    have hstep := Int.ceil_le_floor_add_one part
    omega

namespace Fits

theorem of_append {l r : List ℚ} (h : Fits (l ++ r)) : Fits l := by
  have hr : 0 ≤ (r.map magnitude).sum := List.sum_nonneg (by simpa using fun p _ => magnitude_nonneg p)
  unfold Fits at h ⊢
  rw [List.map_append, List.sum_append] at h
  omega

variable {parts : List ℚ} (h : Fits parts)

include h

theorem floor_lt {p : ℚ} (hp : p ∈ parts) : |⌊p⌋| < 10 ^ 28 := by
  have hle : magnitude p ≤ (parts.map magnitude).sum :=
    List.single_le_sum (by simpa using fun q _ => magnitude_nonneg q) _ (List.mem_map_of_mem hp)
  have hlow := floor_ge p
  have hhigh := (Int.floor_le_ceil p).trans (ceil_le p)
  unfold Fits at h
  rw [abs_lt]
  omega

/-- Any figure between the floors' sum and the ceilings' fits. -/
theorem whole_lt {n : ℤ} (hlow : (parts.map Int.floor).sum ≤ n)
    (hhigh : n ≤ (parts.map Int.ceil).sum) : |n| < 10 ^ 28 := by
  have hfloor : -(parts.map magnitude).sum ≤ (parts.map Int.floor).sum := by
    clear h hlow hhigh
    induction parts with
    | nil => simp
    | cons p parts ih =>
      have := floor_ge p
      simp only [List.map_cons, List.sum_cons]
      omega
  have hceil : (parts.map Int.ceil).sum ≤ (parts.map magnitude).sum :=
    List.sum_le_sum fun p _ => ceil_le p
  unfold Fits at h
  rw [abs_lt]
  omega

end Fits

/-- **The context's sum lies between the floors' and the ceilings'.** -/
theorem sum_between {parts : List ℚ} (h : Fits parts) :
    ((parts.map Int.floor).sum : ℚ) ≤ sum parts ∧ sum parts ≤ ((parts.map Int.ceil).sum : ℤ) := by
  induction parts using List.reverseRecOn with
  | nil => simp [sum]
  | append_singleton parts p ih =>
    obtain ⟨hlow, hhigh⟩ := ih h.of_append
    have hle : ((parts ++ [p]).map Int.floor).sum ≤ ((parts ++ [p]).map Int.ceil).sum :=
      List.sum_le_sum fun q _ => Int.floor_le_ceil q
    have hstep : sum (parts ++ [p]) = Dec.ctx (sum parts + p) := by
      rw [sum, List.foldl_append]
      rfl
    -- both ends are whole figures the context keeps, and rounding keeps the order
    have hends : (((parts ++ [p]).map Int.floor).sum : ℚ) ≤ sum parts + p ∧
        sum parts + p ≤ (((parts ++ [p]).map Int.ceil).sum : ℤ) := by
      have hfloor := Int.floor_le p
      have hceil := Int.le_ceil p
      simp only [List.map_append, List.map_singleton, List.sum_append, List.sum_singleton,
        Int.cast_add]
      constructor <;> linarith
    rw [hstep, ← Dec.ctx_intCast (h.whole_lt (le_refl _) hle), ← Dec.ctx_intCast (h.whole_lt hle (le_refl _))]
    exact ⟨Dec.ctx_mono hends.1, Dec.ctx_mono hends.2⟩

section Total

variable {parts : List ℚ} (h : Fits parts)

include h

/-- The floors are whole already, and the context adds them exactly. -/
theorem sum_floors : sum ((parts.map Int.floor).map fun n : ℤ => (n : ℚ)) =
    (parts.map Int.floor).sum := by
  have hwhole : Fits ((parts.map Int.floor).map fun n : ℤ => (n : ℚ)) := by
    refine lt_of_le_of_lt ?_ h
    rw [List.map_map, List.map_map]
    refine List.sum_le_sum fun p _ => ?_
    have hcast : magnitude (⌊p⌋ : ℚ) = |⌊p⌋| := by
      rw [magnitude, ← Int.cast_abs, Int.ceil_intCast]
    have hlow := floor_ge p
    have hhigh := (Int.floor_le_ceil p).trans (ceil_le p)
    simp only [Function.comp_apply, hcast]
    rw [abs_le]
    omega
  obtain ⟨hlow, hhigh⟩ := sum_between hwhole
  simp only [List.map_map, Function.comp_def, Int.floor_intCast, Int.ceil_intCast] at hlow hhigh
  rw [List.map_map]
  exact le_antisymm hhigh hlow

/-- The total is a whole figure between the floors' sum and the ceilings'. -/
theorem toPaise_sum : ∃ total : ℤ, toPaise (sum parts) = some total ∧
    (parts.map Int.floor).sum ≤ total ∧ total ≤ (parts.map Int.ceil).sum := by
  obtain ⟨hlow, hhigh⟩ := sum_between h
  have hlow' := Dec.roundHalfUp_le_roundHalfUp hlow
  have hhigh' := Dec.roundHalfUp_le_roundHalfUp hhigh
  rw [Dec.roundHalfUp_intCast] at hlow' hhigh'
  exact ⟨_, if_pos (h.whole_lt hlow' hhigh'), hlow', hhigh'⟩

theorem mapM_quantize : parts.mapM (quantize Int.floor) = some (parts.map Int.floor) := by
  have hall : ∀ p ∈ parts, quantize Int.floor p = some ⌊p⌋ := fun p hp => if_pos (h.floor_lt hp)
  clear h
  induction parts with
  | nil => rfl
  | cons p parts ih =>
    rw [List.mapM_cons, hall p (by simp), ih fun q hq => hall q (List.mem_cons_of_mem p hq)]
    rfl

/-- **As many paise are owed as the total is above the floors.** -/
theorem owed_eq {total : ℤ} (hlow : (parts.map Int.floor).sum ≤ total)
    (hhigh : total ≤ (parts.map Int.ceil).sum) :
    owed (parts.map Int.floor) total = total - (parts.map Int.floor).sum := by
  have hgap : (parts.map Int.ceil).sum - (parts.map Int.floor).sum ≤ (parts.map magnitude).sum := by
    clear h hlow hhigh
    induction parts with
    | nil => simp
    | cons p parts ih =>
      have := ceil_sub_floor_le p
      simp only [List.map_cons, List.sum_cons]
      omega
  have hsmall : |total - (parts.map Int.floor).sum| < 10 ^ 28 := by
    unfold Fits at h
    rw [abs_lt]
    omega
  rw [owed, sum_floors h, ← Int.cast_sub, Dec.ctx_intCast hsmall, Dec.ctx_intCast hsmall,
    Dec.roundDown_intCast]

end Total

/-! ## The split -/

/-- A discarded fraction shows in the sort key, and nothing else does. -/
theorem discarded_neg (part : ℚ) : discarded part < 0 ↔ (⌊part⌋ : ℚ) ≠ part := by
  have hle := Int.floor_le part
  constructor
  · intro hneg heq
    rw [discarded, heq, sub_self, Dec.ctx_zero] at hneg
    exact lt_irrefl 0 hneg
  · intro hne
    have hlt : (⌊part⌋ : ℚ) < part := lt_of_le_of_ne hle hne
    exact Dec.ctx_neg_of_neg (by linarith)

/-- No more paise can be owed than there are parts with a fraction. -/
theorem ceil_sub_floor_sum (parts : List ℚ) :
    (parts.map Int.ceil).sum - (parts.map Int.floor).sum =
      (parts.filter fun p => discarded p < 0).length := by
  induction parts with
  | nil => rfl
  | cons p parts ih =>
    have hstep : ⌈p⌉ - ⌊p⌋ = if discarded p < 0 then 1 else 0 := by
      by_cases hfrac : discarded p < 0
      · have hne := (discarded_neg p).mp hfrac
        have hrange : p ∉ Set.range ((↑) : ℤ → ℚ) := by
          rintro ⟨n, rfl⟩
          exact hne (by rw [Int.floor_intCast])
        rw [if_pos hfrac, (Int.ceil_eq_floor_add_one_iff_notMem p).mpr hrange]
        ring
      · have heq : (⌊p⌋ : ℚ) = p := by
          by_contra hne
          exact hfrac ((discarded_neg p).mpr hne)
        rw [if_neg hfrac, ← heq, Int.ceil_intCast, Int.floor_intCast, sub_self]
    rw [List.map_cons, List.sum_cons, List.map_cons, List.sum_cons, List.filter_cons]
    by_cases hfrac : discarded p < 0
    · rw [if_pos hfrac] at hstep
      simp only [hfrac, decide_true, if_true, List.length_cons]
      push_cast
      omega
    · rw [if_neg hfrac] at hstep
      simp only [hfrac, decide_false, Bool.false_eq_true, if_false]
      omega

/-- Parts with a fraction, counted by position. -/
theorem length_filter_range {α : Type*} (p : α → Prop) [DecidablePred p] (l : List α) (d : α) :
    ((List.range l.length).filter fun i => p (l.getD i d)).length =
      (l.filter fun a => p a).length := by
  have hmap : (List.range l.length).map (fun i => l.getD i d) = l := by
    apply List.ext_getElem (by simp)
    intro i h1 h2
    simp [h2]
  calc ((List.range l.length).filter fun i => p (l.getD i d)).length
      = (((List.range l.length).map fun i => l.getD i d).filter fun a => p a).length := by
        rw [List.filter_map, List.length_map]
        rfl
    _ = (l.filter fun a => p a).length := by rw [hmap]

/-- What one position is given: its floor, and a paisa if it comes first. -/
theorem getD_handOut (parts : List ℚ) (n : ℕ) {i : ℕ} (hi : i < parts.length) :
    (handOut parts (parts.map Int.floor) n).getD i 0 =
      ⌊parts.getD i 0⌋ + if i ∈ order parts n then 1 else 0 := by
  have hfloor : (parts.map Int.floor).getD i 0 = ⌊parts.getD i 0⌋ := by
    simp [hi]
  have hnd : (order parts n).Nodup := Apportion.ranked_nodup _ _ _
  rw [handOut, Apportion.getD_bump _ _ (by rwa [List.length_map]), hfloor, hnd.count]
  push_cast
  rfl

/-- The positions that come first have a fraction, when no more are owed than have one. -/
theorem fractional_of_mem_order {parts : List ℚ} {n : ℕ}
    (hn : n ≤ (parts.filter fun p => discarded p < 0).length) {i : ℕ} (hi : i ∈ order parts n) :
    (⌊parts.getD i 0⌋ : ℚ) ≠ parts.getD i 0 := by
  rw [← length_filter_range (fun p => discarded p < 0) parts 0] at hn
  exact (discarded_neg _).mp (Apportion.neg_of_mem_ranked hn hi)

theorem allocatePaise_eq {parts : List ℚ} (h : Fits parts) {total : ℤ}
    (hlow : (parts.map Int.floor).sum ≤ total) (hhigh : total ≤ (parts.map Int.ceil).sum) :
    allocatePaise parts total =
      .ok (handOut parts (parts.map Int.floor) (total - (parts.map Int.floor).sum).toNat) := by
  unfold allocatePaise
  split
  · rename_i hnil
    subst hnil
    simp [handOut, order, Apportion.ranked]
  · have hquant : quantize Int.floor (total : ℤ) = some total := by
      rw [quantize, Int.floor_intCast]
      exact if_pos (h.whole_lt hlow hhigh)
    have hle : (parts.filter fun p => discarded p < 0).length ≤ parts.length :=
      List.length_filter_le _ _
    have hcount := ceil_sub_floor_sum parts
    rw [hquant, mapM_quantize h]
    dsimp only
    rw [owed_eq h hlow hhigh, if_neg (not_not.mpr rfl), if_pos (by omega)]

/-- **A largest-remainder split** of a total over parts, under a reading of the fraction
each part loses to its floor. -/
structure LargestRemainder (fraction : ℚ → ℚ) (parts : List ℚ) (total : ℤ) (shares : List ℤ) :
    Prop where
  length_eq : shares.length = parts.length
  sum_eq : shares.sum = total
  near : ∀ i < parts.length,
    shares.getD i 0 = ⌊parts.getD i 0⌋ ∨ shares.getD i 0 = ⌊parts.getD i 0⌋ + 1
  whole : ∀ i < parts.length, (⌊parts.getD i 0⌋ : ℚ) = parts.getD i 0 →
    (shares.getD i 0 : ℚ) = parts.getD i 0
  biggest : ∀ i < parts.length, ∀ j < parts.length,
    shares.getD i 0 = ⌊parts.getD i 0⌋ + 1 → shares.getD j 0 = ⌊parts.getD j 0⌋ →
      fraction (parts.getD j 0) ≤ fraction (parts.getD i 0)

/-- The fraction of a part, as it is. -/
def exactFraction (part : ℚ) : ℚ := part - ⌊part⌋

/-- The fraction of a part, as the context holds it. -/
def keptFraction (part : ℚ) : ℚ := Dec.ctx (exactFraction part)

theorem discarded_eq (part : ℚ) : discarded part = -keptFraction part := by
  rw [discarded, keptFraction, exactFraction, ← Dec.ctx_neg, neg_sub]

theorem handOut_splits {parts : List ℚ} {total : ℤ} (hlow : (parts.map Int.floor).sum ≤ total)
    (hhigh : total ≤ (parts.map Int.ceil).sum) :
    LargestRemainder keptFraction parts total
      (handOut parts (parts.map Int.floor) (total - (parts.map Int.floor).sum).toNat) := by
  have hcount := ceil_sub_floor_sum parts
  have hle : (parts.filter fun p => discarded p < 0).length ≤ parts.length :=
    List.length_filter_le _ _
  constructor
  case length_eq => rw [handOut, Apportion.length_bump, List.length_map]
  case sum_eq =>
    rw [handOut, Apportion.sum_bump, order, Apportion.length_ranked (by omega)]
    · omega
    · intro i hi
      rw [List.length_map]
      exact Apportion.lt_of_mem_ranked hi
  case near =>
    intro i hi
    rw [getD_handOut _ _ hi]
    split
    · exact Or.inr rfl
    · exact Or.inl (add_zero _)
  case whole =>
    intro i hi hwhole
    rw [getD_handOut _ _ hi, if_neg fun hmem => fractional_of_mem_order (by omega) hmem hwhole,
      add_zero, hwhole]
  case biggest =>
    intro i hi j hj hup hdown
    rw [getD_handOut _ _ hi] at hup
    rw [getD_handOut _ _ hj] at hdown
    have hmem : i ∈ order parts (total - (parts.map Int.floor).sum).toNat := by
      by_contra hnot
      rw [if_neg hnot] at hup
      omega
    have hnot : j ∉ order parts (total - (parts.map Int.floor).sum).toNat := by
      intro hmem
      rw [if_pos hmem] at hdown
      omega
    have hkey := Apportion.key_le_of_ranked hmem hj hnot
    rw [discarded_eq, discarded_eq] at hkey
    exact neg_le_neg_iff.mp hkey

end Allocation

open Allocation in
/-- **Largest remainder**: parts that fit the context are split without an error into
whole paise that add to the total, each the floor of its part or a paisa more, whole
parts unchanged, and none is passed over for one whose fraction, as the context holds
it, is smaller. -/
theorem allocatePaise_splits (parts : List ℚ) (h : Fits parts) :
    ∃ total shares, toPaise (sum parts) = some total ∧
      allocatePaise parts (total : ℤ) = .ok shares ∧
      LargestRemainder keptFraction parts total shares := by
  obtain ⟨total, htotal, hlow, hhigh⟩ := toPaise_sum h
  exact ⟨total, _, htotal, allocatePaise_eq h hlow hhigh, handOut_splits hlow hhigh⟩

open Allocation in
theorem allocatePaise_splits_halves :
    ∃ total shares, toPaise (sum [1 / 2, -1 / 2, 5 / 2]) = some total ∧
      allocatePaise [1 / 2, -1 / 2, 5 / 2] (total : ℤ) = .ok shares ∧
      LargestRemainder keptFraction [1 / 2, -1 / 2, 5 / 2] total shares :=
  allocatePaise_splits [1 / 2, -1 / 2, 5 / 2] (by decide +kernel)

open Allocation in
/-- The context's twenty-eight digits do show: a pair of parts that cancel can be too long
to floor, and two halves that differ in the fortieth place are a tie. -/
theorem allocatePaise_not_exact :
    (toPaise (sum [10 ^ 28, -10 ^ 28]) = some 0 ∧
      allocatePaise [10 ^ 28, -10 ^ 28] 0 = .error .invalidOperation) ∧
    ¬ ∀ parts total shares, toPaise (sum parts) = some total →
      allocatePaise parts (total : ℤ) = .ok shares →
        LargestRemainder exactFraction parts total shares := by
  constructor
  · decide +kernel
  · intro h
    have hsplit := h [1 / 2, 1 / 2 + 1 / 10 ^ 38] 1 [1, 0] (by decide +kernel) (by decide +kernel)
    have hle := hsplit.biggest 0 (by decide) 1 (by decide) (by decide +kernel) (by decide +kernel)
    exact absurd hle (by decide +kernel)

end Calevate.Billing
