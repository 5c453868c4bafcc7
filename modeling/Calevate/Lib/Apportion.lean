import Mathlib.Data.Rat.Floor
import Mathlib.Data.List.GetD
import Mathlib.Data.List.Sort
import Mathlib.Algebra.BigOperators.Group.List.Basic
import Mathlib.Tactic.Linarith

/-!
# Apportionment by largest remainder

A total in whole units is split over labelled parts that are rational numbers of
units. Every part is floored, and the units still owed go one each to the parts that
lost most to the floor, ties to the earlier part.

Two facts carry every use. As long as no more units are owed than parts have a
fraction (`Covers`), a whole part is returned as it is (`share_of_whole`), and a part
of nothing at all may be added or dropped without moving a unit anywhere
(`share_filter`). The shares always add to the total (`sum_share`).
-/

namespace Lib

namespace Apportion

variable {κ : Type*}

/-- What flooring does to a value: zero or below, further below the more it lost. -/
def discard (x : ℚ) : ℚ := ⌊x⌋ - x

theorem discard_nonpos (x : ℚ) : discard x ≤ 0 := sub_nonpos.mpr (Int.floor_le x)

/-- The parts, floored and added. -/
def floors (parts : List (κ × ℚ)) : ℤ := (parts.map fun p => ⌊p.2⌋).sum

@[simp] theorem floors_cons (p : κ × ℚ) (parts : List (κ × ℚ)) :
    floors (p :: parts) = ⌊p.2⌋ + floors parts := by
  simp [floors]

/-- The units the floors leave to hand out. -/
def owed (parts : List (κ × ℚ)) (total : ℤ) : ℤ := total - floors parts

/-- The parts, the biggest discarded fraction first and ties by position. -/
def order (parts : List (κ × ℚ)) : List (κ × ℚ) :=
  parts.insertionSort fun p q => discard p.2 ≤ discard q.2

/-- The labels that get one unit more than their floor. -/
def winners (parts : List (κ × ℚ)) (total : ℤ) : List κ :=
  ((order parts).take (owed parts total).toNat).map Prod.fst

/-- What one part is given. -/
def share [DecidableEq κ] (parts : List (κ × ℚ)) (total : ℤ) (p : κ × ℚ) : ℤ :=
  ⌊p.2⌋ + if p.1 ∈ winners parts total then 1 else 0

/-- **The apportionment**, refused when the total is not the parts' own. -/
def allocate [DecidableEq κ] (parts : List (κ × ℚ)) (total : ℤ) : Option (List (κ × ℤ)) :=
  if parts.isEmpty then some []
  else if 0 ≤ owed parts total ∧ owed parts total ≤ parts.length then
    some (parts.map fun p => (p.1, share parts total p))
  else none

/-! ## Whole parts come last -/

/-- A part that is not a whole number of units. -/
def Fractional (p : κ × ℚ) : Prop := discard p.2 < 0

instance : DecidablePred (@Fractional κ) :=
  fun p => inferInstanceAs (Decidable (discard p.2 < 0))

/-- The parts with a fraction to lose. -/
def fractions (parts : List (κ × ℚ)) : List (κ × ℚ) := parts.filter fun p => Fractional p

/-- No more is owed than there are parts with a fraction. -/
def Covers (parts : List (κ × ℚ)) (total : ℤ) : Prop :=
  0 ≤ owed parts total ∧ owed parts total ≤ (fractions parts).length

section Insertion

variable {α : Type*} (r : α → α → Prop) [DecidableRel r]

theorem orderedInsert_append_left {a : α} (A : List α) {B : List α} (h : ∀ b ∈ B, r a b) :
    (A ++ B).orderedInsert r a = A.orderedInsert r a ++ B := by
  induction A with
  | nil =>
    cases B with
    | nil => rfl
    | cons b B => simp [List.orderedInsert, h b (by simp)]
  | cons c A ih =>
    simp only [List.cons_append, List.orderedInsert_cons]
    split
    · rfl
    · rw [ih, List.cons_append]

theorem orderedInsert_append_right {a : α} {A : List α} (B : List α) (h : ∀ c ∈ A, ¬ r a c) :
    (A ++ B).orderedInsert r a = A ++ B.orderedInsert r a := by
  induction A with
  | nil => rfl
  | cons c A ih =>
    have hc : ¬ r a c := h c (by simp)
    rw [List.cons_append, List.orderedInsert_cons, if_neg hc,
      ih fun x hx => h x (List.mem_cons_of_mem c hx), List.cons_append]

/-- **A class of elements that all sort before the rest is sorted on its own.** -/
theorem insertionSort_split (p : α → Prop) [DecidablePred p]
    (hlt : ∀ a b, p a → ¬ p b → r a b ∧ ¬ r b a) (l : List α) :
    l.insertionSort r = (l.filter fun a => p a).insertionSort r ++
      (l.filter fun a => ¬ p a).insertionSort r := by
  induction l with
  | nil => rfl
  | cons a l ih =>
    rw [List.insertionSort_cons, ih]
    by_cases ha : p a
    · rw [List.filter_cons_of_pos (by simpa using ha), List.filter_cons_of_neg (by simpa using ha),
        List.insertionSort_cons]
      apply orderedInsert_append_left
      intro b hb
      rw [List.mem_insertionSort, List.mem_filter] at hb
      exact (hlt a b ha (by simpa using hb.2)).1
    · rw [List.filter_cons_of_neg (by simpa using ha), List.filter_cons_of_pos (by simpa using ha),
        List.insertionSort_cons]
      apply orderedInsert_append_right
      intro b hb
      rw [List.mem_insertionSort, List.mem_filter] at hb
      exact (hlt b a (by simpa using hb.2) ha).2

end Insertion

theorem winners_eq {parts : List (κ × ℚ)} {total : ℤ} (h : Covers parts total) :
    winners parts total =
      ((order (fractions parts)).take (owed parts total).toNat).map Prod.fst := by
  have hsplit : order parts =
      order (fractions parts) ++ order (parts.filter fun p => ¬ Fractional p) := by
    apply insertionSort_split
    intro a b ha hb
    have hb0 : discard b.2 = 0 := le_antisymm (discard_nonpos _) (not_lt.mp hb)
    rw [hb0]
    exact ⟨le_of_lt ha, not_le.mpr ha⟩
  have hlen : (owed parts total).toNat ≤ (order (fractions parts)).length := by
    rw [order, List.length_insertionSort]
    have h2 := h.2
    omega
  rw [winners, hsplit, List.take_append_of_le_length hlen]

theorem mem_winners {parts : List (κ × ℚ)} {total : ℤ} (h : Covers parts total) {k : κ}
    (hk : k ∈ winners parts total) : ∃ p ∈ parts, Fractional p ∧ p.1 = k := by
  rw [winners_eq h, List.mem_map] at hk
  obtain ⟨p, hp, hpk⟩ := hk
  have hp' := List.mem_of_mem_take hp
  rw [order, List.mem_insertionSort, fractions, List.mem_filter] at hp'
  exact ⟨p, hp'.1, by simpa using hp'.2, hpk⟩

/-- Under distinct labels a part is found by its label. -/
theorem eq_of_label {parts : List (κ × ℚ)} (hnd : (parts.map Prod.fst).Nodup) {p q : κ × ℚ}
    (hp : p ∈ parts) (hq : q ∈ parts) (h : p.1 = q.1) : p = q :=
  List.inj_on_of_nodup_map hnd hp hq h

/-- **A whole part is returned as it is.** -/
theorem share_of_whole [DecidableEq κ] {parts : List (κ × ℚ)} {total : ℤ} (hnd : (parts.map Prod.fst).Nodup)
    (h : Covers parts total) {p : κ × ℚ} (hp : p ∈ parts) (hw : ¬ Fractional p) :
    share parts total p = ⌊p.2⌋ := by
  have hnot : p.1 ∉ winners parts total := by
    intro hmem
    obtain ⟨q, hq, hfrac, hqp⟩ := mem_winners h hmem
    rw [eq_of_label hnd hq hp hqp] at hfrac
    exact hw hfrac
  rw [share, if_neg hnot, add_zero]

/-! ## Adding and dropping empty parts -/

section Filter

variable {parts : List (κ × ℚ)} (keep : κ × ℚ → Bool)
  (hdrop : ∀ p ∈ parts, keep p = false → p.2 = 0)

include hdrop

theorem floors_filter : floors (parts.filter keep) = floors parts := by
  induction parts with
  | nil => rfl
  | cons p l ih =>
    have ih' := ih fun q hq => hdrop q (List.mem_cons_of_mem p hq)
    by_cases hk : keep p = true
    · rw [List.filter_cons_of_pos hk, floors_cons, ih', floors_cons]
    · have h0 : p.2 = 0 := hdrop p (by simp) (by simpa using hk)
      rw [List.filter_cons_of_neg hk, ih', floors_cons, h0, Int.floor_zero, zero_add]

theorem fractions_filter : fractions (parts.filter keep) = fractions parts := by
  rw [fractions, fractions, List.filter_filter]
  apply List.filter_congr
  intro p hp
  by_cases hk : keep p = true
  · simp [hk]
  · have h0 : p.2 = 0 := hdrop p hp (by simpa using hk)
    simp [Fractional, discard, h0]

theorem covers_filter {total : ℤ} :
    Covers (parts.filter keep) total ↔ Covers parts total := by
  rw [Covers, Covers, owed, owed, floors_filter keep hdrop, fractions_filter keep hdrop]

/-- **Dropping parts of nothing moves no unit.** -/
theorem share_filter [DecidableEq κ] {total : ℤ} (h : Covers parts total) (p : κ × ℚ) :
    share (parts.filter keep) total p = share parts total p := by
  have h' : Covers (parts.filter keep) total := (covers_filter keep hdrop).mpr h
  rw [share, share, winners_eq h', winners_eq h, owed, owed, floors_filter keep hdrop,
    fractions_filter keep hdrop]

end Filter

/-! ## The shares add to the total -/

theorem winners_nodup {parts : List (κ × ℚ)} (total : ℤ) (hnd : (parts.map Prod.fst).Nodup) :
    (winners parts total).Nodup := by
  have hperm : ((order parts).map Prod.fst).Perm (parts.map Prod.fst) :=
    (List.perm_insertionSort _ parts).map Prod.fst
  exact ((List.take_sublist _ _).map Prod.fst).nodup (hperm.nodup_iff.mpr hnd)

theorem winners_subset (parts : List (κ × ℚ)) (total : ℤ) :
    winners parts total ⊆ parts.map Prod.fst := by
  intro k hk
  obtain ⟨p, hp, rfl⟩ := List.mem_map.mp hk
  exact List.mem_map_of_mem ((List.mem_insertionSort _).mp (List.mem_of_mem_take hp))

theorem sum_shares_eq [DecidableEq κ] (parts : List (κ × ℚ)) (W : List κ) :
    (parts.map fun p => ⌊p.2⌋ + if p.1 ∈ W then (1 : ℤ) else 0).sum =
      floors parts + ((parts.map Prod.fst).filter (· ∈ W)).length := by
  induction parts with
  | nil => simp [floors]
  | cons p l ih =>
    rw [List.map_cons, List.sum_cons, ih, floors_cons, List.map_cons]
    by_cases hp : p.1 ∈ W
    · rw [if_pos hp, List.filter_cons_of_pos (by simpa using hp), List.length_cons]
      push_cast
      ring
    · rw [if_neg hp, List.filter_cons_of_neg (by simpa using hp)]
      ring

/-- **The shares add to the total.** -/
theorem sum_share [DecidableEq κ] {parts : List (κ × ℚ)} {total : ℤ} (hnd : (parts.map Prod.fst).Nodup)
    (h : Covers parts total) : (parts.map fun p => share parts total p).sum = total := by
  have hperm : ((parts.map Prod.fst).filter (· ∈ winners parts total)).Perm
      (winners parts total) := by
    rw [List.perm_ext_iff_of_nodup (hnd.filter _) (winners_nodup total hnd)]
    intro k
    simp only [List.mem_filter, decide_eq_true_eq]
    exact ⟨fun hk => hk.2, fun hk => ⟨winners_subset parts total hk, hk⟩⟩
  have hlen : (winners parts total).length = (owed parts total).toNat := by
    have hle : (fractions parts).length ≤ parts.length := List.length_filter_le _ _
    have h2 := h.2
    rw [winners, List.length_map, List.length_take, order, List.length_insertionSort]
    omega
  have h0 := h.1
  calc (parts.map fun p => share parts total p).sum
      = floors parts + ((parts.map Prod.fst).filter (· ∈ winners parts total)).length :=
        sum_shares_eq parts (winners parts total)
    _ = floors parts + owed parts total := by rw [hperm.length_eq, hlen, Int.toNat_of_nonneg h0]
    _ = total := by rw [owed]; ring

theorem allocate_of_covers [DecidableEq κ] {parts : List (κ × ℚ)} {total : ℤ} (h : Covers parts total) :
    allocate parts total = some (parts.map fun p => (p.1, share parts total p)) := by
  have hle : (fractions parts).length ≤ parts.length := List.length_filter_le _ _
  have h1 := h.1
  have h2 := h.2
  unfold allocate
  split
  · rename_i hnil
    rw [List.isEmpty_iff] at hnil
    rw [hnil, List.map_nil]
  · rw [if_pos ⟨h1, by omega⟩]

/-! ## By position

The same hand-out over unlabelled parts: the positions are ranked by any key, and the
units go to the first of them. -/

/-- The first `n` of `len` positions, the smallest key first and ties by position. -/
def ranked (key : ℕ → ℚ) (len n : ℕ) : List ℕ :=
  ((List.range len).insertionSort fun i j => key i ≤ key j).take n

section Ranked

variable (key : ℕ → ℚ) (len n : ℕ)

theorem ranked_nodup : (ranked key len n).Nodup := by
  have hnd : ((List.range len).insertionSort fun i j => key i ≤ key j).Nodup :=
    (List.perm_insertionSort _ _).nodup_iff.mpr List.nodup_range
  exact (List.take_sublist _ _).nodup hnd

variable {key len n}

theorem lt_of_mem_ranked {i : ℕ} (hi : i ∈ ranked key len n) : i < len := by
  have hmem := List.mem_of_mem_take hi
  rwa [List.mem_insertionSort, List.mem_range] at hmem

theorem length_ranked (hn : n ≤ len) : (ranked key len n).length = n := by
  rw [ranked, List.length_take, List.length_insertionSort, List.length_range]
  omega

/-- **What is passed over has no smaller key.** -/
theorem key_le_of_ranked {i j : ℕ} (hi : i ∈ ranked key len n) (hj : j < len)
    (hnot : j ∉ ranked key len n) : key i ≤ key j := by
  have htotal : Std.Total fun i j : ℕ => key i ≤ key j := ⟨fun a b => le_total _ _⟩
  have htrans : IsTrans ℕ fun i j : ℕ => key i ≤ key j := ⟨fun _ _ _ h h' => h.trans h'⟩
  have hsorted : ((List.range len).insertionSort fun i j => key i ≤ key j).Pairwise
      fun i j => key i ≤ key j := List.pairwise_insertionSort _ _
  have hmem : j ∈ (List.range len).insertionSort fun i j => key i ≤ key j := by
    rw [List.mem_insertionSort, List.mem_range]
    exact hj
  rw [← List.take_append_drop n ((List.range len).insertionSort fun i j => key i ≤ key j)]
    at hsorted hmem
  rcases List.mem_append.mp hmem with hfirst | hrest
  · exact absurd hfirst hnot
  · exact (List.pairwise_append.mp hsorted).2.2 i hi j hrest

/-- **With enough negative keys only these are ranked.** -/
theorem neg_of_mem_ranked (hle : n ≤ ((List.range len).filter fun i => key i < 0).length)
    {i : ℕ} (hi : i ∈ ranked key len n) : key i < 0 := by
  by_contra hneg
  -- were `i` ranked, every negative key would be ranked before it, one too many
  have hsub : (i :: (List.range len).filter fun i => key i < 0) ⊆ ranked key len n := by
    intro j hj
    rcases List.mem_cons.mp hj with rfl | hj
    · exact hi
    · obtain ⟨hjlen, hjneg⟩ := List.mem_filter.mp hj
      by_contra hnot
      have := key_le_of_ranked hi (List.mem_range.mp hjlen) hnot
      exact hneg (this.trans_lt (by simpa using hjneg))
  have hnd : (i :: (List.range len).filter fun i => key i < 0).Nodup := by
    refine List.nodup_cons.mpr ⟨?_, List.nodup_range.filter _⟩
    intro hmem
    exact hneg (by simpa using (List.mem_filter.mp hmem).2)
  have hcard := (List.subperm_of_subset hnd hsub).length_le
  have htake : (ranked key len n).length ≤ n := List.length_take_le _ _
  rw [List.length_cons] at hcard
  omega

end Ranked

/-- One unit more at each of the positions. -/
def bump (values : List ℤ) (positions : List ℕ) : List ℤ :=
  positions.foldl (fun acc i => acc.modify i (· + 1)) values

@[simp] theorem bump_nil (values : List ℤ) : bump values [] = values := rfl

theorem bump_cons (values : List ℤ) (i : ℕ) (positions : List ℕ) :
    bump values (i :: positions) = bump (values.modify i (· + 1)) positions := rfl

@[simp] theorem length_bump (values : List ℤ) (positions : List ℕ) :
    (bump values positions).length = values.length := by
  induction positions generalizing values with
  | nil => rfl
  | cons i positions ih => rw [bump_cons, ih, List.length_modify]

theorem getD_bump (values : List ℤ) (positions : List ℕ) {i : ℕ} (hi : i < values.length) :
    (bump values positions).getD i 0 = values.getD i 0 + positions.count i := by
  induction positions generalizing values with
  | nil => simp
  | cons j positions ih =>
    rw [bump_cons, ih _ (by rwa [List.length_modify]), List.count_cons]
    have hmod : (values.modify j (· + 1)).getD i 0 =
        values.getD i 0 + if j = i then 1 else 0 := by
      rw [List.getD_eq_getElem _ _ (by rwa [List.length_modify]), List.getD_eq_getElem _ _ hi,
        List.getElem_modify]
      split <;> simp
    rw [hmod]
    by_cases hji : j = i
    · subst hji
      simp
      ring
    · simp [hji]

theorem sum_modify (values : List ℤ) {i : ℕ} (hi : i < values.length) :
    (values.modify i (· + 1)).sum = values.sum + 1 := by
  induction values generalizing i with
  | nil => simp at hi
  | cons v values ih =>
    cases i with
    | zero => simp; ring
    | succ i =>
      rw [List.modify_succ_cons, List.sum_cons, ih (by simpa using hi), List.sum_cons]
      ring

/-- **Every position adds one unit to the sum.** -/
theorem sum_bump (values : List ℤ) (positions : List ℕ)
    (h : ∀ i ∈ positions, i < values.length) :
    (bump values positions).sum = values.sum + positions.length := by
  induction positions generalizing values with
  | nil => simp
  | cons j positions ih =>
    rw [bump_cons, ih, sum_modify _ (h j (by simp)), List.length_cons]
    · push_cast
      ring
    · intro i hi
      rw [List.length_modify]
      exact h i (List.mem_cons_of_mem j hi)

end Apportion

end Lib
