import Mathlib.Data.List.Basic

/-!
# Dot segments

The removal of dot segments from a path (RFC 3986, section 5.2.4), with an encoded dot read as a
dot: a segment of one dot goes away, a segment of two takes the one ahead of it along. A path that
starts at the root is left as it is just if it has no such segment (`removeDotSegments_eq_iff`).
-/

namespace Lib

namespace DotSegments

/-! ## The algorithm -/

/-- The number of dots of a segment of dots. -/
def dots? : List Char → Option ℕ
  | [] => some 0
  | '.' :: s => (dots? s).map (· + 1)
  | '%' :: '2' :: c :: s => if c = 'e' ∨ c = 'E' then (dots? s).map (· + 1) else none
  | _ => none

/-- The segment is removed, alone or with the one ahead of it. -/
def IsDots (s : List Char) : Prop := dots? s = some 1 ∨ dots? s = some 2

instance (s : List Char) : Decidable (IsDots s) := inferInstanceAs (Decidable (_ ∨ _))

/-- The last segment of what was put out is taken back, and the slash ahead of it. -/
def withoutLast (out : List Char) : List Char := ((out.reverse.dropWhile (· ≠ '/')).drop 1).reverse

/-- The rounds of the algorithm, on what is left of the path and what was put out. -/
def removeFrom : ℕ → List Char → List Char → List Char
  | 0, _, out => out
  | _ + 1, [], out => out
  | n + 1, '/' :: input, out =>
    let segment := input.takeWhile (· ≠ '/')
    let rest := input.dropWhile (· ≠ '/')
    if dots? segment = some 1 then removeFrom n ('/' :: rest.drop 1) out
    else if dots? segment = some 2 then removeFrom n ('/' :: rest.drop 1) (withoutLast out)
    else removeFrom n rest (out ++ '/' :: segment)
  | n + 1, input, out =>
    let segment := input.takeWhile (· ≠ '/')
    let rest := input.dropWhile (· ≠ '/')
    if IsDots segment then removeFrom n (rest.drop 1) out
    else removeFrom n rest (out ++ segment)

/-- `remove_dot_segments`. Every round shortens what is left. -/
def removeDotSegments (path : List Char) : List Char := removeFrom path.length path []

/-! ## Dots, by their spellings -/

theorem dots?_zero {s : List Char} (h : dots? s = some 0) : s = [] := by
  revert h
  fun_cases dots? s <;> simp

/-- A dot is raw or encoded. -/
theorem dots?_succ {s : List Char} {n : ℕ} (h : dots? s = some (n + 1)) :
    ∃ dot ∈ [['.'], ['%', '2', 'e'], ['%', '2', 'E']], ∃ s', s = dot ++ s' ∧ dots? s' = some n := by
  revert h
  fun_cases dots? s with
  | case1 => simp
  | case2 s =>
    intro h
    rw [Option.map_eq_some_iff] at h
    obtain ⟨m, hm, hn⟩ := h
    exact ⟨['.'], by simp, s, rfl, by rw [hm, Nat.succ.inj hn]⟩
  | case3 c s hc =>
    intro h
    rw [Option.map_eq_some_iff] at h
    obtain ⟨m, hm, hn⟩ := h
    refine ⟨['%', '2', c], ?_, s, rfl, by rw [hm, Nat.succ.inj hn]⟩
    rcases hc with rfl | rfl <;> simp
  | case4 c s hc => simp
  | case5 => simp

theorem toNat_toLower (c : Char) :
    c.toLower.toNat = if 65 ≤ c.toNat ∧ c.toNat ≤ 90 then c.toNat + 32 else c.toNat := by
  have hA : 'A'.val.toNat = 65 := rfl
  have hZ : 'Z'.val.toNat = 90 := rfl
  have hupper : (c.val ≥ 'A'.val ∧ c.val ≤ 'Z'.val) ↔ 65 ≤ c.toNat ∧ c.toNat ≤ 90 := by
    rw [ge_iff_le, UInt32.le_iff_toNat_le, UInt32.le_iff_toNat_le, hA, hZ, Char.toNat]
  unfold Char.toLower
  by_cases h : c.val ≥ 'A'.val ∧ c.val ≤ 'Z'.val
  · have hc := hupper.mp h
    rw [dif_pos h, if_pos hc]
    change (c.val + ('a'.val - 'A'.val)).toNat = c.val.toNat + 32
    have h32 : ('a'.val - 'A'.val).toNat = 32 := rfl
    rw [UInt32.toNat_add, h32]
    rw [Char.toNat] at hc
    omega
  · rw [dif_neg h, if_neg fun hc => h (hupper.mpr hc)]

theorem toLower_eq_iff {c d : Char} (hd : d.toNat < 65) : c.toLower = d ↔ c = d := by
  rw [← Char.toNat_inj, ← Char.toNat_inj, toNat_toLower]
  split_ifs <;> omega

theorem toLower_eq_e_iff {c : Char} : c.toLower = 'e' ↔ c = 'e' ∨ c = 'E' := by
  have he : 'e'.toNat = 101 := rfl
  have hE : 'E'.toNat = 69 := rfl
  rw [← Char.toNat_inj, ← Char.toNat_inj, ← Char.toNat_inj, toNat_toLower, he, hE]
  split_ifs <;> omega

/-- No character's lower case is a capital. -/
theorem toLower_ne {c d : Char} (hd : 65 ≤ d.toNat ∧ d.toNat ≤ 90) : c.toLower ≠ d := by
  rw [ne_eq, ← Char.toNat_inj, toNat_toLower]
  split_ifs <;> omega

/-- Case plays no part in the reading. -/
theorem dots?_of_lowered {s : List Char} {n : ℕ} (h : dots? (s.map Char.toLower) = some n) :
    dots? s = some n := by
  induction n generalizing s with
  | zero => rw [List.map_eq_nil_iff.mp (dots?_zero h)]; rfl
  | succ n ih =>
    have hdot : ∀ c : Char, c.toLower = '.' ↔ c = '.' := fun c => toLower_eq_iff (by decide)
    have hmark : ∀ c : Char, c.toLower = '%' ↔ c = '%' := fun c => toLower_eq_iff (by decide)
    have htwo : ∀ c : Char, c.toLower = '2' ↔ c = '2' := fun c => toLower_eq_iff (by decide)
    obtain ⟨dot, hin, s', hs, hs'⟩ := dots?_succ h
    simp only [List.mem_cons, List.not_mem_nil, or_false] at hin
    rcases hin with rfl | rfl | rfl
    · obtain ⟨c, rest, rfl, hc, rfl⟩ := List.map_eq_cons_iff.mp hs
      rw [(hdot c).mp hc, dots?, ih hs']
      rfl
    · obtain ⟨c, rest, rfl, hc, hrest⟩ := List.map_eq_cons_iff.mp hs
      obtain ⟨d, rest, rfl, hd, hrest⟩ := List.map_eq_cons_iff.mp hrest
      obtain ⟨e, rest, rfl, he, rfl⟩ := List.map_eq_cons_iff.mp hrest
      rw [(hmark c).mp hc, (htwo d).mp hd, dots?, if_pos (toLower_eq_e_iff.mp he), ih hs']
      rfl
    · obtain ⟨c, rest, rfl, hc, hrest⟩ := List.map_eq_cons_iff.mp hs
      obtain ⟨d, rest, rfl, hd, hrest⟩ := List.map_eq_cons_iff.mp hrest
      obtain ⟨e, rest, rfl, he, rfl⟩ := List.map_eq_cons_iff.mp hrest
      exact absurd he (toLower_ne (by decide))

/-! ## Paths of the root, by their segments -/

/-- The path of these segments. -/
def joined (segments : List (List Char)) : List Char := segments.flatMap fun s => '/' :: s

theorem joined_cons (s : List Char) (segments : List (List Char)) :
    joined (s :: segments) = '/' :: (s ++ joined segments) := rfl

theorem splitOn_joined {s : List Char} {segments : List (List Char)}
    (h : ∀ t ∈ s :: segments, '/' ∉ t) : (s ++ joined segments).splitOn '/' = s :: segments := by
  induction segments generalizing s with
  | nil =>
    rw [joined, List.flatMap_nil, List.append_nil]
    exact List.splitOn_eq_singleton (h s (List.mem_cons_self ..))
  | cons t segments ih =>
    rw [joined_cons, List.splitOn_append_cons_self,
      List.splitOn_eq_singleton (h s (List.mem_cons_self ..)),
      ih fun u hu => h u (List.mem_cons_of_mem _ hu)]
    rfl

/-- Every text is its first segment and the path of the others. -/
theorem exists_joined (t : List Char) :
    ∃ s segments, t = s ++ joined segments ∧ ∀ u ∈ s :: segments, '/' ∉ u := by
  induction t with
  | nil => exact ⟨[], [], rfl, by simp⟩
  | cons c t ih =>
    obtain ⟨s, segments, rfl, h⟩ := ih
    by_cases hc : c = '/'
    · subst hc
      exact ⟨[], s :: segments, rfl, List.forall_mem_cons.mpr ⟨by simp, h⟩⟩
    · rw [List.forall_mem_cons] at h
      refine ⟨c :: s, segments, rfl, List.forall_mem_cons.mpr ⟨?_, h.2⟩⟩
      rw [List.mem_cons, not_or]
      exact ⟨Ne.symm hc, h.1⟩

theorem takeWhile_segment {s : List Char} (hs : '/' ∉ s) (segments : List (List Char)) :
    (s ++ joined segments).takeWhile (· ≠ '/') = s ∧
      (s ++ joined segments).dropWhile (· ≠ '/') = joined segments := by
  induction s with
  | nil =>
    cases segments with
    | nil => exact ⟨rfl, rfl⟩
    | cons t segments => exact ⟨rfl, rfl⟩
  | cons c s ih =>
    rw [List.mem_cons, not_or] at hs
    have hc : c ≠ '/' := Ne.symm hs.1
    rw [List.cons_append, List.takeWhile_cons, List.dropWhile_cons, if_pos (decide_eq_true hc),
      if_pos (decide_eq_true hc), (ih hs.2).1]
    exact ⟨rfl, (ih hs.2).2⟩

/-- **A round on a path of the root.** -/
theorem removeFrom_joined {s : List Char} (hs : '/' ∉ s) (segments : List (List Char)) (n : ℕ)
    (out : List Char) : removeFrom (n + 1) (joined (s :: segments)) out =
      if dots? s = some 1 then removeFrom n ('/' :: (joined segments).drop 1) out
      else if dots? s = some 2 then
        removeFrom n ('/' :: (joined segments).drop 1) (withoutLast out)
      else removeFrom n (joined segments) (out ++ '/' :: s) := by
  rw [joined_cons, removeFrom]
  rw [(takeWhile_segment hs segments).1, (takeWhile_segment hs segments).2]

/-- Without a dot segment everything is put out. -/
theorem removeFrom_of_plain {segments : List (List Char)}
    (h : ∀ s ∈ segments, '/' ∉ s ∧ ¬ IsDots s) {n : ℕ} (hn : (joined segments).length ≤ n)
    (out : List Char) : removeFrom n (joined segments) out = out ++ joined segments := by
  induction segments generalizing n out with
  | nil => cases n <;> simp [removeFrom, joined]
  | cons s segments ih =>
    rw [joined_cons, List.length_cons, List.length_append] at hn
    obtain ⟨n, rfl⟩ : ∃ m, n = m + 1 := ⟨n - 1, by omega⟩
    obtain ⟨hslash, hdots⟩ := h s (List.mem_cons_self ..)
    rw [IsDots, not_or] at hdots
    rw [removeFrom_joined hslash, if_neg hdots.1, if_neg hdots.2,
      ih (fun t ht => h t (List.mem_cons_of_mem _ ht)) (by omega), joined_cons]
    simp

theorem length_withoutLast (out : List Char) : (withoutLast out).length ≤ out.length := by
  rw [withoutLast, List.length_reverse, List.length_drop]
  have := (List.dropWhile_sublist (l := out.reverse) (fun c => decide (c ≠ '/'))).length_le
  rw [List.length_reverse] at this
  omega

/-- What is left behind a removed segment is a path of the root again, no longer than it was. -/
theorem exists_rooted (segments : List (List Char)) (h : ∀ s ∈ segments, '/' ∉ s) :
    ∃ segments', '/' :: (joined segments).drop 1 = joined segments' ∧ (∀ s ∈ segments', '/' ∉ s) ∧
      (joined segments').length ≤ (joined segments).length + 1 := by
  cases segments with
  | nil => exact ⟨[[]], rfl, by simp, Nat.le_refl _⟩
  | cons s segments => exact ⟨s :: segments, rfl, h, Nat.le_succ _⟩

/-- What is put out is never longer than what was taken in. -/
theorem length_removeFrom {segments : List (List Char)} (h : ∀ s ∈ segments, '/' ∉ s) (n : ℕ)
    (out : List Char) :
    (removeFrom n (joined segments) out).length ≤ out.length + (joined segments).length := by
  induction n generalizing segments out with
  | zero => exact Nat.le_add_right ..
  | succ n ih =>
    cases segments with
    | nil => exact Nat.le_add_right ..
    | cons s segments =>
      rw [List.forall_mem_cons] at h
      obtain ⟨behind, hbehind, hslash, hlength⟩ := exists_rooted segments h.2
      have hjoined : (joined (s :: segments)).length = 1 + s.length + (joined segments).length := by
        rw [joined_cons, List.length_cons, List.length_append]
        omega
      rw [removeFrom_joined h.1, hbehind]
      split_ifs with h1 h2
      · have := ih hslash out
        omega
      · have := ih hslash (withoutLast out)
        have := length_withoutLast out
        omega
      · have := ih h.2 (out ++ '/' :: s)
        rw [List.length_append, List.length_cons] at this
        omega

/-- A dot segment is not empty. -/
theorem IsDots.length_pos {s : List Char} (h : IsDots s) : 0 < s.length := by
  refine List.length_pos_iff.mpr fun hs => ?_
  subst hs
  exact absurd h (by decide)

/-- A dot segment is lost. -/
theorem length_removeFrom_lt {segments : List (List Char)} (h : ∀ s ∈ segments, '/' ∉ s)
    (hdots : ∃ s ∈ segments, IsDots s) {n : ℕ} (hn : (joined segments).length ≤ n)
    (out : List Char) :
    (removeFrom n (joined segments) out).length < out.length + (joined segments).length := by
  induction segments generalizing n out with
  | nil =>
    obtain ⟨s, hs, -⟩ := hdots
    exact absurd hs List.not_mem_nil
  | cons s segments ih =>
    rw [List.forall_mem_cons] at h
    have hjoined : (joined (s :: segments)).length = 1 + s.length + (joined segments).length := by
      rw [joined_cons, List.length_cons, List.length_append]
      omega
    obtain ⟨n, rfl⟩ : ∃ m, n = m + 1 := ⟨n - 1, by omega⟩
    by_cases hs : IsDots s
    · -- one round ends with less than it began with, and no later round makes up for it
      have hpos := hs.length_pos
      obtain ⟨behind, hbehind, hslash, hlength⟩ := exists_rooted segments h.2
      rw [removeFrom_joined h.1, hbehind]
      split_ifs with h1 h2
      · have := length_removeFrom hslash n out
        omega
      · have := length_removeFrom hslash n (withoutLast out)
        have := length_withoutLast out
        omega
      · exact absurd hs (not_or.mpr ⟨h1, h2⟩)
    · obtain ⟨t, ht, htdots⟩ := hdots
      have hin : t ∈ segments :=
        (List.mem_cons.mp ht).resolve_left fun heq => hs (heq ▸ htdots)
      have hlater := ih h.2 ⟨t, hin, htdots⟩ (n := n) (by omega) (out ++ '/' :: s)
      rw [IsDots, not_or] at hs
      rw [removeFrom_joined h.1, if_neg hs.1, if_neg hs.2]
      rw [List.length_append, List.length_cons] at hlater
      omega

/-- **A path of the root is left as it is just if none of its segments is a dot segment.** -/
theorem removeDotSegments_eq_iff (t : List Char) :
    removeDotSegments ('/' :: t) = '/' :: t ↔ ∀ s ∈ t.splitOn '/', ¬ IsDots s := by
  obtain ⟨s, segments, rfl, h⟩ := exists_joined t
  rw [splitOn_joined h, ← joined_cons, removeDotSegments]
  constructor
  · intro heq s hs hdots
    have := length_removeFrom_lt h ⟨s, hs, hdots⟩ (Nat.le_refl _) []
    rw [heq, List.length_nil, Nat.zero_add] at this
    exact Nat.lt_irrefl _ this
  · intro hplain
    rw [removeFrom_of_plain (fun s hs => ⟨h s hs, hplain s hs⟩) (Nat.le_refl _), List.nil_append]

end DotSegments

end Lib
