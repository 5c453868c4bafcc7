import Calevate.Lib.Text
import Mathlib.Algebra.BigOperators.Group.List.Basic

/-!
# Occurrences of a pattern

How often a pattern starts in a text, and where it does first and last. A text put together of
pieces has the occurrences of its pieces, and further ones just if the pattern is spelled across
a seam (`count_flatten_iff`). What is not in the pattern parts a text: no occurrence runs over it
(`count_append_cons`).
-/

namespace Lib

namespace Occurs

variable {α : Type*} [DecidableEq α]

/-- The number of places where the pattern starts. -/
def count (m : List α) : List α → ℕ
  | [] => 0
  | c :: t => (if m <+: c :: t then 1 else 0) + count m t

/-- Where it starts first. -/
def find (m : List α) : List α → Option ℕ
  | [] => none
  | c :: t => if m <+: c :: t then some 0 else (find m t).map (· + 1)

/-- Where it starts last. -/
def rfind (m : List α) : List α → Option ℕ
  | [] => none
  | c :: t =>
    match rfind m t with
    | some i => some (i + 1)
    | none => if m <+: c :: t then some 0 else none

variable {m : List α}

theorem count_eq_zero (hm : m ≠ []) {t : List α} : count m t = 0 ↔ ¬ m <:+: t := by
  induction t with
  | nil => simp [count, hm]
  | cons c t ih =>
    rw [count, List.infix_cons_iff, not_or, ← ih]
    split <;> simp_all

theorem count_pos (hm : m ≠ []) {t : List α} : 0 < count m t ↔ m <:+: t := by
  rw [Nat.pos_iff_ne_zero, Ne, count_eq_zero hm, not_not]

/-- A text without a part of the pattern is without the pattern. -/
theorem count_of_part {part : List α} (hne : part ≠ []) (hpart : part <:+: m) {t : List α}
    (h : count part t = 0) : count m t = 0 := by
  have hm : m ≠ [] := by
    rintro rfl
    exact hne (List.infix_nil.mp hpart)
  rw [count_eq_zero hne] at h
  rw [count_eq_zero hm]
  exact fun hin => h (hpart.trans hin)

/-! ## Parting a text -/

omit [DecidableEq α] in
theorem isPrefix_append_cons {c : α} (hc : c ∉ m) {a b : List α} :
    m <+: a ++ c :: b ↔ m <+: a := by
  constructor
  · intro h
    obtain hle | hlt := Nat.lt_or_ge a.length m.length
    · have htake : a ++ [c] <+: m := by
        refine List.prefix_of_prefix_length_le ?_ h (by rw [List.length_append]; exact hle)
        exact ⟨b, by rw [List.append_assoc]; rfl⟩
      exact absurd (htake.subset (by simp)) hc
    · exact List.prefix_of_prefix_length_le h (List.prefix_append a _) hlt
  · exact fun h => h.trans (List.prefix_append a _)

/-- No occurrence runs over what is not in the pattern. -/
theorem count_append_cons (hm : m ≠ []) {c : α} (hc : c ∉ m) (a b : List α) :
    count m (a ++ c :: b) = count m a + count m b := by
  induction a with
  | nil =>
    have hnot : ¬ m <+: c :: b := fun h => by
      have hnil := (isPrefix_append_cons hc (a := [])).mp h
      exact hm (List.prefix_nil.mp hnil)
    have hcons : count m (c :: b) = 0 + count m b := by rw [count, if_neg hnot]
    exact hcons
  | cons d a ih =>
    have hstarts : m <+: d :: (a ++ c :: b) ↔ m <+: d :: a :=
      isPrefix_append_cons hc (a := d :: a)
    rw [List.cons_append, count, count, ih, Nat.add_assoc]
    simp only [hstarts]

theorem infix_append_cons (hm : m ≠ []) {c : α} (hc : c ∉ m) {a b : List α} :
    m <:+: a ++ c :: b ↔ m <:+: a ∨ m <:+: b := by
  rw [← count_pos hm, count_append_cons hm hc, Nat.add_pos_iff_pos_or_pos, count_pos hm,
    count_pos hm]

/-- A pattern without a line feed is in the lines, or in none of them. -/
theorem count_unlines {m : List Char} (hm : m ≠ []) (hc : '\n' ∉ m) (ls : List (List Char)) :
    count m (Text.unlines ls) = (ls.map (count m)).sum := by
  induction ls with
  | nil => rfl
  | cons l ls ih =>
    cases ls with
    | nil => exact (Nat.add_zero _).symm
    | cons k ls =>
      rw [Text.unlines_cons_cons, count_append_cons hm hc, ih]
      rfl

theorem infix_unlines {m : List Char} (hm : m ≠ []) (hc : '\n' ∉ m) {ls : List (List Char)} :
    m <:+: Text.unlines ls ↔ ∃ l ∈ ls, m <:+: l := by
  rw [← count_pos hm, count_unlines hm hc, List.sum_pos_iff_exists_pos_nat]
  simp only [List.mem_map, exists_exists_and_eq_and, count_pos hm]

theorem count_newline {m : List Char} (hm : m ≠ []) (hc : '\n' ∉ m) (t : List Char) :
    count m ('\n' :: t) = count m t :=
  (count_append_cons hm hc [] t).trans (Nat.zero_add _)

theorem count_paragraphs {m : List Char} (hm : m ≠ []) (hc : '\n' ∉ m)
    (ps : List (List Char)) : count m (Text.paragraphs ps) = (ps.map (count m)).sum := by
  induction ps with
  | nil => rfl
  | cons p ps ih =>
    cases ps with
    | nil => exact (Nat.add_zero _).symm
    | cons q ps =>
      have hcons : Text.paragraphs (p :: q :: ps) =
          p ++ '\n' :: '\n' :: Text.paragraphs (q :: ps) := rfl
      rw [hcons, count_append_cons hm hc, count_newline hm hc, ih]
      rfl

theorem infix_paragraphs {m : List Char} (hm : m ≠ []) (hc : '\n' ∉ m)
    {ps : List (List Char)} : m <:+: Text.paragraphs ps ↔ ∃ p ∈ ps, m <:+: p := by
  rw [← count_pos hm, count_paragraphs hm hc, List.sum_pos_iff_exists_pos_nat]
  simp only [List.mem_map, exists_exists_and_eq_and, count_pos hm]

/-- A pattern without a blank is not in the flat text, if it is not in the text. -/
theorem not_infix_flat {m : List Char} (hm : m ≠ []) (hc : ' ' ∉ m) {t : List Char}
    (h : ¬ m <:+: t) : ¬ m <:+: Text.flat t := by
  have hwords : ∀ ws : List (List Char), (∀ w ∈ ws, ¬ m <:+: w) → ¬ m <:+: Text.unwords ws := by
    intro ws
    induction ws with
    | nil => exact fun _ hnil => hm (List.infix_nil.mp hnil)
    | cons w ws ih =>
      intro hws hin
      have hrest := ih fun v hv => hws v (List.mem_cons_of_mem w hv)
      cases ws with
      | nil => exact hws w List.mem_cons_self hin
      | cons v ws => exact ((infix_append_cons hm hc).mp hin).elim (hws w List.mem_cons_self) hrest
  exact hwords _ fun w hw hin => h (hin.trans (Text.infix_of_mem_words hw))

/-- No occurrence runs over the end of a text that ends with what is not in the pattern. -/
theorem count_append_of_getLast (hm : m ≠ []) {c : α} (hc : c ∉ m) {a : List α}
    (ha : a.getLast? = some c) (b : List α) : count m (a ++ b) = count m a + count m b := by
  obtain ⟨s, rfl⟩ := List.getLast?_eq_some_iff.mp ha
  have hlast := count_append_cons hm hc s []
  rw [List.append_assoc, List.singleton_append, count_append_cons hm hc, hlast]
  rfl

/-- And none over the start of one that starts with it. -/
theorem count_append_of_head (hm : m ≠ []) {c : α} (hc : c ∉ m) (a : List α) {b : List α}
    (hb : b.head? = some c) : count m (a ++ b) = count m a + count m b := by
  obtain ⟨t, rfl⟩ := List.head?_eq_some_iff.mp hb
  have hfirst := count_append_cons hm hc [] t
  rw [List.nil_append] at hfirst
  rw [count_append_cons hm hc, hfirst, count, Nat.zero_add]

/-! ## Seams -/

/-- The pattern runs from the end of one text into the next. -/
def Meets (m a b : List α) : Prop :=
  ∃ i < m.length, 0 < i ∧ m.take i <:+ a ∧ m.drop i <+: b

instance (m a b : List α) : Decidable (Meets m a b) :=
  inferInstanceAs (Decidable (∃ i < m.length, _))

theorem count_append_le (m a b : List α) : count m a + count m b ≤ count m (a ++ b) := by
  induction a with
  | nil => simp [count]
  | cons c a ih =>
    rw [List.cons_append, count, count]
    have hstarts : m <+: c :: a → m <+: c :: (a ++ b) := fun h =>
      h.trans (List.prefix_append (c :: a) b)
    split
    · rw [if_pos (hstarts (by assumption))]
      omega
    · omega

omit [DecidableEq α] in
/-- A pattern that starts in the first text and is not in it runs into the next. -/
theorem meets_cons_iff {c : α} {a b : List α} :
    Meets m (c :: a) b ↔ (m <+: c :: (a ++ b) ∧ ¬ m <+: c :: a) ∨ Meets m a b := by
  constructor
  · rintro ⟨i, hi, hpos, hend, hstart⟩
    obtain heq | hend := List.suffix_cons_iff.mp hend
    · refine .inl ⟨?_, fun hstarts => ?_⟩
      · rw [← List.cons_append, ← heq]
        have hwhole := (List.prefix_append_right_inj (m.take i)).mpr hstart
        rwa [List.take_append_drop] at hwhole
      · have hlen := hstarts.length_le
        rw [← heq, List.length_take] at hlen
        omega
    · exact .inr ⟨i, hi, hpos, hend, hstart⟩
  · rintro (⟨hstarts, hnot⟩ | ⟨i, hi, hpos, hend, hstart⟩)
    · rw [← List.cons_append] at hstarts
      have hlong : (c :: a).length < m.length := by
        by_contra hshort
        exact hnot (List.prefix_of_prefix_length_le hstarts (List.prefix_append _ _)
          (Nat.le_of_not_lt hshort))
      have hfirst : c :: a <+: m :=
        List.prefix_of_prefix_length_le (List.prefix_append _ _) hstarts hlong.le
      obtain ⟨rest, rfl⟩ := hfirst
      refine ⟨(c :: a).length, hlong, by simp, ?_, ?_⟩
      · rw [List.take_left]
      · rw [List.drop_left]
        exact (List.prefix_append_right_inj _).mp hstarts
    · exact ⟨i, hi, hpos, hend.trans (List.suffix_cons c a), hstart⟩

omit [DecidableEq α] in
/-- A pattern that has not the two at the seam next to each other does not run over it. -/
theorem not_meets_of_pair {c d : α} (h : ¬ [c, d] <:+: m) (a b : List α) :
    ¬ Meets m (a ++ [c]) (d :: b) := by
  rintro ⟨i, hi, hpos, ⟨before, hbefore⟩, ⟨after, hafter⟩⟩
  refine h ?_
  have htake : m.take i ≠ [] := by
    rw [Ne, ← List.length_eq_zero_iff, List.length_take]
    omega
  have hdrop : m.drop i ≠ [] := by
    rw [Ne, ← List.length_eq_zero_iff, List.length_drop]
    omega
  obtain ⟨x, u, hu⟩ := (List.eq_nil_or_concat' (m.take i)).resolve_left htake
  obtain ⟨v, t, ht⟩ := List.exists_cons_of_ne_nil hdrop
  have hc : u = c := by
    have hlast := congrArg List.getLast? hbefore
    rw [hu, ← List.append_assoc, List.getLast?_concat, List.getLast?_concat] at hlast
    exact Option.some.inj hlast
  have hd : v = d := by
    have hhead := congrArg List.head? hafter
    rw [ht, List.cons_append, List.head?_cons, List.head?_cons] at hhead
    exact Option.some.inj hhead
  rw [← List.take_append_drop i m, hu, ht, hc, hd]
  exact ⟨x, t, by simp⟩

theorem count_append_iff {a b : List α} :
    count m (a ++ b) = count m a + count m b ↔ ¬ Meets m a b := by
  induction a with
  | nil =>
    refine iff_of_true (by simp [count]) ?_
    rintro ⟨i, hi, hpos, hend, -⟩
    have hlen := hend.length_le
    rw [List.length_take] at hlen
    simp only [List.length_nil] at hlen
    omega
  | cons c a ih =>
    have hle := count_append_le m a b
    have hgrow : m <+: c :: a → m <+: c :: (a ++ b) := fun h =>
      h.trans (List.prefix_append (c :: a) b)
    rw [meets_cons_iff, not_or, ← ih, List.cons_append, count, count]
    by_cases hin : m <+: c :: a
    · rw [if_pos hin, if_pos (hgrow hin)]
      simp only [hin, not_true_eq_false, and_false, not_false_eq_true, true_and]
      omega
    · rw [if_neg hin]
      by_cases hout : m <+: c :: (a ++ b)
      · rw [if_pos hout]
        simp only [hout, hin, not_false_eq_true, and_self, not_true_eq_false, false_and, iff_false]
        omega
      · rw [if_neg hout]
        simp only [hout, false_and, not_false_eq_true, true_and]
        omega

/-- The pattern runs from the end of some piece into what follows it. -/
def Spells (m : List α) : List (List α) → Prop
  | [] => False
  | p :: ps => Meets m p ps.flatten ∨ Spells m ps

/-- The pieces' occurrences are all there are, unless the pattern is spelled across a seam. -/
theorem count_flatten_iff {ps : List (List α)} :
    count m ps.flatten = (ps.map (count m)).sum ↔ ¬ Spells m ps := by
  have hle : ∀ ps : List (List α), (ps.map (count m)).sum ≤ count m ps.flatten := by
    intro ps
    induction ps with
    | nil => exact Nat.le_refl 0
    | cons p ps ih =>
      have happend := count_append_le m p ps.flatten
      rw [List.map_cons, List.sum_cons, List.flatten_cons]
      omega
  induction ps with
  | nil => exact iff_of_true rfl id
  | cons p ps ih =>
    have hrest := hle ps
    have happend := count_append_le m p ps.flatten
    have hseam := count_append_iff (m := m) (a := p) (b := ps.flatten)
    rw [List.map_cons, List.sum_cons, List.flatten_cons]
    constructor
    · rintro hall (hmeets | hspells)
      · exact hseam.mp (by omega) hmeets
      · exact ih.mp (by omega) hspells
    · intro hnone
      have hfirst := hseam.mpr fun hmeets => hnone (.inl hmeets)
      have hothers := ih.mpr fun hspells => hnone (.inr hspells)
      omega

/-! ## First and last -/

theorem find_eq_none (hm : m ≠ []) {t : List α} : find m t = none ↔ ¬ m <:+: t := by
  induction t with
  | nil => simp [find, hm]
  | cons c t ih =>
    rw [find, List.infix_cons_iff, not_or, ← ih]
    split <;> simp_all

theorem rfind_eq_none (hm : m ≠ []) {t : List α} : rfind m t = none ↔ ¬ m <:+: t := by
  induction t with
  | nil => simp [rfind, hm]
  | cons c t ih =>
    rw [rfind, List.infix_cons_iff, not_or, ← ih]
    split <;> simp_all

theorem isPrefix_of_find {t : List α} {i : ℕ} (h : find m t = some i) : m <+: t.drop i := by
  induction t generalizing i with
  | nil => cases h
  | cons c t ih =>
    rw [find] at h
    split at h
    next hstarts =>
      cases h
      exact hstarts
    next =>
      obtain ⟨j, hj, rfl⟩ := Option.map_eq_some_iff.mp h
      exact ih hj

theorem isPrefix_of_rfind {t : List α} {i : ℕ} (h : rfind m t = some i) : m <+: t.drop i := by
  induction t generalizing i with
  | nil => cases h
  | cons c t ih =>
    rw [rfind] at h
    split at h
    next j hj =>
      cases h
      exact ih hj
    next =>
      split at h
      next hstarts =>
        cases h
        exact hstarts
      next => cases h

/-- A pattern that occurs once starts at one place. -/
theorem eq_of_count_eq_one (hm : m ≠ []) {t : List α} (h : count m t = 1) {i j : ℕ}
    (hi : m <+: t.drop i) (hj : m <+: t.drop j) : i = j := by
  have hcount : ∀ {k : ℕ} {t : List α}, m <+: t.drop k → 0 < count m t := fun {k t} hk =>
    (count_pos hm).mpr (hk.isInfix.trans (List.drop_suffix k t).isInfix)
  induction t generalizing i j with
  | nil => cases h
  | cons c t ih =>
    rw [count] at h
    cases i with
    | zero =>
      cases j with
      | zero => rfl
      | succ j =>
        have hlater := hcount (List.drop_succ_cons ▸ hj)
        rw [List.drop_zero] at hi
        rw [if_pos hi] at h
        omega
    | succ i =>
      rw [List.drop_succ_cons] at hi
      have hlater := hcount hi
      cases j with
      | zero =>
        rw [List.drop_zero] at hj
        rw [if_pos hj] at h
        omega
      | succ j =>
        rw [List.drop_succ_cons] at hj
        rw [ih (by split at h <;> omega) hi hj]

end Occurs

end Lib
