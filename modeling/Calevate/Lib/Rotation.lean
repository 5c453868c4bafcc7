import Mathlib.Data.List.Chain
import Mathlib.Data.List.Sort
import Mathlib.Order.Lattice

/-!
# Rotation

A list in order, walked from behind a given place and round again (`rotateAfter`). Each item
walked is the one that `Follows` the item before it: the next one up, or the first where there is
none. While an item is in every list walked, a walk that does not come to it only moves on in the
order that starts behind it, so it comes to no other item twice (`nodup_of_follows`), however the
lists change.
-/

namespace Lib

namespace Rotation

variable {α : Type*} [LinearOrder α] {items : List α} {u v w y : α}

/-- The items behind a place, then the others; all of them in their order without a place. -/
def rotateAfter (items : List α) (after : Option α) : List α :=
  match after with
  | none => items
  | some a => items.filter (a < ·) ++ items.filter (· ≤ a)

/-- `v` is the next of the items behind `u`, or the first of them where none is behind `u`. -/
def Follows (items : List α) (u v : α) : Prop :=
  v ∈ items ∧ ((u < v ∧ ∀ w ∈ items, u < w → v ≤ w) ∨ (v ≤ u ∧ ∀ w ∈ items, w ≤ u ∧ v ≤ w))

/-- `u` comes before `v` in the order that starts behind `y` and ends with it. -/
def Ahead (y u v : α) : Prop :=
  (y < u ∧ u < v) ∨ (y < u ∧ v < y) ∨ (u < v ∧ v < y)

theorem not_ahead_self : ¬ Ahead y u u := by
  rintro (⟨-, h⟩ | ⟨hlt, hgt⟩ | ⟨h, -⟩)
  · exact lt_irrefl _ h
  · exact lt_asymm hlt hgt
  · exact lt_irrefl _ h

theorem Ahead.trans (huv : Ahead y u v) (hvw : Ahead y v w) : Ahead y u w := by
  rcases huv with ⟨hu, huv⟩ | ⟨hu, hv⟩ | ⟨huv, hv⟩ <;>
    rcases hvw with ⟨hv', hvw⟩ | ⟨hv', hw⟩ | ⟨hvw, hw⟩
  · exact .inl ⟨hu, huv.trans hvw⟩
  · exact .inr (.inl ⟨hu, hw⟩)
  · exact .inr (.inl ⟨hu, hw⟩)
  · exact absurd hv (lt_asymm hv')
  · exact absurd hv (lt_asymm hv')
  · exact .inr (.inl ⟨hu, hw⟩)
  · exact absurd hv (lt_asymm hv')
  · exact absurd hv (lt_asymm hv')
  · exact .inr (.inr ⟨huv.trans hvw, hw⟩)

/-- **A walk moves on.** From an item to the one that follows it does not pass a third. -/
theorem Follows.ahead (h : Follows items u v) (hy : y ∈ items) (hu : u ≠ y) (hv : v ≠ y) :
    Ahead y u v := by
  obtain ⟨-, ⟨huv, hnext⟩ | ⟨-, hfirst⟩⟩ := h
  · rcases lt_or_gt_of_ne hu with hlt | hgt
    · exact .inr (.inr ⟨huv, lt_of_le_of_ne (hnext y hy hlt) hv⟩)
    · exact .inl ⟨hgt, huv⟩
  · obtain ⟨hyu, hvy⟩ := hfirst y hy
    exact .inr (.inl ⟨lt_of_le_of_ne hyu hu.symm, lt_of_le_of_ne hvy hv⟩)

theorem Follows.congr {items' : List α} (hmem : ∀ w, w ∈ items ↔ w ∈ items')
    (h : Follows items u v) : Follows items' u v := by
  obtain ⟨hv, ⟨huv, hnext⟩ | ⟨hvu, hfirst⟩⟩ := h
  · exact ⟨(hmem v).mp hv, .inl ⟨huv, fun w hw => hnext w ((hmem w).mpr hw)⟩⟩
  · exact ⟨(hmem v).mp hv, .inr ⟨hvu, fun w hw => hfirst w ((hmem w).mpr hw)⟩⟩

/-! ## One list -/

/-- In an ordered list each item follows the one before it. -/
theorem isChain_of_sorted (hsorted : items.Pairwise (· < ·)) : items.IsChain (Follows items) := by
  suffices h : ∀ before rest : List α, (before ++ rest).Pairwise (· < ·) →
      rest.IsChain (Follows (before ++ rest)) from h [] items hsorted
  intro before rest
  induction rest generalizing before with
  | nil => exact fun _ => List.isChain_nil
  | cons a rest ih =>
    intro hsorted
    have hrest := ih (before ++ [a])
    rw [List.append_assoc, List.singleton_append] at hrest
    refine List.isChain_cons.mpr ⟨?_, hrest hsorted⟩
    intro b hb
    obtain ⟨rest', rfl⟩ : ∃ rest', rest = b :: rest' := by
      cases rest with
      | nil => cases hb
      | cons c rest' =>
        obtain rfl := Option.some.inj hb
        exact ⟨rest', rfl⟩
    obtain ⟨-, htail, hacross⟩ := List.pairwise_append.mp hsorted
    obtain ⟨ha, htail⟩ := List.pairwise_cons.mp htail
    obtain ⟨hb, -⟩ := List.pairwise_cons.mp htail
    refine ⟨by simp, .inl ⟨ha b List.mem_cons_self, ?_⟩⟩
    intro w hw haw
    rcases List.mem_append.mp hw with hw | hw
    · exact absurd (hacross w hw a List.mem_cons_self) (lt_asymm haw)
    · rcases List.mem_cons.mp hw with rfl | hw
      · exact absurd haw (lt_irrefl _)
      · rcases List.mem_cons.mp hw with rfl | hw
        · exact le_rfl
        · exact (hb w hw).le

theorem mem_rotateAfter {after : Option α} : v ∈ rotateAfter items after ↔ v ∈ items := by
  cases after with
  | none => exact Iff.rfl
  | some a =>
    rw [rotateAfter, List.mem_append, List.mem_filter, List.mem_filter, ← and_or_left]
    refine and_iff_left ?_
    rcases lt_or_ge a v with h | h
    · exact .inl (by simpa using h)
    · exact .inr (by simpa using h)

/-- The items up to a place and those behind it are all of them, in their order. -/
theorem filter_le_append_filter_lt (hsorted : items.Pairwise (· < ·)) (a : α) :
    items.filter (· ≤ a) ++ items.filter (a < ·) = items := by
  induction items with
  | nil => rfl
  | cons b items ih =>
    obtain ⟨hb, hsorted⟩ := List.pairwise_cons.mp hsorted
    by_cases hle : b ≤ a
    · rw [List.filter_cons_of_pos (by simpa using hle),
        List.filter_cons_of_neg (by simpa using hle), List.cons_append, ih hsorted]
    · have hlt := not_le.mp hle
      have hnone : items.filter (· ≤ a) = [] := by
        rw [List.filter_eq_nil_iff]
        intro c hc hca
        exact absurd (of_decide_eq_true hca) (not_le.mpr (hlt.trans (hb c hc)))
      have hall : items.filter (a < ·) = items := by
        rw [List.filter_eq_self]
        intro c hc
        exact decide_eq_true (hlt.trans (hb c hc))
      rw [List.filter_cons_of_neg (by simpa using hle),
        List.filter_cons_of_pos (by simpa using hlt), hnone, hall, List.nil_append]

/-- The head of an ordered list is its least. -/
theorem head_le_of_sorted (hsorted : (u :: items).Pairwise (· < ·)) : ∀ w ∈ u :: items, u ≤ w := by
  intro w hw
  rcases List.mem_cons.mp hw with rfl | hw
  · exact le_rfl
  · exact ((List.pairwise_cons.mp hsorted).1 w hw).le

/-- The last of an ordered list is its greatest. -/
theorem le_getLast_of_sorted (hsorted : items.Pairwise (· < ·)) (hlast : u ∈ items.getLast?) :
    ∀ w ∈ items, w ≤ u := by
  obtain ⟨init, rfl⟩ := List.getLast?_eq_some_iff.mp hlast
  intro w hw
  rcases List.mem_append.mp hw with hw | hw
  · exact ((List.pairwise_append.mp hsorted).2.2 w hw u (List.mem_singleton_self _)).le
  · exact (List.mem_singleton.mp hw).le

/-- Two parts of an ordered list, up to a place and behind it, walked the other way round. -/
theorem isChain_swapped {early late : List α} {a : α}
    (hsorted : (early ++ late).Pairwise (· < ·)) (hearly : ∀ e ∈ early, e ≤ a)
    (hlate : ∀ l ∈ late, a < l) : (a :: (late ++ early)).IsChain (Follows (early ++ late)) := by
  obtain ⟨hchainEarly, hchainLate, -⟩ := List.isChain_append.mp (isChain_of_sorted hsorted)
  obtain ⟨hsortedEarly, hsortedLate, -⟩ := List.pairwise_append.mp hsorted
  refine List.isChain_cons.mpr ⟨?_, List.isChain_append.mpr ⟨hchainLate, hchainEarly, ?_⟩⟩
  · intro v hv
    cases late with
    | nil =>
      cases early with
      | nil => cases hv
      | cons e early =>
        obtain rfl := Option.some.inj hv
        refine ⟨by simp, .inr ⟨hearly e List.mem_cons_self, ?_⟩⟩
        intro w hw
        rw [List.append_nil] at hw
        exact ⟨hearly w hw, head_le_of_sorted hsortedEarly w hw⟩
    | cons l late =>
      obtain rfl := Option.some.inj hv
      refine ⟨by simp, .inl ⟨hlate l List.mem_cons_self, ?_⟩⟩
      intro w hw haw
      rcases List.mem_append.mp hw with hw | hw
      · exact absurd (hearly w hw) (not_le.mpr haw)
      · exact head_le_of_sorted hsortedLate w hw
  · intro u hu v hv
    have hlast := hlate u (List.mem_of_getLast? hu)
    have hfirst := hearly v (List.mem_of_mem_head? hv)
    refine ⟨List.mem_append_left _ (List.mem_of_mem_head? hv), .inr ⟨(hfirst.trans_lt hlast).le, ?_⟩⟩
    intro w hw
    rcases List.mem_append.mp hw with hw | hw
    · refine ⟨((hearly w hw).trans_lt hlast).le, ?_⟩
      cases early with
      | nil => cases hv
      | cons e early =>
        obtain rfl := Option.some.inj hv
        exact head_le_of_sorted hsortedEarly w hw
    · exact ⟨le_getLast_of_sorted hsortedLate hu w hw, (hfirst.trans_lt (hlate w hw)).le⟩

/-- **A rotated list is walked in turn**, from the place it starts behind. -/
theorem isChain_rotateAfter (hsorted : items.Pairwise (· < ·)) (a : α) :
    (a :: rotateAfter items (some a)).IsChain (Follows items) := by
  have hsplit := filter_le_append_filter_lt hsorted a
  have hearly : ∀ e ∈ items.filter (· ≤ a), e ≤ a :=
    fun e he => of_decide_eq_true (List.mem_filter.mp he).2
  have hlate : ∀ l ∈ items.filter (a < ·), a < l :=
    fun l hl => of_decide_eq_true (List.mem_filter.mp hl).2
  have hswapped := isChain_swapped (by rwa [hsplit]) hearly hlate
  rwa [hsplit] at hswapped

/-! ## Lists that change -/

/-- What a walk completes: the items, each with the list it was walked in. -/
abbrev Visit (α : Type*) := List α × α

/-- The next visit follows the item visited before it, in its own list. -/
def Next (p q : Visit α) : Prop := Follows q.1 p.2 q.2

/-- **A walk that keeps away from an item comes to no other twice**, while the item is in every
list walked. -/
theorem nodup_of_next {visits : List (Visit α)} (hchain : visits.IsChain Next)
    (hpresent : ∀ p ∈ visits.tail, y ∈ p.1) (haway : ∀ p ∈ visits, p.2 ≠ y) :
    (visits.map Prod.snd).Nodup := by
  have hahead : visits.IsChain fun p q => Ahead y p.2 q.2 :=
    hchain.imp_of_mem_tail_imp fun p q hp hq hnext =>
      hnext.ahead (hpresent q hq) (haway p hp) (haway q (List.mem_of_mem_tail hq))
  have htrans : Trans (fun p q : Visit α => Ahead y p.2 q.2)
      (fun p q : Visit α => Ahead y p.2 q.2) (fun p q : Visit α => Ahead y p.2 q.2) :=
    ⟨Ahead.trans⟩
  have hpairs := List.isChain_iff_pairwise.mp hahead
  rw [List.Nodup, List.pairwise_map]
  refine hpairs.imp ?_
  intro p q hpq heq
  rw [heq] at hpq
  exact not_ahead_self hpq

end Rotation

end Lib
