import Mathlib.Algebra.Order.Group.Defs
import Mathlib.Data.List.Sort

/-!
# Spaced times

Times in descending order, the newest first, of which each comes at least `gap` after the one
`cap` places before it (`Spaced`). No half-open window as long as the gap holds more than `cap`
of them, `Spaced.window_le`: the window's newest time is within the gap of all the others, so
the one `cap` places before it is already outside.
-/

namespace Lib

namespace Spacing

variable {α : Type*} [LinearOrder α]

/-- A later place of a descending list holds an earlier time. -/
theorem le_of_getElem? {times : List α} (hsorted : times.Pairwise (· ≥ ·)) {i j : ℕ} {a b : α}
    (hij : i ≤ j) (ha : times[i]? = some a) (hb : times[j]? = some b) : b ≤ a := by
  obtain ⟨hi, rfl⟩ := List.getElem?_eq_some_iff.mp ha
  obtain ⟨hj, rfl⟩ := List.getElem?_eq_some_iff.mp hb
  rcases hij.eq_or_lt with rfl | hlt
  · exact le_rfl
  · exact List.pairwise_iff_getElem.mp hsorted i j hi hj hlt

/-- The times after an instant come first. -/
theorem filter_lt_eq_takeWhile {times : List α} (hsorted : times.Pairwise (· ≥ ·)) (since : α) :
    times.filter (since < ·) = times.takeWhile (since < ·) := by
  induction times with
  | nil => rfl
  | cons a times ih =>
    obtain ⟨hle, hrest⟩ := List.pairwise_cons.mp hsorted
    by_cases ha : since < a
    · rw [List.filter_cons_of_pos (by simpa using ha),
        List.takeWhile_cons_of_pos (by simpa using ha), ih hrest]
    · rw [List.filter_cons_of_neg (by simpa using ha),
        List.takeWhile_cons_of_neg (by simpa using ha), List.filter_eq_nil_iff]
      intro b hb hlate
      exact ha ((of_decide_eq_true hlate).trans_le (hle b hb))

/-- The first `n` times are all after an instant when the last of them is. -/
theorem length_takeWhile_of_getElem? {times : List α} (hsorted : times.Pairwise (· ≥ ·))
    {i : ℕ} {a since : α} (ha : times[i]? = some a) (hlate : since < a) :
    i < (times.takeWhile (since < ·)).length := by
  induction times generalizing i with
  | nil => cases ha
  | cons b times ih =>
    obtain ⟨hle, hrest⟩ := List.pairwise_cons.mp hsorted
    have hb : since < b := by
      cases i with
      | zero => exact hlate.trans_eq (Option.some.inj ha).symm
      | succ i => exact hlate.trans_le (hle a (List.mem_of_getElem? ha))
    rw [List.takeWhile_cons_of_pos (by simpa using hb), List.length_cons]
    cases i with
    | zero => exact Nat.succ_pos _
    | succ i => exact Nat.succ_lt_succ (ih hrest ha)

/-! ## Windows -/

section Windows

variable [AddCommGroup α]

/-- Each time is at least `gap` after the one `cap` places before it; the newest is first. -/
def Spaced (cap : ℕ) (gap : α) : List α → Prop
  | [] => True
  | a :: times => (∀ b ∈ times[cap - 1]?, b + gap ≤ a) ∧ Spaced cap gap times

variable {cap : ℕ} {gap : α} {times : List α}

/-- The times of the half-open window of length `gap` from `t`. -/
def window (gap t : α) (times : List α) : List α :=
  times.filter fun a => t ≤ a ∧ a < t + gap

theorem window_eq_nil {t : α} (h : ∀ a ∈ times, a < t) : window gap t times = [] := by
  rw [window, List.filter_eq_nil_iff]
  intro a ha hin
  have hle : t ≤ a := (of_decide_eq_true hin).1
  exact absurd (h a ha) (not_lt.mpr hle)

variable [IsOrderedAddMonoid α]

/-- **No window holds more than `cap` of the times.** -/
theorem Spaced.window_le (hcap : 1 ≤ cap) (hspaced : Spaced cap gap times)
    (hsorted : times.Pairwise (· ≥ ·)) (t : α) : (window gap t times).length ≤ cap := by
  induction times with
  | nil => exact Nat.zero_le cap
  | cons a times ih =>
    obtain ⟨hnewest, hrest⟩ := hspaced
    obtain ⟨hle, hsorted⟩ := List.pairwise_cons.mp hsorted
    by_cases hin : t ≤ a ∧ a < t + gap
    · have hbehind : ∀ b ∈ times.drop (cap - 1), b < t := by
        intro b hb
        obtain ⟨c, hc⟩ : ∃ c, times[cap - 1]? = some c := by
          have hlt : cap - 1 < times.length := by
            by_contra hnot
            rw [List.drop_eq_nil_of_le (not_lt.mp hnot)] at hb
            exact List.not_mem_nil hb
          exact ⟨_, List.getElem?_eq_getElem hlt⟩
        have hclose : c + gap < t + gap := (hnewest c hc).trans_lt hin.2
        obtain ⟨k, hk⟩ := List.mem_iff_getElem?.mp hb
        rw [List.getElem?_drop] at hk
        have hle := le_of_getElem? hsorted (Nat.le_add_right _ k) hc hk
        exact hle.trans_lt (lt_of_add_lt_add_right hclose)
      have hsplit : window gap t times = window gap t (times.take (cap - 1)) := by
        have happ : window gap t times =
            window gap t (times.take (cap - 1)) ++ window gap t (times.drop (cap - 1)) := by
          rw [window, window, window, ← List.filter_append, List.take_append_drop]
        rw [happ, window_eq_nil hbehind, List.append_nil]
      have hcons : window gap t (a :: times) = a :: window gap t times :=
        List.filter_cons_of_pos (by simpa using hin)
      have htake : (window gap t (times.take (cap - 1))).length ≤ cap - 1 :=
        (List.length_filter_le _ _).trans (List.length_take_le _ _)
      rw [hcons, hsplit, List.length_cons]
      exact Nat.add_le_of_le_sub hcap htake
    · have hcons : window gap t (a :: times) = window gap t times :=
        List.filter_cons_of_neg (by simpa using hin)
      rw [hcons]
      exact ih hrest hsorted

end Windows

end Spacing

end Lib
