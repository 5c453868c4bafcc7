import Calevate.Lib.Calendar
import Mathlib.Data.Int.Notation

/-!
# Weekly windows

A day's window from its opening time on to its closing time, every week. One that does not close
after it opens runs into the next day. A wall clock counts microseconds from the midnight a Monday
begins with, and its own day and the day before are all that decides whether a window holds it
(`holds_iff`).
-/

namespace Lib

namespace Weekly

open Calendar

/-- A window of a day. -/
structure Window where
  opens : ℕ
  closes : ℕ
  deriving DecidableEq, Repr

namespace Window

/-- Where a window ends, from the midnight before it. -/
def last (w : Window) : ℕ := if w.opens < w.closes then w.closes else day + w.closes

/-- The window of the weekday `d` holds the wall clock, in some week. -/
def Holds (d : ℕ) (w : Window) (wall : ℕ) : Prop :=
  ∃ n : ℤ, n % 7 = d ∧ n * day + w.opens ≤ wall ∧ wall < n * day + w.last

/-- The window holds a time of the day it opens on. -/
def OpensTo (w : Window) (clock : ℕ) : Prop :=
  w.opens ≤ clock ∧ (w.opens < w.closes → clock < w.closes)

/-- The window still holds a time of the next day. -/
def SpillsTo (w : Window) (clock : ℕ) : Prop := w.closes ≤ w.opens ∧ clock < w.closes

instance (w : Window) (clock : ℕ) : Decidable (w.OpensTo clock) :=
  inferInstanceAs (Decidable (_ ∧ _))

instance (w : Window) (clock : ℕ) : Decidable (w.SpillsTo clock) :=
  inferInstanceAs (Decidable (_ ∧ _))

variable {w : Window} {d wall : ℕ}

/-- **Two days decide.** A window holds a wall clock on the day it opens, or on the next. -/
theorem holds_iff (hopens : w.opens < day) (hcloses : w.closes < day) :
    w.Holds d wall ↔
      (d = wall / day % 7 ∧ w.OpensTo (wall % day)) ∨
        (d = (wall / day + 6) % 7 ∧ w.SpillsTo (wall % day)) := by
  have hday : day = 86400000000 := by decide
  unfold Holds last OpensTo SpillsTo
  rw [hday] at hopens hcloses ⊢
  constructor
  · rintro ⟨n, hd, hlo, hhi⟩
    split at hhi
    case isTrue hlt =>
      -- the window ends on the day it opens
      have hn : n = wall / 86400000000 := by omega
      refine .inl ⟨by omega, by omega, fun _ => by omega⟩
    case isFalse hge =>
      rcases Int.lt_or_le (wall : ℤ) (n * 86400000000 + 86400000000) with hsame | hnext
      · refine .inl ⟨by omega, by omega, fun hlt => absurd hlt hge⟩
      · refine .inr ⟨by omega, by omega, by omega⟩
  · rintro (⟨hd, hlo, hhi⟩ | ⟨hd, hspans, hhi⟩)
    · refine ⟨wall / 86400000000, by omega, by omega, ?_⟩
      split
      case isTrue hlt =>
        have hbound := hhi hlt
        omega
      case isFalse hge => omega
    · refine ⟨wall / 86400000000 - 1, by omega, by omega, ?_⟩
      rw [if_neg (by omega)]
      omega

end Window

end Weekly

end Lib
