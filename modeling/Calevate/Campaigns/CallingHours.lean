import Calevate.Callbacks.CallingWindow

/-!
# A campaign's calling hours

`_window_for` narrows the platform's window to the hours a campaign has of its own, and
`first_dial_not_before` is the first moment at or after an instant that the window admits.
Instants are microseconds of UTC, as in the rest of the campaign's modules.
-/

namespace Calevate.Campaigns

open Lib Lib.Calendar Lib.ClockText

/-- `calling_hours`: the texts of its two entries, none where there is no such key. -/
structure CallingHours where
  start : Option String
  finish : Option String
  deriving DecidableEq, Repr

/-- `_window_for`. -/
def windowFor : Option CallingHours → Callbacks.Window
  | none => Callbacks.defaultWindow
  | some hours =>
    match hours.start.bind fun text => readTime text.toList,
        hours.finish.bind fun text => readTime text.toList with
    | some start, some finish =>
      (max (start * minute) Callbacks.defaultWindow.1,
        min (finish * minute) Callbacks.defaultWindow.2)
    | _, _ => Callbacks.defaultWindow

/-- **`first_dial_not_before`.** -/
def firstDialNotBefore (startAt : ℕ) (callingHours : Option CallingHours) : ℕ :=
  let window := windowFor callingHours
  let midnight := (startAt + istOffset) / day * day
  let clock := (startAt + istOffset) % day
  if clock < window.1 then midnight + window.1 - istOffset
  else if window.2 ≤ clock then midnight + day + window.1 - istOffset
  else startAt

/-! ## Openings -/

/-- No campaign opens before the platform does. -/
theorem le_windowFor (hours : Option CallingHours) :
    Callbacks.defaultWindow.1 ≤ (windowFor hours).1 := by
  unfold windowFor
  split
  · exact le_rfl
  · split
    · exact le_max_right _ _
    · exact le_rfl

/-- **The first dial is not before the start.** -/
theorem le_firstDialNotBefore (startAt : ℕ) (hours : Option CallingHours) :
    startAt ≤ firstDialNotBefore startAt hours := by
  have hopen := le_windowFor hours
  have hdefault : istOffset ≤ Callbacks.defaultWindow.1 := by decide
  have hclock : (startAt + istOffset) % day < day := Nat.mod_lt _ (by decide)
  have hsplit := Nat.div_add_mod' (startAt + istOffset) day
  simp only [firstDialNotBefore]
  split
  · omega
  · split
    · omega
    · exact le_rfl

/-- Nor does it close later. -/
theorem windowFor_le (hours : Option CallingHours) :
    (windowFor hours).2 ≤ Callbacks.defaultWindow.2 := by
  unfold windowFor
  split
  · exact le_rfl
  · split
    · exact min_le_right _ _
    · exact le_rfl

/-- While the window is open the first dial is at once. -/
theorem firstDialNotBefore_open {startAt : ℕ} {hours : Option CallingHours}
    (hopen : (windowFor hours).1 ≤ (startAt + istOffset) % day)
    (hclose : (startAt + istOffset) % day < (windowFor hours).2) :
    firstDialNotBefore startAt hours = startAt := by
  simp only [firstDialNotBefore, if_neg (not_lt.2 hopen), if_neg (not_le.2 hclose)]

/-- And when it waits, it waits for an opening. -/
theorem firstDialNotBefore_opening {startAt : ℕ} {hours : Option CallingHours}
    (hday : (windowFor hours).1 < day) (hlater : startAt < firstDialNotBefore startAt hours) :
    (firstDialNotBefore startAt hours + istOffset) % day = (windowFor hours).1 := by
  have hdefault : istOffset ≤ Callbacks.defaultWindow.1 := by decide
  have hwindow := le_windowFor hours
  have hoffset : istOffset ≤ (windowFor hours).1 := hdefault.trans hwindow
  simp only [firstDialNotBefore] at hlater ⊢
  split
  · rw [Nat.sub_add_cancel (by omega), Nat.mul_comm, Nat.mul_add_mod, Nat.mod_eq_of_lt hday]
  · split
    · rw [Nat.sub_add_cancel (by omega), ← Nat.succ_mul, Nat.mul_comm, Nat.mul_add_mod,
        Nat.mod_eq_of_lt hday]
    · rename_i hbefore hafter
      rw [if_neg hbefore, if_neg hafter] at hlater
      exact absurd hlater (lt_irrefl _)

end Calevate.Campaigns
