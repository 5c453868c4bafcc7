import Calevate.Campaigns.Pausing

/-!
# Campaigns that wait for a window

`paused_by_maintenance_id` says which maintenance window a campaign waits for. The pause for
maintenance is the one statement that writes it: behind any other, a campaign that waits for a
window did so before.
-/

namespace Calevate.Campaigns.Pausing

open Lib

variable {w : World} {p : Row → Bool} {f : Row → Row} {deeds : Row → List Deed} {r' : Row} {k : ℕ}

/-- A row that waits for a window was there, waiting for it. -/
def Waited (w : World) (r' : Row) (k : ℕ) : Prop :=
  ∃ r ∈ w.campaigns.rows, r.pausedByMaintenanceId = some k ∧ r.tenantId = r'.tenantId

theorem waited_self (hr : r' ∈ w.campaigns.rows) (hk : r'.pausedByMaintenanceId = some k) :
    Waited w r' k := ⟨r', hr, hk, rfl⟩

/-- A statement that marks no row for a window. -/
theorem waited_update (hr : r' ∈ (w.update p f deeds).campaigns.rows)
    (hk : r'.pausedByMaintenanceId = some k) (htenant : ∀ r, (f r).tenantId = r.tenantId)
    (hmark : ∀ r, (f r).pausedByMaintenanceId = some k → r.pausedByMaintenanceId = some k) :
    Waited w r' k := by
  rcases Journal.mem_rewrite.mp hr with ⟨hr, -⟩ | ⟨x, hx, -, rfl⟩
  · exact waited_self hr hk
  · exact ⟨x, hx, hmark x hk, (htenant x).symm⟩

theorem archive_tenantId (r : Row) : r.archive.tenantId = r.tenantId := by
  unfold Row.archive
  split
  · split <;> rfl
  · rfl

theorem archive_mark {r : Row} (h : r.archive.pausedByMaintenanceId = some k) :
    r.pausedByMaintenanceId = some k := by
  unfold Row.archive at h
  split at h
  · split at h
    · cases h
    · exact h
  · exact h

/-- Only the pause for maintenance marks a campaign. -/
theorem waited_step {action : Action}
    (hne : ∀ tenantId windowId, action ≠ .pauseForMaintenance tenantId windowId)
    (hr : r' ∈ (w.step action).campaigns.rows) (hk : r'.pausedByMaintenanceId = some k) :
    Waited w r' k := by
  cases action with
  | pauseForMaintenance tenantId windowId => exact absurd rfl (hne tenantId windowId)
  | create id tenantId agentId =>
    simp only [World.step] at hr
    split at hr
    · exact waited_self hr hk
    · rcases List.mem_append.mp hr with hr | hr
      · exact waited_self hr hk
      · rw [List.mem_singleton.mp hr] at hk
        cases hk
  | write id write => exact waited_update hr hk (fun _ => rfl) fun _ h => h
  | launch id => exact waited_update hr hk (fun _ => rfl) fun _ h => h
  | pause id reason =>
    simp only [World.step, World.pause] at hr
    split at hr
    · exact waited_update hr hk (fun _ => rfl) fun _ h => nomatch h
    · exact waited_update hr hk (fun _ => rfl) fun _ h => h
  | read m =>
    simp only [World.step, World.read] at hr
    split at hr
    · split at hr <;> exact waited_self hr hk
    · exact waited_self hr hk
  | release m =>
    simp only [World.step, World.release] at hr
    split at hr
    · split at hr
      · exact waited_update hr hk (fun _ => rfl) fun _ h => nomatch h
      · exact waited_self hr hk
    · exact waited_self hr hk
  | resume id exhausted capped =>
    refine waited_update hr hk (fun r => ?_) fun r h => ?_
    · split <;> rfl
    · split at h <;> cases h
  | acknowledge id at_ => exact waited_update hr hk (fun _ => rfl) fun _ h => h
  | stop id => exact waited_update hr hk (fun _ => rfl) fun _ h => nomatch h
  | archive id => exact waited_update hr hk archive_tenantId fun _ => archive_mark
  | restore id => exact waited_update hr hk (fun _ => rfl) fun _ h => h
  | resumeAfterMaintenance tenantId windowId =>
    exact waited_update hr hk (fun _ => rfl) fun _ h => nomatch h
  | deleteWindow windowId => exact waited_update hr hk (fun _ => rfl) fun _ h => nomatch h
  | protectAgent tenantId incidentId agentId =>
    exact waited_update hr hk (fun _ => rfl) fun _ h => h
  | restoreAgent tenantId incidentId agentId =>
    exact waited_update hr hk (fun _ => rfl) fun _ h => h
  | resumeAfterCredit tenantId => exact waited_update hr hk (fun _ => rfl) fun _ h => h
  | setAgent agentId assignable => exact waited_self hr hk

end Calevate.Campaigns.Pausing
