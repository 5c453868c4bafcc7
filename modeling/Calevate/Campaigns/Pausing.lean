import Calevate.Campaigns.Schedule
import Calevate.Lib.Journal
import Calevate.Lib.Run

/-!
# Who paused a campaign

A person pauses a campaign, or a rise in opt-outs, an empty wallet, the spending cap, a
maintenance window or the healer does. Three of them start it again by themselves, and what
they go by are the columns that say whose pause it was. The statements here are the ones
that write those columns or the status, each as what it does to the rows of `campaigns`;
the journal beside the table is what they did to each row, and no statement reads it.

`set_campaign_status` is a compare-and-swap, and where that misses a read and a second
write: a request that missed is left over until it has made both. Everything else is one
statement, or holds the lock of its row from the first to the last.
-/

namespace Calevate.Campaigns.Pausing

open Lib

/-! ## Rows -/

/-- `AUTO_PAUSE_REASONS`. -/
inductive AutoPauseReason where
  | complaintSpike
  | outOfCredit
  | spendCap
  deriving DecidableEq, Repr

/-- A row of `campaigns`, as far as its pauses are concerned. -/
structure Row where
  id : ℕ
  tenantId : ℕ
  agentId : ℕ
  campaign : Campaign
  pausedByMaintenanceId : Option ℕ
  pausedByHealId : Option ℕ
  autoPauseReason : Option AutoPauseReason
  complaintReviewedAt : Option ℕ
  deriving DecidableEq

def Row.status (r : Row) : CampaignStatus := r.campaign.status

/-- A new draft. -/
def Row.draft (id tenantId agentId : ℕ) : Row where
  id := id
  tenantId := tenantId
  agentId := agentId
  campaign := { status := .draft, schedule := none, archived := false }
  pausedByMaintenanceId := none
  pausedByHealId := none
  autoPauseReason := none
  complaintReviewedAt := none

/-- `set_campaign_status` where it moves the row. -/
def Row.moved (r : Row) (toStatus : CampaignStatus) (reason : Option AutoPauseReason) : Row :=
  { r with
    campaign := r.campaign.setStatus toStatus
    pausedByMaintenanceId := none
    pausedByHealId := none
    autoPauseReason := reason
    complaintReviewedAt :=
      if reason = some .complaintSpike then none else r.complaintReviewedAt }

/-- Its second write, where it finds the row there already. -/
def Row.unmarked (r : Row) : Row := { r with pausedByMaintenanceId := none, pausedByHealId := none }

/-- What a person is told who may not resume. -/
inductive ResumeProblem where
  | agentArchived
  | campaignArchived
  | complaintReviewRequired
  | noCredits
  | spendCap
  deriving DecidableEq, Repr

/-- `assert_agent_still_assignable` and `assert_resumable`. -/
def Row.assertResumable (r : Row) (assignable exhausted capped : Bool) :
    Except ResumeProblem Unit :=
  if ¬ assignable then .error .agentArchived
  else if r.campaign.archived then .error .campaignArchived
  else if r.autoPauseReason = some .complaintSpike ∧ r.complaintReviewedAt = none then
    .error .complaintReviewRequired
  else if r.autoPauseReason = some .outOfCredit ∧ exhausted then .error .noCredits
  else if r.autoPauseReason = some .spendCap ∧ capped then .error .spendCap
  else .ok ()

/-- `archive_campaign`: one that runs is paused first, as by the Pause button. -/
def Row.archive (r : Row) : Row :=
  match archiveCampaign r.campaign with
  | .ok c =>
    if r.campaign.archived = false ∧ r.status = .running then
      { r.moved .paused none with campaign := c }
    else { r with campaign := c }
  | .error _ => r

/-! ## The journal -/

/-- Whose pause it is: the person's or safety's that asked for it, or that of a window or an
incident. -/
inductive Pauser where
  | asked (reason : Option AutoPauseReason)
  | maintenance (windowId : ℕ)
  | heal (incidentId : ℕ)
  deriving DecidableEq, Repr

/-- What starts a campaign again by itself. -/
inductive Automation where
  | maintenance (windowId : ℕ)
  | heal (incidentId : ℕ)
  | credit
  deriving DecidableEq, Repr

/-- What was done to a campaign. -/
inductive Deed where
  | paused (pauser : Pauser)
  | started
  | putAway
  | stopped
  | resumed (automation : Automation)
  deriving DecidableEq

/-- An entry of the journal. -/
structure Entry where
  campaign : ℕ
  deed : Deed
  deriving DecidableEq

/-! ## Statements -/

/-- The writes of a start and its schedule, which look at nothing here. -/
inductive Write where
  | schedule (startAt now : ℕ)
  | scheduleRecurrence (days : List ℕ) (atMinute : ℕ) (ends : Option ℕ) (now : ℕ)
  | unschedule
  | expire
  | complete

def Write.apply (c : Campaign) : Write → Campaign
  | .schedule startAt now => (scheduleCampaign c startAt now).toOption.getD c
  | .scheduleRecurrence days atMinute ends now =>
    (Campaigns.scheduleRecurrence c days atMinute ends now).toOption.getD c
  | .unschedule => (unscheduleCampaign c).toOption.getD c
  | .expire => (expireCas c).getD c
  | .complete => completeOrRearm c

/-- A request to pause that missed, before and after its read found the campaign paused. -/
structure Missed where
  campaign : ℕ
  found : Bool
  deriving DecidableEq

/-- The campaigns, the requests that missed, and the agents that may be assigned. -/
structure World where
  campaigns : Journal Row Entry
  missed : List Missed
  assignable : ℕ → Bool

inductive Action where
  | create (id tenantId agentId : ℕ)
  | write (id : ℕ) (write : Write)
  | launch (id : ℕ)
  | pause (id : ℕ) (reason : Option AutoPauseReason)
  | read (k : ℕ)
  | release (k : ℕ)
  | resume (id : ℕ) (exhausted capped : Bool)
  | acknowledge (id at_ : ℕ)
  | stop (id : ℕ)
  | archive (id : ℕ)
  | restore (id : ℕ)
  | pauseForMaintenance (tenantId windowId : ℕ)
  | resumeAfterMaintenance (tenantId windowId : ℕ)
  | deleteWindow (windowId : ℕ)
  | protectAgent (tenantId incidentId agentId : ℕ)
  | restoreAgent (tenantId incidentId agentId : ℕ)
  | resumeAfterCredit (tenantId : ℕ)
  | setAgent (agentId : ℕ) (assignable : Bool)

namespace World

def empty : World := ⟨⟨[], []⟩, [], fun _ => true⟩

/-- `UPDATE campaigns SET f WHERE p`, with what it did to each row. -/
def update (w : World) (p : Row → Bool) (f : Row → Row) (deeds : Row → List Deed) : World :=
  { w with campaigns := w.campaigns.rewrite p f fun r => (deeds r).map fun d => ⟨r.id, d⟩ }

/-- `set_campaign_status` to paused, its compare-and-swap. -/
def pause (w : World) (id : ℕ) (reason : Option AutoPauseReason) : World :=
  if w.campaigns.rows.any fun r => r.id = id ∧ r.status = .running then
    w.update (fun r => r.id = id ∧ r.status = .running) (fun r => r.moved .paused reason)
      fun _ => [.paused (.asked reason)]
  else
    { w.update (fun r => r.id = id ∧ r.status = .paused) (fun r => r)
        (fun _ => [.paused (.asked reason)]) with
      missed := w.missed ++ [⟨id, false⟩] }

/-- Its read, which ends a request that found the campaign in another state. -/
def read (w : World) (k : ℕ) : World :=
  match w.missed[k]? with
  | some m =>
    if w.campaigns.rows.any fun r => r.id = m.campaign ∧ r.status = .paused then
      { w with missed := w.missed.modify k fun m => { m with found := true } }
    else { w with missed := w.missed.eraseIdx k }
  | none => w

/-- Its second write. -/
def release (w : World) (k : ℕ) : World :=
  match w.missed[k]? with
  | some m =>
    if m.found then
      { w.update (fun r => r.id = m.campaign) Row.unmarked (fun _ => []) with
        missed := w.missed.eraseIdx k }
    else w
  | none => w

/-- Resume, as a person presses it. -/
def resume (w : World) (id : ℕ) (exhausted capped : Bool) : World :=
  w.update
    (fun r => r.id = id ∧ (r.status = .paused ∨ r.status = .running) ∧
      (r.assertResumable (w.assignable r.agentId) exhausted capped).isOk)
    (fun r => if r.status = .paused then r.moved .running none else r.unmarked)
    fun r => if r.status = .paused then [.started] else []

/-- `acknowledge_complaint_review`. -/
def acknowledge (w : World) (id at_ : ℕ) : World :=
  w.update
    (fun r => r.id = id ∧ r.status = .paused ∧ r.autoPauseReason = some .complaintSpike ∧
      r.complaintReviewedAt = none)
    (fun r => { r with complaintReviewedAt := some at_ }) fun _ => []

/-- `stop_campaign`. -/
def stop (w : World) (id : ℕ) : World :=
  w.update
    (fun r => r.id = id ∧ (r.status = .running ∨ r.status = .paused ∨ r.status = .scheduled))
    (fun r =>
      { r with
        campaign := (r.campaign.setStatus .cancelled).setSchedule none
        pausedByMaintenanceId := none
        pausedByHealId := none
        autoPauseReason := none })
    fun _ => [.stopped]

/-- `archive_campaign`. -/
def archive (w : World) (id : ℕ) : World :=
  w.update (fun r => r.id = id ∧ r.campaign.archived = false ∧ (archiveCampaign r.campaign).isOk)
    Row.archive
    fun r => if r.status = .running then [.putAway, .paused (.asked none)] else [.putAway]

/-- `restore_campaign`. -/
def restore (w : World) (id : ℕ) : World :=
  w.update (fun r => r.id = id) (fun r => { r with campaign := restoreCampaign r.campaign })
    fun _ => []

/-- `pause_campaigns_for_maintenance`. -/
def pauseForMaintenance (w : World) (tenantId windowId : ℕ) : World :=
  w.update (fun r => r.tenantId = tenantId ∧ r.status = .running)
    (fun r =>
      { r with
        campaign := r.campaign.setStatus .paused
        pausedByMaintenanceId := some windowId })
    fun _ => [.paused (.maintenance windowId)]

/-- `resume_campaigns_after_maintenance`. -/
def resumeAfterMaintenance (w : World) (tenantId windowId : ℕ) : World :=
  w.update (fun r => r.tenantId = tenantId ∧ r.pausedByMaintenanceId = some windowId)
    (fun r =>
      { r with
        campaign :=
          if r.status = .paused ∧ r.campaign.archived = false then r.campaign.setStatus .running
          else r.campaign
        pausedByMaintenanceId := none })
    fun r =>
      if r.status = .paused ∧ r.campaign.archived = false then [.resumed (.maintenance windowId)]
      else []

/-- The campaigns of `protect_agent`. -/
def protectAgent (w : World) (tenantId incidentId agentId : ℕ) : World :=
  w.update (fun r => r.tenantId = tenantId ∧ r.agentId = agentId ∧ r.status = .running)
    (fun r =>
      { r with
        campaign := r.campaign.setStatus .paused
        pausedByHealId := some incidentId })
    fun _ => [.paused (.heal incidentId)]

/-- The campaigns of `restore_agent`. -/
def restoreAgent (w : World) (tenantId incidentId agentId : ℕ) : World :=
  w.update
    (fun r => r.tenantId = tenantId ∧ r.pausedByHealId = some incidentId ∧ r.agentId = agentId)
    (fun r =>
      { r with
        campaign := if r.status = .paused then r.campaign.setStatus .running else r.campaign
        pausedByHealId := none })
    fun r => if r.status = .paused then [.resumed (.heal incidentId)] else []

/-- `resume_campaigns_after_credit`. -/
def resumeAfterCredit (w : World) (tenantId : ℕ) : World :=
  w.update
    (fun r => r.tenantId = tenantId ∧ r.status = .paused ∧
      r.autoPauseReason = some .outOfCredit ∧ r.campaign.archived = false ∧
      w.assignable r.agentId)
    (fun r => { r with campaign := r.campaign.setStatus .running, autoPauseReason := none })
    fun _ => [.resumed .credit]

/-- One statement, or the statements a lock holds together. -/
def step (w : World) : Action → World
  | .create id tenantId agentId =>
    if w.campaigns.rows.any fun r => r.id = id then w
    else { w with campaigns := w.campaigns.insert (.draft id tenantId agentId) [] }
  | .write id write =>
    w.update (fun r => r.id = id) (fun r => { r with campaign := write.apply r.campaign })
      fun _ => []
  | .launch id =>
    w.update (fun r => r.id = id ∧ (launchCas r.campaign).isSome)
      (fun r => { r with campaign := (launchCas r.campaign).getD r.campaign })
      fun _ => [.started]
  | .pause id reason => w.pause id reason
  | .read k => w.read k
  | .release k => w.release k
  | .resume id exhausted capped => w.resume id exhausted capped
  | .acknowledge id at_ => w.acknowledge id at_
  | .stop id => w.stop id
  | .archive id => w.archive id
  | .restore id => w.restore id
  | .pauseForMaintenance tenantId windowId => w.pauseForMaintenance tenantId windowId
  | .resumeAfterMaintenance tenantId windowId => w.resumeAfterMaintenance tenantId windowId
  | .deleteWindow windowId =>
    w.update (fun r => r.pausedByMaintenanceId = some windowId)
      (fun r => { r with pausedByMaintenanceId := none }) fun _ => []
  | .protectAgent tenantId incidentId agentId => w.protectAgent tenantId incidentId agentId
  | .restoreAgent tenantId incidentId agentId => w.restoreAgent tenantId incidentId agentId
  | .resumeAfterCredit tenantId => w.resumeAfterCredit tenantId
  | .setAgent agentId assignable =>
    { w with assignable := Function.update w.assignable agentId assignable }

def run (actions : List Action) : World := actions.foldl step empty

/-- The entries about a campaign. -/
def about (w : World) (r : Row) : List Entry :=
  Journal.about Entry.campaign r.id w.campaigns.entries

end World

end Calevate.Campaigns.Pausing
