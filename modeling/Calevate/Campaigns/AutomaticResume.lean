import Calevate.Campaigns.Pausing

/-!
# What starts again by itself

A window's end, a mended agent and a top-up start what they paused, and nothing a person or
a rise in opt-outs paused, or that was put away or stopped since it last ran. The columns
that say whose pause it was hold through every order of statements but four (`Clear`):
`set_campaign_status` leaves the reason of a pause standing where it finds the campaign
paused already, nothing that puts a campaign away or brings it back touches the columns,
the healer does not ask whether a campaign is put away, and a request that found the
campaign paused has not cleared them until its second write.
-/

namespace Calevate.Campaigns.Pausing

open Lib

/-! ## Histories -/

/-- A pause that only a person ends. -/
def Pauser.lasting : Pauser → Bool
  | .asked none | .asked (some .complaintSpike) => true
  | _ => false

def Deed.pauser : Deed → Option Pauser
  | .paused pauser => some pauser
  | _ => none

/-- Who paused the campaign last. -/
def lastPause (es : List Entry) : Option Pauser := es.findSome? fun e => e.deed.pauser

/-- It was put away since a person last started it. -/
def away : List Entry → Bool
  | [] => false
  | e :: es =>
    match e.deed with
    | .putAway => true
    | .started => false
    | _ => away es

def stopped (es : List Entry) : Bool := es.any fun e => e.deed = .stopped

/-- A window's end ends the pauses of that window. -/
def Automation.ends : Automation → Option Pauser → Bool
  | .maintenance windowId, pauser => pauser = some (.maintenance windowId)
  | _, _ => true

def Deed.automation : Deed → Option Automation
  | .resumed automation => some automation
  | _ => none

/-- **An automatic resume that is lawful**, after what was done before it: the last pause was no
person's and no review's, a window's end ends its own pauses only, and the campaign was
neither put away nor stopped. -/
structure LawfulResume (automation : Automation) (es : List Entry) : Prop where
  pause : (lastPause es).all fun pauser => pauser.lasting = false
  own : automation.ends (lastPause es) = true
  notAway : away es = false
  notStopped : stopped es = false

/-- Every automatic resume of a history is. -/
def Lawful : List Entry → Prop
  | [] => True
  | e :: es => (∀ automation ∈ e.deed.automation, LawfulResume automation es) ∧ Lawful es

/-- Every automatic resume there was is lawful. -/
def World.Obeys (w : World) : Prop := ∀ r ∈ w.campaigns.rows, Lawful (w.about r)

/-! ## The condition -/

/-- Something may start the campaign again by itself. -/
def Row.marked (r : Row) : Bool :=
  r.pausedByMaintenanceId.isSome ∨ r.pausedByHealId.isSome ∨
    r.autoPauseReason = some .outOfCredit

/-- A request that missed is on the campaign. -/
def awaited (missed : List Missed) (id : ℕ) : Bool := missed.any fun m => m.campaign = id

def World.awaits (w : World) (id : ℕ) : Bool := awaited w.missed id

/-- **Nothing is layered on a pause that the columns do not show**: no Pause and no review finds a
campaign paused for want of credit, none is restored that something may start again, the
healer finds none of its campaigns put away, and no window or incident ends between the
statements of a request that found its campaign paused. -/
def Clear (w : World) : Action → Prop
  | .pause id reason => (Pauser.asked reason).lasting = true →
      ∀ r ∈ w.campaigns.rows, r.id = id → r.status = .paused →
        r.autoPauseReason ≠ some .outOfCredit
  | .restore id => ∀ r ∈ w.campaigns.rows, r.id = id → r.campaign.archived = true →
      r.marked = false
  | .resumeAfterMaintenance _ windowId => ∀ r ∈ w.campaigns.rows,
      r.pausedByMaintenanceId = some windowId → w.awaits r.id = false
  | .restoreAgent _ incidentId _ => ∀ r ∈ w.campaigns.rows,
      r.pausedByHealId = some incidentId → r.campaign.archived = false ∧ w.awaits r.id = false
  | _ => True

/-! ## Rows -/

section Rows

variable {es : List Entry} {r r' : Row} {awaits : Bool}

/-- **What holds of a row and its history.** -/
structure Remembered (awaits : Bool) (es : List Entry) (r : Row) : Prop where
  lawful : Lawful es
  paused : r.status ≠ .paused → r.pausedByMaintenanceId = none ∧ r.pausedByHealId = none ∧
    r.autoPauseReason = none
  heal : r.pausedByHealId ≠ none → r.pausedByMaintenanceId = none ∧ r.autoPauseReason = none
  reason : r.autoPauseReason ≠ none → r.pausedByMaintenanceId = none ∧ r.pausedByHealId = none
  running : r.status = .running → away es = false
  away : r.marked = true → Pausing.away es = true → r.campaign.archived = true
  stopped : Pausing.stopped es = true → r.status = .cancelled
  window : ∀ windowId, r.pausedByMaintenanceId = some windowId →
    lastPause es = some (.maintenance windowId) ∨ awaits = true
  incident : ∀ incidentId, r.pausedByHealId = some incidentId →
    lastPause es = some (.heal incidentId) ∨ awaits = true
  credit : r.autoPauseReason = some .outOfCredit →
    (lastPause es).all fun pauser => pauser.lasting = false

theorem Remembered.draft (id tenantId agentId : ℕ) :
    Remembered awaits [] (.draft id tenantId agentId) := by
  constructor <;> simp [Row.draft, Row.status, Row.marked, Lawful, Pausing.away, Pausing.stopped]

theorem lawful_cons {d : Deed} {id : ℕ} (h : Lawful es) (hd : d.automation = none) :
    Lawful (⟨id, d⟩ :: es) :=
  ⟨by simp [hd], h⟩

/-- A request that misses is one more on the campaign. -/
theorem Remembered.mono (h : Remembered awaits es r) {awaits' : Bool}
    (hle : awaits = true → awaits' = true ∨ r.status ≠ .paused) : Remembered awaits' es r := by
  refine ⟨h.lawful, h.paused, h.heal, h.reason, h.running, h.away, h.stopped, ?_, ?_, h.credit⟩
  · intro windowId hw
    rcases h.window windowId hw with hlast | haw
    · exact .inl hlast
    · rcases hle haw with haw' | hs
      · exact .inr haw'
      · rw [(h.paused hs).1] at hw
        cases hw
  · intro incidentId hi
    rcases h.incident incidentId hi with hlast | haw
    · exact .inl hlast
    · rcases hle haw with haw' | hs
      · exact .inr haw'
      · rw [(h.paused hs).2.1] at hi
        cases hi

/-- A row without a window's or an incident's mark. -/
theorem Remembered.of_unmarked (hlawful : Lawful es) (hwindow : r.pausedByMaintenanceId = none)
    (hheal : r.pausedByHealId = none) (hpaused : r.status ≠ .paused → r.autoPauseReason = none)
    (hrunning : r.status = .running → Pausing.away es = false)
    (hstopped : Pausing.stopped es = true → r.status = .cancelled)
    (hcredit : r.autoPauseReason = some .outOfCredit →
      (Pausing.away es = true → r.campaign.archived = true) ∧
        (lastPause es).all fun pauser => pauser.lasting = false) :
    Remembered awaits es r := by
  refine ⟨hlawful, fun hs => ⟨hwindow, hheal, hpaused hs⟩, by simp [hheal], by simp [hwindow, hheal],
    hrunning, ?_, hstopped, by simp [hwindow], by simp [hheal], fun hr => (hcredit hr).2⟩
  intro hmarked
  simp only [Row.marked, hwindow, hheal, Option.isSome_none, Bool.false_eq_true, false_or,
    decide_eq_true_eq] at hmarked
  exact (hcredit hmarked).1

/-- A request that pauses a running campaign. -/
theorem Remembered.pause (h : Remembered awaits es r) (hs : r.status = .running)
    (reason : Option AutoPauseReason) :
    Remembered awaits (⟨r.id, .paused (.asked reason)⟩ :: es) (r.moved .paused reason) := by
  have haway := h.running hs
  apply Remembered.of_unmarked
  · exact lawful_cons h.lawful rfl
  · rfl
  · rfl
  · simp [Row.moved, Row.status, Campaign.setStatus]
  · simp [Row.moved, Row.status, Campaign.setStatus]
  · intro hstop
    have hcancelled := h.stopped (by simpa [Pausing.stopped] using hstop)
    rw [hs] at hcancelled
    cases hcancelled
  · intro hreason
    have hr : reason = some .outOfCredit := hreason
    subst hr
    exact ⟨by simp [Pausing.away, haway], by simp [lastPause, Deed.pauser, Pauser.lasting]⟩

/-- One that finds it paused already. -/
theorem Remembered.pauseAgain (h : Remembered awaits es r) {reason : Option AutoPauseReason}
    (hclear : (Pauser.asked reason).lasting = true → r.autoPauseReason ≠ some .outOfCredit) :
    Remembered true (⟨r.id, .paused (.asked reason)⟩ :: es) r := by
  refine ⟨lawful_cons h.lawful rfl, h.paused, h.heal, h.reason, h.running, h.away, ?_,
    by simp, by simp, ?_⟩
  · intro hstop
    exact h.stopped (by simpa [Pausing.stopped] using hstop)
  · intro hr
    cases hlasting : (Pauser.asked reason).lasting with
    | true => exact absurd hr (hclear hlasting)
    | false => simp [lastPause, Deed.pauser, hlasting]

theorem Remembered.unmark (h : Remembered awaits es r) {awaits' : Bool} :
    Remembered awaits' es r.unmarked := by
  apply Remembered.of_unmarked h.lawful rfl rfl
  · exact fun hs => (h.paused hs).2.2
  · exact h.running
  · exact h.stopped
  · intro hr
    have hr' : r.autoPauseReason = some .outOfCredit := hr
    exact ⟨h.away (by simp [Row.marked, hr']), h.credit hr'⟩

/-- A person's Resume. -/
theorem Remembered.start (h : Remembered awaits es r) (hs : r.status = .paused) :
    Remembered awaits (⟨r.id, .started⟩ :: es) (r.moved .running none) := by
  apply Remembered.of_unmarked
  · exact lawful_cons h.lawful rfl
  · rfl
  · rfl
  · intro _
    rfl
  · simp [Pausing.away]
  · intro hstop
    have hcancelled := h.stopped (by simpa [Pausing.stopped] using hstop)
    rw [hs] at hcancelled
    cases hcancelled
  · intro hr
    cases hr

theorem Remembered.stop (h : Remembered awaits es r) :
    Remembered awaits (⟨r.id, .stopped⟩ :: es)
      { r with
        campaign := (r.campaign.setStatus .cancelled).setSchedule none
        pausedByMaintenanceId := none
        pausedByHealId := none
        autoPauseReason := none } := by
  apply Remembered.of_unmarked
  · exact lawful_cons h.lawful rfl
  · rfl
  · rfl
  · exact fun _ => rfl
  · simp [Row.status, Campaign.setStatus, Campaign.setSchedule]
  · exact fun _ => rfl
  · exact fun hr => by cases hr

/-- A campaign that does not run is put away as it is. -/
theorem Remembered.putAway (h : Remembered awaits es r) {c : Campaign}
    (hs : r.status ≠ .running) (hstatus : c.status = r.status ∨ r.status = .scheduled ∧ c.status = .draft)
    (harchived : c.archived = true) :
    Remembered awaits (⟨r.id, .putAway⟩ :: es) { r with campaign := c } := by
  have hpaused : c.status ≠ .paused → r.status ≠ .paused := by
    rintro hnot hp
    rcases hstatus with heq | ⟨hsched, -⟩
    · exact hnot (heq.trans hp)
    · rw [hsched] at hp
      cases hp
  refine ⟨lawful_cons h.lawful rfl, fun hnot => h.paused (hpaused hnot), h.heal, h.reason, ?_,
    fun _ _ => harchived, ?_, ?_, ?_, ?_⟩
  · intro hrun
    rcases hstatus with heq | ⟨-, hdraft⟩
    · exact absurd (heq.symm.trans hrun) hs
    · have hrun' : c.status = .running := hrun
      rw [hdraft] at hrun'
      cases hrun'
  · intro hstop
    have hcancelled := h.stopped (by simpa [Pausing.stopped] using hstop)
    rcases hstatus with heq | ⟨hsched, -⟩
    · exact heq.trans hcancelled
    · rw [hsched] at hcancelled
      cases hcancelled
  · simpa [lastPause, Deed.pauser] using h.window
  · simpa [lastPause, Deed.pauser] using h.incident
  · simpa [lastPause, Deed.pauser] using h.credit

/-- What archiving makes of a campaign that does not run. -/
theorem archiveCampaign_ok {c c' : Campaign} (h : archiveCampaign c = .ok c')
    (hin : c.archived = false) (hs : c.status ≠ .running) :
    (c'.status = c.status ∨ c.status = .scheduled ∧ c'.status = .draft) ∧ c'.archived = true := by
  simp only [archiveCampaign, hin, Bool.false_eq_true, if_false] at h
  split at h
  · rename_i hrun
    exact absurd hrun hs
  · rename_i hsched
    cases hun : unscheduleCampaign c with
    | error problem =>
      rw [hun] at h
      cases h
    | ok mid =>
      rw [hun] at h
      cases h
      refine ⟨.inr ⟨hsched, ?_⟩, rfl⟩
      unfold unscheduleCampaign at hun
      split at hun
      · cases hun
      · cases hun
        simp [Campaign.putAway, Campaign.setStatus, hsched]
  · cases h
    exact ⟨.inl rfl, rfl⟩

/-- A campaign that is archived. -/
theorem Remembered.archive (h : Remembered awaits es r) (hin : r.campaign.archived = false)
    (hok : (archiveCampaign r.campaign).isOk = true) :
    Remembered awaits
      ((if r.status = .running then [.putAway, .paused (.asked none)] else [.putAway]).map
        (fun d => (⟨r.id, d⟩ : Entry)) ++ es) r.archive := by
  by_cases hs : r.status = .running
  · have harchive : r.archive = { r.moved .paused none with
        campaign := (r.campaign.setStatus .paused).putAway } := by
      have hs' : r.campaign.status = .running := hs
      simp [Row.archive, archiveCampaign, hin, hs', hs, setCampaignStatus, Except.map]
    rw [if_pos hs, harchive]
    apply Remembered.of_unmarked
    · exact lawful_cons (lawful_cons h.lawful rfl) rfl
    · rfl
    · rfl
    · exact fun _ => rfl
    · simp [Row.status, Campaign.setStatus, Campaign.putAway]
    · intro hstop
      have hcancelled := h.stopped (by simpa [Pausing.stopped] using hstop)
      rw [hs] at hcancelled
      cases hcancelled
    · exact fun hr => by cases hr
  · have hs' : r.campaign.status ≠ .running := hs
    rw [if_neg hs]
    cases hcase : archiveCampaign r.campaign with
    | error problem =>
      rw [hcase] at hok
      cases hok
    | ok c =>
      have harchive : r.archive = { r with campaign := c } := by
        simp [Row.archive, hcase, hs]
      rw [harchive]
      obtain ⟨hstatus, harchived⟩ := archiveCampaign_ok hcase hin hs'
      exact h.putAway hs hstatus harchived

/-- One that is restored, where nothing may start it again by itself. -/
theorem Remembered.restore (h : Remembered awaits es r)
    (hclear : r.campaign.archived = true → r.marked = false) :
    Remembered awaits es { r with campaign := restoreCampaign r.campaign } := by
  refine ⟨h.lawful, h.paused, h.heal, h.reason, h.running, ?_, h.stopped, h.window, h.incident,
    h.credit⟩
  intro hmarked haway
  have hm : r.marked = true := hmarked
  rw [hclear (h.away hm haway)] at hm
  cases hm

theorem Remembered.acknowledge (h : Remembered awaits es r) (at_ : ℕ) :
    Remembered awaits es { r with complaintReviewedAt := some at_ } :=
  ⟨h.lawful, h.paused, h.heal, h.reason, h.running, h.away, h.stopped, h.window, h.incident,
    h.credit⟩

/-- A running campaign bears no marks. -/
theorem Remembered.of_running (h : Remembered awaits es r) (hs : r.status = .running) :
    (r.pausedByMaintenanceId = none ∧ r.pausedByHealId = none ∧ r.autoPauseReason = none) ∧
      Pausing.away es = false ∧ Pausing.stopped es = false := by
  refine ⟨h.paused (by simp [hs]), h.running hs, ?_⟩
  cases hstop : Pausing.stopped es with
  | false => rfl
  | true =>
    have hcancelled := h.stopped hstop
    rw [hs] at hcancelled
    cases hcancelled

/-- A window begins. -/
theorem Remembered.pauseForMaintenance (h : Remembered awaits es r) (hs : r.status = .running)
    (windowId : ℕ) :
    Remembered awaits (⟨r.id, .paused (.maintenance windowId)⟩ :: es)
      { r with
        campaign := r.campaign.setStatus .paused
        pausedByMaintenanceId := some windowId } := by
  obtain ⟨⟨-, hheal, hreason⟩, haway, hstop⟩ := h.of_running hs
  refine ⟨lawful_cons h.lawful rfl, ?_, by simp [hheal], by simp [hreason], ?_, ?_, ?_, ?_,
    by simp [hheal], by simp [hreason]⟩
  · simp [Row.status, Campaign.setStatus]
  · simp [Row.status, Campaign.setStatus]
  · simp [Pausing.away, haway]
  · intro hs'
    have hs'' : Pausing.stopped es = true := by simpa [Pausing.stopped] using hs'
    rw [hstop] at hs''
    cases hs''
  · intro w hw
    cases hw
    exact .inl rfl

/-- An incident begins. -/
theorem Remembered.protect (h : Remembered awaits es r) (hs : r.status = .running)
    (incidentId : ℕ) :
    Remembered awaits (⟨r.id, .paused (.heal incidentId)⟩ :: es)
      { r with
        campaign := r.campaign.setStatus .paused
        pausedByHealId := some incidentId } := by
  obtain ⟨⟨hwindow, -, hreason⟩, haway, hstop⟩ := h.of_running hs
  refine ⟨lawful_cons h.lawful rfl, ?_, by simp [hwindow, hreason], by simp [hreason], ?_, ?_,
    ?_, by simp [hwindow], ?_, by simp [hreason]⟩
  · simp [Row.status, Campaign.setStatus]
  · simp [Row.status, Campaign.setStatus]
  · simp [Pausing.away, haway]
  · intro hs'
    have hs'' : Pausing.stopped es = true := by simpa [Pausing.stopped] using hs'
    rw [hstop] at hs''
    cases hs''
  · intro i hi
    cases hi
    exact .inl rfl

/-- What is resumed by itself, lawfully, and bears no mark any more. -/
theorem Remembered.resumed (h : Remembered awaits es r) {automation : Automation}
    (hlawful : LawfulResume automation es)
    (hwindow : r'.pausedByMaintenanceId = none) (hheal : r'.pausedByHealId = none)
    (hreason : r'.autoPauseReason = none) :
    Remembered awaits (⟨r.id, .resumed automation⟩ :: es) r' := by
  apply Remembered.of_unmarked _ hwindow hheal (fun _ => hreason)
  · intro _
    exact hlawful.notAway
  · intro hs'
    have hs'' : Pausing.stopped es = true := by simpa [Pausing.stopped] using hs'
    rw [hlawful.notStopped] at hs''
    cases hs''
  · intro hr
    rw [hreason] at hr
    cases hr
  · exact ⟨by simpa [Deed.automation] using hlawful, h.lawful⟩

/-- A paused campaign was not stopped. -/
theorem Remembered.notStopped (h : Remembered awaits es r) (hs : r.status = .paused) :
    Pausing.stopped es = false := by
  cases hstop : Pausing.stopped es with
  | false => rfl
  | true =>
    have hcancelled := h.stopped hstop
    rw [hs] at hcancelled
    cases hcancelled

/-- One that something may start again is paused, and was not put away if it is not now. -/
theorem Remembered.marked_away (h : Remembered awaits es r) (hmarked : r.marked = true)
    (hin : r.campaign.archived = false) : Pausing.away es = false := by
  cases haway : Pausing.away es with
  | false => rfl
  | true =>
    have harchived := h.away hmarked haway
    rw [hin] at harchived
    cases harchived

/-- A window ends: it resumes what it paused, unless that was put away. -/
theorem Remembered.resumeAfterMaintenance (h : Remembered awaits es r) {windowId : ℕ}
    (hmark : r.pausedByMaintenanceId = some windowId) (hawaits : awaits = false) :
    Remembered awaits
      ((if r.status = .paused ∧ r.campaign.archived = false then
          [.resumed (.maintenance windowId)] else []).map (fun d => (⟨r.id, d⟩ : Entry)) ++ es)
      { r with
        campaign :=
          if r.status = .paused ∧ r.campaign.archived = false then r.campaign.setStatus .running
          else r.campaign
        pausedByMaintenanceId := none } := by
  have hheal : r.pausedByHealId = none := by
    by_contra hne
    rw [(h.heal hne).1] at hmark
    cases hmark
  have hreason : r.autoPauseReason = none := by
    by_contra hne
    rw [(h.reason hne).1] at hmark
    cases hmark
  have hlast : lastPause es = some (.maintenance windowId) := by
    rcases h.window windowId hmark with hlast | hno
    · exact hlast
    · rw [hawaits] at hno
      cases hno
  by_cases hp : r.status = .paused ∧ r.campaign.archived = false
  · rw [if_pos hp, if_pos hp]
    have hlawful : LawfulResume (.maintenance windowId) es := by
      refine ⟨by simp [hlast, Pauser.lasting], by simp [hlast, Automation.ends], ?_,
        h.notStopped hp.1⟩
      exact h.marked_away (by simp [Row.marked, hmark]) hp.2
    exact h.resumed hlawful rfl hheal hreason
  · rw [if_neg hp, if_neg hp]
    exact Remembered.of_unmarked h.lawful rfl hheal (fun _ => hreason) h.running h.stopped
      fun hr => by simp [hreason] at hr

/-- A window is deleted. -/
theorem Remembered.deleteWindow (h : Remembered awaits es r) (hmark : r.pausedByMaintenanceId ≠ none) :
    Remembered awaits es { r with pausedByMaintenanceId := none } := by
  have hheal : r.pausedByHealId = none := by
    by_contra hne
    exact hmark (h.heal hne).1
  have hreason : r.autoPauseReason = none := by
    by_contra hne
    exact hmark (h.reason hne).1
  exact Remembered.of_unmarked h.lawful rfl hheal (fun _ => hreason) h.running h.stopped
    fun hr => by simp [hreason] at hr

/-- An incident ends: the healer resumes what it paused. -/
theorem Remembered.restoreAgent (h : Remembered awaits es r) {incidentId : ℕ}
    (hmark : r.pausedByHealId = some incidentId) (hin : r.campaign.archived = false)
    (hawaits : awaits = false) :
    Remembered awaits
      ((if r.status = .paused then [.resumed (.heal incidentId)] else []).map
        (fun d => (⟨r.id, d⟩ : Entry)) ++ es)
      { r with
        campaign := if r.status = .paused then r.campaign.setStatus .running else r.campaign
        pausedByHealId := none } := by
  obtain ⟨hwindow, hreason⟩ := h.heal (by simp [hmark])
  have hlast : lastPause es = some (.heal incidentId) := by
    rcases h.incident incidentId hmark with hlast | hno
    · exact hlast
    · rw [hawaits] at hno
      cases hno
  by_cases hp : r.status = .paused
  · rw [if_pos hp, if_pos hp]
    have hlawful : LawfulResume (.heal incidentId) es :=
      ⟨by simp [hlast, Pauser.lasting], rfl,
        h.marked_away (by simp [Row.marked, hmark]) hin, h.notStopped hp⟩
    exact h.resumed hlawful hwindow rfl hreason
  · rw [if_neg hp, if_neg hp]
    exact Remembered.of_unmarked h.lawful hwindow rfl (fun _ => hreason) h.running h.stopped
      fun hr => by simp [hreason] at hr

/-- A top-up resumes what was paused for want of credit. -/
theorem Remembered.resumeAfterCredit (h : Remembered awaits es r) (hs : r.status = .paused)
    (hreason : r.autoPauseReason = some .outOfCredit) (hin : r.campaign.archived = false) :
    Remembered awaits (⟨r.id, .resumed .credit⟩ :: es)
      { r with campaign := r.campaign.setStatus .running, autoPauseReason := none } := by
  obtain ⟨hwindow, hheal⟩ := h.reason (by simp [hreason])
  have hlawful : LawfulResume .credit es :=
    ⟨h.credit hreason, rfl, h.marked_away (by simp [Row.marked, hreason]) hin, h.notStopped hs⟩
  exact h.resumed hlawful hwindow hheal rfl

/-- The writes of a start leave a paused campaign paused and a stopped one stopped, start none,
and put none away. -/
theorem Write.apply_keeps (c : Campaign) (write : Write) :
    (write.apply c).archived = c.archived ∧ (c.status = .paused → (write.apply c).status = .paused) ∧
      (c.status = .cancelled → (write.apply c).status = .cancelled) ∧
      ((write.apply c).status = .running → c.status = .running) := by
  have harm : ∀ payload : StoredSchedule,
      ((c.arm payload).toOption.getD c).archived = c.archived ∧
        (c.status = .paused → ((c.arm payload).toOption.getD c).status = .paused) ∧
        (c.status = .cancelled → ((c.arm payload).toOption.getD c).status = .cancelled) ∧
        (((c.arm payload).toOption.getD c).status = .running → c.status = .running) := by
    intro payload
    unfold Campaign.arm
    split
    · rename_i hwaiting
      simp only [Campaign.waiting, decide_eq_true_eq] at hwaiting
      refine ⟨rfl, ?_, ?_, ?_⟩
      · intro hs
        simp [hs] at hwaiting
      · intro hs
        simp [hs] at hwaiting
      · intro hs
        cases hs
    · exact ⟨rfl, id, id, id⟩
  cases write with
  | schedule startAt now =>
    simp only [apply, scheduleCampaign]
    split
    · exact ⟨rfl, id, id, id⟩
    · split
      · exact ⟨rfl, id, id, id⟩
      · exact harm _
  | scheduleRecurrence days atMinute ends now =>
    simp only [apply, Campaigns.scheduleRecurrence]
    split
    · exact ⟨rfl, id, id, id⟩
    · split
      · exact ⟨rfl, id, id, id⟩
      · exact harm _
  | unschedule =>
    simp only [apply, unscheduleCampaign]
    split
    · exact ⟨rfl, id, id, id⟩
    · cases hs : c.status <;>
        simp [Except.toOption, Campaign.setStatus, Campaign.setSchedule, hs]
  | expire =>
    simp only [apply, expireCas]
    cases hs : c.status <;> simp [Campaign.setStatus, Campaign.setSchedule, hs]
  | complete =>
    simp only [apply, completeOrRearm]
    cases hs : c.status <;> simp [Campaign.setStatus, hs]

theorem Remembered.write (h : Remembered awaits es r) (write : Write) :
    Remembered awaits es { r with campaign := write.apply r.campaign } := by
  obtain ⟨harchived, hpaused, hcancelled, hrunning⟩ := write.apply_keeps r.campaign
  refine ⟨h.lawful, ?_, h.heal, h.reason, fun hs => h.running (hrunning hs), ?_,
    fun hs => hcancelled (h.stopped hs), h.window, h.incident, h.credit⟩
  · intro hnot
    exact h.paused fun hs => hnot (hpaused hs)
  · intro hmarked haway
    exact harchived.trans (h.away hmarked haway)

/-- A campaign that starts was waiting, and bears no marks. -/
theorem Remembered.launch (h : Remembered awaits es r) (hok : (launchCas r.campaign).isSome = true) :
    Remembered awaits (⟨r.id, .started⟩ :: es)
      { r with campaign := (launchCas r.campaign).getD r.campaign } := by
  have hwaiting : r.status = .draft ∨ r.status = .scheduled := by
    unfold launchCas at hok
    split at hok
    · rename_i hw
      exact of_decide_eq_true hw.1
    · cases hok
  obtain ⟨hwindow, hheal, hreason⟩ := h.paused (by rcases hwaiting with hs | hs <;> simp [hs])
  have hstop : Pausing.stopped es = false := by
    cases hstop : Pausing.stopped es with
    | false => rfl
    | true =>
      have hcancelled := h.stopped hstop
      rcases hwaiting with hs | hs <;> rw [hs] at hcancelled <;> cases hcancelled
  apply Remembered.of_unmarked
  · exact lawful_cons h.lawful rfl
  · exact hwindow
  · exact hheal
  · exact fun _ => hreason
  · simp [Pausing.away]
  · intro hs
    have hs' : Pausing.stopped es = true := by simpa [Pausing.stopped] using hs
    rw [hstop] at hs'
    cases hs'
  · intro hr
    simp [hreason] at hr

end Rows

/-! ## Runs -/

namespace World

variable {w : World}

/-- The invariant of a clear run. -/
def Remembers (w : World) : Prop :=
  Journal.Sound Row.id Entry.campaign (fun es r => Remembered (w.awaits r.id) es r) w.campaigns

theorem empty_remembers : empty.Remembers := Journal.Sound.empty

/-- What a statement keeps of the rows it picks, it keeps, with the requests that are left over. -/
theorem Remembers.rewriteMissed (h : w.Remembers) {p : Row → Bool} {f : Row → Row}
    {deeds : Row → List Deed} {missed : List Missed} (hid : ∀ r, (f r).id = r.id)
    (hit : ∀ r ∈ w.campaigns.rows, p r = true → Remembered (w.awaits r.id) (w.about r) r →
      Remembered (awaited missed r.id) ((deeds r).map (fun d => ⟨r.id, d⟩) ++ w.about r) (f r))
    (hmiss : ∀ r ∈ w.campaigns.rows, p r = false → Remembered (w.awaits r.id) (w.about r) r →
      Remembered (awaited missed r.id) (w.about r) r) :
    Remembers { w.update p f deeds with missed := missed } := by
  refine Journal.Sound.rewrite h hid ?_ ?_ hmiss
  · intro r e he
    obtain ⟨d, -, rfl⟩ := List.mem_map.1 he
    rfl
  · intro r hr hp hrow
    simp only [awaits, hid r]
    exact hit r hr hp hrow

/-- One that leaves the requests alone. -/
theorem Remembers.rewrite (h : w.Remembers) {p : Row → Bool} {f : Row → Row}
    {deeds : Row → List Deed} (hid : ∀ r, (f r).id = r.id)
    (hit : ∀ r ∈ w.campaigns.rows, p r = true → Remembered (w.awaits r.id) (w.about r) r →
      Remembered (w.awaits r.id) ((deeds r).map (fun d => ⟨r.id, d⟩) ++ w.about r) (f r)) :
    (w.update p f deeds).Remembers :=
  h.rewriteMissed hid hit fun _ _ _ hrow => hrow

theorem awaited_iff {missed : List Missed} {id : ℕ} :
    awaited missed id = true ↔ ∃ m ∈ missed, m.campaign = id := by
  simp [awaited]

/-- A request that is done leaves those on other campaigns. -/
theorem awaited_eraseIdx {missed : List Missed} {k : ℕ} {m : Missed} (hk : missed[k]? = some m)
    {id : ℕ} (hne : m.campaign ≠ id) (h : awaited missed id = true) :
    awaited (missed.eraseIdx k) id = true := by
  obtain ⟨m', hm', hid⟩ := (awaited_iff).1 h
  obtain ⟨i, hi⟩ := List.mem_iff_getElem?.1 hm'
  refine (awaited_iff).2 ⟨m', List.mem_eraseIdx_iff_getElem?.2 ⟨i, ?_, hi⟩, hid⟩
  rintro rfl
  rw [hk] at hi
  cases hi
  exact hne hid

/-- One that was read goes on. -/
theorem awaited_found {missed : List Missed} (k : ℕ) {id : ℕ} (h : awaited missed id = true) :
    awaited (missed.modify k fun m => { m with found := true }) id = true := by
  obtain ⟨m, hm, hid⟩ := (awaited_iff).1 h
  obtain ⟨i, hi⟩ := List.mem_iff_getElem?.1 hm
  refine (awaited_iff).2 ⟨if k = i then { m with found := true } else m, ?_, ?_⟩
  · apply List.mem_iff_getElem?.2
    exact ⟨i, by simp [List.getElem?_modify, hi]⟩
  · split
    · exact hid
    · exact hid

theorem pause_remembers (h : w.Remembers) {id : ℕ} {reason : Option AutoPauseReason}
    (hclear : Clear w (.pause id reason)) : (w.pause id reason).Remembers := by
  unfold pause
  split
  · refine h.rewrite (fun _ => rfl) ?_
    intro r _ hp hrow
    exact hrow.pause (of_decide_eq_true hp).2 reason
  · refine h.rewriteMissed (fun _ => rfl) ?_ ?_
    · intro r hr hp hrow
      obtain ⟨hid, hs⟩ := of_decide_eq_true hp
      have hawaited : awaited (w.missed ++ [⟨id, false⟩]) r.id = true := by
        simp [awaited, hid]
      rw [hawaited]
      exact hrow.pauseAgain fun hlasting => hclear hlasting r hr hid hs
    · intro r _ _ hrow
      refine hrow.mono fun haw => .inl ?_
      obtain ⟨m, hm, hid⟩ := (awaited_iff).1 haw
      exact (awaited_iff).2 ⟨m, List.mem_append_left _ hm, hid⟩

theorem read_remembers (h : w.Remembers) (k : ℕ) : (w.read k).Remembers := by
  unfold read
  split
  · rename_i m hk
    split
    · exact h.mono fun r _ hrow => hrow.mono fun haw => .inl (awaited_found k haw)
    · rename_i hnone
      refine h.mono fun r hr hrow => hrow.mono fun haw => ?_
      by_cases hid : m.campaign = r.id
      · right
        intro hs
        simp only [Bool.not_eq_true, List.any_eq_false, decide_eq_true_eq] at hnone
        exact hnone r hr ⟨hid.symm, hs⟩
      · exact .inl (awaited_eraseIdx hk hid haw)
  · exact h

theorem release_remembers (h : w.Remembers) (k : ℕ) : (w.release k).Remembers := by
  unfold release
  split
  · rename_i m hk
    split
    · refine h.rewriteMissed (fun _ => rfl) (fun r _ _ hrow => hrow.unmark) ?_
      intro r _ hp hrow
      have hne : m.campaign ≠ r.id := fun heq => of_decide_eq_false hp heq.symm
      exact hrow.mono fun haw => .inl (awaited_eraseIdx hk hne haw)
    · exact h
  · exact h

theorem resume_remembers (h : w.Remembers) (id : ℕ) (exhausted capped : Bool) :
    (w.resume id exhausted capped).Remembers := by
  refine h.rewrite (fun r => by split <;> rfl) ?_
  intro r _ hp hrow
  by_cases hpaused : r.status = .paused
  · rw [if_pos hpaused, if_pos hpaused]
    exact hrow.start hpaused
  · rw [if_neg hpaused, if_neg hpaused]
    exact hrow.unmark

/-- **A clear step keeps the invariant.** -/
theorem step_remembers (h : w.Remembers) {a : Action} (hclear : Clear w a) :
    (w.step a).Remembers := by
  cases a with
  | create id tenantId agentId =>
    simp only [step]
    split
    · exact h
    · rename_i hfresh
      simp only [Bool.not_eq_true, List.any_eq_false, decide_eq_true_eq] at hfresh
      exact Journal.Sound.insert h hfresh (by simp) (Remembered.draft id tenantId agentId)
        fun _ _ hrow => hrow
  | write id write => exact h.rewrite (fun _ => rfl) fun r _ _ hrow => hrow.write write
  | launch id =>
    refine h.rewrite (fun _ => rfl) fun r _ hp hrow => ?_
    exact hrow.launch (of_decide_eq_true hp).2
  | pause id reason => exact pause_remembers h hclear
  | read k => exact read_remembers h k
  | release k => exact release_remembers h k
  | resume id exhausted capped => exact resume_remembers h id exhausted capped
  | acknowledge id at_ => exact h.rewrite (fun _ => rfl) fun r _ _ hrow => hrow.acknowledge at_
  | stop id => exact h.rewrite (fun _ => rfl) fun r _ _ hrow => hrow.stop
  | archive id =>
    refine h.rewrite (fun r => ?_) fun r _ hp hrow => ?_
    · unfold Row.archive
      split
      · split <;> rfl
      · rfl
    · obtain ⟨-, hin, hok⟩ := of_decide_eq_true hp
      exact hrow.archive hin hok
  | restore id =>
    refine h.rewrite (fun _ => rfl) fun r hr hp hrow => ?_
    exact hrow.restore (hclear r hr (of_decide_eq_true hp))
  | pauseForMaintenance tenantId windowId =>
    refine h.rewrite (fun _ => rfl) fun r _ hp hrow => ?_
    exact hrow.pauseForMaintenance (of_decide_eq_true hp).2 windowId
  | resumeAfterMaintenance tenantId windowId =>
    refine h.rewrite (fun _ => rfl) fun r hr hp hrow => ?_
    obtain ⟨-, hmark⟩ := of_decide_eq_true hp
    exact hrow.resumeAfterMaintenance hmark (hclear r hr hmark)
  | deleteWindow windowId =>
    refine h.rewrite (fun _ => rfl) fun r _ hp hrow => ?_
    exact hrow.deleteWindow (by simp [of_decide_eq_true hp])
  | protectAgent tenantId incidentId agentId =>
    refine h.rewrite (fun _ => rfl) fun r _ hp hrow => ?_
    exact hrow.protect (of_decide_eq_true hp).2.2 incidentId
  | restoreAgent tenantId incidentId agentId =>
    refine h.rewrite (fun _ => rfl) fun r hr hp hrow => ?_
    obtain ⟨-, hmark, -⟩ := of_decide_eq_true hp
    obtain ⟨hin, hawaits⟩ := hclear r hr hmark
    exact hrow.restoreAgent hmark hin hawaits
  | resumeAfterCredit tenantId =>
    refine h.rewrite (fun _ => rfl) fun r _ hp hrow => ?_
    obtain ⟨-, hs, hreason, hin, -⟩ := of_decide_eq_true hp
    exact hrow.resumeAfterCredit hs hreason hin
  | setAgent agentId assignable => exact h

end World

/-- **Whatever the statements and their order**, if nothing is layered on a pause that the columns
do not show, every automatic resume is of a campaign whose last pause was no person's and no
review's, which was neither put away nor stopped, and a window's end resumes what that window
paused. -/
theorem automatic_resumes_lawful (actions : List Action)
    (h : Run.Guarded World.step Clear World.empty actions) :
    (World.run actions).Obeys := by
  have hrun : (World.run actions).Remembers :=
    @Run.Guarded.inv _ _ World.step Clear World.Remembers
      (fun _ _ hw hclear => World.step_remembers hw hclear) World.empty actions
      World.empty_remembers h
  exact fun r hr => (hrun.rows r hr).lawful

instance (automation : Automation) (es : List Entry) : Decidable (LawfulResume automation es) :=
  decidable_of_iff
    ((lastPause es).all (fun pauser => pauser.lasting = false) = true ∧
      automation.ends (lastPause es) = true ∧ away es = false ∧ stopped es = false)
    ⟨fun h => ⟨h.1, h.2.1, h.2.2.1, h.2.2.2⟩, fun h => ⟨h.pause, h.own, h.notAway, h.notStopped⟩⟩

instance Lawful.decidable : ∀ es : List Entry, Decidable (Lawful es)
  | [] => isTrue trivial
  | e :: es =>
    have := Lawful.decidable es
    inferInstanceAs (Decidable ((∀ automation ∈ e.deed.automation, LawfulResume automation es) ∧
      Lawful es))

instance (w : World) : Decidable w.Obeys :=
  inferInstanceAs (Decidable (∀ r ∈ w.campaigns.rows, Lawful (w.about r)))

instance (w : World) : ∀ a : Action, Decidable (Clear w a)
  | .pause id reason =>
    inferInstanceAs (Decidable ((Pauser.asked reason).lasting = true →
      ∀ r ∈ w.campaigns.rows, r.id = id → r.status = .paused →
        r.autoPauseReason ≠ some .outOfCredit))
  | .restore id =>
    inferInstanceAs (Decidable (∀ r ∈ w.campaigns.rows, r.id = id →
      r.campaign.archived = true → r.marked = false))
  | .resumeAfterMaintenance _ windowId =>
    inferInstanceAs (Decidable (∀ r ∈ w.campaigns.rows,
      r.pausedByMaintenanceId = some windowId → w.awaits r.id = false))
  | .restoreAgent _ incidentId _ =>
    inferInstanceAs (Decidable (∀ r ∈ w.campaigns.rows, r.pausedByHealId = some incidentId →
      r.campaign.archived = false ∧ w.awaits r.id = false))
  | .create .. | .write .. | .launch .. | .read .. | .release .. | .resume .. | .acknowledge ..
  | .stop .. | .archive .. | .pauseForMaintenance .. | .deleteWindow .. | .protectAgent ..
  | .resumeAfterCredit .. | .setAgent .. => isTrue trivial

/-- A window, an incident and a top-up, each with its pause, and a person's pause in a window. -/
def resumedThrice : List Action :=
  [.create 1 1 1, .launch 1, .pauseForMaintenance 1 1, .resumeAfterMaintenance 1 1,
    .protectAgent 1 1 1, .restoreAgent 1 1 1, .pause 1 (some .outOfCredit), .resumeAfterCredit 1,
    .pauseForMaintenance 1 2, .pause 1 none, .read 0, .release 0, .resumeAfterMaintenance 1 2]

theorem resumedThrice_lawful : (World.run resumedThrice).Obeys :=
  automatic_resumes_lawful resumedThrice (by decide +kernel)

/-! ## Pauses the columns do not show -/

/-- A campaign of the first account that runs, and has run out of credit. -/
def unpaid : List Action := [.create 1 1 1, .launch 1, .pause 1 (some .outOfCredit)]

/-- Its client presses Pause as well, and pays. -/
def pausedUnpaid : List Action := unpaid ++ [.pause 1 none, .resumeAfterCredit 1]

/-- Or puts it away and brings it back, and pays. -/
def restoredUnpaid : List Action := unpaid ++ [.archive 1, .restore 1, .resumeAfterCredit 1]

/-- A campaign the healer paused is put away before its agent is mended. -/
def archivedUnwell : List Action :=
  [.create 1 1 1, .launch 1, .protectAgent 1 1 1, .archive 1, .restoreAgent 1 1 1]

/-- Pause is pressed in a maintenance window, which ends before its second write. -/
def pausedLate : List Action :=
  [.create 1 1 1, .launch 1, .pauseForMaintenance 1 1, .pause 1 none, .read 0,
    .resumeAfterMaintenance 1 1]

/-- **Each of the four starts a campaign against what was last asked.** -/
theorem unlawful_resumes :
    ¬ (World.run pausedUnpaid).Obeys ∧ ¬ (World.run restoredUnpaid).Obeys ∧
      ¬ (World.run archivedUnwell).Obeys ∧ ¬ (World.run pausedLate).Obeys := by
  decide +kernel

end Calevate.Campaigns.Pausing
