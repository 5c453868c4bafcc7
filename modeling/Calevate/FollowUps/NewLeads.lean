import Calevate.FollowUps.Definition
import Calevate.Lib.Run
import Calevate.Lib.Tx

/-!
# Who answers a new lead

A lead starts the first live follow-up whose published trigger hears its source, and a publish
and a resume refuse a follow-up that hears what another live one hears, so that no lead has two.
Two other writers put a follow-up in place without asking: an account that has no live one is
given *Call new leads* when a lead comes, and is given it as well when an agent is made for that
job. At most one live follow-up hears a source in every state of a run if and only if the job is
never made for an account that lacks *Call new leads* while another one is live
(`heard_once_iff`).
-/

namespace Calevate.FollowUps

open Lib

/-! ## What a trigger hears -/

/-- `min_length=1`: the sources a trigger names are some. -/
def Trigger.named : Trigger → Bool
  | .newLead (some sources) _ => !sources.isEmpty
  | _ => true

/-- `AnyTrigger`, as a request or a stored row gives it. -/
abbrev AnyTrigger := { trigger : Trigger // trigger.named = true }

/-- A new lead from the source starts it. -/
def Trigger.hears (source : Option ℕ) : Trigger → Bool
  | .newLead none _ => true
  | .newLead (some sources) _ => source.any fun id => id ∈ sources
  | _ => false

/-- Some lead would start both. -/
def Trigger.meets : Trigger → Trigger → Bool
  | .newLead none _, .newLead _ _ => true
  | .newLead _ _, .newLead none _ => true
  | .newLead (some sources) _, .newLead (some theirs) _ => sources.any fun id => id ∈ theirs
  | _, _ => false

/-! ## Follow-ups of an account -/

/-- `follow_ups.status`. -/
inductive Status where
  | draft
  | live
  | paused
  | off
  deriving DecidableEq, Repr

/-- A row of `follow_up_versions`. -/
structure Version where
  number : ℕ
  trigger : AnyTrigger
  settings : Settings
  steps : List Step
  deriving DecidableEq

/-- A row of `follow_ups`, with the version it points to. -/
structure FollowUp where
  status : Status
  /-- `starter = 'call_new_leads'`. -/
  starter : Bool
  trigger : AnyTrigger
  settings : Settings
  draft : Option (List Step)
  live : Option Version
  updatedAt : ℕ
  deriving DecidableEq

namespace FollowUp

/-- The steps a publish would freeze. -/
def steps (row : FollowUp) : List Step :=
  row.draft.getD (row.live.elim [] Version.steps)

/-- `has_unpublished_changes`. -/
def hasUnpublishedChanges (row : FollowUp) : Bool :=
  match row.live with
  | none => true
  | some version =>
    row.draft.isSome || version.trigger ≠ row.trigger || version.settings ≠ row.settings

/-- The published trigger, of one that is live. -/
def liveTrigger (row : FollowUp) : Option AnyTrigger :=
  if row.status = .live then row.live.map Version.trigger else none

/-- `coalesce(max(number), 0) + 1`; the last version is the one the row points to. -/
def nextNumber (row : FollowUp) : ℕ := row.live.elim 0 Version.number + 1

/-- `_write_draft`; steps that are the published ones are no draft. -/
def writeDraft (now : ℕ) (trigger : Option AnyTrigger) (steps : List Step)
    (settings : Option Settings) (row : FollowUp) : FollowUp :=
  { row with
    trigger := trigger.getD row.trigger
    settings := settings.getD row.settings
    draft := if row.live.any fun version => version.steps = steps then none else some steps
    updatedAt := now }

end FollowUp

/-- Why a request is refused. -/
inductive Refusal where
  | notFound
  | changed (updatedAt : ℕ)
  | invalid (problems : List Problem)
  | overlap
  | starterExists
  | notLive (detail : String)
  | edit (error : EditError)
  deriving DecidableEq, Repr

/-- The follow-ups of one account, oldest first. -/
structure Account where
  rows : List FollowUp
  deriving DecidableEq

namespace Account

/-- A new account. -/
def start : Account := ⟨[]⟩

/-- `get`. -/
def get (s : Account) (id : ℕ) : Except Refusal FollowUp :=
  match s.rows[id]? with
  | some row => .ok row
  | none => .error .notFound

/-- The row is written. -/
def put (s : Account) (id : ℕ) (row : FollowUp) : Account := ⟨s.rows.set id row⟩

/-- A row is written behind the others. -/
def insert (s : Account) (row : FollowUp) : Account := ⟨s.rows ++ [row]⟩

/-- What the follow-up hears, if it is live. -/
def trigger? (s : Account) (id : ℕ) : Option AnyTrigger :=
  s.rows[id]?.bind FollowUp.liveTrigger

/-- `live_follow_ups`, of a new lead: their ids, with their triggers. -/
def liveNewLead (s : Account) : List (ℕ × AnyTrigger) :=
  (List.range s.rows.length).filterMap fun id =>
    ((s.trigger? id).filter fun trigger => trigger.val.isNewLead).map (id, ·)

/-- `overlaps`. -/
def overlaps (s : Account) (id : ℕ) (trigger : AnyTrigger) : Bool :=
  s.liveNewLead.any fun other => other.1 ≠ id && trigger.val.meets other.2.val

/-! ## The requests -/

/-- `create`. -/
def create (now : ℕ) (trigger : AnyTrigger) (steps : List Step) (settings : Option Settings)
    (starter : Bool) (s : Account) : Except Refusal Account :=
  if starter ∧ s.rows.any FollowUp.starter then .error .starterExists
  else .ok (s.insert ⟨.draft, starter, trigger, settings.getD {}, some steps, none, now⟩)

/-- `save_draft`. -/
def saveDraft (now id : ℕ) (trigger : AnyTrigger) (steps : List Step) (settings : Settings)
    (s : Account) : Except Refusal Account := do
  let row ← s.get id
  pure (s.put id (row.writeDraft now (some trigger) steps (some settings)))

/-- `edit`. -/
def edit (now id : ℕ) (edits : List StepEdit) (settings : Option Settings) (s : Account) :
    Except Refusal Account := do
  let row ← s.get id
  let steps ← (applyEdits row.steps edits).mapError .edit
  pure (s.put id (row.writeDraft now none steps settings))

/-- `problems_of`; `unknown` is what it finds in other tables. -/
def problemsOf (blank : String → Bool) (row : FollowUp) (unknown : List Problem) :
    List Problem :=
  shapeProblems blank row.trigger.val row.steps row.settings ++ unknown

/-- The draft, frozen as the next version; a paused one stays paused. -/
def published (now : ℕ) (row : FollowUp) : FollowUp :=
  { row with
    status := if row.status = .paused then .paused else .live
    live := some ⟨row.nextNumber, row.trigger, row.settings, row.steps⟩
    draft := none
    updatedAt := now }

/-- `publish`. -/
def publish (blank : String → Bool) (now id expected : ℕ) (unknown : List Problem)
    (s : Account) : Except Refusal Account := do
  let row ← s.get id
  if row.updatedAt ≠ expected then .error (.changed row.updatedAt)
  else if row.hasUnpublishedChanges = false then pure s
  else if problemsOf blank row unknown ≠ [] then .error (.invalid (problemsOf blank row unknown))
  else if row.status ≠ .paused ∧ s.overlaps id row.trigger then .error .overlap
  else pure (s.put id (published now row))

/-- `pause`. -/
def pause (now id : ℕ) (s : Account) : Except Refusal Account := do
  let row ← s.get id
  if row.status ≠ .live then .error (.notLive "Only a follow-up that is on can be paused.")
  else pure (s.put id { row with status := .paused, updatedAt := now })

/-- `resume`. -/
def resume (now id : ℕ) (s : Account) : Except Refusal Account := do
  let row ← s.get id
  if row.status ≠ .paused ∧ row.status ≠ .off then
    .error (.notLive "Only a paused or turned-off follow-up can be turned back on.")
  else match row.live with
    | none => .error (.notLive "Publish this follow-up first.")
    | some version =>
      if s.overlaps id version.trigger then .error .overlap
      else pure (s.put id { row with status := .live, updatedAt := now })

/-- `turn_off`. -/
def turnOff (now id : ℕ) (s : Account) : Except Refusal Account := do
  let row ← s.get id
  if row.status ≠ .live ∧ row.status ≠ .paused then .error (.notLive "This follow-up is not on.")
  else pure (s.put id { row with status := .off, updatedAt := now })

/-! ## *Call new leads* -/

theorem isKey_first : isKey 16 "s1" = true := by decide

/-- `DEFAULT_NEW_LEAD_STEPS`. -/
def defaultNewLeadSteps : List Step :=
  [.call { id := ⟨"s1", isKey_first⟩, waitSeconds := some 0 }]

/-- *Call new leads* as it is given. -/
def callNewLeads (now : ℕ) : FollowUp :=
  { status := .live, starter := true, trigger := ⟨.newLead none none, rfl⟩, settings := {}
    draft := none
    live := some ⟨1, ⟨.newLead none none, rfl⟩, {}, defaultNewLeadSteps⟩
    updatedAt := now }

/-- `ensure_call_new_leads`. -/
def ensureCallNewLeads (now : ℕ) (s : Account) : Account :=
  if s.rows.any FollowUp.starter then s else s.insert (callNewLeads now)

/-- `matching_new_lead_follow_up`. -/
def matchingNewLeadFollowUp (followUps : List (ℕ × AnyTrigger)) (source : Option ℕ) :
    Option ℕ :=
  (followUps.find? fun followUp => followUp.2.val.hears source).map Prod.fst

/-- `new_lead_follow_up`: the account behind it, and the follow-up the lead starts. -/
def newLeadFollowUp (now : ℕ) (source : Option ℕ) (s : Account) : Account × Option ℕ :=
  if s.liveNewLead = [] then
    let given := s.ensureCallNewLeads now
    (given, matchingNewLeadFollowUp given.liveNewLead source)
  else (s, matchingNewLeadFollowUp s.liveNewLead source)

/-- `_with_caller`: the first call step names the agent. -/
def withCaller (agentId : ℕ) : List Step → Option (List Step)
  | [] => none
  | .call step :: rest => some (.call { step with agentId := some agentId } :: rest)
  | step :: rest => (withCaller agentId rest).map (step :: ·)

/-- The agent is named in a new version of what is live, and in the draft when there is one. -/
def nameCaller (now agentId : ℕ) (row : FollowUp) : Option FollowUp :=
  let newLive := row.live.bind fun version => withCaller agentId version.steps
  let newDraft := row.draft.bind (withCaller agentId)
  if newLive.isNone ∧ newDraft.isNone then none
  else some { row with
    live := match row.live, newLive with
      | some version, some steps =>
        some ⟨row.nextNumber, version.trigger, version.settings, steps⟩
      | live, _ => live
    draft := match newDraft with
      | some steps => if newLive = some steps then none else some steps
      | none => row.draft
    updatedAt := now }

/-- `make_new_lead_caller`: the account behind it, and the follow-up that names the agent. -/
def makeNewLeadCaller (now agentId : ℕ) (s : Account) : Account × Option ℕ :=
  let given := s.ensureCallNewLeads now
  let id := given.rows.findIdx FollowUp.starter
  match given.rows[id]?.bind (nameCaller now agentId) with
  | some row => (given.put id row, some id)
  | none => (given, none)

/-! ## A run -/

inductive Action where
  | create (trigger : AnyTrigger) (steps : List Step) (settings : Option Settings)
      (starter : Bool)
  | saveDraft (id : ℕ) (trigger : AnyTrigger) (steps : List Step) (settings : Settings)
  | edit (id : ℕ) (edits : List StepEdit) (settings : Option Settings)
  | publish (id expected : ℕ) (unknown : List Problem)
  | pause (id : ℕ)
  | resume (id : ℕ)
  | turnOff (id : ℕ)
  | makeNewLeadCaller (agentId : ℕ)
  | newLead (source : Option ℕ)

/-- A request that is refused leaves the account as it was. -/
def settle (s : Account) (result : Except Refusal Account) : Account :=
  result.toOption.getD s

/-- One request, at its moment. -/
def step (blank : String → Bool) (s : Account) (action : ℕ × Action) : Account :=
  match action.2 with
  | .create trigger steps settings starter =>
    s.settle (s.create action.1 trigger steps settings starter)
  | .saveDraft id trigger steps settings =>
    s.settle (s.saveDraft action.1 id trigger steps settings)
  | .edit id edits settings => s.settle (s.edit action.1 id edits settings)
  | .publish id expected unknown => s.settle (s.publish blank action.1 id expected unknown)
  | .pause id => s.settle (s.pause action.1 id)
  | .resume id => s.settle (s.resume action.1 id)
  | .turnOff id => s.settle (s.turnOff action.1 id)
  | .makeNewLeadCaller agentId => (s.makeNewLeadCaller action.1 agentId).1
  | .newLead source => (s.newLeadFollowUp action.1 source).1

def run (blank : String → Bool) (actions : List (ℕ × Action)) : Account :=
  actions.foldl (step blank) start

/-! ## What is promised -/

/-- **At most one live follow-up hears a source**, or a lead that has none. -/
def HeardOnce (s : Account) : Prop :=
  ∀ (source : Option ℕ) (i j : ℕ) (t t' : AnyTrigger), s.trigger? i = some t →
    s.trigger? j = some t' → t.val.hears source = true → t'.val.hears source = true → i = j

/-- **The job is not made for an account that lacks *Call new leads* while another follow-up
hears new leads.** -/
def Alone (s : Account) (action : ℕ × Action) : Prop :=
  match action.2 with
  | .makeNewLeadCaller _ => s.rows.any FollowUp.starter = true ∨ s.liveNewLead = []
  | _ => True

end Account

/-! ## Triggers that meet -/

theorem exists_hears {trigger : AnyTrigger} (h : trigger.val.isNewLead = true) :
    ∃ source, trigger.val.hears source = true := by
  obtain ⟨trigger, hnamed⟩ := trigger
  cases trigger with
  | newLead sources onlyIf =>
    cases sources with
    | none => exact ⟨none, rfl⟩
    | some sources =>
      cases sources with
      | nil => cases hnamed
      | cons id rest => exact ⟨some id, by simp [Trigger.hears]⟩
  | _ => cases h

theorem isNewLead_of_hears {trigger : Trigger} {source : Option ℕ}
    (h : trigger.hears source = true) : trigger.isNewLead = true := by
  cases trigger with
  | newLead sources onlyIf => rfl
  | _ => cases h

/-- Two triggers that hear one lead meet. -/
theorem meets_of_hears {trigger trigger' : Trigger} {source : Option ℕ}
    (h : trigger.hears source = true) (h' : trigger'.hears source = true) :
    trigger.meets trigger' = true := by
  cases trigger with
  | newLead sources onlyIf =>
    cases trigger' with
    | newLead theirs onlyIf' =>
      cases sources with
      | none => rfl
      | some sources =>
        cases theirs with
        | none => rfl
        | some theirs =>
          obtain ⟨id, rfl, hmem⟩ := Option.any_eq_true .. |>.mp h
          have hmem' : id ∈ theirs := by simpa [Trigger.hears] using h'
          exact List.any_eq_true.mpr ⟨id, of_decide_eq_true hmem, decide_eq_true hmem'⟩
    | _ => cases h'
  | _ => cases h

namespace Account

variable {s : Account}

/-! ## What a row's writing does to who is heard -/

theorem get_ok {id : ℕ} {row : FollowUp} :
    s.get id = .ok row ↔ s.rows[id]? = some row := by
  rw [get]
  cases s.rows[id]? <;> simp

theorem trigger?_put (s : Account) (id j : ℕ) (row : FollowUp) :
    (s.put id row).trigger? j =
      if id = j ∧ id < s.rows.length then row.liveTrigger else s.trigger? j := by
  rw [trigger?, put, List.getElem?_set]
  by_cases hid : id = j
  · subst hid
    by_cases hlt : id < s.rows.length
    · simp [hlt]
    · simp [hlt, trigger?]
  · simp [hid, trigger?]

theorem trigger?_insert (s : Account) (j : ℕ) (row : FollowUp) :
    (s.insert row).trigger? j =
      if j = s.rows.length then row.liveTrigger else s.trigger? j := by
  rw [trigger?, insert]
  by_cases hj : j = s.rows.length
  · simp [hj]
  · rw [if_neg hj, trigger?]
    by_cases hlt : j < s.rows.length
    · rw [List.getElem?_append_left hlt]
    · have hge : (s.rows ++ [row]).length ≤ j := by
        rw [List.length_append, List.length_singleton]
        omega
      rw [List.getElem?_eq_none hge, List.getElem?_eq_none (by omega)]

theorem lt_of_trigger? {id : ℕ} {t : AnyTrigger} (h : s.trigger? id = some t) :
    id < s.rows.length := by
  by_contra hge
  rw [trigger?, List.getElem?_eq_none (by omega)] at h
  cases h

theorem mem_liveNewLead {id : ℕ} {t : AnyTrigger} :
    (id, t) ∈ s.liveNewLead ↔ s.trigger? id = some t ∧ t.val.isNewLead = true := by
  simp only [liveNewLead, List.mem_filterMap, List.mem_range, Option.map_eq_some_iff,
    Option.filter_eq_some_iff, Prod.mk.injEq]
  constructor
  · rintro ⟨_, -, _, ⟨htrigger, hnew⟩, rfl, rfl⟩
    exact ⟨htrigger, hnew⟩
  · rintro ⟨htrigger, hnew⟩
    exact ⟨id, lt_of_trigger? htrigger, t, ⟨htrigger, hnew⟩, rfl, rfl⟩

/-- A publish and a resume that were let through hear no lead that another one hears. -/
theorem ne_of_overlaps {id j : ℕ} {t t' : AnyTrigger} {source : Option ℕ}
    (h : s.overlaps id t = false) (hj : s.trigger? j = some t') (hne : j ≠ id)
    (ht : t.val.hears source = true) : t'.val.hears source = false := by
  by_contra ht'
  rw [Bool.not_eq_false] at ht'
  have hmem := (mem_liveNewLead).mpr ⟨hj, isNewLead_of_hears ht'⟩
  have hall := List.any_eq_false.mp h (j, t') hmem
  simp [hne, meets_of_hears ht ht'] at hall

/-- A row that was heard before, or that was let through, may be written. -/
theorem HeardOnce.put (h : s.HeardOnce) {id : ℕ} {row : FollowUp}
    (hrow : ∀ t, row.liveTrigger = some t → s.trigger? id = some t ∨ s.overlaps id t = false) :
    (s.put id row).HeardOnce := by
  intro source i j t t' hi hj ht ht'
  rw [trigger?_put] at hi hj
  split at hi
  next hid =>
    obtain ⟨rfl, -⟩ := hid
    split at hj
    next hjd => exact hjd.1
    next hjd =>
      rcases hrow t hi with hbefore | hfree
      · exact h source id j t t' hbefore hj ht ht'
      · by_contra hne
        rw [ne_of_overlaps hfree hj (Ne.symm hne) ht] at ht'
        cases ht'
  · split at hj
    next hjd =>
      obtain ⟨rfl, -⟩ := hjd
      rcases hrow t' hj with hbefore | hfree
      · exact h source i id t t' hi hbefore ht ht'
      · by_contra hne
        rw [ne_of_overlaps hfree hi hne ht'] at ht
        cases ht
    · exact h source i j t t' hi hj ht ht'

/-- A row that hears nothing, or that hears leads nobody heard, may be added. -/
theorem HeardOnce.insert (h : s.HeardOnce) {row : FollowUp}
    (hrow : row.liveTrigger = none ∨ s.liveNewLead = []) : (s.insert row).HeardOnce := by
  have hquiet : ∀ (source : Option ℕ) (j : ℕ) (t t' : AnyTrigger), row.liveTrigger = some t →
      s.trigger? j = some t' → t'.val.hears source = false := by
    intro source j t t' hlive hj
    by_contra ht'
    rw [Bool.not_eq_false] at ht'
    rcases hrow with hnone | hnobody
    · rw [hnone] at hlive
      cases hlive
    · have hmem := (mem_liveNewLead).mpr ⟨hj, isNewLead_of_hears ht'⟩
      rw [hnobody] at hmem
      cases hmem
  intro source i j t t' hi hj ht ht'
  rw [trigger?_insert] at hi hj
  split at hi
  next hid =>
    split at hj
    next hjd => rw [hid, hjd]
    · rw [hquiet source j t t' hi hj] at ht'
      cases ht'
  · split at hj
    · rw [hquiet source i t' t hj hi] at ht
      cases ht
    · exact h source i j t t' hi hj ht ht'

/-! ## What a request can do -/

/-- The account behind a request that asks before it puts a follow-up in place. -/
inductive Asked (s : Account) : Account → Prop where
  | same : Asked s s
  | added {row : FollowUp} (h : row.liveTrigger = none) : Asked s (s.insert row)
  | written {id : ℕ} {row : FollowUp}
      (h : ∀ t, row.liveTrigger = some t → s.trigger? id = some t ∨ s.overlaps id t = false) :
      Asked s (s.put id row)

theorem HeardOnce.asked (h : s.HeardOnce) {s' : Account} (hasked : s.Asked s') :
    s'.HeardOnce := by
  cases hasked with
  | same => exact h
  | added hrow => exact h.insert (.inl hrow)
  | written hrow => exact h.put hrow

theorem trigger?_of_get {id : ℕ} {row : FollowUp} (h : s.get id = .ok row) :
    s.trigger? id = row.liveTrigger := by
  rw [trigger?, (get_ok).mp h, Option.bind_some]

theorem create_asked {now : ℕ} {trigger : AnyTrigger} {steps : List Step}
    {settings : Option Settings} {starter : Bool} {s' : Account}
    (h : s.create now trigger steps settings starter = .ok s') : s.Asked s' := by
  rw [create] at h
  split at h
  · cases h
  · obtain rfl := Except.ok.inj h
    exact .added rfl

/-- A draft changes nothing that is heard. -/
theorem writeDraft_asked {now id : ℕ} {row : FollowUp} (hget : s.get id = .ok row)
    (trigger : Option AnyTrigger) (steps : List Step) (settings : Option Settings) :
    s.Asked (s.put id (row.writeDraft now trigger steps settings)) := by
  refine .written fun t ht => .inl ?_
  rw [trigger?_of_get hget]
  exact ht

theorem saveDraft_asked {now id : ℕ} {trigger : AnyTrigger} {steps : List Step}
    {settings : Settings} {s' : Account}
    (h : s.saveDraft now id trigger steps settings = .ok s') : s.Asked s' := by
  obtain ⟨row, hget, h⟩ := Except.bind_ok.mp h
  obtain rfl := Except.ok.inj h
  exact writeDraft_asked hget _ _ _

theorem edit_asked {now id : ℕ} {edits : List StepEdit} {settings : Option Settings}
    {s' : Account} (h : s.edit now id edits settings = .ok s') : s.Asked s' := by
  obtain ⟨row, hget, h⟩ := Except.bind_ok.mp h
  obtain ⟨steps, -, h⟩ := Except.bind_ok.mp h
  obtain rfl := Except.ok.inj h
  exact writeDraft_asked hget _ _ _

/-- A publish that is let through hears what it asked for, and one that is paused nothing. -/
theorem publish_asked {blank : String → Bool} {now id expected : ℕ} {unknown : List Problem}
    {s' : Account} (h : s.publish blank now id expected unknown = .ok s') : s.Asked s' := by
  obtain ⟨row, hget, h⟩ := Except.bind_ok.mp h
  split at h
  · cases h
  split at h
  · obtain rfl := Except.ok.inj h
    exact .same
  split at h
  · cases h
  split at h
  · cases h
  next hfree =>
    obtain rfl := Except.ok.inj h
    refine .written fun t ht => .inr ?_
    by_cases hpaused : row.status = .paused
    · simp [published, FollowUp.liveTrigger, hpaused] at ht
    · obtain rfl : row.trigger = t := by
        simpa [published, FollowUp.liveTrigger, hpaused] using ht
      by_contra hoverlap
      exact hfree ⟨hpaused, eq_true_of_ne_false hoverlap⟩

theorem pause_asked {now id : ℕ} {s' : Account} (h : s.pause now id = .ok s') : s.Asked s' := by
  obtain ⟨row, hget, h⟩ := Except.bind_ok.mp h
  split at h
  · cases h
  · obtain rfl := Except.ok.inj h
    exact .written fun t ht => nomatch ht

theorem resume_asked {now id : ℕ} {s' : Account} (h : s.resume now id = .ok s') :
    s.Asked s' := by
  obtain ⟨row, hget, h⟩ := Except.bind_ok.mp h
  split at h
  · cases h
  split at h
  · cases h
  next version hlive =>
    split at h
    · cases h
    next hfree =>
      obtain rfl := Except.ok.inj h
      refine .written fun t ht => .inr ?_
      obtain rfl : version.trigger = t := by simpa [FollowUp.liveTrigger, hlive] using ht
      exact eq_false_of_ne_true hfree

theorem turnOff_asked {now id : ℕ} {s' : Account} (h : s.turnOff now id = .ok s') :
    s.Asked s' := by
  obtain ⟨row, hget, h⟩ := Except.bind_ok.mp h
  split at h
  · cases h
  · obtain rfl := Except.ok.inj h
    exact .written fun t ht => nomatch ht

theorem settle_asked {result : Except Refusal Account} (h : ∀ s', result = .ok s' → s.Asked s') :
    s.Asked (s.settle result) := by
  cases result with
  | error refusal => exact .same
  | ok s' => exact h s' rfl

/-! ## *Call new leads* -/

/-- An agent's job changes who calls, and not whom a live follow-up hears. -/
theorem nameCaller_liveTrigger {now agentId : ℕ} {row row' : FollowUp}
    (h : nameCaller now agentId row = some row') : row'.liveTrigger = row.liveTrigger := by
  rw [nameCaller] at h
  split at h
  · cases h
  · obtain rfl := Option.some.inj h
    rw [FollowUp.liveTrigger, FollowUp.liveTrigger]
    cases hlive : row.live with
    | none => rfl
    | some version =>
      cases hcall : withCaller agentId version.steps with
      | none => simp [hcall]
      | some steps => simp [hcall]

theorem makeNewLeadCaller_trigger? (s : Account) (now agentId j : ℕ) :
    (s.makeNewLeadCaller now agentId).1.trigger? j = (s.ensureCallNewLeads now).trigger? j := by
  rw [makeNewLeadCaller]
  split
  next row hrow =>
    obtain ⟨before, hget, hname⟩ := Option.bind_eq_some_iff.mp hrow
    rw [trigger?_put]
    split
    next hid =>
      obtain ⟨rfl, -⟩ := hid
      rw [nameCaller_liveTrigger hname, trigger?, hget, Option.bind_some]
    · rfl
  · rfl

theorem HeardOnce.congr (h : s.HeardOnce) {s' : Account}
    (hsame : ∀ j, s'.trigger? j = s.trigger? j) : s'.HeardOnce := by
  intro source i j t t' hi hj
  rw [hsame] at hi hj
  exact h source i j t t' hi hj

theorem HeardOnce.ensure (h : s.HeardOnce) (now : ℕ)
    (halone : s.rows.any FollowUp.starter = true ∨ s.liveNewLead = []) :
    (s.ensureCallNewLeads now).HeardOnce := by
  rw [ensureCallNewLeads]
  split
  · exact h
  next hstarter => exact h.insert (.inr (halone.resolve_left hstarter))

/-- *Call new leads*, given beside a follow-up that hears new leads, is a second one. -/
theorem not_heardOnce_ensure (now : ℕ) (hstarter : s.rows.any FollowUp.starter = false)
    (hlive : s.liveNewLead ≠ []) : ¬ (s.ensureCallNewLeads now).HeardOnce := by
  intro h
  obtain ⟨⟨id, t⟩, hmem⟩ := List.exists_mem_of_ne_nil _ hlive
  obtain ⟨htrigger, hnew⟩ := (mem_liveNewLead).mp hmem
  obtain ⟨source, hsource⟩ := exists_hears hnew
  have hlt := lt_of_trigger? htrigger
  have hboth : (s.ensureCallNewLeads now).trigger? id = some t ∧
      (s.ensureCallNewLeads now).trigger? s.rows.length = some ⟨.newLead none none, rfl⟩ := by
    rw [ensureCallNewLeads, hstarter, if_neg Bool.false_ne_true, trigger?_insert, trigger?_insert,
      if_neg (by omega), if_pos rfl]
    exact ⟨htrigger, rfl⟩
  have hid := h source id s.rows.length t _ hboth.1 hboth.2 hsource rfl
  omega

/-! ## Every run -/

/-- **One request keeps it**, where the job is not made beside another follow-up. -/
theorem step_heardOnce (blank : String → Bool) (h : s.HeardOnce) {action : ℕ × Action}
    (halone : s.Alone action) : (s.step blank action).HeardOnce := by
  obtain ⟨now, action⟩ := action
  cases action with
  | create trigger steps settings starter =>
    exact h.asked (settle_asked fun _ hok => create_asked hok)
  | saveDraft id trigger steps settings =>
    exact h.asked (settle_asked fun _ hok => saveDraft_asked hok)
  | edit id edits settings => exact h.asked (settle_asked fun _ hok => edit_asked hok)
  | publish id expected unknown => exact h.asked (settle_asked fun _ hok => publish_asked hok)
  | pause id => exact h.asked (settle_asked fun _ hok => pause_asked hok)
  | resume id => exact h.asked (settle_asked fun _ hok => resume_asked hok)
  | turnOff id => exact h.asked (settle_asked fun _ hok => turnOff_asked hok)
  | makeNewLeadCaller agentId =>
    exact (h.ensure now halone).congr (makeNewLeadCaller_trigger? s now agentId)
  | newLead source =>
    simp only [step, newLeadFollowUp]
    split
    next hnobody => exact h.ensure now (.inr hnobody)
    · exact h

/-- **A job made beside another follow-up breaks it.** -/
theorem alone_of_step (blank : String → Bool) {action : ℕ × Action}
    (h : (s.step blank action).HeardOnce) : s.Alone action := by
  obtain ⟨now, action⟩ := action
  cases action with
  | makeNewLeadCaller agentId =>
    by_contra hno
    obtain ⟨hstarter, hlive⟩ := not_or.mp hno
    refine not_heardOnce_ensure now (eq_false_of_ne_true hstarter) hlive (h.congr fun j => ?_)
    exact (makeNewLeadCaller_trigger? s now agentId j).symm
  | _ => trivial

theorem start_heardOnce : start.HeardOnce := by
  intro source i j t t' hi
  cases hi

/-- **At most one live follow-up hears a lead in every state of a run** if and only if the job
is never made for an account that lacks *Call new leads* while another one hears new leads. -/
theorem heard_once_iff (blank : String → Bool) (actions : List (ℕ × Action)) :
    Run.Guarded (step blank) Alone start actions ↔
      ∀ before after, actions = before ++ after → (run blank before).HeardOnce := by
  constructor
  · rintro h before after rfl
    exact @Run.Guarded.inv _ _ (step blank) Alone HeardOnce
      (fun s action hs hc => step_heardOnce blank hs hc) start before start_heardOnce h.begins
  · intro h
    refine Run.Guarded.of_at fun before action after hsplit => ?_
    have hnext := h (before ++ [action]) after (by rw [hsplit, List.append_assoc]; rfl)
    rw [run, List.foldl_append] at hnext
    exact alone_of_step blank hnext

/-! ## A job made beside a follow-up -/

/-- A follow-up is published for the leads of source 5, and an agent is made for the job. -/
def jobBeside : List (ℕ × Action) :=
  [(0, .create ⟨.newLead (some [5]) none, rfl⟩ defaultNewLeadSteps none false),
    (1, .publish 0 0 []), (2, .makeNewLeadCaller 7)]

/-- **A lead of that source has two.** -/
theorem jobBeside_heard_twice :
    ¬ ∀ (blank : String → Bool) (actions : List (ℕ × Action)), (run blank actions).HeardOnce := by
  intro h
  have hid := h String.isEmpty jobBeside (some 5) 0 1 ⟨.newLead (some [5]) none, rfl⟩
    ⟨.newLead none none, rfl⟩ (by decide +kernel) (by decide +kernel) rfl rfl
  cases hid

end Account

end Calevate.FollowUps
