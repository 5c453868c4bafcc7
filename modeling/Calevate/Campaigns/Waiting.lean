import Calevate.Campaigns.Scheduler

/-!
# A scheduled campaign has a schedule

`StoredOk` is the invariant: whatever is in the `schedule` column parses, and a campaign
whose status is `scheduled` has something in it. Every writer of the two columns keeps it
but one branch of one: a repeat whose occurrence is skipped after its rule has run out is
cleared while its status stays. `waiting_iff` says that this is the only way.
-/

namespace Calevate.Campaigns

open Lib

/-! ## The invariant of the row -/

/-- The `schedule` column is readable, and there when the status says so. -/
structure StoredOk (c : Campaign) : Prop where
  scheduled : c.status = .scheduled → c.schedule ≠ none
  parses : ∀ raw, c.schedule = some raw → (parseSchedule raw).isSome = true

/-- The repeat `_validated_rule` lets through is read back. -/
theorem validatedRule_ok {days : List ℕ} {atMinute : ℕ} {ends : Option ℕ} {now : ℕ}
    {rule : Recurrence} (h : validatedRule days atMinute ends now = .ok rule) :
    rule.days ≠ [] ∧ ∀ day ∈ rule.days, day ∈ isoWeekdays := by
  unfold validatedRule at h
  dsimp only at h
  split at h
  · exact nomatch h
  · rename_i hne
    split at h
    · exact nomatch h
    · rename_i hdays
      split at h
      · exact nomatch h
      · split at h
        · exact nomatch h
        · injection h with h
          subst h
          push Not at hdays
          exact ⟨hne, hdays⟩

theorem ruleFrom_isSome {days : List ℕ} {atMinute : ℕ} {ends : Option ℕ} (hne : days ≠ [])
    (hdays : ∀ day ∈ days, day ∈ isoWeekdays) :
    (ruleFrom (some { days := days, atMinute := atMinute }) ends).isSome = true := by
  have hnil : ¬ days.dedup.insertionSort (· ≤ ·) = [] := by
    obtain ⟨day, hday⟩ := List.exists_mem_of_ne_nil days hne
    intro h
    have : day ∈ days.dedup.insertionSort (· ≤ ·) :=
      (List.mem_insertionSort _).mpr (List.mem_dedup.mpr hday)
    rw [h] at this
    exact nomatch this
  have hin : ¬ ∃ day ∈ days.dedup.insertionSort (· ≤ ·), day ∉ isoWeekdays := by
    rintro ⟨day, hday, hnot⟩
    exact hnot (hdays day (List.mem_dedup.mp ((List.mem_insertionSort _).mp hday)))
  rw [ruleFrom]
  dsimp only
  rw [if_neg (not_or.mpr ⟨hnil, hin⟩)]
  rfl

theorem recurrencePayload_parses {rule : Recurrence} (hne : rule.days ≠ [])
    (hdays : ∀ day ∈ rule.days, day ∈ isoWeekdays) (nextAt : ℕ) :
    (parseSchedule (recurrencePayload rule nextAt)).isSome = true := by
  have hrule : (ruleFrom (some { days := rule.days, atMinute := rule.atMinute })
      rule.ends).isSome = true := ruleFrom_isSome hne hdays
  obtain ⟨read, hread⟩ := Option.isSome_iff_exists.mp hrule
  simp [parseSchedule, recurrencePayload, hread]

/-- Reading back does not look at when the next occurrence is, nor at the last block. -/
theorem parses_moved {raw : StoredSchedule} (h : (parseSchedule raw).isSome = true) (nextAt : ℕ)
    (blocked : Option (List String)) :
    (parseSchedule { raw with startAt := nextAt, lastBlocked := blocked }).isSome = true := by
  unfold parseSchedule at h ⊢
  cases hkind : raw.kind with
  | oneTime => rfl
  | recurring =>
    rw [hkind] at h
    dsimp only at h ⊢
    cases hrule : ruleFrom raw.rule raw.ends with
    | none => rw [hrule] at h; exact nomatch h
    | some rule => rfl

/-! ## The writers of the row -/

section Writers

variable {c c' : Campaign}

theorem storedOk_arm {payload : StoredSchedule} (hp : (parseSchedule payload).isSome = true)
    (h : c.arm payload = .ok c') : StoredOk c' := by
  unfold Campaign.arm at h
  split at h
  · injection h with h
    subst h
    refine ⟨fun _ => nofun, ?_⟩
    rintro raw ⟨⟩
    exact hp
  · exact nomatch h

theorem storedOk_scheduleCampaign {startAt now : ℕ} (h : scheduleCampaign c startAt now = .ok c') :
    StoredOk c' := by
  unfold scheduleCampaign at h
  split at h
  · exact nomatch h
  · split at h
    · exact nomatch h
    · exact storedOk_arm rfl h

theorem storedOk_scheduleRecurrence {days : List ℕ} {atMinute : ℕ} {ends : Option ℕ} {now : ℕ}
    (h : scheduleRecurrence c days atMinute ends now = .ok c') : StoredOk c' := by
  unfold scheduleRecurrence at h
  split at h
  · exact nomatch h
  · rename_i rule hrule
    split at h
    · exact nomatch h
    · rename_i first hfirst
      obtain ⟨hne, hdays⟩ := validatedRule_ok hrule
      exact storedOk_arm (recurrencePayload_parses hne hdays first) h

/-- Without a schedule a row is in order unless its status is `scheduled`. -/
theorem storedOk_cleared (hs : c.status ≠ .scheduled) (hn : c.schedule = none) : StoredOk c := by
  refine ⟨fun h => absurd h hs, ?_⟩
  intro raw hraw
  rw [hn] at hraw
  exact nomatch hraw

theorem unscheduleCampaign_ok (h : unscheduleCampaign c = .ok c') :
    c'.schedule = none ∧ c'.status = (if c.status = .scheduled then .draft else c.status) := by
  unfold unscheduleCampaign at h
  split at h
  · exact nomatch h
  · injection h with h
    subst h
    exact ⟨rfl, rfl⟩

theorem storedOk_unscheduleCampaign (h : unscheduleCampaign c = .ok c') : StoredOk c' := by
  obtain ⟨hn, hs⟩ := unscheduleCampaign_ok h
  apply storedOk_cleared _ hn
  rw [hs]
  split
  · exact nofun
  · assumption

/-- A write of the status keeps a row in order unless it says `scheduled`. -/
theorem StoredOk.setStatus (h : StoredOk c) {status : CampaignStatus} (hs : status ≠ .scheduled) :
    StoredOk (c.setStatus status) :=
  ⟨fun hst => absurd hst hs, h.parses⟩

theorem storedOk_archiveCampaign (h : StoredOk c) (harch : archiveCampaign c = .ok c') :
    StoredOk c' := by
  unfold archiveCampaign at harch
  split at harch
  · injection harch with harch
    exact harch ▸ h
  · split at harch
    · rename_i hrun
      rw [setCampaignStatus, if_pos (by simp [hrun])] at harch
      injection harch with harch
      subst harch
      exact storedOk_cleared (by simp [Campaign.putAway, Campaign.setStatus]) rfl
    · cases hun : unscheduleCampaign c with
      | error problem => rw [hun] at harch; exact nomatch harch
      | ok d =>
        rw [hun] at harch
        injection harch with harch
        subst harch
        exact storedOk_cleared ((storedOk_unscheduleCampaign hun).scheduled.mt
          (by rw [(unscheduleCampaign_ok hun).1]; exact not_not.mpr rfl)) rfl
    · rename_i hrun hsch
      injection harch with harch
      subst harch
      exact storedOk_cleared (by simpa [Campaign.putAway] using hsch) rfl

theorem storedOk_recordBlock (h : StoredOk c) (rules : List String) :
    StoredOk (recordBlock c rules) := by
  unfold recordBlock
  split
  · refine ⟨fun hs hnone => ?_, ?_⟩
    · exact h.scheduled hs (by simpa [Campaign.setSchedule] using hnone)
    · intro raw hraw
      obtain ⟨raw₀, hraw₀, rfl⟩ := Option.map_eq_some_iff.mp hraw
      have hp := h.parses raw₀ hraw₀
      split
      · exact hp
      · exact parses_moved hp raw₀.startAt (some rules)
  · exact h

theorem claimOccurrence_some {key : ℕ} {stored : StoredSchedule}
    (h : claimOccurrence c key = some stored) :
    c.schedule = some stored ∧ c.status = .scheduled ∧ stored.kind = .recurring ∧
      stored.startAt = key := by
  unfold claimOccurrence at h
  rw [Option.filter_eq_some_iff] at h
  exact ⟨h.1, by simpa using h.2⟩

/-- Moved on, a claimed repeat stays readable; cleared, the row must not be waiting. -/
theorem storedOk_rewriteSchedule {stored : StoredSchedule}
    (hp : (parseSchedule stored).isSome = true) (nextAt : Option ℕ)
    (hs : nextAt = none → c.status ≠ .scheduled) : StoredOk (rewriteSchedule c stored nextAt) := by
  cases nextAt with
  | none => exact storedOk_cleared (hs rfl) rfl
  | some at_ =>
    refine ⟨fun _ => nofun, ?_⟩
    rintro raw ⟨⟩
    exact parses_moved hp at_ none

theorem storedOk_completeOrRearm (h : StoredOk c) : StoredOk (completeOrRearm c) := by
  unfold completeOrRearm
  split
  · split
    · rename_i hrec
      refine ⟨fun _ hnone => ?_, h.parses⟩
      have hnone' : c.schedule = none := hnone
      rw [hnone'] at hrec
      exact nomatch hrec
    · exact h.setStatus nofun
  · exact h

end Writers

/-! ## Every step -/

/-- The read is of a repeat whose occurrence is still on the row, comes too late to be
fired, and was the last its rule had at the tick's clock. -/
def skipsLast (c : Campaign) (read : Read) : Bool :=
  match read.due.recurrence with
  | none => false
  | some rule =>
    (claimOccurrence c read.due.startAt).isSome ∧
      read.due.startAt + recurrenceCatchup < read.now ∧ rule.nextAfter read.now = none

/-- The step does not skip a repeat past its last occurrence. -/
def KeepsOccurrence (s : State) : Action → Prop
  | .fire k _ => ∀ read ∈ s.reads[k]?, skipsLast s.row read = false
  | _ => True

instance (s : State) (action : Action) : Decidable (KeepsOccurrence s action) := by
  cases action <;> unfold KeepsOccurrence <;> infer_instance

variable {s : State}

theorem storedOk_request {answer : Except Problem Campaign} (h : StoredOk s.row)
    (hok : ∀ row, answer = .ok row → StoredOk row) : StoredOk (s.request answer).row := by
  unfold State.request
  split
  · rename_i row
    exact hok row rfl
  · exact h

theorem launchCas_ok {c c' : Campaign} (h : launchCas c = some c') :
    c' = c.setStatus .running ∧ c.waiting = true ∧ c.archived = false := by
  unfold launchCas at h
  split at h
  · rename_i hw
    injection h with h
    exact ⟨h.symm, hw⟩
  · exact nomatch h

theorem storedOk_fireRecurrence (h : StoredOk s.row) {read : Read} {rule : Recurrence}
    {others : List String} (hrec : read.due.recurrence = some rule)
    (hkeep : skipsLast s.row read = false) : StoredOk (fireRecurrence s read rule others).row := by
  unfold fireRecurrence
  split
  · exact h
  · rename_i stored hclaim
    obtain ⟨hraw, hstatus, -⟩ := claimOccurrence_some hclaim
    have hp := h.parses stored hraw
    split
    · -- the occurrence is skipped, and the rule has another one
      rename_i hlate
      apply storedOk_rewriteSchedule hp
      intro hnone
      simp [skipsLast, hrec, hclaim, hlate, hnone] at hkeep
    · split
      · split
        · exact h
        · rename_i row hcas
          obtain ⟨rfl, -⟩ := launchCas_ok hcas
          exact storedOk_rewriteSchedule hp _ fun _ => nofun
      · exact storedOk_recordBlock h _

theorem storedOk_fireSchedule (h : StoredOk s.row) {read : Read} {others : List String}
    (hkeep : skipsLast s.row read = false) : StoredOk (fireSchedule s read others).row := by
  unfold fireSchedule
  split
  · unfold fireOneTime
    split
    · split
      · exact h
      · rename_i row hexp
        unfold expireCas at hexp
        split at hexp
        · injection hexp with hexp
          subst hexp
          exact storedOk_cleared nofun rfl
        · exact nomatch hexp
    · split
      · exact h
      · split <;> exact h
  · rename_i rule hrec
    exact storedOk_fireRecurrence h hrec hkeep

theorem storedOk_proceed (h : StoredOk s.row) (flight : Flight) :
    StoredOk (proceed s flight).row := by
  unfold proceed
  split
  · exact storedOk_recordBlock h _
  · split
    · exact h
    · rename_i row hcas
      obtain ⟨rfl, -⟩ := launchCas_ok hcas
      split <;> exact h.setStatus nofun

theorem storedOk_step (action : Action) (h : StoredOk s.row) (hkeep : KeepsOccurrence s action) :
    StoredOk (step s action).row := by
  cases action with
  | scheduleCampaign startAt now =>
    exact storedOk_request h fun _ hok => storedOk_scheduleCampaign hok
  | scheduleRecurrence days atMinute ends now =>
    exact storedOk_request h fun _ hok => storedOk_scheduleRecurrence hok
  | unscheduleCampaign => exact storedOk_request h fun _ hok => storedOk_unscheduleCampaign hok
  | launchCampaign others =>
    simp only [step]
    split <;> exact h
  | proceed k =>
    simp only [step]
    split
    · exact h
    · exact storedOk_proceed (s := s.land k) h _
  | setStatus toStatus fromStatuses =>
    simp only [step]
    split
    · rename_i hcall
      have hto : toStatus ≠ .scheduled := by
        rintro rfl
        simp [statusCalls] at hcall
      split
      · rename_i row hset
        unfold setCampaignStatus at hset
        split at hset
        · injection hset with hset
          subst hset
          exact h.setStatus hto
        · split at hset
          · injection hset with hset
            exact hset ▸ h
          · exact nomatch hset
      · exact h
    · exact h
  | archive =>
    simp only [step]
    split
    · exact h
    · exact storedOk_request h fun _ hok => storedOk_archiveCampaign h hok
  | restore => exact ⟨h.scheduled, h.parses⟩
  | readDue now => exact h
  | fire k others =>
    simp only [step]
    split
    · exact h
    · rename_i read hread
      exact storedOk_fireSchedule (s := s.takeRead k) h (hkeep read hread)
  | completeOrRearm => exact storedOk_completeOrRearm h

/-! ## What a waiting campaign can count on -/

/-- **A campaign that is `scheduled` has a schedule that parses and an occurrence to come**:
from its start on a tick reads it as due, and it can be unscheduled and archived. -/
def Waiting (c : Campaign) : Prop :=
  c.status = .scheduled →
    (∃ raw due, c.schedule = some raw ∧ parseSchedule raw = some due ∧
      ∀ now, due.startAt ≤ now → dueSchedules c now = [due]) ∧
    (∃ c', unscheduleCampaign c = .ok c') ∧ ∃ c', archiveCampaign c = .ok c'

theorem StoredOk.waiting {c : Campaign} (h : StoredOk c) : Waiting c := by
  intro hs
  obtain ⟨raw, hraw⟩ := Option.ne_none_iff_exists'.mp (h.scheduled hs)
  obtain ⟨due, hdue⟩ := Option.isSome_iff_exists.mp (h.parses raw hraw)
  have hun : unscheduleCampaign c =
      .ok ((c.setSchedule none).setStatus (if c.status = .scheduled then .draft else c.status)) := by
    rw [unscheduleCampaign, hraw]
  refine ⟨⟨raw, due, hraw, hdue, ?_⟩, ⟨_, hun⟩, ?_⟩
  · intro now hnow
    simp [dueSchedules, hs, hraw, hdue, hnow]
  · unfold archiveCampaign
    split
    · exact ⟨c, rfl⟩
    · rw [hs]
      dsimp only
      rw [hun]
      exact ⟨_, rfl⟩

/-- A repeat skipped past its last occurrence leaves the row `scheduled` with nothing. -/
theorem not_waiting_of_skipsLast {k : ℕ} {read : Read} {others : List String}
    (hread : s.reads[k]? = some read) (hskip : skipsLast s.row read = true) :
    ¬ Waiting (step s (.fire k others)).row := by
  unfold skipsLast at hskip
  split at hskip
  · exact nomatch hskip
  · rename_i rule hrec
    obtain ⟨hclaim, hlate, hnone⟩ := of_decide_eq_true hskip
    obtain ⟨stored, hstored⟩ := Option.isSome_iff_exists.mp hclaim
    obtain ⟨-, hstatus, -⟩ := claimOccurrence_some hstored
    have hrow : (step s (.fire k others)).row = s.row.setSchedule none := by
      simp only [step, hread, fireSchedule, hrec, fireRecurrence]
      rw [show (s.takeRead k).row = s.row from rfl, hstored]
      dsimp only
      rw [if_pos hlate, hnone]
      rfl
    rw [hrow]
    intro hwait
    obtain ⟨⟨raw, due, hraw, -⟩, -⟩ := hwait hstatus
    exact nomatch hraw

/-- **Exactly when every state along a run is in order**: when no step of it skips a repeat
past its last occurrence. -/
theorem waiting_iff (actions : List Action) :
    (∀ n, Waiting (run (actions.take n)).row) ↔ Run.Guarded step KeepsOccurrence start actions := by
  have hstart : StoredOk start.row := storedOk_cleared nofun rfl
  unfold run
  generalize start = s at hstart ⊢
  -- along the actions, the state generalised; a state in order is left by a step out of order
  -- or by one that keeps the occurrence
  induction actions generalizing s with
  | nil =>
    refine ⟨fun _ => trivial, fun _ n => ?_⟩
    rw [List.take_nil]
    exact hstart.waiting
  | cons action actions ih =>
    constructor
    · intro h
      have hkeep : KeepsOccurrence s action := by
        cases action with
        | fire k others =>
          intro read hread
          by_contra hskip
          exact not_waiting_of_skipsLast hread (by simpa using hskip) (h 1)
        | _ => trivial
      exact ⟨hkeep, (ih (step s action) (storedOk_step action hstart hkeep)).mp fun n => h (n + 1)⟩
    · rintro ⟨hkeep, hrest⟩ n
      cases n with
      | zero => exact hstart.waiting
      | succ n => exact (ih (step s action) (storedOk_step action hstart hkeep)).mpr hrest n

/-- Ten in the morning every day, to the end of the first; the tick comes the day after. -/
def repeatOutlived : List Action :=
  [.scheduleRecurrence [1, 2, 3, 4, 5, 6, 7] 600 (some (1790086400 * Calendar.second))
      (1790000000 * Calendar.second),
    .readDue (1790172800 * Calendar.second), .fire 0 []]

/-- The repeat is skipped, its column cleared, and the campaign left `scheduled`: it can be
neither unscheduled nor archived. -/
theorem repeatOutlived_stranded :
    ¬ Waiting (run repeatOutlived).row ∧
      unscheduleCampaign (run repeatOutlived).row = .error (.notScheduled .scheduled) ∧
      archiveCampaign (run repeatOutlived).row = .error (.notScheduled .scheduled) := by
  have hrow : (run repeatOutlived).row = ⟨.scheduled, none, false⟩ := by decide +kernel
  rw [hrow]
  refine ⟨fun h => ?_, rfl, rfl⟩
  obtain ⟨⟨raw, due, hraw, -⟩, -⟩ := h rfl
  exact nomatch hraw

end Calevate.Campaigns
