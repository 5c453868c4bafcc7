import Mathlib.Data.List.Nodup
import Calevate.Campaigns.Waiting

/-!
# The scheduler and the occurrence on the row

Whenever the scheduler launches, expires or moves a repeat on, the row should carry the
very occurrence the tick had read (`Fired.Matches`). The recurring path checks this under
the row's lock and always does. The one-time path does not look at the schedule again, and
`fired_matches` is what is left of it: in a run where the `schedule` column has not been
written between a tick's read and the statement it acts by, every act is on the occurrence
read, and no stored occurrence launches the campaign twice.

The invariant `Watched` says what a read that is still current knows of the row.
-/

namespace Calevate.Campaigns

open Lib

/-! ## What is to hold -/

/-- The row the scheduler acted on carried the occurrence that was read. -/
def Fired.Matches (e : Fired) : Prop :=
  e.row.status = .scheduled ∧ ∃ raw ∈ e.row.schedule,
    raw.startAt = e.read.due.startAt ∧
    (raw.kind = .recurring ↔ e.read.due.recurrence.isSome = true)

instance (e : Fired) : Decidable e.Matches := inferInstanceAs (Decidable (_ ∧ _))

/-- The stored occurrences that launched the campaign. -/
def launches (fired : List Fired) : List ℕ :=
  (fired.filter fun e => e.effect = .launched).map Fired.version

/-- The tick's read a launch goes back to. -/
def Flight.read : Flight → Option Read
  | .launching read => read
  | .blocking _ => none

/-- The statement a one-time read is acted on by finds the `schedule` column as it was read,
or matches no row. -/
def Undisturbed (s : State) : Action → Prop
  | .fire k _ => ∀ read ∈ s.reads[k]?, read.due.recurrence = none →
      read.due.startAt + grace < read.now → s.row.status = .scheduled → s.version = read.version
  | .proceed k => ∀ read ∈ s.flights[k]?.bind Flight.read,
      s.row.waiting = true ∧ s.row.archived = false → s.version = read.version
  | _ => True

instance (s : State) : (action : Action) → Decidable (Undisturbed s action)
  | .fire k _ => inferInstanceAs (Decidable (∀ read ∈ s.reads[k]?, read.due.recurrence = none →
      read.due.startAt + grace < read.now → s.row.status = .scheduled → s.version = read.version))
  | .proceed k => inferInstanceAs (Decidable (∀ read ∈ s.flights[k]?.bind Flight.read,
      s.row.waiting = true ∧ s.row.archived = false → s.version = read.version))
  | .scheduleCampaign .. | .scheduleRecurrence .. | .unscheduleCampaign | .launchCampaign _
  | .setStatus .. | .archive | .restore | .readDue _ | .completeOrRearm => isTrue trivial

/-! ## The invariant -/

/-- A read that is still current: the row carries what it read and is no draft. -/
def Read.Current (read : Read) (row : Campaign) : Prop :=
  row.status ≠ .draft ∧ ∃ raw, row.schedule = some raw ∧ parseSchedule raw = some read.due

/-- A read knows no later write than the last, and if it knows that one it is current. -/
def Read.Watched (read : Read) (row : Campaign) (version : ℕ) : Prop :=
  read.version ≤ version ∧ (read.version = version → read.Current row)

/-- A launched occurrence has been written over, or is a single start that is not waiting. -/
def Spent (row : Campaign) (version launched : ℕ) : Prop :=
  launched < version ∨ (launched = version ∧ row.waiting = false ∧
    ∀ raw, row.schedule = some raw → raw.kind = .oneTime)

/-- The invariant of every undisturbed run. -/
structure Watched (s : State) : Prop where
  reads : ∀ read ∈ s.reads, read.Watched s.row s.version
  flights : ∀ read, Flight.launching (some read) ∈ s.flights →
    read.Watched s.row s.version ∧ read.due.recurrence = none
  matched : ∀ e ∈ s.fired, e.Matches
  spent : ∀ v ∈ launches s.fired, Spent s.row s.version v
  once : (launches s.fired).Nodup

theorem watched_start : Watched start where
  reads := fun _ h => nomatch h
  flights := fun _ h => nomatch h
  matched := fun _ h => nomatch h
  spent := fun _ h => nomatch h
  once := List.nodup_nil

variable {s : State}

/-! ## How the state moves -/

/-- A write to the `schedule` column puts every read and every launch behind it. -/
theorem watched_write (h : Watched s) (row : Campaign) : Watched (s.write row) where
  reads := by
    intro read hread
    have hle := (h.reads read hread).1
    exact ⟨Nat.le_succ_of_le hle, fun heq => absurd heq (by change _ ≠ s.version + 1; omega)⟩
  flights := by
    intro read hread
    obtain ⟨⟨hle, -⟩, hone⟩ := h.flights read hread
    exact ⟨⟨Nat.le_succ_of_le hle, fun heq => absurd heq (by change _ ≠ s.version + 1; omega)⟩,
      hone⟩
  matched := h.matched
  spent := by
    intro v hv
    left
    change v < s.version + 1
    rcases h.spent v hv with hlt | ⟨heq, -⟩ <;> omega
  once := h.once

/-- What a statement that keeps the occurrence may do to the row. -/
structure Keeps (c c' : Campaign) : Prop where
  draft : c.status ≠ .draft → c'.status ≠ .draft
  schedule : ∀ raw, c.schedule = some raw →
    ∃ raw', c'.schedule = some raw' ∧ raw'.kind = raw.kind ∧ parseSchedule raw' = parseSchedule raw
  waiting : c.waiting = false → (∀ raw, c.schedule = some raw → raw.kind = .oneTime) →
    c'.waiting = false ∧ ∀ raw, c'.schedule = some raw → raw.kind = .oneTime

theorem Keeps.refl (c : Campaign) : Keeps c c :=
  ⟨id, fun raw h => ⟨raw, h, rfl, rfl⟩, fun hw hk => ⟨hw, hk⟩⟩

theorem Read.Watched.keeps {read : Read} {c c' : Campaign} {version : ℕ}
    (h : read.Watched c version) (hk : Keeps c c') : read.Watched c' version := by
  refine ⟨h.1, fun heq => ?_⟩
  obtain ⟨hd, raw, hraw, hparse⟩ := h.2 heq
  obtain ⟨raw', hraw', -, hp⟩ := hk.schedule raw hraw
  exact ⟨hk.draft hd, raw', hraw', hp.trans hparse⟩

theorem watched_keep (h : Watched s) {row : Campaign} (hk : Keeps s.row row) :
    Watched (s.keep row) where
  reads := fun read hread => (h.reads read hread).keeps hk
  flights := fun read hread => ⟨(h.flights read hread).1.keeps hk, (h.flights read hread).2⟩
  matched := h.matched
  spent := by
    intro v hv
    rcases h.spent v hv with hlt | ⟨heq, hw, hone⟩
    · exact Or.inl hlt
    · exact Or.inr ⟨heq, hk.waiting hw hone⟩
  once := h.once

theorem watched_request (h : Watched s) (answer : Except Problem Campaign) :
    Watched (s.request answer) := by
  unfold State.request
  split
  · exact watched_write h _
  · exact h

theorem watched_takeRead (h : Watched s) (k : ℕ) : Watched (s.takeRead k) :=
  ⟨fun read hread => h.reads read (List.mem_of_mem_eraseIdx hread), h.flights, h.matched, h.spent,
    h.once⟩

theorem watched_land (h : Watched s) (k : ℕ) : Watched (s.land k) :=
  ⟨h.reads, fun read hread => h.flights read (List.mem_of_mem_eraseIdx hread), h.matched, h.spent,
    h.once⟩

/-- A launch takes off with the read it is for. -/
theorem watched_takeOff (h : Watched s) {flight : Flight}
    (hf : ∀ read, flight = .launching (some read) →
      read.Watched s.row s.version ∧ read.due.recurrence = none) :
    Watched (s.takeOff flight) where
  reads := h.reads
  flights := by
    intro read hread
    rcases List.mem_append.mp hread with hold | hnew
    · exact h.flights read hold
    · exact hf read (List.mem_singleton.mp hnew).symm
  matched := h.matched
  spent := h.spent
  once := h.once

/-- The scheduler acted, and not by a launch. -/
theorem watched_record (h : Watched s) {effect : Effect} {read : Read} (hne : effect ≠ .launched)
    (hm : Fired.Matches ⟨effect, read, s.row, s.version⟩) : Watched (s.record effect read) := by
  have hsame : launches (s.record effect read).fired = launches s.fired := by
    simp [launches, State.record, hne]
  refine ⟨h.reads, h.flights, ?_, ?_, ?_⟩
  · intro e he
    rcases List.mem_append.mp he with hold | hnew
    · exact h.matched e hold
    · rw [List.mem_singleton.mp hnew]
      exact hm
  · rw [hsame]
    exact h.spent
  · rw [hsame]
    exact h.once

/-! ## A launch by the scheduler -/

/-- The row was waiting, so what it carries has launched nothing yet. -/
theorem not_launched (h : Watched s) (hw : s.row.waiting = true) :
    s.version ∉ launches s.fired := by
  intro hv
  rcases h.spent s.version hv with hlt | ⟨-, hnot, -⟩
  · omega
  · rw [hw] at hnot
    exact nomatch hnot

theorem launches_record (s : State) (read : Read) :
    launches (s.record .launched read).fired = launches s.fired ++ [s.version] := by
  simp [launches, State.record]

/-- **A launch**, of the occurrence on the row, whether the column is written after it or
the launched start stays there. -/
theorem watched_launch (h : Watched s) {read : Read} (hw : s.row.waiting = true)
    (hm : Fired.Matches ⟨.launched, read, s.row, s.version⟩) {s' : State}
    (hfired : s'.fired = (s.record .launched read).fired)
    (hrest : Watched { s' with fired := s.fired })
    (hspent : Spent s'.row s'.version s.version) : Watched s' := by
  refine ⟨hrest.reads, hrest.flights, ?_, ?_, ?_⟩
  · rw [hfired]
    intro e he
    rcases List.mem_append.mp he with hold | hnew
    · exact h.matched e hold
    · rw [List.mem_singleton.mp hnew]
      exact hm
  · rw [hfired, launches_record]
    intro v hv
    rcases List.mem_append.mp hv with hold | hnew
    · exact hrest.spent v hold
    · rw [List.mem_singleton.mp hnew]
      exact hspent
  · rw [hfired, launches_record]
    exact List.nodup_append.mpr ⟨h.once, List.nodup_singleton _, by
      intro a ha b hb
      rintro rfl
      exact not_launched h hw (List.mem_singleton.mp hb ▸ ha)⟩

/-! ## The statements -/

theorem parses_oneTime {raw : StoredSchedule} {due : DueSchedule}
    (h : parseSchedule raw = some due) (hone : due.recurrence = none) :
    raw.kind = .oneTime ∧ raw.startAt = due.startAt := by
  unfold parseSchedule at h
  cases hkind : raw.kind with
  | oneTime =>
    rw [hkind] at h
    injection h with h
    exact ⟨rfl, by rw [← h]⟩
  | recurring =>
    rw [hkind] at h
    dsimp only at h
    split at h
    · exact nomatch h
    · injection h with h
      rw [← h] at hone
      exact nomatch hone

/-- A one-time read that is current, at a row that is `scheduled`. -/
theorem matches_oneTime {read : Read} {row : Campaign} {effect : Effect} {version : ℕ}
    (hone : read.due.recurrence = none) (hcur : read.Current row) (hs : row.status = .scheduled) :
    Fired.Matches ⟨effect, read, row, version⟩ := by
  obtain ⟨-, raw, hraw, hparse⟩ := hcur
  obtain ⟨hkind, hstart⟩ := parses_oneTime hparse hone
  refine ⟨hs, raw, hraw, hstart, ?_⟩
  simp [hkind, hone]

theorem keeps_setStatus {c : Campaign} {status : CampaignStatus} (hd : status ≠ .draft)
    (hs : status ≠ .scheduled) : Keeps c (c.setStatus status) :=
  ⟨fun _ => hd, fun raw h => ⟨raw, h, rfl, rfl⟩, fun _ hk =>
    ⟨by simp [Campaign.waiting, Campaign.setStatus, hd, hs], hk⟩⟩

theorem keeps_recordBlock (c : Campaign) (rules : List String) : Keeps c (recordBlock c rules) := by
  unfold recordBlock
  split
  · refine ⟨id, fun raw hraw => ?_, fun hw hk => ⟨hw, fun raw hraw => ?_⟩⟩
    · refine ⟨_, by rw [Campaign.setSchedule, hraw]; rfl, ?_⟩
      dsimp only
      split
      · exact ⟨rfl, rfl⟩
      · exact ⟨rfl, rfl⟩
    · obtain ⟨raw₀, hraw₀, rfl⟩ := Option.map_eq_some_iff.mp hraw
      have hone := hk raw₀ hraw₀
      split
      · exact hone
      · exact hone
  · exact Keeps.refl c

theorem keeps_completeOrRearm (c : Campaign) : Keeps c (completeOrRearm c) := by
  unfold completeOrRearm
  split
  · split
    · rename_i hrec
      refine ⟨fun _ => nofun, fun raw h => ⟨raw, h, rfl, rfl⟩, fun _ hk => ?_⟩
      -- a stored repeat is not a single start
      obtain ⟨raw, hraw, hkind⟩ := (Option.any_eq_true _ _).mp hrec
      rw [hk raw hraw] at hkind
      exact nomatch hkind
    · exact keeps_setStatus nofun nofun
  · exact Keeps.refl c

theorem expireCas_ok {c c' : Campaign} (h : expireCas c = some c') : c.status = .scheduled := by
  unfold expireCas at h
  split at h
  · assumption
  · exact nomatch h

theorem waiting_of_scheduled {c : Campaign} (h : c.status = .scheduled) : c.waiting = true := by
  simp [Campaign.waiting, h]

/-! ## Every step -/

theorem watched_fireOneTime (h : Watched s) {read : Read} (hread : read.Watched s.row s.version)
    (hone : read.due.recurrence = none) (others : List String)
    (hund : read.due.startAt + grace < read.now → s.row.status = .scheduled →
      s.version = read.version) : Watched (fireOneTime s read others) := by
  unfold fireOneTime
  split
  · rename_i hlate
    split
    · exact h
    · rename_i row hexp
      have hs := expireCas_ok hexp
      have hcur := hread.2 (hund hlate hs).symm
      have hne : Effect.expired ≠ .launched := nofun
      exact watched_write (watched_record h hne (matches_oneTime hone hcur hs)) row
  · split
    · apply watched_takeOff h
      rintro r ⟨⟩
      exact ⟨hread, hone⟩
    · split
      · exact watched_takeOff h (fun _ hf => nomatch hf)
      · exact h

theorem watched_fireRecurrence (h : Watched s) {read : Read} {rule : Recurrence}
    (hrec : read.due.recurrence = some rule) (others : List String) :
    Watched (fireRecurrence s read rule others) := by
  unfold fireRecurrence
  split
  · exact h
  · rename_i stored hclaim
    obtain ⟨hraw, hs, hkind, hstart⟩ := claimOccurrence_some hclaim
    have hm : ∀ effect, Fired.Matches ⟨effect, read, s.row, s.version⟩ :=
      fun effect => ⟨hs, stored, hraw, hstart, by simp [hkind, hrec]⟩
    split
    · have hne : Effect.skipped ≠ .launched := nofun
      exact watched_write (watched_record h hne (hm _)) _
    · split
      · split
        · exact h
        · exact watched_launch h (waiting_of_scheduled hs) (hm _) rfl (watched_write h _)
            (Or.inl (Nat.lt_succ_self _))
      · exact watched_keep h (keeps_recordBlock _ _)

theorem watched_proceed (h : Watched s) {flight : Flight}
    (hflight : ∀ read, flight = .launching (some read) →
      read.Watched s.row s.version ∧ read.due.recurrence = none)
    (hund : ∀ read, flight = .launching (some read) →
      s.row.waiting = true ∧ s.row.archived = false → s.version = read.version) : Watched (proceed s flight) := by
  unfold proceed
  split
  · exact watched_keep h (keeps_recordBlock _ _)
  · split
    · exact h
    · rename_i row hcas
      obtain ⟨rfl, hopen⟩ := launchCas_ok hcas
      have hkeeps : Keeps s.row (s.row.setStatus .running) := keeps_setStatus nofun nofun
      split
      · exact watched_keep h hkeeps
      · rename_i read
        obtain ⟨hread, hone⟩ := hflight read rfl
        have hcur := hread.2 (hund read rfl hopen).symm
        have hw := hopen.1
        -- a current read rules the draft out, so the row is `scheduled`
        have hs : s.row.status = .scheduled := by
          simp only [Campaign.waiting, decide_eq_true_eq] at hw
          exact hw.resolve_left hcur.1
        obtain ⟨-, raw, hraw, hparse⟩ := id hcur
        refine watched_launch h hw (matches_oneTime hone hcur hs) rfl (watched_keep h hkeeps)
          (Or.inr ⟨rfl, rfl, ?_⟩)
        intro raw' hraw'
        have heq : raw' = raw := Option.some.inj (hraw'.symm.trans hraw)
        rw [heq]
        exact (parses_oneTime hparse hone).1

theorem keeps_setCampaignStatus {c c' : Campaign} {toStatus : CampaignStatus}
    {fromStatuses : List CampaignStatus} (hcall : (toStatus, fromStatuses) ∈ statusCalls)
    (h : setCampaignStatus c toStatus fromStatuses = .ok c') : Keeps c c' := by
  have hto : toStatus ≠ .draft ∧ toStatus ≠ .scheduled := by
    constructor <;> (rintro rfl; simp [statusCalls] at hcall)
  unfold setCampaignStatus at h
  split at h
  · injection h with h
    exact h ▸ keeps_setStatus hto.1 hto.2
  · split at h
    · injection h with h
      exact h ▸ Keeps.refl c
    · cases h

theorem watched_step (s : State) (action : Action) (h : Watched s) (hund : Undisturbed s action) :
    Watched (step s action) := by
  cases action with
  | scheduleCampaign startAt now => exact watched_request h _
  | scheduleRecurrence days atMinute ends now => exact watched_request h _
  | unscheduleCampaign => exact watched_request h _
  | launchCampaign others =>
    simp only [step]
    split
    · exact watched_takeOff h (by simp)
    · exact h
  | proceed k =>
    simp only [step]
    split
    · exact h
    · rename_i flight hflight
      refine watched_proceed (watched_land h k) ?_ ?_
      · rintro read rfl
        exact h.flights read (List.mem_of_getElem? hflight)
      · rintro read rfl
        exact hund read (by rw [hflight]; rfl)
  | setStatus toStatus fromStatuses =>
    simp only [step]
    split
    · rename_i hcall
      split
      · rename_i row hset
        exact watched_keep h (keeps_setCampaignStatus hcall hset)
      · exact h
    · exact h
  | archive =>
    simp only [step]
    split
    · exact h
    · exact watched_request h _
  | restore => exact watched_keep h ⟨id, fun raw hr => ⟨raw, hr, rfl, rfl⟩, fun hw hk => ⟨hw, hk⟩⟩
  | readDue now =>
    refine ⟨?_, h.flights, h.matched, h.spent, h.once⟩
    intro read hread
    rcases List.mem_append.mp hread with hold | hnew
    · exact h.reads read hold
    · -- what is read as due now is on the row now
      obtain ⟨due, hdue, rfl⟩ := List.mem_map.mp hnew
      refine ⟨le_refl _, fun _ => ?_⟩
      unfold dueSchedules at hdue
      split at hdue
      · rename_i hs
        split at hdue
        · cases hdue
        · rename_i due' hparse
          obtain ⟨raw, hraw, hp⟩ := Option.bind_eq_some_iff.mp hparse
          split at hdue
          · rw [List.mem_singleton] at hdue
            subst hdue
            exact ⟨by change s.row.status ≠ _; simp [hs], raw, hraw, hp⟩
          · cases hdue
      · cases hdue
  | fire k others =>
    simp only [step]
    split
    · exact h
    · rename_i read hread
      have hw := watched_takeRead h k
      have hknown := h.reads read (List.mem_of_getElem? hread)
      unfold fireSchedule
      split
      · rename_i hone
        exact watched_fireOneTime hw hknown hone others (hund read hread hone)
      · rename_i rule hrec
        exact watched_fireRecurrence hw hrec others
  | completeOrRearm => exact watched_keep h (keeps_completeOrRearm _)

/-- **The scheduler acts on the occurrence on the row**, in every undisturbed run: whatever
it launched, expired or skipped was the occurrence its tick had read, and no stored
occurrence launched the campaign twice. -/
theorem fired_matches (actions : List Action)
    (hund : Run.Guarded step Undisturbed start actions) :
    (∀ e ∈ (run actions).fired, e.Matches) ∧ (launches (run actions).fired).Nodup :=
  have h : Watched (run actions) := hund.inv watched_step watched_start
  ⟨h.matched, h.once⟩

/-- Start in a second; the tick reads it due a second later, fires and launches. -/
def startInASecond : List Action :=
  [.scheduleCampaign (1790000001 * Calendar.second) (1790000000 * Calendar.second),
    .readDue (1790000002 * Calendar.second), .fire 0 [], .proceed 0]

/-- The same start, cancelled between the tick's read and its fire. -/
def cancelledStart : List Action :=
  [.scheduleCampaign (1790000001 * Calendar.second) (1790000000 * Calendar.second),
    .readDue (1790000002 * Calendar.second), .unscheduleCampaign, .fire 0 [], .proceed 0]

/-- A start a tick read a day late, moved on by the client before the tick fires. -/
def movedStart : List Action :=
  [.scheduleCampaign (1790000001 * Calendar.second) (1790000000 * Calendar.second),
    .readDue (1790090000 * Calendar.second),
    .scheduleCampaign (1790100000 * Calendar.second) (1790090000 * Calendar.second), .fire 0 []]

theorem startInASecond_fired :
    (run startInASecond).row.status = .running ∧ (run startInASecond).fired.length = 1 ∧
      (∀ e ∈ (run startInASecond).fired, e.Matches) ∧
      (launches (run startInASecond).fired).Nodup :=
  ⟨by decide +kernel, by decide +kernel, fired_matches startInASecond (by decide +kernel)⟩

/-- The cancelled start launches the draft, and the moved one is wiped. -/
theorem cancelledStart_launched :
    ((run cancelledStart).row = ⟨.running, none, false⟩ ∧
      ∃ e ∈ (run cancelledStart).fired, e.effect = .launched ∧ ¬ e.Matches) ∧
    ((run movedStart).row = ⟨.draft, none, false⟩ ∧
      ∃ e ∈ (run movedStart).fired, e.effect = .expired ∧ ¬ e.Matches) := by
  decide +kernel

end Calevate.Campaigns
