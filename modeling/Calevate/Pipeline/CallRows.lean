import Calevate.Lib.Run
import Mathlib.Data.Int.Notation

/-!
# One call's row

Every reading of a call from the engine, an event or a fetch, is written by one upsert keyed by
the engine's call id, and the readings come in any order and again. The statement refuses a
reading of a call whose row has ended, unless it says `completed`, and keeps the row's status
where the reading states none.

`advances_iff` says when a run of readings moves the row forward only: just where no stated
reading finds an unfinished row further up, and none but `completed` finds the row ended with a
status that the engine never stated. What an erasure cleared stays cleared in every run.
-/

namespace Calevate.Pipeline

/-- `CallDirection`. -/
inductive Direction where
  | inbound
  | outbound
  deriving DecidableEq, Repr

/-- `CallStatus`. -/
inductive CallStatus where
  | queued
  | ringing
  | inProgress
  | completed
  | failed
  | noAnswer
  | busy
  | voicemail
  deriving DecidableEq, Repr

/-- `TERMINAL_STATUSES`. -/
def terminalStatuses : List CallStatus := [.completed, .failed, .noAnswer, .busy, .voicemail]

namespace CallStatus

/-- The call has ended. -/
def Terminal (status : CallStatus) : Prop := status ∈ terminalStatuses

instance (status : CallStatus) : Decidable status.Terminal :=
  inferInstanceAs (Decidable (status ∈ terminalStatuses))

/-- The ladder: queued, ringing, in progress, ended. -/
def rung : CallStatus → ℕ
  | queued => 0
  | ringing => 1
  | inProgress => 2
  | _ => 3

theorem Terminal.rung {status : CallStatus} (h : status.Terminal) : status.rung = 3 := by
  cases status <;> first | rfl | simp [Terminal, terminalStatuses] at h

end CallStatus

/-- `ExecutionSnapshot`, its numbers as `_party_e164` reads them. -/
structure Snapshot where
  direction : Direction := .inbound
  status : CallStatus
  rawStatus : Option String
  fromE164 : Option String := none
  toE164 : Option String := none
  startedAt : Option ℤ := none
  endedAt : Option ℤ := none
  durationS : Option ℕ := none
  quality : Option String := none
  forwarded : Bool := false
  notPlacedReason : Option String := none
  deriving DecidableEq, Repr

/-- `UNSTATED_STATUS`. -/
def unstatedStatus : String := "unknown"

/-- `raw_status not in (None, UNSTATED_STATUS)`. -/
def Snapshot.stated (s : Snapshot) : Bool :=
  s.rawStatus ≠ none && s.rawStatus ≠ some unstatedStatus

/-- What the upsert reads of the agent: the numbers it holds, and its published settings. -/
structure AgentFacts where
  numbers : List String := []
  voiceSettings : Option String := none
  deriving DecidableEq, Repr

/-- `calls`, the columns the upsert writes and the mark of an erasure. -/
structure CallRow where
  direction : Direction
  fromE164 : Option String
  toE164 : Option String
  status : CallStatus
  startedAt : Option ℤ
  endedAt : Option ℤ
  durationS : Option ℕ
  engineQuality : Option String
  forwardedToPhone : Bool
  notPlacedReason : Option String
  voiceSettings : Option String
  erasedSubjectRef : Option String
  deriving DecidableEq, Repr

/-- `_INBOUND_NUMBER_SQL`. -/
def inboundNumber (direction : Direction) (numbers : List String) : Option String :=
  match direction, numbers with
  | .inbound, [number] => some number
  | _, _ => none

/-- The row the upsert would insert. -/
def insertRow (agent : AgentFacts) (s : Snapshot) : CallRow where
  direction := s.direction
  fromE164 := s.fromE164
  toE164 := s.toE164.or (inboundNumber s.direction agent.numbers)
  status := s.status
  startedAt := s.startedAt
  endedAt := s.endedAt
  durationS := s.durationS
  engineQuality := s.quality
  forwardedToPhone := s.forwarded
  notPlacedReason := s.notPlacedReason
  voiceSettings := agent.voiceSettings
  erasedSubjectRef := none

/-- `_ERASED_CALL_SQL`. -/
def CallRow.Erased (tenantErased : Bool) (row : CallRow) : Prop :=
  row.erasedSubjectRef ≠ none ∨ tenantErased = true

instance (tenantErased : Bool) (row : CallRow) : Decidable (row.Erased tenantErased) :=
  inferInstanceAs (Decidable (_ ∨ _))

/-- The row behind the conflict arm's `SET`. -/
def CallRow.merge (tenantErased stated : Bool) (row excluded : CallRow) : CallRow where
  direction := row.direction
  fromE164 :=
    if row.Erased tenantErased then row.fromE164 else row.fromE164.or excluded.fromE164
  toE164 := if row.Erased tenantErased then row.toE164 else row.toE164.or excluded.toE164
  status := if stated then excluded.status else row.status
  startedAt := row.startedAt.or excluded.startedAt
  endedAt := excluded.endedAt.or row.endedAt
  durationS := excluded.durationS.or row.durationS
  engineQuality := excluded.engineQuality.or row.engineQuality
  forwardedToPhone := row.forwardedToPhone || excluded.forwardedToPhone
  notPlacedReason := excluded.notPlacedReason.or row.notPlacedReason
  voiceSettings := row.voiceSettings.or excluded.voiceSettings
  erasedSubjectRef := row.erasedSubjectRef

/-- **`_upsert_call_row`**. -/
def upsertCallRow (tenantErased : Bool) (agent : AgentFacts) (s : Snapshot) :
    Option CallRow → CallRow
  | none => insertRow agent s
  | some row =>
    if ¬ row.status.Terminal ∨ s.status = .completed then
      row.merge tenantErased s.stated (insertRow agent s)
    else row

/-! ## A call's life -/

/-- One engine call: its row, whether its tenant asked to be erased, and the statuses the engine
has stated of it. -/
structure Execution where
  row : Option CallRow
  tenantErased : Bool := false
  stated : List CallStatus := []
  deriving DecidableEq, Repr

/-- What comes for a call: a reading, or an erasure of its caller or of the whole tenant, which
is asked for first and reaches the row later. -/
inductive CallEvent where
  | snapshot (agent : AgentFacts) (s : Snapshot)
  | eraseCaller (ref : String)
  | askTenantErasure
  | eraseTenant
  deriving DecidableEq, Repr

/-- `from_e164 = NULL, to_e164 = NULL`. -/
def CallRow.clear (row : CallRow) : CallRow := { row with fromE164 := none, toE164 := none }

def Execution.step (e : Execution) : CallEvent → Execution
  | .snapshot agent s =>
    { e with
      row := some (upsertCallRow e.tenantErased agent s e.row)
      stated := if s.stated then s.status :: e.stated else e.stated }
  | .eraseCaller ref =>
    { e with row := e.row.map fun row => { row.clear with erasedSubjectRef := some ref } }
  | .askTenantErasure => { e with tenantErased := true }
  | .eraseTenant =>
    { e with row := if e.tenantErased then e.row.map CallRow.clear else e.row }

/-- The row is further up or where it was, completed stays completed, a reading without a
status decides nothing, the status is one the engine stated once it has stated one, and a row
an erasure has reached gets no number. -/
structure Advances (e : Execution) (event : CallEvent) : Prop where
  up : ∀ row ∈ e.row, ∃ row' ∈ (e.step event).row, row.status.rung ≤ row'.status.rung
  completed : ∀ row ∈ e.row, row.status = .completed →
    ∀ row' ∈ (e.step event).row, row'.status = .completed
  unstated : ∀ agent s, event = .snapshot agent s → s.stated = false →
    ∀ row ∈ e.row, ∀ row' ∈ (e.step event).row, row'.status = row.status
  stated : (e.step event).stated ≠ [] →
    ∀ row' ∈ (e.step event).row, row'.status ∈ (e.step event).stated
  unwritten : ∀ row ∈ e.row, row.Erased e.tenantErased → ∀ row' ∈ (e.step event).row,
    (∀ number ∈ row'.fromE164, number ∈ row.fromE164) ∧
      ∀ number ∈ row'.toE164, number ∈ row.toE164

/-- A stated reading finds an unfinished row no further up, and an ended one with a status the
engine has stated; `completed` may find any that has ended. -/
def InOrder (e : Execution) : CallEvent → Prop
  | .snapshot _ s => s.stated = true → ∀ row ∈ e.row,
    if row.status.Terminal then s.status = .completed ∨ row.status ∈ s.status :: e.stated
    else row.status.rung ≤ s.status.rung
  | _ => True

instance (e : Execution) : ∀ event, Decidable (InOrder e event)
  | .snapshot _ s => inferInstanceAs (Decidable (s.stated = true → ∀ row ∈ e.row, _))
  | .eraseCaller _ | .askTenantErasure | .eraseTenant => isTrue trivial

/-- Once the engine has stated a status, the row's is one it stated. -/
def Settled (e : Execution) : Prop :=
  e.stated ≠ [] → ∃ row ∈ e.row, row.status ∈ e.stated

/-! ## One reading -/

section Reading

variable {e : Execution} {agent : AgentFacts} {s : Snapshot} {row : CallRow} {event : CallEvent}

theorem CallRow.merge_status (tenantErased stated : Bool) (row excluded : CallRow) :
    (row.merge tenantErased stated excluded).status =
      if stated then excluded.status else row.status := rfl

/-- **The status behind a reading of a row that is there.** -/
theorem upsertCallRow_status (tenantErased : Bool) (agent : AgentFacts) (s : Snapshot)
    (row : CallRow) :
    (upsertCallRow tenantErased agent s (some row)).status =
      if s.stated = true ∧ (¬ row.status.Terminal ∨ s.status = .completed) then s.status
      else row.status := by
  by_cases hopen : ¬ row.status.Terminal ∨ s.status = .completed
  · rw [upsertCallRow, if_pos hopen, CallRow.merge_status]
    cases hstated : s.stated <;> simp [hopen, insertRow]
  · rw [upsertCallRow, if_neg hopen, if_neg fun hand => hopen hand.2]

/-- **A reading writes no number into a row an erasure has reached.** -/
theorem upsertCallRow_numbers {tenantErased : Bool} (herased : row.Erased tenantErased)
    (agent : AgentFacts) (s : Snapshot) :
    (upsertCallRow tenantErased agent s (some row)).fromE164 = row.fromE164 ∧
      (upsertCallRow tenantErased agent s (some row)).toE164 = row.toE164 := by
  rw [upsertCallRow]
  split
  · exact ⟨if_pos herased, if_pos herased⟩
  · exact ⟨rfl, rfl⟩

/-- What an event that is no reading does to the row: it takes numbers out of it at most. -/
theorem step_row_of_erasure (hread : ∀ agent s, event ≠ .snapshot agent s)
    {row' : CallRow} (hrow' : row' ∈ (e.step event).row) :
    ∃ row ∈ e.row, row'.status = row.status ∧
      (∀ number ∈ row'.fromE164, number ∈ row.fromE164) ∧
      ∀ number ∈ row'.toE164, number ∈ row.toE164 := by
  cases event with
  | snapshot agent s => exact absurd rfl (hread agent s)
  | eraseCaller ref =>
    obtain ⟨row, hrow, rfl⟩ := Option.map_eq_some_iff.mp hrow'
    exact ⟨row, hrow, rfl, by simp [CallRow.clear], by simp [CallRow.clear]⟩
  | askTenantErasure => exact ⟨row', hrow', rfl, fun _ h => h, fun _ h => h⟩
  | eraseTenant =>
    simp only [Execution.step] at hrow'
    split at hrow'
    · obtain ⟨row, hrow, rfl⟩ := Option.map_eq_some_iff.mp hrow'
      exact ⟨row, hrow, rfl, by simp [CallRow.clear], by simp [CallRow.clear]⟩
    · exact ⟨row', hrow', rfl, fun _ h => h, fun _ h => h⟩

/-- It takes no row away either. -/
theorem step_isSome (hrow : row ∈ e.row) (event : CallEvent) :
    ∃ row', row' ∈ (e.step event).row := by
  rw [Option.mem_def] at hrow
  cases event with
  | snapshot agent s => exact ⟨_, rfl⟩
  | eraseCaller ref => exact ⟨_, by simp [Execution.step, hrow]; rfl⟩
  | askTenantErasure => exact ⟨row, hrow⟩
  | eraseTenant =>
    simp only [Execution.step, hrow]
    split
    · exact ⟨_, rfl⟩
    · exact ⟨_, rfl⟩

theorem stated_of_erasure (hread : ∀ agent s, event ≠ .snapshot agent s) :
    (e.step event).stated = e.stated := by
  cases event with
  | snapshot agent s => exact absurd rfl (hread agent s)
  | eraseCaller ref => rfl
  | askTenantErasure => rfl
  | eraseTenant => rfl

/-- An erasure never moves the status. -/
theorem advances_erasure (hread : ∀ agent s, event ≠ .snapshot agent s) (h : Settled e) :
    Advances e event := by
  have hsame : ∀ row ∈ e.row, ∀ row' ∈ (e.step event).row, row'.status = row.status := by
    intro row hrow row' hrow'
    obtain ⟨row₀, hrow₀, hstatus, -⟩ := step_row_of_erasure hread hrow'
    rw [hstatus, Option.mem_unique hrow₀ hrow]
  constructor
  case up =>
    intro row hrow
    obtain ⟨row', hrow'⟩ := step_isSome hrow event
    exact ⟨row', hrow', Nat.le_of_eq (congrArg CallStatus.rung (hsame row hrow row' hrow').symm)⟩
  case completed =>
    intro row hrow hdone row' hrow'
    rw [hsame row hrow row' hrow', hdone]
  case unstated =>
    rintro agent s rfl
    exact absurd rfl (hread agent s)
  case stated =>
    rw [stated_of_erasure hread]
    intro hsome row' hrow'
    obtain ⟨row, hrow, hmem⟩ := h hsome
    rwa [hsame row hrow row' hrow']
  case unwritten =>
    intro row hrow _ row' hrow'
    obtain ⟨row₀, hrow₀, -, hnumbers⟩ := step_row_of_erasure hread hrow'
    rwa [Option.mem_unique hrow hrow₀]

/-- **A reading in its order moves the row forward.** -/
theorem advances_snapshot (h : Settled e) (horder : InOrder e (.snapshot agent s)) :
    Advances e (.snapshot agent s) := by
  constructor
  case up =>
    intro row hrow
    refine ⟨_, rfl, ?_⟩
    rw [Option.mem_def.mp hrow, upsertCallRow_status]
    split
    · next hwritten =>
      have hplace := horder hwritten.1 row hrow
      split at hplace
      · next hended =>
        obtain hopen | hdone := hwritten.2
        · exact absurd hended hopen
        · rw [hdone, hended.rung]
          exact Nat.le_refl _
      · exact hplace
    · exact Nat.le_refl _
  case completed =>
    intro row hrow hdone row' hrow'
    rw [← Option.some.inj hrow', Option.mem_def.mp hrow, upsertCallRow_status]
    split
    · next hwritten =>
      obtain hopen | hdone' := hwritten.2
      · rw [hdone] at hopen
        exact absurd (by decide) hopen
      · exact hdone'
    · exact hdone
  case unstated =>
    intro agent' s' heq hunstated row hrow row' hrow'
    cases heq
    rw [← Option.some.inj hrow', Option.mem_def.mp hrow, upsertCallRow_status, hunstated]
    simp
  case stated =>
    intro hsome row' hrow'
    rw [← Option.some.inj hrow']
    simp only [Execution.step] at hsome ⊢
    cases hrow : e.row with
    | none =>
      cases hstated : s.stated with
      | false =>
        rw [hstated] at hsome
        obtain ⟨row, hin, -⟩ := h hsome
        rw [hrow] at hin
        cases hin
      | true => exact List.mem_cons_self
    | some row =>
      rw [upsertCallRow_status]
      cases hstated : s.stated with
      | false =>
        rw [hstated] at hsome
        obtain ⟨row₀, hin, hmem⟩ := h hsome
        rw [hrow] at hin
        simpa [Option.some.inj hin] using hmem
      | true =>
        have hplace := horder hstated row hrow
        show _ ∈ s.status :: e.stated
        split
        · exact List.mem_cons_self
        · next hrefused =>
          have hended : row.status.Terminal := by
            by_contra hopen
            exact hrefused ⟨rfl, .inl hopen⟩
          rw [if_pos hended] at hplace
          exact hplace.resolve_left fun hdone => hrefused ⟨rfl, .inr hdone⟩
  case unwritten =>
    intro row hrow herased row' hrow'
    obtain ⟨hfrom, hto⟩ := upsertCallRow_numbers herased agent s
    rw [← Option.some.inj hrow', Option.mem_def.mp hrow, hfrom, hto]
    exact ⟨fun _ hn => hn, fun _ hn => hn⟩

/-- A reading that moves the row forward came in its order. -/
theorem inOrder_of_advances (h : Advances e event) : InOrder e event := by
  cases event with
  | snapshot agent s =>
    intro hstated row hrow
    split
    · next hended =>
      by_cases hdone : s.status = .completed
      · exact .inl hdone
      · refine .inr ?_
        have hsaid := h.stated (by simp [Execution.step, hstated]) _ rfl
        rw [Option.mem_def.mp hrow, upsertCallRow_status, if_neg (by simp [hended, hdone])]
          at hsaid
        simpa [Execution.step, hstated] using hsaid
    · next hopen =>
      obtain ⟨row', hrow', hup⟩ := h.up row hrow
      rwa [← Option.some.inj hrow', Option.mem_def.mp hrow, upsertCallRow_status,
        if_pos ⟨hstated, .inl hopen⟩] at hup
  | eraseCaller ref => trivial
  | askTenantErasure => trivial
  | eraseTenant => trivial

/-- **One event moves the row forward just where it comes in its order.** -/
theorem advances_iff_inOrder (h : Settled e) : Advances e event ↔ InOrder e event := by
  refine ⟨inOrder_of_advances, fun horder => ?_⟩
  cases event with
  | snapshot agent s => exact advances_snapshot h horder
  | eraseCaller ref => exact advances_erasure (fun _ _ => CallEvent.noConfusion) h
  | askTenantErasure => exact advances_erasure (fun _ _ => CallEvent.noConfusion) h
  | eraseTenant => exact advances_erasure (fun _ _ => CallEvent.noConfusion) h

/-- The engine's statuses stay settled. -/
theorem Settled.step (h : Settled e) (hadvance : Advances e event) :
    Settled (e.step event) := by
  intro hsome
  have hrow : ∃ row', row' ∈ (e.step event).row := by
    cases event with
    | snapshot agent s => exact ⟨_, rfl⟩
    | eraseCaller ref =>
      obtain ⟨row, hrow, -⟩ := h hsome
      exact step_isSome hrow _
    | askTenantErasure =>
      obtain ⟨row, hrow, -⟩ := h hsome
      exact step_isSome hrow _
    | eraseTenant =>
      obtain ⟨row, hrow, -⟩ := h hsome
      exact step_isSome hrow _
  obtain ⟨row', hrow'⟩ := hrow
  exact ⟨row', hrow', hadvance.stated hsome row' hrow'⟩

end Reading

/-! ## Whole runs -/

/-- The row moves forward at each event of the run. -/
def MovesForward (e : Execution) (events : List CallEvent) : Prop :=
  ∀ before event after, events = before ++ event :: after →
    Advances (before.foldl Execution.step e) event

/-- **A call's row moves forward in a run, whatever order its readings come in, just where each
comes in its order.** -/
theorem movesForward_iff (row : Option CallRow) (tenantErased : Bool)
    (events : List CallEvent) :
    MovesForward { row, tenantErased } events ↔
      Lib.Run.Guarded Execution.step InOrder { row, tenantErased } events := by
  have hstart : Settled { row, tenantErased } := fun hsome => absurd rfl hsome
  generalize ({ row, tenantErased } : Execution) = e at hstart
  induction events generalizing e with
  | nil =>
    refine iff_of_true (fun before event after hsplit => ?_) trivial
    simp at hsplit
  | cons event events ih =>
    constructor
    · intro h
      have hfirst : Advances e event := h [] event events rfl
      refine ⟨inOrder_of_advances hfirst, (ih _ (hstart.step hfirst)).mp ?_⟩
      intro before next after hsplit
      exact h (event :: before) next after (congrArg (event :: ·) hsplit)
    · rintro ⟨hfirst, hrest⟩ before next after hsplit
      have hadvance := (advances_iff_inOrder hstart).mpr hfirst
      cases before with
      | nil =>
        obtain ⟨rfl, -⟩ := List.cons.inj hsplit
        exact hadvance
      | cons other before =>
        obtain ⟨rfl, hrest'⟩ := List.cons.inj hsplit
        exact (ih _ (hstart.step hadvance)).mpr hrest before next after hrest'

/-- A reading with nothing but its status, stated. -/
def reading (status : CallStatus) : CallEvent :=
  .snapshot {} { status, rawStatus := some "stated" }

/-- A reading in which the engine stated no status: an adapter's default. -/
def defaulted : CallEvent :=
  .snapshot {} { status := .failed, rawStatus := some unstatedStatus }

/-- A call that rang, was answered and ended, with a stale reading and a second one of its end
after that. -/
theorem answeredCall_movesForward :
    MovesForward { row := none }
      [reading .queued, reading .ringing, reading .inProgress, reading .completed,
        reading .ringing, reading .completed] :=
  (movesForward_iff none false _).mpr (by decide)

/-- A stale `ringing` puts a call in progress back, and a row that a reading without a status
made stays `failed` when the engine states `no_answer`. -/
theorem staleReading_goes_back :
    ¬ MovesForward { row := none } [reading .inProgress, reading .ringing] ∧
      ¬ MovesForward { row := none } [defaulted, reading .noAnswer] := by
  constructor
  · intro h
    obtain ⟨row', hrow', hup⟩ := (h [reading .inProgress] (reading .ringing) [] rfl).up _ rfl
    rw [← Option.some.inj hrow'] at hup
    exact absurd hup (by decide)
  · intro h
    have hstated := (h [defaulted] (reading .noAnswer) [] rfl).stated (by decide) _ rfl
    exact absurd hstated (by decide)

end Calevate.Pipeline
