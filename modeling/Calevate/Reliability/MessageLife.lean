import Mathlib.Data.List.Nodup
import Mathlib.Logic.Relation
import Calevate.Reliability.Outbox

/-!
# The life of a message

Whatever ticks, runs, sweeps and replays do, a message's row goes through the writes of
`Touched`, and what holds of a message follows from one case for each write (`Kept`): its
attempts are its claims since the last replay, a run that could ask does not begin once a
success is recorded, and the payload stays until it is scrubbed. A run that cannot ask
begins anyway.

The budget needs more. A claim retires the spent messages first, so that the row it then
takes has an attempt left (`Spared`), and that is so as long as nothing else is committed in
between: a late report of a lapsed claim can move a row's wait to a moment already past.
-/

namespace Calevate.Reliability

open Lib

/-! ## The writes of a message -/

/-- Whose write it is: a claim's, a committing tick's, or another's. -/
inductive Writer where
  | claim
  | commit
  | other

/-- One write of a message, with the guard of its statement. -/
inductive Touched : Writer → Line → Line → Prop
  | exhausted (l : Line) (now : ℕ) (h : l.row.exhausted now = true) :
      Touched .other l { l with row := l.row.deadLetterExhausted now }
  | unknownJob (l : Line) (known : List String) (now : ℕ)
      (h : l.row.unknownJob known now = true) :
      Touched .other l { l with row := l.row.deadLetterUnknownJob now }
  | claimed (l : Line) (now : ℕ) :
      Touched .claim l { l with row := l.row.claim now, history := .claimed :: l.history }
  | published (l : Line) (jobId : String) (now : ℕ) (h : l.row.status = .pending) :
      Touched .commit l
        { l with row := l.row.markPublished jobId now, history := .published :: l.history }
  | failed (l : Line) (error : String) (attemptCount now : ℕ) (h : l.row.status = .pending) :
      Touched .commit l { l with row := l.row.markFailed error attemptCount now }
  | deferred (l : Line) (error : String) (now : ℕ) (h : l.row.status = .pending) :
      Touched .commit l { l with row := l.row.deferClaim error now }
  | swept (l : Line) (now : ℕ) (h : l.row.unconsumed now = true) :
      Touched .other l { l with row := l.row.giveBack now }
  | replayed (l : Line) (now : ℕ) (h : l.row.status = .failed) :
      Touched .other l { l with row := l.row.replay now, history := .replayed :: l.history }
  | job (l : Line) (job : JobState) (h : job ≠ .cleared true) : Touched .other l { l with job := job }
  | cleared (l : Line) (h : l.row.consumedAt = none) : Touched .other l { l with job := .cleared true }
  | began (l : Line) (asked : Bool) (h : l.job = .cleared asked) :
      Touched .other l { l with job := .running, history := .began asked :: l.history }
  | recorded (l : Line) (now : ℕ) (hjob : l.job = .ran) (h : l.row.consumedAt = none) :
      Touched .other l
        { l with
          row := l.row.markConsumed now
          job := .absent
          history := .recorded :: l.history }

/-- Any number of writes. -/
abbrev Touches (w : Writer) : Line → Line → Prop := Relation.ReflTransGen (Touched w)

theorem Touches.touch {w : Writer} {l : Line} {p : Message → Bool} {f : Message → Message}
    {events : List Event}
    (h : p l.row = true →
      Touched w l { l with row := f l.row, history := events ++ l.history }) :
    Touches w l (l.touch p f events) := by
  unfold Line.touch
  split
  · rename_i hp
    exact .single (h hp)
  · exact .refl

theorem Touches.apply (began : ℕ) (l : Line) (w : Write) : Touches .commit l (l.apply began w) := by
  cases w with
  | published id jobId =>
    unfold Line.apply
    refine Touches.touch fun hp => ?_
    exact .published l jobId began (of_decide_eq_true hp).2
  | failed id error attemptCount =>
    unfold Line.apply
    refine Touches.touch fun hp => ?_
    exact .failed l error attemptCount began (of_decide_eq_true hp).2
  | deferred ids error =>
    unfold Line.apply
    refine Touches.touch fun hp => ?_
    exact .deferred l error began (of_decide_eq_true hp).2

theorem Touches.commit (began : ℕ) (l : Line) (writes : List Write) :
    Touches .commit l (writes.foldl (Line.apply began) l) := by
  induction writes generalizing l with
  | nil => exact .refl
  | cons w writes ih => exact (Touches.apply began l w).trans (ih _)

/-- If the message can be claimed at `now`, it has an attempt left. -/
def SparedAt (now : ℕ) (m : Message) : Prop :=
  m.status = .pending → m.unlocked now = true → m.attemptCount < outboxMaxAttempts

theorem Touched.id_eq {w : Writer} {l l' : Line} (ht : Touched w l l') :
    l'.row.id = l.row.id := by
  cases ht <;> rfl

theorem Touches.id_eq {w : Writer} {l l' : Line} (ht : Touches w l l') :
    l'.row.id = l.row.id := by
  induction ht with
  | refl => rfl
  | tail _ hlast ih => rw [hlast.id_eq, ih]

/-- What others than ticks write claims nothing, and brings no spent message back. -/
theorem Touched.spared {l l' : Line} (ht : Touched .other l l') :
    (l.row.attemptCount ≤ outboxMaxAttempts → l'.row.attemptCount ≤ outboxMaxAttempts) ∧
    ∀ now, SparedAt now l.row → SparedAt now l'.row := by
  cases ht with
  | exhausted now => exact ⟨id, fun _ _ hp => by simp [Message.deadLetterExhausted] at hp⟩
  | unknownJob known now => exact ⟨id, fun _ _ hp => by simp [Message.deadLetterUnknownJob] at hp⟩
  | swept now =>
    refine ⟨id, fun _ _ hp _ => ?_⟩
    by_contra hspent
    simp only [Message.giveBack] at hp hspent
    rw [if_pos (by omega)] at hp
    cases hp
  | replayed now => 
    have hfree : 0 < outboxMaxAttempts := by decide
    exact ⟨fun _ => Nat.zero_le _, fun _ _ _ _ => hfree⟩
  | job => exact ⟨id, fun _ h => h⟩
  | cleared => exact ⟨id, fun _ h => h⟩
  | began => exact ⟨id, fun _ h => h⟩
  | recorded => exact ⟨id, fun _ h => h⟩

theorem Touches.spared {l l' : Line} (ht : Touches .other l l') :
    (l.row.attemptCount ≤ outboxMaxAttempts → l'.row.attemptCount ≤ outboxMaxAttempts) ∧
    ∀ now, SparedAt now l.row → SparedAt now l'.row := by
  induction ht with
  | refl => exact ⟨id, fun _ h => h⟩
  | tail _ hlast ih =>
    exact ⟨fun h => hlast.spared.1 (ih.1 h), fun now h => hlast.spared.2 now (ih.2 now h)⟩

/-- A tick's marks claim nothing. -/
theorem Touches.attempts {l l' : Line} (ht : Touches .commit l l') :
    l'.row.attemptCount = l.row.attemptCount := by
  induction ht with
  | refl => rfl
  | tail _ hlast ih =>
    rw [← ih]
    cases hlast <;> rfl

namespace Outbox

/-! ## What a run does to a message -/

theorem touches_start (l : Line) : Touches .other l (start l) := by
  unfold start
  split
  · exact .single (.job l .started (by simp))
  · exact .refl

theorem touches_check (asked : Bool) (l : Line) : Touches .other l (check asked l) := by
  unfold check
  split
  · split
    · exact .single (.job l .absent (by simp))
    · rename_i hnot
      cases asked with
      | false => exact .single (.job l (.cleared false) (by simp))
      | true => exact .single (.cleared l (by simpa using hnot))
  · exact .refl

theorem touches_begin (l : Line) : Touches .other l (begin l) := by
  unfold begin
  split
  · rename_i hjob
    exact .single (.began l _ hjob)
  · exact .refl

theorem touches_finish (outcome : Outcome) (l : Line) : Touches .other l (finish outcome l) := by
  unfold finish
  split
  · cases outcome with
    | done => exact .single (.job l .ran (by simp))
    | raised again =>
      cases again with
      | true => exact .single (.job l .queued (by simp))
      | false => exact .single (.job l .absent (by simp))
  · exact .refl

theorem touches_record (told : Bool) (now : ℕ) (l : Line) : Touches .other l (record told now l) := by
  unfold record
  split
  · rename_i hjob
    cases told with
    | false => exact .single (.job l .absent (by simp))
    | true =>
      by_cases hconsumed : l.row.consumedAt = none
      · simp only [if_true, Line.touch, hconsumed, decide_true]
        exact .single (.recorded l now hjob hconsumed)
      · simp only [if_true, Line.touch, hconsumed, decide_false, Bool.false_eq_true, if_false]
        exact .single (.job l .absent (by simp))
  · exact .refl

theorem touches_crashRun (again : Bool) (l : Line) : Touches .other l (crashRun again l) := by
  unfold crashRun
  split
  · exact .refl
  · cases again with
    | true => exact .single (.job l .queued (by simp))
    | false => exact .single (.job l .absent (by simp))

/-- Whose writes a step makes. -/
def Action.writer : Action → Writer
  | .claim .. => .claim
  | .commit _ => .commit
  | _ => .other

/-- **Every step puts each message through its writes, or adds one.** -/
theorem step_lines (s : Outbox) (a : Action) :
    (∃ f, (s.step a).lines = s.lines.map f ∧ ∀ l, Touches a.writer l (f l)) ∨
    ∃ job payload minRevision now, (s.step a).lines = s.lines ++
      [⟨.enqueued s.lines.length job payload minRevision now, payload, .absent, []⟩] := by
  have hsame : ∀ w, ∃ f, s.lines = s.lines.map f ∧ ∀ l, Touches w l (f l) :=
    fun w => ⟨id, (List.map_id s.lines).symm, fun _ => .refl⟩
  have hone : ∀ (id : ℕ) (f : Line → Line), (∀ l, Touches .other l (f l)) →
      ∃ g, (s.onLine id f).lines = s.lines.map g ∧ ∀ l, Touches .other l (g l) := by
    intro id f hf
    refine ⟨_, rfl, fun l => ?_⟩
    split
    · exact hf l
    · exact .refl
  cases a with
  | enqueue job payload minRevision now =>
    simp only [step]
    split
    · exact Or.inr ⟨job, payload, minRevision, now, rfl⟩
    · exact Or.inl (hsame _)
  | deadLetterExhausted d began now =>
    left
    simp only [step]
    split
    · split
      · exact ⟨_, rfl, fun l => Touches.touch fun hp => .exhausted l now hp⟩
      · exact hsame _
    · exact hsame _
  | deadLetterUnknownJobs d known =>
    left
    simp only [step]
    split
    · exact ⟨_, rfl, fun l => Touches.touch fun hp => .unknownJob l known _ hp⟩
    · exact hsame _
  | claim d jobs held revisions skip =>
    left
    simp only [step]
    split
    · exact ⟨_, rfl, fun l => Touches.touch fun _ => .claimed l _⟩
    · exact hsame _
  | publish d outcome =>
    left
    simp only [step]
    split
    · cases outcome with
      | accepted =>
        simp only [publish]
        split
        · exact hsame _
        · refine ⟨_, rfl, fun l => ?_⟩
          split
          · exact .single (.job l .queued (by simp))
          · exact .refl
      | refused earlierRunFailed =>
        cases earlierRunFailed with
        | true => exact hsame _
        | false => exact hsame _
      | queueDown => exact hsame _
      | poison => exact hsame _
    · exact hsame _
  | commit d =>
    left
    simp only [step]
    split
    · exact ⟨_, rfl, fun l => Touches.commit _ l _⟩
    · exact hsame _
  | crash => exact Or.inl (hsame _)
  | start id => exact Or.inl (hone id _ touches_start)
  | check id asked => exact Or.inl (hone id _ (touches_check asked))
  | begin id => exact Or.inl (hone id _ touches_begin)
  | finish id outcome => exact Or.inl (hone id _ (touches_finish outcome))
  | record id told now =>
    left
    simp only [step]
    split
    · exact hone id _ (touches_record told now)
    · exact hsame _
  | crashRun id again => exact Or.inl (hone id _ (touches_crashRun again))
  | sweepUnconsumed skip now =>
    left
    simp only [step]
    split
    · exact ⟨_, rfl, fun l => Touches.touch fun hp => .swept l now (of_decide_eq_true hp).2⟩
    · exact hsame _
  | replayDeadLetters limit job skip now =>
    left
    simp only [step]
    split
    · exact ⟨_, rfl, fun l => Touches.touch fun hp => .replayed l now (of_decide_eq_true hp).2⟩
    · exact hsame _
  | pass => exact Or.inl (hsame _)

/-! ## What every write keeps -/

/-- The claims of a message since it was last replayed. -/
def claimsSinceReplay : List Event → ℕ
  | [] => 0
  | .claimed :: history => claimsSinceReplay history + 1
  | .replayed :: _ => 0
  | _ :: history => claimsSinceReplay history

/-- A run that begins after a success was recorded could not ask. -/
def RunsOnce (history : List Event) : Prop :=
  ∀ after before asked, history = after ++ .began asked :: before → .recorded ∈ before →
    asked = false

theorem RunsOnce.cons {history : List Event} (h : RunsOnce history) {e : Event}
    (he : ∀ asked, e = .began asked → .recorded ∈ history → asked = false) :
    RunsOnce (e :: history) := by
  intro after before asked heq hmem
  cases after with
  | nil =>
    obtain ⟨rfl, rfl⟩ := List.cons.inj heq
    exact he asked rfl hmem
  | cons e' after => exact h after before asked (List.cons.inj heq).2 hmem

/-- What holds of one message. -/
structure Kept (l : Line) : Prop where
  attempts : l.row.attemptCount = claimsSinceReplay l.history
  recorded : .recorded ∈ l.history ↔ l.row.consumedAt ≠ none
  asked : l.job = .cleared true → l.row.consumedAt = none
  once : RunsOnce l.history
  payload : .recorded ∉ l.history →
    (l.row.job ∈ scrubAtPublishJobs → .published ∉ l.history) → l.row.payload = l.sent

theorem kept_enqueued (id : ℕ) (job payload : String) (minRevision : Option String) (now : ℕ) :
    Kept ⟨.enqueued id job payload minRevision now, payload, .absent, []⟩ where
  attempts := rfl
  recorded := by simp [Message.enqueued]
  asked := by simp
  once := by
    intro after before asked heq
    simp at heq
  payload := fun _ _ => rfl

theorem Kept.touched {w : Writer} {l l' : Line} (h : Kept l) (ht : Touched w l l') : Kept l' := by
  cases ht with
  | exhausted => exact ⟨h.attempts, h.recorded, h.asked, h.once, h.payload⟩
  | unknownJob => exact ⟨h.attempts, h.recorded, h.asked, h.once, h.payload⟩
  | claimed =>
    refine ⟨?_, ?_, h.asked, h.once.cons (by simp), ?_⟩
    · simp [Message.claim, claimsSinceReplay, h.attempts]
    · simpa [Message.claim] using h.recorded
    · simpa [Message.claim] using h.payload
  | published _ jobId now hpending =>
    refine ⟨?_, ?_, h.asked, h.once.cons (by simp), ?_⟩
    · simpa [Message.markPublished, claimsSinceReplay] using h.attempts
    · simpa [Message.markPublished] using h.recorded
    · intro hrec hscrub
      have hnot : l.row.job ∉ scrubAtPublishJobs := fun hjob => hscrub hjob (by simp)
      have hpay := h.payload (by simpa using hrec) (fun hjob => absurd hjob hnot)
      simpa [Message.markPublished, hnot] using hpay
  | failed => exact ⟨h.attempts, h.recorded, h.asked, h.once, h.payload⟩
  | deferred => exact ⟨h.attempts, h.recorded, h.asked, h.once, h.payload⟩
  | swept => exact ⟨h.attempts, h.recorded, h.asked, h.once, h.payload⟩
  | replayed =>
    refine ⟨rfl, ?_, h.asked, h.once.cons (by simp), ?_⟩
    · simpa [Message.replay] using h.recorded
    · simpa [Message.replay] using h.payload
  | job _ job hjob => exact ⟨h.attempts, h.recorded, fun hc => absurd hc hjob, h.once, h.payload⟩
  | cleared _ hnone => exact ⟨h.attempts, h.recorded, fun _ => hnone, h.once, h.payload⟩
  | began _ asked hcleared =>
    refine ⟨?_, ?_, by simp, ?_, ?_⟩
    · simpa [claimsSinceReplay] using h.attempts
    · simpa using h.recorded
    · -- a run that asked was told that nothing is recorded
      apply h.once.cons
      rintro _ ⟨⟩ hrec
      cases asked with
      | false => rfl
      | true => exact absurd (h.asked hcleared) (h.recorded.mp hrec)
    · simpa using h.payload
  | recorded _ now hjob hnone =>
    refine ⟨?_, ?_, by simp, h.once.cons (by simp), by simp⟩
    · simpa [Message.markConsumed, claimsSinceReplay] using h.attempts
    · simp [Message.markConsumed]

theorem Kept.touches {w : Writer} {l l' : Line} (h : Kept l) (ht : Touches w l l') : Kept l' := by
  induction ht with
  | refl => exact h
  | tail _ hlast ih => exact ih.touched hlast

theorem kept_step {s : Outbox} (h : ∀ l ∈ s.lines, Kept l) (a : Action) :
    ∀ l ∈ (s.step a).lines, Kept l := by
  rcases step_lines s a with ⟨f, hf, ht⟩ | ⟨job, payload, minRevision, now, hnew⟩
  · rw [hf]
    intro l hl
    obtain ⟨x, hx, rfl⟩ := List.mem_map.mp hl
    exact (h x hx).touches (ht x)
  · rw [hnew]
    intro l hl
    rcases List.mem_append.mp hl with hl | hl
    · exact h l hl
    · rw [List.mem_singleton.mp hl]
      exact kept_enqueued _ _ _ _ _

theorem kept_run (as : List Action) : ∀ l ∈ (run as).lines, Kept l := by
  apply @Run.foldl_inv _ _ step (fun s => ∀ l ∈ s.lines, Kept l)
  · exact fun s a h => kept_step h a
  · simp [init]

/-! ## The budget -/

/-- Nothing else is committed between the statements of a claim: no other claim, and no
tick's marks. -/
def unbroken (s : Outbox) : Action → Prop
  | .claim d _ _ _ _ | .commit d =>
    ∀ d', d' ≠ d → ∀ began now, s.ticks d' ≠ .claiming began now
  | _ => True

/-- Messages have ids of their own, none is claimed too often, and none a claim under way
can take is spent. -/
structure Spared (s : Outbox) : Prop where
  ids : s.lines.map (fun l => l.row.id) = List.range s.lines.length
  within : ∀ l ∈ s.lines, l.row.attemptCount ≤ outboxMaxAttempts
  spared : ∀ d began now, s.ticks d = .claiming began now → ∀ l ∈ s.lines, SparedAt now l.row

theorem spared_init : Spared init where
  ids := by simp [init]
  within := by simp [init]
  spared := by simp [init]

theorem ids_step {s : Outbox} (h : s.lines.map (fun l => l.row.id) = List.range s.lines.length)
    (a : Action) :
    (s.step a).lines.map (fun l => l.row.id) = List.range (s.step a).lines.length := by
  rcases step_lines s a with ⟨f, hf, ht⟩ | ⟨job, payload, minRevision, now, hnew⟩
  · rw [hf, List.length_map, ← h, List.map_map]
    exact List.map_congr_left fun l _ => Touches.id_eq (ht l)
  · rw [hnew, List.map_append, h, List.length_append, List.length_singleton,
      List.range_succ]
    rfl

/-- What a claim takes it could take. -/
theorem oldest_mem {s : Outbox} {p : Message → Bool} {limit : ℕ} {skip : List ℕ} {id : ℕ}
    (h : id ∈ s.oldest p limit skip) : ∃ l ∈ s.lines, l.row.id = id ∧ p l.row = true := by
  obtain ⟨m, hm, rfl⟩ := List.mem_map.mp h
  have hsorted := (List.mem_insertionSort _).mp (List.mem_of_mem_take hm)
  obtain ⟨hrow, hp⟩ := List.mem_filter.mp hsorted
  obtain ⟨l, hl, rfl⟩ := List.mem_map.mp hrow
  exact ⟨l, hl, rfl, (of_decide_eq_true hp).1⟩

/-- A step that is no tick's. -/
theorem Spared.other {s : Outbox} (h : Spared s) {a : Action} (ha : a.writer = .other)
    (hticks : ∀ d began now, (s.step a).ticks d = .claiming began now →
      s.ticks d = .claiming began now ∨ ∀ l ∈ (s.step a).lines, SparedAt now l.row) :
    Spared (s.step a) := by
  have hlines := step_lines s a
  rw [ha] at hlines
  refine ⟨ids_step h.ids a, ?_, ?_⟩
  · intro l hl
    rcases hlines with ⟨f, hf, ht⟩ | ⟨job, payload, minRevision, now, hnew⟩
    · rw [hf] at hl
      obtain ⟨x, hx, rfl⟩ := List.mem_map.mp hl
      exact (Touches.spared (ht x)).1 (h.within x hx)
    · rw [hnew] at hl
      rcases List.mem_append.mp hl with hl | hl
      · exact h.within l hl
      · rw [List.mem_singleton.mp hl]
        exact Nat.zero_le _
  · intro d began now hd l hl
    rcases hticks d began now hd with hold | hdone
    · rcases hlines with ⟨f, hf, ht⟩ | ⟨job, payload, minRevision, now', hnew⟩
      · rw [hf] at hl
        obtain ⟨x, hx, rfl⟩ := List.mem_map.mp hl
        exact (Touches.spared (ht x)).2 now (h.spared d began now hold x hx)
      · rw [hnew] at hl
        rcases List.mem_append.mp hl with hl | hl
        · exact h.spared d began now hold l hl
        · rw [List.mem_singleton.mp hl]
          intro _ _
          show 0 < outboxMaxAttempts
          decide
    · exact hdone l hl

/-- Retiring the spent messages leaves none that can be claimed. -/
theorem spared_deadLetterExhausted (s : Outbox) (now : ℕ) :
    ∀ l ∈ (s.deadLetterExhausted now).lines, SparedAt now l.row := by
  intro l hl hp hu
  obtain ⟨x, -, rfl⟩ := List.mem_map.mp hl
  simp only [Line.touch] at hp hu ⊢
  by_cases hx : x.row.exhausted now = true
  · rw [if_pos hx] at hp
    simp [Message.deadLetterExhausted] at hp
  · rw [if_neg hx] at hp hu ⊢
    simp only [Message.exhausted, decide_eq_true_eq, not_and] at hx
    by_contra hspent
    exact hx hp (Nat.le_of_not_lt hspent) hu

/-- A claim takes messages that had an attempt left. -/
theorem within_claimBatch {s : Outbox} (h : Spared s) {d began now : ℕ}
    (hd : s.ticks d = .claiming began now) (jobs : Option (List String)) (held : List String)
    (revisions : Option (List String)) (skip : List ℕ) :
    ∀ l ∈ (s.claimBatch d jobs held revisions skip began now).lines,
      l.row.attemptCount ≤ outboxMaxAttempts := by
  intro l hl
  obtain ⟨x, hx, rfl⟩ := List.mem_map.mp hl
  simp only [Line.touch]
  split
  · rename_i hid
    obtain ⟨y, hy, hyid, hclaim⟩ := oldest_mem (of_decide_eq_true hid)
    -- the ids are unique, so the row that was picked is the row that is written
    have hnd : (s.lines.map fun l => l.row.id).Nodup := by
      rw [h.ids]
      exact List.nodup_range
    obtain rfl : y = x := List.inj_on_of_nodup_map hnd hy hx hyid
    obtain ⟨hpending, hunlocked, -⟩ := of_decide_eq_true hclaim
    have hleft := h.spared d began now hd y hy hpending hunlocked
    exact hleft
  · exact h.within x hx

/-- A claim begins by retiring the spent messages. -/
theorem claiming_step {s : Outbox} {a : Action} {d began now : ℕ}
    (h : (s.step a).ticks d = .claiming began now) :
    s.ticks d = .claiming began now ∨ ∀ l ∈ (s.step a).lines, SparedAt now l.row := by
  have hset : ∀ d' tick, (∀ b n, tick ≠ .claiming b n) →
      (s.setTick d' tick).ticks d = .claiming began now → s.ticks d = .claiming began now := by
    intro d' tick hnot hd
    by_cases hdd : d = d'
    · subst hdd
      exact absurd (by simpa [setTick] using hd) (hnot began now)
    · simpa only [setTick, Function.update_of_ne hdd] using hd
  revert h
  cases a with
  | enqueue =>
    simp only [step]
    split
    · exact Or.inl
    · exact Or.inl
  | deadLetterExhausted d' began' now' =>
    simp only [step]
    split
    · split
      · by_cases hdd : d = d'
        · subst hdd
          intro hd
          obtain ⟨-, rfl⟩ : began' = began ∧ now' = now := by simpa [setTick] using hd
          exact Or.inr (spared_deadLetterExhausted s now')
        · intro hd
          simp only [setTick, Function.update_of_ne hdd] at hd
          exact Or.inl hd
      · exact Or.inl
    · exact Or.inl
  | deadLetterUnknownJobs =>
    simp only [step]
    split
    · exact Or.inl
    · exact Or.inl
  | claim d' =>
    simp only [step]
    split
    · exact fun hd => Or.inl (hset d' (.publishing _ _ []) (by simp) hd)
    · exact Or.inl
  | publish d' outcome =>
    simp only [step]
    split
    · cases outcome with
      | accepted =>
        simp only [publish]
        split
        · exact Or.inl
        · exact fun hd => Or.inl (hset d' (.publishing _ _ _) (by simp) hd)
      | refused earlierRunFailed =>
        cases earlierRunFailed with
        | true => exact fun hd => Or.inl (hset d' (.publishing _ _ _) (by simp) hd)
        | false => exact fun hd => Or.inl (hset d' (.publishing _ _ _) (by simp) hd)
      | queueDown => exact fun hd => Or.inl (hset d' (.publishing _ _ _) (by simp) hd)
      | poison => exact fun hd => Or.inl (hset d' (.publishing _ _ _) (by simp) hd)
    · exact Or.inl
  | commit d' =>
    simp only [step]
    split
    · exact fun hd => Or.inl (hset d' .idle (by simp) hd)
    · exact Or.inl
  | crash d' => exact fun hd => Or.inl (hset d' .idle (by simp) hd)
  | record =>
    simp only [step]
    split
    · exact Or.inl
    · exact Or.inl
  | sweepUnconsumed =>
    simp only [step]
    split
    · exact Or.inl
    · exact Or.inl
  | replayDeadLetters =>
    simp only [step]
    split
    · exact Or.inl
    · exact Or.inl
  | _ => exact Or.inl

theorem spared_step {s : Outbox} (h : Spared s) (a : Action) (hu : unbroken s a) :
    Spared (s.step a) := by
  cases a with
  | claim d jobs held revisions skip =>
    have hids := ids_step h.ids (.claim d jobs held revisions skip)
    simp only [step] at hids ⊢
    split
    · rename_i began now hd
      simp only [hd] at hids
      refine ⟨hids, within_claimBatch h hd jobs held revisions skip, ?_⟩
      intro d' began' now' hd'
      by_cases hdd : d' = d
      · subst hdd
        simp [claimBatch, setTick] at hd'
      · simp only [claimBatch, setTick, Function.update_of_ne hdd] at hd'
        exact absurd hd' (hu d' hdd began' now')
    · exact h
  | commit d =>
    have hids := ids_step h.ids (.commit d)
    have hlines := step_lines s (.commit d)
    simp only [step] at hids hlines ⊢
    split
    · rename_i began writes hd
      simp only [hd] at hids hlines
      refine ⟨hids, ?_, ?_⟩
      · intro l hl
        obtain ⟨x, hx, rfl⟩ := List.mem_map.mp hl
        rw [Touches.attempts (Touches.commit began x writes)]
        exact h.within x hx
      · intro d' began' now' hd'
        by_cases hdd : d' = d
        · subst hdd
          simp [commit, setTick] at hd'
        · simp only [commit, mapLines, setTick, Function.update_of_ne hdd] at hd'
          exact absurd hd' (hu d' hdd began' now')
    · exact h
  | _ => exact h.other rfl fun d began now hd => claiming_step hd

theorem spared_run {as : List Action} (h : Run.Guarded step unbroken init as) :
    Spared (run as) :=
  @Run.Guarded.inv _ _ step unbroken Spared (fun _ a hs hu => spared_step hs a hu) init as
    spared_init h

/-! ## The claim on a message -/

/-- Every message is pending, published or failed. -/
def Statused (s : Outbox) : Prop :=
  ∀ l ∈ s.lines, l.row.status = .pending ∨ l.row.status = .published ∨ l.row.status = .failed

/-- No message is claimed too often between two replays. -/
def WithinBudget (s : Outbox) : Prop :=
  ∀ l ∈ s.lines, claimsSinceReplay l.history ≤ outboxMaxAttempts

/-- No message whose success was recorded is run again. -/
def NeverAgain (s : Outbox) : Prop :=
  ∀ l ∈ s.lines, ∀ after before asked, l.history = after ++ .began asked :: before →
    .recorded ∉ before

/-- No message whose success was recorded is run again by a run that could ask. -/
def NeverAgainAsked (s : Outbox) : Prop := ∀ l ∈ s.lines, RunsOnce l.history

/-- A message without a recorded success has its payload, until it is published if its job
carries a credential. -/
def KeepsPayload (s : Outbox) : Prop :=
  ∀ l ∈ s.lines, .recorded ∉ l.history →
    (l.row.job ∈ scrubAtPublishJobs → .published ∉ l.history) → l.row.payload = l.sent

/-- **The life of a message**, in any run; the budget, where no claim is broken into. -/
theorem message_life (as : List Action) :
    Statused (run as) ∧ NeverAgainAsked (run as) ∧ KeepsPayload (run as) ∧
      (Run.Guarded step unbroken init as → WithinBudget (run as)) := by
  refine ⟨?_, ?_, ?_, ?_⟩
  · intro l _
    cases l.row.status <;> simp
  · exact fun l hl => (kept_run as l hl).once
  · exact fun l hl => (kept_run as l hl).payload
  · intro h l hl
    rw [← (kept_run as l hl).attempts]
    exact (spared_run h).within l hl

/-- A message that is run again, its success recorded, by a worker that cannot ask: the mark
of its first publication was lost. -/
def ranUnasked : List Action :=
  [.enqueue "deliver_outbound_webhook" "lead" none 0, .deadLetterExhausted 0 0 0,
    .claim 0 none [] none [], .publish 0 .accepted, .crash 0, .start 0, .check 0 true, .begin 0,
    .finish 0 .done, .record 0 true 0, .pass 3700, .deadLetterExhausted 1 3700 3700,
    .claim 1 none [] none [], .publish 1 .accepted, .start 0, .check 0 false, .begin 0]

/-- A message that is claimed for the sixth time: the tick of its fourth claim is late with a
failure, and commits it inside the next claim. -/
def claimedInside : List Action :=
  [.enqueue "deliver_outbound_webhook" "lead" none 0,
    .deadLetterExhausted 0 0 0, .claim 0 none [] none [], .crash 0, .pass 121,
    .deadLetterExhausted 0 121 121, .claim 0 none [] none [], .crash 0, .pass 121,
    .deadLetterExhausted 0 242 242, .claim 0 none [] none [], .crash 0, .pass 121,
    .deadLetterExhausted 1 363 363, .claim 1 none [] none [], .publish 1 (.poison "TypeError"),
    .pass 121, .deadLetterExhausted 2 484 484, .claim 2 none [] none [], .pass 100,
    .deadLetterExhausted 3 584 584, .commit 1, .claim 3 none [] none []]

/-- **A run that cannot ask begins anyway**, and a claim that is broken into can take a
spent message. -/
theorem ranUnasked_and_claimedInside :
    (¬ ∀ as, NeverAgain (run as)) ∧ ¬ ∀ as, WithinBudget (run as) := by
  constructor
  · intro h
    have hline : (run ranUnasked).lines.map Line.history
        = [[.began false, .claimed, .recorded, .began true, .claimed]] := by decide +kernel
    obtain ⟨l, hl⟩ : ∃ l, (run ranUnasked).lines = [l] := by
      apply List.length_eq_one_iff.mp
      rw [← List.length_map (f := Line.history), hline]
      rfl
    rw [hl] at hline
    refine h ranUnasked l (by simp [hl]) [] [.claimed, .recorded, .began true, .claimed] false ?_ ?_
    · simpa using hline
    · simp
  · intro h
    have hsix : ¬ ∀ l ∈ (run claimedInside).lines,
        claimsSinceReplay l.history ≤ outboxMaxAttempts := by decide +kernel
    exact hsix (h claimedInside)

end Outbox

end Calevate.Reliability
