import Calevate.Lib.Run

/-!
# A number lent to a dial

An agent with no number of its own rings from one of its client's, which is lent to it just
before the dial. The number is held for the call: the intent's transaction counts the other
agents' calls that present it, and from its commit the row is the hold. But the lend comes
behind the commit, the number's own agent dials without counting and without being counted where
it leaves the choice of the line to the engine, and a hold ends with its row. A lend finds no
other agent's call on the number in every run whose intents keep clear of the lends that wait
(`lent_clear`).
-/

namespace Calevate.Agents

open Lib

/-! ## The line of a dial -/

/-- A number a client's dials may present. -/
structure Number where
  e164 : ℕ
  /-- The agent that answers it, if one does. -/
  agent : Option ℕ
  /-- The engine has it under a reference, by which it is lent. -/
  lendable : Bool
  deriving DecidableEq, Repr

/-- `CallerLine`. -/
structure CallerLine where
  e164 : ℕ
  own : Bool
  lendable : Bool
  deriving DecidableEq, Repr

/-- A number, to the agent that would dial from it. -/
def Number.line (agent : ℕ) (number : Number) : CallerLine :=
  ⟨number.e164, number.agent = some agent, number.lendable⟩

/-- `caller_lines`: the agent's own first, then oldest first. -/
def callerLines (numbers : List Number) (agent : ℕ) : List CallerLine :=
  (numbers.filter fun number => number.agent = some agent).map (Number.line agent) ++
    (numbers.filter fun number => number.agent ≠ some agent).map (Number.line agent)

/-- `choose_caller_line`; `none` where a campaign's number is no longer one of them, and no line
at all where the engine chooses it. -/
def chooseCallerLine (lines : List CallerLine) : Option ℕ → Option (Option CallerLine)
  | some chosen => (lines.find? fun line => line.e164 = chosen).map some
  | none =>
    let own := lines.filter CallerLine.own
    if own = [] then some lines.head?
    else some (if own.length = 1 then own.head? else none)

/-- The line is another agent's, and is lent. -/
def CallerLine.borrowed (line : CallerLine) : Bool := !line.own && line.lendable

/-- The agent answers the number. -/
def Answers (numbers : List Number) (e164 agent : ℕ) : Prop :=
  ∃ number ∈ numbers, number.e164 = e164 ∧ number.agent = some agent

instance (numbers : List Number) (e164 agent : ℕ) : Decidable (Answers numbers e164 agent) :=
  inferInstanceAs (Decidable (∃ number ∈ numbers, _))

/-! ## Calls of one client -/

/-- `ENGINE_LINE_HORIZON`, in seconds. -/
def engineLineHorizon : ℕ := 3600 + 600

/-- An outbound row of `calls`, and the dial behind it. -/
structure Call where
  agent : ℕ
  fromE164 : Option ℕ
  createdAt : ℕ
  /-- Queued, ringing or in progress. -/
  live : Bool
  /-- The number that the dial is still to be lent. -/
  awaits : Option ℕ
  deriving DecidableEq, Repr

structure Lines where
  now : ℕ
  calls : List Call
  deriving DecidableEq, Repr

namespace Lines

def start : Lines := ⟨0, []⟩

/-- `_NUMBER_LENT_ELSEWHERE_SQL` counts some, in a transaction that began at the time. -/
def lentElsewhere (s : Lines) (e164 agent began : ℕ) : Bool :=
  s.calls.any fun call => call.fromE164 = some e164 ∧ call.agent ≠ agent ∧ call.live ∧
    began < call.createdAt + engineLineHorizon

/-- The intent row of a dial, unless it is refused; its transaction has waited for the engine's
lock, under which it counts and commits. -/
def intent (numbers : List Number) (s : Lines) (agent : ℕ) (chosen : Option ℕ) (waited : ℕ) :
    Option Call :=
  match chooseCallerLine (callerLines numbers agent) chosen with
  | none => none
  | some line =>
    match line.filter CallerLine.borrowed with
    | some lent =>
      if s.lentElsewhere lent.e164 agent (s.now - waited) then none
      else some ⟨agent, some lent.e164, s.now - waited, true, some lent.e164⟩
    | none => some ⟨agent, line.map CallerLine.e164, s.now - waited, true, none⟩

inductive Action where
  /-- The intent of a dial. -/
  | dial (agent : ℕ) (chosen : Option ℕ) (waited : ℕ)
  /-- `_lend_client_number`; a dial that it fails is closed. -/
  | lend (id : ℕ) (lent : Bool)
  /-- The dial dies before its lend. -/
  | die (id : ℕ)
  /-- The row's call ends, or is closed. -/
  | finish (id : ℕ)
  | elapse (seconds : ℕ)
  deriving DecidableEq, Repr

/-- The row is written. -/
def update (s : Lines) (id : ℕ) (f : Call → Call) : Lines := { s with calls := s.calls.modify id f }

def step (numbers : List Number) (s : Lines) : Action → Lines
  | .dial agent chosen waited =>
    { s with calls := s.calls ++ (intent numbers s agent chosen waited).toList }
  | .lend id lent => s.update id fun call => { call with awaits := none, live := call.live && lent }
  | .die id => s.update id fun call => { call with awaits := none }
  | .finish id => s.update id fun call => { call with live := false }
  | .elapse seconds => { s with now := s.now + seconds }

def run (numbers : List Number) (actions : List Action) : Lines :=
  actions.foldl (step numbers) start

/-! ## What is promised -/

/-- The call presents the number, or the number's own agent placed it from its own line. -/
def Call.Rings (numbers : List Number) (call : Call) (e164 : ℕ) : Prop :=
  call.fromE164 = some e164 ∨ (call.fromE164 = none ∧ Answers numbers e164 call.agent)

/-- Another agent's call rings on the number. -/
def Collides (numbers : List Number) (now e164 agent : ℕ) (call : Call) : Prop :=
  call.agent ≠ agent ∧ Call.Rings numbers call e164 ∧ call.live = true ∧
    now < call.createdAt + engineLineHorizon

/-- **The number that the dial awaits may be lent to it**: no other agent's call rings on it. -/
def Clear (numbers : List Number) (s : Lines) (id : ℕ) : Prop :=
  ∀ call e164, s.calls[id]? = some call → call.awaits = some e164 →
    ∀ other ∈ s.calls, ¬ Collides numbers s.now e164 call.agent other

/-- **The intent keeps clear of the lends**: it rings on no number that another agent's dial
awaits, and what it borrows has no call of the number's own agent on the agent's own line. -/
def KeepsClear (numbers : List Number) (s : Lines) : Action → Prop
  | .dial agent chosen waited =>
    ∀ call, intent numbers s agent chosen waited = some call →
      (∀ waiting ∈ s.calls, ∀ e164, waiting.awaits = some e164 →
        ¬ Collides numbers s.now e164 waiting.agent call) ∧
      ∀ e164, call.awaits = some e164 → ∀ other ∈ s.calls, other.fromE164 = none →
        ¬ Collides numbers s.now e164 agent other
  | _ => True

/-! ## Every run -/

variable {numbers : List Number} {s : Lines}

/-- What an intent that was let through has in it. -/
theorem intent_some {agent waited : ℕ} {chosen : Option ℕ} {call : Call}
    (h : intent numbers s agent chosen waited = some call) :
    call.agent = agent ∧ ∀ e164, call.awaits = some e164 →
      call.fromE164 = some e164 ∧ s.lentElsewhere e164 agent (s.now - waited) = false := by
  rw [intent] at h
  split at h
  · cases h
  next line _ =>
    split at h
    next lent _ =>
      split at h
      · cases h
      next hfree =>
        obtain rfl := Option.some.inj h
        refine ⟨rfl, fun e164 he => ?_⟩
        obtain rfl := Option.some.inj he
        exact ⟨rfl, eq_false_of_ne_true hfree⟩
    · obtain rfl := Option.some.inj h
      exact ⟨rfl, fun e164 he => nomatch he⟩

/-- A call that presents the number and rings on it is counted. -/
theorem lentElsewhere_of_collides {e164 agent waited : ℕ} {other : Call} (hmem : other ∈ s.calls)
    (hfrom : other.fromE164 = some e164) (h : Collides numbers s.now e164 agent other) :
    s.lentElsewhere e164 agent (s.now - waited) = true := by
  obtain ⟨hagent, -, hlive, hfresh⟩ := h
  refine List.any_eq_true.mpr ⟨other, hmem, decide_eq_true ⟨hfrom, hagent, hlive, ?_⟩⟩
  omega

/-- Every lend that waits may be made. -/
def AllClear (numbers : List Number) (s : Lines) : Prop := ∀ id, Clear numbers s id

theorem allClear_iff : AllClear numbers s ↔ ∀ call ∈ s.calls, ∀ e164, call.awaits = some e164 →
    ∀ other ∈ s.calls, ¬ Collides numbers s.now e164 call.agent other := by
  constructor
  · intro h call hmem
    obtain ⟨id, hid⟩ := List.mem_iff_getElem?.mp hmem
    exact fun e164 => h id call e164 hid
  · exact fun h id call e164 hid => h call (List.mem_of_getElem? hid) e164

/-- A write that lends nothing anew and revives no call keeps it. -/
theorem AllClear.update (h : AllClear numbers s) (id : ℕ) {f : Call → Call}
    (hf : ∀ call, (f call).agent = call.agent ∧ (f call).fromE164 = call.fromE164 ∧
      (f call).createdAt = call.createdAt ∧ ((f call).live = true → call.live = true) ∧
      ∀ e164, (f call).awaits = some e164 → call.awaits = some e164) :
    AllClear numbers (s.update id f) := by
  have hbefore : ∀ call ∈ (s.update id f).calls, ∃ old ∈ s.calls, call = old ∨ call = f old := by
    intro call hmem
    obtain ⟨place, hplace⟩ := List.mem_iff_getElem?.mp hmem
    rw [Lines.update, List.getElem?_modify] at hplace
    obtain ⟨old, hold, rfl⟩ := Option.map_eq_some_iff.mp hplace
    refine ⟨old, List.mem_of_getElem? hold, ?_⟩
    by_cases hid : id = place
    · exact .inr (if_pos hid)
    · exact .inl (if_neg hid)
  rw [allClear_iff] at h ⊢
  intro call hmem e164 hawaits other hother hcollides
  obtain ⟨old, hold, hcall⟩ := hbefore call hmem
  obtain ⟨theirs, htheirs, hsame⟩ := hbefore other hother
  have hcall' : old.agent = call.agent ∧ old.awaits = some e164 := by
    rcases hcall with rfl | rfl
    · exact ⟨rfl, hawaits⟩
    · exact ⟨(hf old).1.symm, (hf old).2.2.2.2 e164 hawaits⟩
  have hcollides' : Collides numbers s.now e164 old.agent theirs := by
    rw [hcall'.1]
    rcases hsame with rfl | rfl
    · exact hcollides
    · obtain ⟨hagent, hfrom, hcreated, hlive, -⟩ := hf theirs
      obtain ⟨hother', hrings, hstill, hfresh⟩ := hcollides
      rw [Call.Rings, hagent, hfrom] at hrings
      rw [hagent] at hother'
      rw [hcreated] at hfresh
      exact ⟨hother', hrings, hlive hstill, hfresh⟩
  exact h old hold e164 hcall'.2 theirs htheirs hcollides'

theorem AllClear.elapse (h : AllClear numbers s) (seconds : ℕ) :
    AllClear numbers { s with now := s.now + seconds } := by
  rw [allClear_iff] at h ⊢
  intro call hmem e164 hawaits other hother hcollides
  obtain ⟨hagent, hrings, hlive, hfresh⟩ := hcollides
  refine h call hmem e164 hawaits other hother ⟨hagent, hrings, hlive, ?_⟩
  dsimp only at hfresh
  omega

theorem AllClear.dial (h : AllClear numbers s) {agent waited : ℕ} {chosen : Option ℕ}
    (hkeeps : KeepsClear numbers s (.dial agent chosen waited)) :
    AllClear numbers (step numbers s (.dial agent chosen waited)) := by
  rw [step]
  cases hintent : intent numbers s agent chosen waited with
  | none => simpa using h
  | some new =>
    obtain ⟨hwaiting, hborrowed⟩ := hkeeps new hintent
    obtain ⟨hagent, hawaited⟩ := intent_some hintent
    rw [allClear_iff] at h ⊢
    simp only [Option.toList_some, List.mem_append, List.mem_singleton]
    rintro call (hmem | rfl) e164 hawaits other (hother | rfl) hcollides
    · exact h call hmem e164 hawaits other hother hcollides
    · exact hwaiting call hmem e164 hawaits hcollides
    · -- the count has seen what presents the number
      rw [hagent] at hcollides
      rcases hcollides.2.1 with hfrom | ⟨hown, -⟩
      · have hcounted : s.lentElsewhere e164 agent (s.now - waited) = true :=
          lentElsewhere_of_collides hother hfrom hcollides
        rw [(hawaited e164 hawaits).2] at hcounted
        cases hcounted
      · exact hborrowed e164 hawaits other hother hown hcollides
    · exact hcollides.1 rfl

/-- **One step keeps it**, where an intent keeps clear of the lends. -/
theorem step_allClear (h : AllClear numbers s) {a : Action} (hkeeps : KeepsClear numbers s a) :
    AllClear numbers (step numbers s a) := by
  cases a with
  | dial agent chosen waited => exact h.dial hkeeps
  | lend id lent =>
    refine h.update id fun call => ⟨rfl, rfl, rfl, fun hlive => ?_, fun e164 he => nomatch he⟩
    exact (Bool.and_eq_true _ _ ▸ hlive).1
  | die id =>
    exact h.update id fun call => ⟨rfl, rfl, rfl, fun hlive => hlive, fun e164 he => nomatch he⟩
  | finish id =>
    exact h.update id fun call => ⟨rfl, rfl, rfl, fun hlive => (nomatch hlive), fun e164 he => he⟩
  | elapse seconds => exact h.elapse seconds

theorem start_allClear : AllClear numbers start := fun _ _ _ hid => nomatch hid

theorem guarded_allClear {actions : List Action}
    (h : Run.Guarded (step numbers) (KeepsClear numbers) start actions) :
    AllClear numbers (run numbers actions) :=
  @Run.Guarded.inv _ _ (step numbers) (KeepsClear numbers) (AllClear numbers)
    (fun _ _ hs hkeeps => step_allClear hs hkeeps) start actions start_allClear h

/-- **An intent that does not keep clear** leaves a lend that finds another agent's call. -/
theorem not_allClear_of_dial {agent waited : ℕ} {chosen : Option ℕ}
    (h : ¬ KeepsClear numbers s (.dial agent chosen waited)) :
    ¬ AllClear numbers (step numbers s (.dial agent chosen waited)) := by
  intro hclear
  refine h fun new hintent => ?_
  rw [step, hintent] at hclear
  have hboth := (allClear_iff).mp hclear
  simp only [Option.toList_some, List.mem_append, List.mem_singleton] at hboth
  have hagent := (intent_some hintent).1
  constructor
  · intro waiting hmem e164 hawaits
    exact hboth waiting (.inl hmem) e164 hawaits new (.inr rfl)
  · intro e164 hawaits other hmem _
    rw [← hagent]
    exact hboth new (.inr rfl) e164 hawaits other (.inl hmem)

/-- **A number is lent under no other agent's call** in every run whose intents keep clear of
the lends that wait; and an intent that does not leaves a lend that is made under one. -/
theorem lent_clear (numbers : List Number) (actions : List Action) :
    (Run.Guarded (step numbers) (KeepsClear numbers) start actions →
        ∀ before id after, actions = before ++ .lend id true :: after →
          Clear numbers (run numbers before) id) ∧
      ∀ a, ¬ KeepsClear numbers (run numbers actions) a →
        ∃ id, ¬ Clear numbers (run numbers (actions ++ [a])) id := by
  constructor
  · rintro h before id after rfl
    exact guarded_allClear h.begins id
  · intro a ha
    rw [run, List.foldl_append]
    cases a with
    | dial agent chosen waited =>
      have hnot := not_allClear_of_dial ha
      rw [AllClear, not_forall] at hnot
      exact hnot
    | _ => exact absurd trivial ha

/-! ## A number lent under its own agent's call -/

/-- One number, which agent 1 answers. -/
def oneNumber : List Number := [⟨7, some 1, true⟩]

/-- Agent 2 borrows it, agent 1 dials from it, and it is lent. -/
def ownBeforeLend : List Action := [.dial 2 none 0, .dial 1 none 0, .lend 0 true]

/-- **It is lent under the call of its own agent.** -/
theorem ownBeforeLend_collides :
    ¬ ∀ (numbers : List Number) (actions before after : List Action) (id : ℕ),
      actions = before ++ .lend id true :: after → Clear numbers (run numbers before) id := by
  intro h
  have hclear := h oneNumber ownBeforeLend [.dial 2 none 0, .dial 1 none 0] [] 0 rfl
    ⟨2, some 7, 0, true, some 7⟩ 7 (by decide +kernel) rfl
    ⟨1, some 7, 0, true, none⟩ (by decide +kernel)
  exact hclear ⟨by decide, .inl rfl, rfl, by decide⟩

end Lines

end Calevate.Agents
