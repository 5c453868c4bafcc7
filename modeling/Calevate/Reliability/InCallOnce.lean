import Calevate.Lib.Run
import Mathlib.Data.List.Basic
import Mathlib.Tactic.Cases

/-!
# In-call actions

A model that fails in the middle of a turn has the turn run again, and the same action is asked
for twice. Who sets the key of the action runs it, and whoever comes later waits for the answer
that is kept there; an action that came to nothing lets the key go. Redis may fail at every
call, with or without having done what it was asked, and a process may die anywhere. Each key
that is lost and each first claim that fails costs one run more at most, `once_per_call_bound`,
and without them all who are answered are answered alike, `once_per_call_alike`.
-/

namespace Calevate.Reliability

/-! ## The key and its callers -/

/-- What an action answers with: the rest of it is text nobody here reads. -/
structure InCallAnswer where
  status : Option String
  body : String
  deriving DecidableEq, Repr

/-- `NOT_DONE`. -/
def notDoneStatuses : List String := ["unavailable", "caller_not_matched", "no_call"]

def InCallAnswer.notDone (a : InCallAnswer) : Bool := a.status.any (· ∈ notDoneStatuses)

/-- `IN_HAND_SAY`. -/
def inHandSay : String :=
  "This is already being done from a moment ago. Do NOT do it again. Tell the caller it is " ++
    "in hand."

def inHand : InCallAnswer := ⟨some "in_hand", inHandSay⟩

/-- `WAIT_S`, in milliseconds. -/
def inCallWait : ℕ := 6000

/-- What stands under the key. -/
inductive Kept where
  | pending
  | answer (a : InCallAnswer)
  deriving DecidableEq, Repr

/-- How a command ends: one that raises may have been carried out. -/
inductive Command where
  | works
  | raises (applied : Bool)
  deriving DecidableEq, Repr

def Command.applied : Command → Bool
  | works => true
  | raises applied => applied

/-- One call of `once_per_call`, by what it does next. -/
inductive InCall where
  | claiming
  /-- The action runs, under the claim or unguarded. -/
  | running (claimed : Bool)
  | keeping (a : InCallAnswer)
  /-- The key is let go, and then the answer is given or the exception raised. -/
  | forgetting (a : Option InCallAnswer)
  | waiting (deadline : ℕ)
  /-- The key was seen gone. -/
  | reclaiming (deadline : ℕ)
  | answered (a : InCallAnswer)
  | raised
  | died
  deriving DecidableEq, Repr

/-- The key of one call, action and arguments, with what was done. -/
structure InCallOnce where
  key : Option Kept
  calls : List InCall
  done : List InCallAnswer
  deriving DecidableEq, Repr

namespace InCallOnce

def start : InCallOnce := ⟨none, [], []⟩

/-- What one call does. -/
inductive Move where
  | claim (r : Command) (now : ℕ)
  | returns (a : InCallAnswer)
  | raises
  | save (r : Command)
  | forget (r : Command)
  | poll (r : Command) (now : ℕ)
  | reclaim (r : Command) (now : ℕ)
  | dies
  deriving DecidableEq, Repr

inductive Event where
  | call
  | move (i : ℕ) (m : Move)
  /-- Redis loses the key, or it expires. -/
  | lose
  deriving DecidableEq, Repr

/-- The deadline of a wait. -/
def waitOn (deadline now : ℕ) : InCall :=
  if deadline ≤ now then .answered inHand else .waiting deadline

/-- `SET key "pending" NX`, carried out. -/
def setPending (key : Option Kept) : Option Kept := some (key.getD .pending)

/-- What a move does to the key and the call, and what is done by it. -/
structure Turn where
  key : Option Kept
  call : InCall
  done : Option InCallAnswer

/-- **`once_per_call`**, `_run_claimed` and `_answer_of_first`, from one await to the next. -/
def turn (key : Option Kept) : InCall → Move → Turn
  | .claiming, .claim .works now =>
    if key = none then ⟨setPending key, .running true, none⟩
    else ⟨key, .waiting (now + inCallWait), none⟩
  | .claiming, .claim (.raises applied) _ =>
    ⟨if applied then setPending key else key, .running false, none⟩
  | .running claimed, .returns a =>
    if a.notDone then ⟨key, if claimed then .forgetting (some a) else .answered a, none⟩
    else ⟨key, if claimed then .keeping a else .answered a, some a⟩
  | .running claimed, .raises => ⟨key, if claimed then .forgetting none else .raised, none⟩
  | .keeping a, .save r => ⟨if r.applied then some (.answer a) else key, .answered a, none⟩
  | .forgetting a, .forget r => ⟨if r.applied then none else key, a.elim .raised .answered, none⟩
  | .waiting deadline, .poll .works now =>
    match key with
    | none => ⟨key, .reclaiming deadline, none⟩
    | some .pending => ⟨key, waitOn deadline now, none⟩
    | some (.answer a) => ⟨key, .answered a, none⟩
  -- a read that fails is not an absent key
  | .waiting deadline, .poll (.raises _) now => ⟨key, waitOn deadline now, none⟩
  | .reclaiming deadline, .reclaim .works now =>
    if key = none then ⟨setPending key, .running true, none⟩
    else ⟨key, waitOn deadline now, none⟩
  | .reclaiming deadline, .reclaim (.raises applied) now =>
    ⟨if applied then setPending key else key, waitOn deadline now, none⟩
  | _, .dies => ⟨key, .died, none⟩
  | c, _ => ⟨key, c, none⟩

def step (s : InCallOnce) : Event → InCallOnce
  | .call => { s with calls := s.calls ++ [.claiming] }
  | .lose => { s with key := none }
  | .move i m =>
    match s.calls[i]? with
    | none => s
    | some c =>
      let t := turn s.key c m
      ⟨t.key, s.calls.set i t.call, s.done ++ t.done.toList⟩

/-- A first claim that fails. -/
def Move.isLapse : Move → Bool
  | .claim (.raises _) _ => true
  | _ => false

/-- The same, or a key lost. -/
def Event.isLapse : Event → Bool
  | .call => false
  | .move _ m => m.isLapse
  | .lose => true

def InCall.runs : InCall → Bool
  | .running _ => true
  | _ => false

/-- The actions that run at this moment. -/
def running (s : InCallOnce) : ℕ := s.calls.countP InCall.runs

/-! ## How often an action is done -/

/-- The call may still do something, or let the key go for another. -/
def InCall.holds : InCall → Bool
  | .running _ => true
  | .forgetting _ => true
  | _ => false

/-- Whoever comes next may run. -/
def free (key : Option Kept) : ℕ := if key = none then 1 else 0

/-- What was done, what may be done yet and what may be begun. -/
def weight (s : InCallOnce) : ℕ := s.done.length + s.calls.countP InCall.holds + free s.key

theorem free_setPending (key : Option Kept) : free (setPending key) = 0 := rfl

theorem holds_waitOn (deadline now : ℕ) : InCall.holds (waitOn deadline now) = false := by
  unfold waitOn
  split <;> rfl

/-- What a move does to the weight. -/
theorem turn_weight (key : Option Kept) (c : InCall) (m : Move) :
    (turn key c m).done.toList.length + (InCall.holds (turn key c m).call).toNat +
        free (turn key c m).key ≤
      (InCall.holds c).toNat + free key + m.isLapse.toNat := by
  have hfree : free key ≤ 1 := by
    unfold free
    split <;> omega
  unfold turn
  split
  case h_1 =>
    split
    next hkey => simp [InCall.holds, free, setPending, hkey]
    next => simp [InCall.holds]
  case h_2 applied now =>
    cases applied <;> simp [InCall.holds, Move.isLapse, free_setPending]
    omega
  case h_3 claimed a =>
    split <;> cases claimed <;> simp [InCall.holds]
    omega
  case h_4 claimed =>
    cases claimed <;> simp [InCall.holds]
    omega
  case h_5 a r => split <;> simp [InCall.holds, free]
  case h_6 a r =>
    have hend : InCall.holds (a.elim .raised .answered) = false := by cases a <;> rfl
    -- the key is free again, and the call does no more
    rw [hend]
    split <;> simp [InCall.holds, free] <;> omega
  case h_7 deadline now =>
    split
    · simp [InCall.holds]
    · rw [holds_waitOn]
      simp
      omega
    · simp [InCall.holds]
  case h_8 deadline applied now =>
    rw [holds_waitOn]
    simp
    omega
  case h_9 deadline now =>
    split
    next hkey => simp [InCall.holds, free, setPending, hkey]
    next =>
      rw [holds_waitOn]
      simp
      omega
  case h_10 deadline applied now =>
    rw [holds_waitOn]
    cases applied <;> simp [free_setPending]
    omega
  case h_11 =>
    simp [InCall.holds]
    omega
  case h_12 => simp

/-- **A step adds nothing to the weight unless it is a lapse.** -/
theorem weight_step (s : InCallOnce) (e : Event) :
    (s.step e).weight ≤ s.weight + (e.isLapse).toNat := by
  cases e with
  | call =>
    show s.done.length + (s.calls ++ [InCall.claiming]).countP InCall.holds + free s.key ≤ _
    rw [List.countP_append]
    exact Nat.le_refl _
  | lose =>
    show s.done.length + s.calls.countP InCall.holds + 1 ≤ weight s + 1
    unfold weight
    omega
  | move i m =>
    cases hc : s.calls[i]? with
    | none =>
      have hsame : s.step (.move i m) = s := by simp only [step, hc]
      rw [hsame]
      exact Nat.le_add_right _ _
    | some c =>
      obtain ⟨hi, hget⟩ := List.getElem?_eq_some_iff.mp hc
      have hturn := turn_weight s.key c m
      have hheld : (InCall.holds c).toNat ≤ s.calls.countP InCall.holds := by
        cases hh : InCall.holds c with
        | false => exact Nat.zero_le _
        | true =>
          have hpos : 0 < s.calls.countP InCall.holds :=
            List.countP_pos_iff.mpr ⟨c, List.mem_of_getElem? hc, hh⟩
          simpa using hpos
      have hcount : (s.calls.set i (turn s.key c m).call).countP InCall.holds =
          s.calls.countP InCall.holds - (InCall.holds c).toNat +
            (InCall.holds (turn s.key c m).call).toNat := by
        rw [List.countP_set hi, hget]
        cases InCall.holds c <;> cases InCall.holds (turn s.key c m).call <;> rfl
      have hstep : (s.step (.move i m)).weight = s.done.length +
          (turn s.key c m).done.toList.length +
            (s.calls.set i (turn s.key c m).call).countP InCall.holds +
              free (turn s.key c m).key := by
        simp only [step, hc, weight, List.length_append]
      rw [hstep, hcount, weight, Event.isLapse]
      omega

/-- A run adds as much as it has lapses. -/
theorem weight_run (es : List Event) (s : InCallOnce) :
    (es.foldl step s).weight ≤ s.weight + es.countP Event.isLapse := by
  induction es generalizing s with
  | nil => exact Nat.le_refl _
  | cons e es ih =>
    have hone := weight_step s e
    have hrest := ih (s.step e)
    rw [List.foldl_cons, List.countP_cons]
    cases he : e.isLapse <;> simp only [he, Bool.toNat_true, Bool.toNat_false, if_true,
      Bool.false_eq_true, if_false] at hone ⊢ <;> omega

/-- From the start there is one action to do. -/
theorem weight_start_run (es : List Event) :
    (es.foldl step start).weight ≤ 1 + es.countP Event.isLapse := weight_run es start

theorem running_le (s : InCallOnce) : s.running ≤ s.calls.countP InCall.holds := by
  refine List.countP_mono_left fun c _ hc => ?_
  cases c <;> first | rfl | exact absurd hc Bool.false_ne_true

/-- **An action is done once**, and once more at most for each key that is lost and each first
claim that fails; as many run at a time. -/
theorem once_per_call_bound (es : List Event) :
    (es.foldl step start).done.length + (es.foldl step start).running ≤
      1 + es.countP Event.isLapse := by
  have hweight := weight_start_run es
  have hruns := running_le (es.foldl step start)
  rw [weight] at hweight
  omega

/-! ## What is answered -/

/-- An answer that tells of nothing done. -/
def Idle (a : InCallAnswer) : Prop := a = inHand ∨ a.notDone = true

/-- What is kept and what is given was done, or says that nothing was. -/
def Told (done : List InCallAnswer) : InCall → Prop
  | .keeping a => a ∈ done
  | .forgetting (some a) => a.notDone = true
  | .answered a => a ∈ done ∨ Idle a
  | _ => True

structure Honest (s : InCallOnce) : Prop where
  key : ∀ a, s.key = some (.answer a) → a ∈ s.done
  calls : ∀ c ∈ s.calls, Told s.done c

theorem Told.mono {done more : List InCallAnswer} {c : InCall} (h : Told done c) :
    Told (done ++ more) c := by
  cases c with
  | keeping a => exact List.mem_append_left _ h
  | forgetting a => cases a <;> exact h
  | answered a => exact h.imp_left (List.mem_append_left _)
  | _ => trivial

theorem told_waitOn (done : List InCallAnswer) (deadline now : ℕ) :
    Told done (waitOn deadline now) := by
  unfold waitOn
  split
  · exact .inr (.inl rfl)
  · trivial

theorem setPending_answer {key : Option Kept} {a : InCallAnswer}
    (h : setPending key = some (.answer a)) : key = some (.answer a) := by
  cases key with
  | none => cases h
  | some k => exact h

/-- What a move tells. -/
theorem turn_told {key : Option Kept} {c : InCall} {done : List InCallAnswer} (m : Move)
    (hkey : ∀ a, key = some (.answer a) → a ∈ done) (hc : Told done c) :
    (∀ a, (turn key c m).key = some (.answer a) → a ∈ done) ∧
      Told (done ++ (turn key c m).done.toList) (turn key c m).call := by
  have hpending : ∀ a, setPending key = some (.answer a) → a ∈ done :=
    fun a ha => hkey a (setPending_answer ha)
  unfold turn
  split
  case h_1 => split <;> exact ⟨by assumption, trivial⟩
  case h_2 applied now => cases applied <;> exact ⟨by assumption, trivial⟩
  case h_3 claimed a =>
    split
    next hidle =>
      refine ⟨hkey, ?_⟩
      cases claimed
      · exact .inr (.inr hidle)
      · exact hidle
    next hdone =>
      refine ⟨hkey, ?_⟩
      have hmem : a ∈ done ++ (some a).toList := List.mem_append_right _ (List.mem_singleton_self a)
      cases claimed
      · exact .inl hmem
      · exact hmem
  case h_4 claimed => cases claimed <;> exact ⟨hkey, trivial⟩
  case h_5 a r =>
    refine ⟨fun b hb => ?_, .inl (List.mem_append_left _ hc)⟩
    split at hb
    · cases hb
      exact hc
    · exact hkey b hb
  case h_6 a r =>
    refine ⟨fun b hb => ?_, ?_⟩
    · split at hb
      · cases hb
      · exact hkey b hb
    · cases a with
      | none => trivial
      | some a => exact .inr (.inr hc)
  case h_7 deadline now =>
    split
    · exact ⟨hkey, trivial⟩
    · exact ⟨hkey, told_waitOn _ _ _⟩
    next a => exact ⟨hkey, .inl (List.mem_append_left _ (hkey a rfl))⟩
  case h_8 => exact ⟨hkey, told_waitOn _ _ _⟩
  case h_9 =>
    split
    · exact ⟨hpending, trivial⟩
    · exact ⟨hkey, told_waitOn _ _ _⟩
  case h_10 applied now => cases applied <;> exact ⟨by assumption, told_waitOn _ _ _⟩
  case h_11 => exact ⟨hkey, trivial⟩
  case h_12 => exact ⟨hkey, hc.mono⟩

/-- Every step is honest. -/
theorem Honest.step {s : InCallOnce} (h : s.Honest) (e : Event) : (s.step e).Honest := by
  cases e with
  | call =>
    refine ⟨h.key, fun c hc => ?_⟩
    rcases List.mem_append.mp hc with hc | hc
    · exact h.calls c hc
    · rw [List.mem_singleton.mp hc]
      trivial
  | lose => exact ⟨fun a ha => (by cases ha), h.calls⟩
  | move i m =>
    cases hc : s.calls[i]? with
    | none =>
      have hsame : s.step (.move i m) = s := by simp only [InCallOnce.step, hc]
      rwa [hsame]
    | some c =>
      obtain ⟨hkey, htold⟩ := turn_told m h.key (h.calls c (List.mem_of_getElem? hc))
      simp only [InCallOnce.step, hc]
      refine ⟨fun a ha => List.mem_append_left _ (hkey a ha), fun d hd => ?_⟩
      rcases List.mem_or_eq_of_mem_set hd with hd | rfl
      · exact (h.calls d hd).mono
      · exact htold

/-- **All are answered alike**: where no key is lost and no first claim fails, two callers who
are told of something done are told the same. -/
theorem once_per_call_alike {es : List Event} (h : es.countP Event.isLapse = 0)
    {a b : InCallAnswer} (ha : .answered a ∈ (es.foldl step start).calls)
    (hb : .answered b ∈ (es.foldl step start).calls) : Idle a ∨ Idle b ∨ a = b := by
  have hhonest : (es.foldl step start).Honest :=
    Lib.Run.foldl_inv (fun _ e hs => hs.step e)
      ⟨fun a ha => (by cases ha), fun c hc => absurd hc List.not_mem_nil⟩ es
  have hbound : (es.foldl step start).done.length ≤ 1 := by
    have hweight := weight_start_run es
    rw [weight] at hweight
    omega
  rcases hhonest.calls _ ha with hda | hia
  · rcases hhonest.calls _ hb with hdb | hib
    · obtain ⟨c, hc⟩ := List.length_eq_one_iff.mp
        (Nat.le_antisymm hbound (List.length_pos_of_mem hda))
      rw [hc] at hda hdb
      exact .inr (.inr ((List.mem_singleton.mp hda).trans (List.mem_singleton.mp hdb).symm))
    · exact .inr (.inl hib)
  · exact .inl hia

/-- The first run comes to nothing, and one of the two who wait makes the booking. -/
def reclaimed : List Event :=
  [.call, .call, .call, .move 0 (.claim .works 0), .move 1 (.claim .works 100),
    .move 0 (.returns ⟨some "no_call", ""⟩), .move 0 (.forget .works), .move 1 (.poll .works 200),
    .move 1 (.reclaim .works 201), .move 2 (.claim .works 300),
    .move 1 (.returns ⟨some "booked", "Friday"⟩), .move 1 (.save .works),
    .move 2 (.poll .works 500)]

theorem once_per_call_alike_reclaimed :
    Idle ⟨some "no_call", ""⟩ ∨ Idle ⟨some "booked", "Friday"⟩ ∨
      (⟨some "no_call", ""⟩ : InCallAnswer) = ⟨some "booked", "Friday"⟩ :=
  have h : reclaimed.countP Event.isLapse = 0 := by decide
  once_per_call_alike h (by decide) (by decide)

end InCallOnce

end Calevate.Reliability
