import Mathlib.Order.Nat
import Calevate.Integrations.Deliveries

/-!
# A retried delivery has its body

While a delivery waits for another attempt, the message it names still carries what the first
attempt was sent, and a delivery that arrived stays delivered, in exactly the runs where no run
of the message is recorded as consumed while the delivery waits, and none is sent again or put
back to wait behind that. The wrapper that records the consumption asks for none of it: it goes
by whether the run returned.
-/

namespace Calevate

namespace Integrations

open Lib

variable {Body : Type} {body : Body}

/-! ## The promise, and what it takes -/

/-- The next attempt of a waiting delivery is handed what the first was enqueued with. -/
def HasBody (body : Body) (s : State Body) : Prop :=
  ∀ row, s.row = some row → row.status = .retrying → s.handed row = some (some body)

/-- A delivery that arrived has arrived. -/
def StaysDelivered (s s' : State Body) : Prop :=
  ∀ row, s.row = some row → row.status = .delivered →
    ∃ row', s'.row = some row' ∧ row'.status = .delivered

/-- A consumption is recorded only when the delivery waits for no further attempt; a delivery is
put back to wait, by an attempt or by hand, only while the message has its payload; and no
attempt is recorded over one that arrived, unless it arrived as well. -/
def Unforgotten (s : State Body) : Action → Prop
  | .advance i _ _ _ =>
    match s.stage i with
    | .answered run answer =>
      (statusOf answer run.attempt = .retrying → s.message.payload.isSome = true) ∧
        ∀ row, s.row = some row → row.status = .delivered →
          statusOf answer run.attempt = .delivered
    | .returned _ => ∀ row, s.row = some row → row.status ≠ .retrying
    | _ => True
  | .resend _ => ∀ row, s.row = some row → row.status = .failed → row.held = true →
      s.message.payload.isSome = true
  | _ => True

/-- Attempts are recorded one behind the other, each over a delivery that waits for it. -/
def InTurn (s : State Body) : Action → Prop
  | .advance i _ _ _ =>
    match s.stage i with
    | .answered run _ => ∀ row, s.row = some row →
        row.status = .retrying ∧ run.attempt = row.attempts + 1
    | _ => True
  | _ => True

/-! ## What every run keeps -/

/-- The run at a stage. -/
def Stage.run? : Stage Body → Option (Attempt Body)
  | .idle => none
  | .checking run | .running run | .answered run _ | .returned run => some run

/-- The delivery's row names the message. -/
def Held (s : State Body) : Prop := ∃ row, s.row = some row ∧ row.held = true

structure Sound (body : Body) (s : State Body) : Prop where
  payload : s.message.payload = if s.message.consumedAt = none then some body else none
  waiting : ∀ row, s.row = some row → row.status = .retrying → row.held = true
  queued : ∀ run ∈ s.queue, 0 < run.attempt ∧ Held s
  run : ∀ i run, (s.stage i).run? = some run → 0 < run.attempt ∧ (run.fromOutbox = false → Held s)

theorem sound_start (body : Body) : Sound body (start body) where
  payload := rfl
  waiting := fun _ h => nomatch h
  queued := fun _ h => absurd h List.not_mem_nil
  run := fun _ _ h => nomatch h

theorem statusOf_retrying {answer : Answer} {attempt : ℕ}
    (h : statusOf answer attempt = .retrying) :
    answer = .transient ∧ attempt < webhookMaxAttempts := by
  cases answer
  case transient =>
    refine ⟨rfl, ?_⟩
    by_contra hge
    simp [statusOf, scheduled, hge] at h
  all_goals cases h

namespace Sound

variable {s : State Body} {i : ℕ}

/-- A run goes on to a stage of its own. -/
theorem goto (h : Sound body s) {stage : Stage Body}
    (hrun : ∀ run, stage.run? = some run → 0 < run.attempt ∧ (run.fromOutbox = false → Held s)) :
    Sound body (s.goto i stage) where
  payload := h.payload
  waiting := h.waiting
  queued := h.queued
  run := fun j run hj => by
    by_cases hji : j = i
    · rw [hji, State.goto_stage_self] at hj
      exact hrun run hj
    · rw [State.goto_stage_of_ne s hji] at hj
      exact h.run j run hj

/-- The row is written, and goes on naming the message if it did. -/
theorem write (h : Sound body s) {row : Delivery} {queue : List (Attempt Body)} {recorded : ℕ}
    (hheld : Held s → row.held = true) (hwaiting : row.status = .retrying → row.held = true)
    (hqueue : ∀ run ∈ queue, run ∈ s.queue ∨ 0 < run.attempt ∧ row.held = true) :
    Sound body { s with row := some row, queue := queue, recorded := recorded } where
  payload := h.payload
  waiting := fun r hr hs => by
    obtain rfl := Option.some.inj hr
    exact hwaiting hs
  queued := fun run hrun => by
    rcases hqueue run hrun with hold | ⟨hpos, hnew⟩
    · obtain ⟨hpos, hheld'⟩ := h.queued run hold
      exact ⟨hpos, row, rfl, hheld hheld'⟩
    · exact ⟨hpos, row, rfl, hnew⟩
  run := fun j run hj => by
    obtain ⟨hpos, hswept⟩ := h.run j run hj
    exact ⟨hpos, fun hno => ⟨row, rfl, hheld (hswept hno)⟩⟩

/-- Once a run is recorded, the message has no payload. -/
theorem forgotten (h : Sound body s) (now : ℕ) : (s.message.markConsumed now).payload = none := by
  unfold Message.markConsumed
  split
  · rfl
  · next hne => rw [h.payload, if_neg hne]

theorem markConsumed (h : Sound body s) (now : ℕ) :
    Sound body { s with message := s.message.markConsumed now } where
  payload := by
    rw [h.forgotten now, if_neg]
    unfold Message.markConsumed
    split
    · nofun
    · next hne => exact hne
  waiting := h.waiting
  queued := h.queued
  run := h.run

theorem retry (h : Sound body s) (now : ℕ) : Sound body (s.retry now) := by
  unfold State.retry
  split
  · next row hrow =>
    split
    · next hdue =>
      have hheld := h.waiting row hrow hdue.1
      simp only [State.handed, hheld, if_true]
      refine h.write (fun _ => rfl) (fun _ => rfl) fun run hrun => ?_
      rcases List.mem_append.mp hrun with hrun | hrun
      · exact .inl hrun
      · rw [List.mem_singleton.mp hrun]
        exact .inr ⟨Nat.succ_pos _, rfl⟩
    · exact h
  · exact h

theorem resend (h : Sound body s) (now : ℕ) : Sound body (s.resend now) := by
  unfold State.resend
  split
  · next row hrow =>
    split
    · next hfailed =>
      exact h.write (fun _ => hfailed.2) (fun _ => hfailed.2) fun _ => .inl
    · exact h
  · exact h

theorem record (h : Sound body s) {run : Attempt Body} {answer : Answer} (now : ℕ)
    (hat : s.stage i = .answered run answer) :
    Sound body { s with
      row := some (recordDelivery s.row run answer now)
      recorded := s.recorded + 1 } := by
  have hheld : Held s → (recordDelivery s.row run answer now).held = true := by
    rintro ⟨row, hrow, hr⟩
    simp [recordDelivery, hrow, hr]
  refine h.write hheld (fun hretrying => ?_) fun _ => .inl
  obtain ⟨rfl, -⟩ := statusOf_retrying hretrying
  cases hfrom : run.fromOutbox with
  | true => simp [recordDelivery, hfrom]
  | false => exact hheld ((h.run i run (by rw [hat]; rfl)).2 hfrom)

theorem advance (h : Sound body s) (now : ℕ) (asked : Bool) (answer : Answer) :
    Sound body (s.advance i now asked answer) := by
  have hat' := h.run i
  cases hat : s.stage i with
  | idle =>
    simp only [State.advance, hat]
    exact h
  | checking run =>
    rw [hat] at hat'
    simp only [State.advance, hat]
    refine h.goto fun r hr => ?_
    split at hr
    · cases hr
    · exact hat' r hr
  | running run =>
    rw [hat] at hat'
    simp only [State.advance, hat]
    refine h.goto fun r hr => ?_
    split at hr
    · cases hr
    · exact hat' r hr
  | answered run answer =>
    rw [hat] at hat'
    simp only [State.advance, hat]
    have hrecord := h.record now hat
    refine (hrecord.goto (i := i) fun r hr => ?_ :)
    split at hr
    · next hfrom =>
      obtain rfl := Option.some.inj hr
      refine ⟨(hat' run rfl).1, fun hno => ?_⟩
      rw [hfrom] at hno
      cases hno
    · cases hr
  | returned run =>
    simp only [State.advance, hat]
    have hidle : Sound body (s.goto i .idle) := h.goto fun _ hr => nomatch hr
    exact hidle.markConsumed now

/-- **Every step keeps the row and the message together.** -/
theorem step (h : Sound body s) (a : Action) : Sound body (step s a) := by
  cases a with
  | publish i earlierTries =>
    simp only [Integrations.step]
    split
    · refine h.goto fun run hrun => ?_
      obtain rfl := Option.some.inj hrun
      exact ⟨Nat.add_pos_left Nat.one_pos _, nofun⟩
    · exact h
  | run i k earlierTries =>
    simp only [Integrations.step]
    split
    · next run _ hk =>
      refine h.goto fun r hr => ?_
      obtain ⟨hpos, hheld⟩ := h.queued run (List.mem_of_getElem? hk)
      obtain rfl := Option.some.inj hr
      exact ⟨Nat.add_pos_left hpos _, fun _ => hheld⟩
    · exact h
  | advance i now asked answer => exact h.advance now asked answer
  | lose i => exact h.goto fun _ hrun => nomatch hrun
  | retry now => exact h.retry now
  | resend now => exact h.resend now

end Sound

/-! ## The body and the delivery -/

theorem hasBody_iff {s : State Body} (h : Sound body s) :
    HasBody body s ↔ ∀ row, s.row = some row → row.status = .retrying →
      s.message.payload.isSome = true := by
  refine forall_congr' fun row => forall_congr' fun hrow => forall_congr' fun hs => ?_
  rw [State.handed, if_pos (h.waiting row hrow hs), Option.some.injEq]
  constructor
  · intro hp
    rw [hp]
    rfl
  · intro hp
    rw [h.payload] at hp ⊢
    split at hp
    · next hno => rw [if_pos hno]
    · cases hp

theorem staysDelivered_of_same {s s' : State Body} (hrow : s'.row = s.row) :
    StaysDelivered s s' := by
  intro row hr hs
  exact ⟨row, hrow.trans hr, hs⟩

/-- What a step does to the row and the message. -/
inductive Effect (s : State Body) : Action → State Body → Prop
  | none {a : Action} {s' : State Body} (hrow : s'.row = s.row)
      (hmessage : s'.message = s.message) (hrecorded : s'.recorded = s.recorded)
      (hunforgotten : Unforgotten s a) : Effect s a s'
  | claimed {now : ℕ} {row : Delivery} {s' : State Body} (hrow : s.row = some row)
      (hretrying : row.status = .retrying)
      (hrow' : s'.row = some { row with nextAttemptAt := some (now + retryClaimLease) })
      (hmessage : s'.message = s.message) (hrecorded : s'.recorded = s.recorded) :
      Effect s (.retry now) s'
  | unheld {now : ℕ} {row row' : Delivery} {s' : State Body} (hrow : s.row = some row)
      (hretrying : row.status = .retrying) (hrow' : s'.row = some row')
      (hstatus : row'.status = .failed) (hrecorded : s'.recorded = s.recorded) :
      Effect s (.retry now) s'
  | resent {now : ℕ} {row row' : Delivery} {s' : State Body} (hrow : s.row = some row)
      (hfailed : row.status = .failed) (hheld : row.held = true) (hrow' : s'.row = some row')
      (hstatus : row'.status = .retrying) (hmessage : s'.message = s.message)
      (hrecorded : s'.recorded = 0) : Effect s (.resend now) s'
  | recorded {i now : ℕ} {asked : Bool} {ignored : Answer} {run : Attempt Body} {answer : Answer}
      {s' : State Body} (hat : s.stage i = .answered run answer)
      (hrow' : s'.row = some (recordDelivery s.row run answer now))
      (hmessage : s'.message = s.message) (hrecorded : s'.recorded = s.recorded + 1) :
      Effect s (.advance i now asked ignored) s'
  | consumed {i now : ℕ} {asked : Bool} {ignored : Answer} {run : Attempt Body} {s' : State Body}
      (hat : s.stage i = .returned run) (hrow : s'.row = s.row)
      (hmessage : s'.message = s.message.markConsumed now) (hrecorded : s'.recorded = s.recorded) :
      Effect s (.advance i now asked ignored) s'

theorem step_effect (s : State Body) (a : Action) : Effect s a (step s a) := by
  cases a with
  | publish i earlierTries =>
    simp only [step]
    split <;> exact .none rfl rfl rfl trivial
  | run i k earlierTries =>
    simp only [step]
    split <;> exact .none rfl rfl rfl trivial
  | advance i now asked answer =>
    simp only [step]
    have hother : (∀ run answer, s.stage i ≠ .answered run answer) →
        (∀ run, s.stage i ≠ .returned run) → Unforgotten s (.advance i now asked answer) := by
      intro hanswered hreturned
      cases hat : s.stage i with
      | answered run answer => exact absurd hat (hanswered run answer)
      | returned run => exact absurd hat (hreturned run)
      | _ => simp only [Unforgotten, hat]
    cases hat : s.stage i with
    | idle =>
      simp only [State.advance, hat]
      exact .none rfl rfl rfl (hother (by simp [hat]) (by simp [hat]))
    | checking run =>
      simp only [State.advance, hat]
      exact .none rfl rfl rfl (hother (by simp [hat]) (by simp [hat]))
    | running run =>
      simp only [State.advance, hat]
      exact .none rfl rfl rfl (hother (by simp [hat]) (by simp [hat]))
    | answered run answer =>
      simp only [State.advance, hat]
      exact .recorded hat rfl rfl rfl
    | returned run =>
      simp only [State.advance, hat]
      exact .consumed hat rfl rfl rfl
  | lose i => exact .none rfl rfl rfl trivial
  | retry now =>
    simp only [step, State.retry]
    split
    · next row hrow =>
      split
      · next hdue =>
        split
        · exact .unheld hrow hdue.1 rfl rfl rfl
        · exact .claimed hrow hdue.1 rfl rfl rfl
      · exact .none rfl rfl rfl trivial
    · exact .none rfl rfl rfl trivial
  | resend now =>
    simp only [step, State.resend]
    split
    · next row hrow =>
      split
      · next hfailed => exact .resent hrow hfailed.1 hfailed.2 rfl rfl rfl rfl
      · next hnot =>
        refine .none rfl rfl rfl fun r hr hs hheld => ?_
        obtain rfl := Option.some.inj (hrow.symm.trans hr)
        exact absurd ⟨hs, hheld⟩ hnot
    · next hnone =>
      refine .none rfl rfl rfl fun r hr _ _ => ?_
      rw [hnone] at hr
      cases hr

/-- **The condition on a step is what the promise takes of it.** -/
theorem unforgotten_iff {s : State Body} (h : Sound body s) (hb : HasBody body s) (a : Action) :
    HasBody body (step s a) ∧ StaysDelivered s (step s a) ↔ Unforgotten s a := by
  have hs' := h.step a
  have hpayload := (hasBody_iff h).mp hb
  rw [hasBody_iff hs']
  have he := step_effect s a
  generalize step s a = s' at he hs' ⊢
  cases he with
  | none hrow hmessage _ hunforgotten =>
    refine iff_of_true ⟨?_, staysDelivered_of_same hrow⟩ hunforgotten
    rw [hrow, hmessage]
    exact hpayload
  | @claimed now row _ hrow hretrying hrow' hmessage _ =>
    refine iff_of_true ⟨fun _ _ _ => ?_, fun r hr hd => ?_⟩ trivial
    · rw [hmessage]
      exact hpayload row hrow hretrying
    · obtain rfl := Option.some.inj (hrow.symm.trans hr)
      rw [hretrying] at hd
      cases hd
  | @unheld now row row' _ hrow hretrying hrow' hstatus _ =>
    refine iff_of_true ⟨fun r hr hd => ?_, fun r hr hd => ?_⟩ trivial
    · obtain rfl := Option.some.inj (hrow'.symm.trans hr)
      rw [hstatus] at hd
      cases hd
    · obtain rfl := Option.some.inj (hrow.symm.trans hr)
      rw [hretrying] at hd
      cases hd
  | @resent now row row' _ hrow hfailed hheld hrow' hstatus hmessage _ =>
    rw [hmessage]
    constructor
    · rintro ⟨hp, -⟩ _ _ _ _
      exact hp row' hrow' hstatus
    · intro hp
      refine ⟨fun _ _ _ => hp row hrow hfailed hheld, fun r hr hd => ?_⟩
      obtain rfl := Option.some.inj (hrow.symm.trans hr)
      rw [hfailed] at hd
      cases hd
  | @recorded i now asked ignored run answer _ hat hrow' hmessage _ =>
    simp only [Unforgotten, hat]
    rw [hmessage]
    refine and_congr ⟨fun hp hs => hp _ hrow' hs, fun hp r hr hs => ?_⟩
      (forall_congr' fun row => forall_congr' fun _ => forall_congr' fun _ => ?_)
    · obtain rfl := Option.some.inj (hrow'.symm.trans hr)
      exact hp hs
    · constructor
      · rintro ⟨r, hr, hd⟩
        obtain rfl := Option.some.inj (hrow'.symm.trans hr)
        exact hd
      · exact fun hd => ⟨_, hrow', hd⟩
  | @consumed i now asked ignored run _ hat hrow hmessage _ =>
    simp only [Unforgotten, hat]
    rw [hmessage, h.forgotten now, hrow]
    constructor
    · rintro ⟨hp, -⟩ row hr hs
      cases hp row hr hs
    · exact fun hp => ⟨fun row hr hs => absurd hs (hp row hr), staysDelivered_of_same hrow⟩

/-! ## The budget -/

/-- An attempt more can be recorded while the delivery waits for one. -/
def InBudget (s : State Body) : Prop :=
  (s.row = none → s.recorded = 0) ∧ s.recorded ≤ webhookMaxAttempts ∧
    ∀ row, s.row = some row → row.status = .retrying → s.recorded < webhookMaxAttempts ∧
      (s.recorded = 0 ∨ s.recorded ≤ row.attempts)

theorem InBudget.step {s : State Body} (hs : Sound body s) (h : InBudget s) {a : Action}
    (ht : InTurn s a) : InBudget (step s a) := by
  obtain ⟨hnone, hle, hwaits⟩ := h
  have he := step_effect s a
  generalize Integrations.step s a = s' at he ⊢
  cases he with
  | none hrow _ hrecorded _ =>
    rw [InBudget, hrow, hrecorded]
    exact ⟨hnone, hle, hwaits⟩
  | @claimed now row _ hrow hretrying hrow' _ hrecorded =>
    rw [InBudget, hrow', hrecorded]
    refine ⟨nofun, hle, fun r hr _ => ?_⟩
    obtain rfl := Option.some.inj hr
    exact hwaits row hrow hretrying
  | @unheld now row row' _ _ _ hrow' hstatus hrecorded =>
    rw [InBudget, hrow', hrecorded]
    refine ⟨nofun, hle, fun r hr hs => ?_⟩
    obtain rfl := Option.some.inj hr
    rw [hstatus] at hs
    cases hs
  | @resent now row row' _ _ _ _ hrow' _ _ hrecorded =>
    rw [InBudget, hrow', hrecorded]
    exact ⟨nofun, Nat.zero_le _, fun _ _ _ => ⟨Nat.succ_pos _, .inl rfl⟩⟩
  | @recorded i now asked ignored run answer _ hat hrow' _ hrecorded =>
    simp only [InTurn, hat] at ht
    rw [InBudget, hrow', hrecorded]
    -- before the record: no attempt yet, or one that waits for exactly this one
    have hbefore : s.recorded = 0 ∨ s.recorded < webhookMaxAttempts ∧ s.recorded < run.attempt := by
      cases hrow : s.row with
      | none => exact .inl (hnone hrow)
      | some row =>
        obtain ⟨hretrying, hnext⟩ := ht row hrow
        obtain ⟨hlt, hzero | hattempts⟩ := hwaits row hrow hretrying
        · exact .inl hzero
        · exact .inr ⟨hlt, by omega⟩
    have hpos : 1 < webhookMaxAttempts := by decide
    refine ⟨nofun, by omega, fun r hr hretrying => ?_⟩
    obtain rfl := Option.some.inj hr
    have hroom := (statusOf_retrying hretrying).2
    have hfirst := (hs.run i run (by rw [hat]; rfl)).1
    refine ⟨by omega, .inr (le_of_le_of_eq ?_ (rfl : run.attempt = _))⟩
    omega
  | @consumed i now asked ignored run _ _ hrow _ hrecorded =>
    rw [InBudget, hrow, hrecorded]
    exact ⟨hnone, hle, hwaits⟩

/-- **A retried delivery has its body.** In a run, every state has the payload of a delivery that
waits and no step takes a delivery from 'delivered', if and only if its steps forget no payload
that is still waited for; and in every run whose attempts are recorded in turn, at most the
budget's number of them is recorded between two times the delivery is sent again. -/
theorem retried_bodies_kept (body : Body) (actions : List Action) :
    ((∀ before after, actions = before ++ after → HasBody body (before.foldl step (start body))) ∧
        (∀ before a after, actions = before ++ a :: after →
          StaysDelivered (before.foldl step (start body))
            (step (before.foldl step (start body)) a)) ↔
      Run.Guarded step Unforgotten (start body) actions) ∧
    (Run.Guarded step InTurn (start body) actions →
      (actions.foldl step (start body)).recorded ≤ webhookMaxAttempts) := by
  have hsound : ∀ actions : List Action, Sound body (actions.foldl step (start body)) :=
    Run.foldl_inv (fun _ a h => h.step a) (sound_start body)
  have hstart : HasBody body (start body) := fun _ h => nomatch h
  refine ⟨⟨fun ⟨hbody, hstays⟩ => Run.Guarded.of_at fun before a after heq => ?_, fun hg => ?_⟩,
    fun hg => ?_⟩
  · refine (unforgotten_iff (hsound before) (hbody before (a :: after) heq) a).mp ⟨?_, ?_⟩
    · have := hbody (before ++ [a]) after (by rw [heq, List.append_assoc]; rfl)
      rw [List.foldl_append] at this
      exact this
    · exact hstays before a after heq
  · have hall : ∀ before after, actions = before ++ after →
        HasBody body (before.foldl step (start body)) := by
      rintro before after rfl
      have hinv : Sound body (before.foldl step (start body)) ∧
          HasBody body (before.foldl step (start body)) := by
        refine @Run.Guarded.inv _ _ step Unforgotten
          (fun s => Sound body s ∧ HasBody body s) (fun s a h hu => ?_) _ _
          ⟨sound_start body, hstart⟩ hg.begins
        exact ⟨h.1.step a, ((unforgotten_iff h.1 h.2 a).mpr hu).1⟩
      exact hinv.2
    refine ⟨hall, fun before a after heq => ?_⟩
    subst heq
    exact ((unforgotten_iff (hsound before) (hall before (a :: after) rfl) a).mpr hg.at).2
  · have hbudget : InBudget (actions.foldl step (start body)) := by
      have hinv := @Run.Guarded.inv _ _ step InTurn (fun s => Sound body s ∧ InBudget s)
        (fun s a h ht => ⟨h.1.step a, h.2.step h.1 ht⟩) _ _
        ⟨sound_start body, fun _ => rfl, Nat.zero_le _, fun _ h => nomatch h⟩ hg
      exact hinv.2
    exact hbudget.2.1

/-- The first attempt meets an outage, is recorded, and returns. -/
def firstOutage : List Action :=
  [.publish 0 0, .advance 0 100 true .transient, .advance 0 100 true .transient,
    .advance 0 101 true .transient, .advance 0 102 true .transient]

/-- The delivery waits for its second attempt, and its body is gone. -/
theorem second_attempt_empty : ¬ ∀ (body : ℕ) (actions : List Action),
    HasBody body (actions.foldl step (start body)) := by
  intro h
  have hgone : ∃ row ∈ (firstOutage.foldl step (start 7)).row, row.status = .retrying ∧
      (firstOutage.foldl step (start 7)).handed row = some none := by
    decide +kernel
  obtain ⟨row, hrow, hretrying, hhanded⟩ := hgone
  have hbody := h 7 firstOutage row hrow hretrying
  rw [hhanded] at hbody
  cases hbody

end Integrations

end Calevate
