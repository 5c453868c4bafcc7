import Calevate.Trials.Trial

/-!
# The newest trial and the open one

A new trial is opened only where none is open, so the open trial, if there is one, is the
last that was written. What a write changes of a row is never its start or its id, so the
newest row of an account stays the newest under every write but a new trial.
-/

namespace Calevate.Trials

open Lib Lib.Calendar

namespace Account

variable {acc : Account} {trial : TrialState} {f : TrialState → TrialState}

theorem mem_of_readTrial (h : acc.readTrial = some trial) : trial ∈ acc.trials :=
  List.argmax_mem h

theorem openTrial_eq (h : acc.openTrial = some trial) :
    acc.readTrial = some trial ∧ trial.status = .active := by
  obtain ⟨hread, hactive⟩ := Option.filter_eq_some_iff.mp h
  exact ⟨hread, of_decide_eq_true hactive⟩

theorem openTrial_of_active (hread : acc.readTrial = some trial) (h : trial.status = .active) :
    acc.openTrial = some trial :=
  Option.filter_eq_some_iff.mpr ⟨hread, decide_eq_true h⟩

/-- What keeps the start and the id of each row keeps which one is the newest. -/
theorem argmax_map (hf : ∀ trial, (f trial).age = trial.age) (trials : List TrialState) :
    (trials.map f).argmax TrialState.age = (trials.argmax TrialState.age).map f := by
  induction trials with
  | nil => rfl
  | cons first trials ih =>
    rw [List.map_cons, List.argmax_cons, List.argmax_cons, ih]
    cases trials.argmax TrialState.age with
    | none => rfl
    | some newest =>
      simp only [Option.map_some, hf]
      split <;> rfl

/-- The newest trial after a new one is that one or the one before. -/
theorem readTrial_cons (first : TrialState) (trials : List TrialState) :
    (first :: trials).argmax TrialState.age = some first ∨
      (first :: trials).argmax TrialState.age = trials.argmax TrialState.age := by
  rw [List.argmax_cons]
  cases trials.argmax TrialState.age with
  | none => exact Or.inl rfl
  | some newest =>
    dsimp only
    split
    · exact Or.inr rfl
    · exact Or.inl rfl

/-! ## What the writes do -/

section Writes

variable {after : Account} {now at_ : ℕ}

/-- **What `start_trial` does**: a new row, where no row is open. -/
theorem startTrial_eq {terms : TrialTerms} (h : acc.startTrial terms now = .ok after) :
    (∀ trial ∈ acc.trials, trial.status ≠ .active ∧ trial.id ≠ terms.id) ∧
      after = { acc with trials := newTrial terms now :: acc.trials } := by
  unfold startTrial at h
  split at h
  · cases h
  · split at h
    · cases h
    · split at h
      · cases h
      · split at h
        · cases h
        · split at h
          · cases h
          · rename_i hopen
            refine ⟨fun trial htrial => not_or.mp fun hused => hopen ?_, (Except.ok.inj h).symm⟩
            exact List.any_eq_true.mpr ⟨trial, htrial, decide_eq_true hused⟩

/-- What an update of the open row makes of a row. -/
def updated (id : ℕ) (f : TrialState → TrialState) (trial : TrialState) : TrialState :=
  if trial.id = id ∧ trial.status = .active then f trial else trial

theorem updateOpen_trials (id : ℕ) (f : TrialState → TrialState) :
    (acc.updateOpen id f).trials = acc.trials.map (updated id f) := rfl

theorem age_updated (id : ℕ) (outcome : TrialOutcome) (reason : String) (eraseAfter : Option ℕ)
    (trial : TrialState) :
    (updated id (ended outcome reason at_ eraseAfter) trial).age = trial.age := by
  unfold updated
  split <;> rfl

/-- **What `end_trial` does**: the open row, which is the newest, is written. -/
theorem endTrial_eq {outcome : TrialOutcome} {reason : String}
    (h : acc.endTrial outcome reason at_ = .ok after) :
    ∃ trial, acc.openTrial = some trial ∧
      after = acc.updateOpen trial.id (ended outcome reason at_
        (if outcome = .converted then none else some (at_ + grace trial))) := by
  unfold endTrial at h
  cases hopen : acc.openTrial with
  | none =>
    rw [hopen] at h
    cases h
  | some trial =>
    rw [hopen] at h
    exact ⟨trial, rfl, (Except.ok.inj h).symm⟩

/-- The row `end_trial` wrote is the newest still. -/
theorem readTrial_updateOpen {outcome : TrialOutcome} {reason : String} {eraseAfter : Option ℕ}
    (h : acc.openTrial = some trial) :
    (acc.updateOpen trial.id (ended outcome reason at_ eraseAfter)).readTrial =
      some (ended outcome reason at_ eraseAfter trial) := by
  obtain ⟨hread, hactive⟩ := openTrial_eq h
  unfold readTrial at hread ⊢
  rw [updateOpen_trials, argmax_map (age_updated _ _ _ _), hread, Option.map_some, updated,
    if_pos ⟨rfl, hactive⟩]

/-- A converted trial has no erasure ahead of it. -/
theorem eraseAfter_converted {reason : String}
    (h : acc.endTrial .converted reason at_ = .ok after) :
    ∃ trial, after.readTrial = some trial ∧ trial.eraseAfter = none := by
  obtain ⟨trial, hopen, rfl⟩ := endTrial_eq h
  exact ⟨_, readTrial_updateOpen hopen, rfl⟩

/-- What `_unlock` and the filing of an erasure make of a row. -/
def amended (id : ℕ) (f : TrialState → TrialState) (trial : TrialState) : TrialState :=
  if trial.id = id then f trial else trial

/-- `_unlock` takes the erasure off. -/
def kept (trial : TrialState) : TrialState := { trial with eraseAfter := none }

/-- `mark_erasure_filed`. -/
def filedAt (now : ℕ) (trial : TrialState) : TrialState := { trial with erasureFiledAt := some now }

/-- **What `_unlock` does**: converts the open trial, or takes the erasure off the last. -/
theorem unlock_cases {reason : String} (h : acc.unlock reason now = .ok after) :
    (∃ trial, acc.openTrial = some trial ∧ acc.endTrial .converted reason now = .ok after) ∨
      (∃ trial, acc.readTrial = some trial ∧ trial.status ≠ .active ∧
        after = { acc with trials := acc.trials.map (amended trial.id kept) }) ∨
      (after = acc ∧ ∀ trial, acc.readTrial = some trial →
        trial.status ≠ .active ∧ (trial.eraseAfter.isSome → trial.erasureFiledAt ≠ none)) := by
  unfold unlock at h
  cases hread : acc.readTrial with
  | none =>
    rw [hread] at h
    exact Or.inr (Or.inr ⟨(Except.ok.inj h).symm, fun trial htrial => by cases htrial⟩)
  | some trial =>
    rw [hread] at h
    dsimp only at h
    split at h
    · rename_i hactive
      exact Or.inl ⟨trial, openTrial_of_active hread hactive, h⟩
    · rename_i hclosed
      split at h
      · exact Or.inr (Or.inl ⟨trial, rfl, hclosed, (Except.ok.inj h).symm⟩)
      · rename_i hnot
        refine Or.inr (Or.inr ⟨(Except.ok.inj h).symm, ?_⟩)
        rintro _ ⟨⟩
        exact ⟨hclosed, fun herase hfiled => hnot ⟨herase, hfiled⟩⟩

/-- **What filing does**: it marks a trial that is over, or nothing. -/
theorem fileErasure_eq (acc : Account) (now : ℕ) :
    (acc.fileErasureIfDue now).2 = acc ∨
      ∃ trial, acc.readTrial = some trial ∧ trial.status ≠ .active ∧
        (acc.fileErasureIfDue now).2 =
          { acc with trials := acc.trials.map (amended trial.id (filedAt now)) } := by
  unfold fileErasureIfDue
  cases hdue : acc.erasureDue now with
  | none => exact Or.inl rfl
  | some trial =>
    obtain ⟨hread, hover⟩ := Option.filter_eq_some_iff.mp hdue
    dsimp only
    split
    · exact Or.inl rfl
    · split
      · exact Or.inl rfl
      · exact Or.inr ⟨trial, hread, (of_decide_eq_true hover).2.2, rfl⟩

/-- An open trial is the only one whose end the minutes' check brings about. -/
theorem endIfMinutesUsed_cases {secondsUsed : ℕ}
    (h : acc.endIfMinutesUsed trial secondsUsed now = .ok after) :
    after = acc ∨ acc.endTrial .expired minutesUsedReason now = .ok after := by
  unfold endIfMinutesUsed at h
  split at h
  · exact Or.inl (Except.ok.inj h).symm
  · split at h
    · exact Or.inl (Except.ok.inj h).symm
    · exact Or.inr h

end Writes

/-! ## What every write keeps -/

section Keep

variable {Inv : List TrialState → Prop} {now : ℕ}

/-- Every way the rows of an account are written keeps `Inv`. -/
structure Kept (now : ℕ) (Inv : List TrialState → Prop) : Prop where
  opened : ∀ trials terms,
    (∀ trial ∈ trials, trial.status ≠ .active ∧ trial.id ≠ terms.id) → Inv trials →
      Inv (newTrial terms now :: trials)
  ended : ∀ trials id outcome reason at_ eraseAfter, at_ ≤ now → Inv trials →
    Inv (trials.map (updated id (ended outcome reason at_ eraseAfter)))
  unscheduled : ∀ trials id, Inv trials → Inv (trials.map (amended id kept))
  filed : ∀ trials trial at_, trial ∈ trials → trial.status ≠ .active → Inv trials →
    Inv (trials.map (amended trial.id (filedAt at_)))

variable {acc after : Account} {reason : String}

theorem Kept.startTrial (hkept : Kept now Inv) {terms : TrialTerms}
    (h : acc.startTrial terms now = .ok after) (hinv : Inv acc.trials) : Inv after.trials := by
  obtain ⟨hclosed, rfl⟩ := startTrial_eq h
  exact hkept.opened _ _ hclosed hinv

theorem Kept.endTrial (hkept : Kept now Inv) {outcome : TrialOutcome} {at_ : ℕ} (hat : at_ ≤ now)
    (h : acc.endTrial outcome reason at_ = .ok after) (hinv : Inv acc.trials) :
    Inv after.trials := by
  obtain ⟨trial, -, rfl⟩ := endTrial_eq h
  exact hkept.ended _ _ _ _ _ _ hat hinv

theorem Kept.replaceOpenTrial (hkept : Kept now Inv) (hinv : Inv acc.trials) :
    Inv (acc.replaceOpenTrial now).trials := by
  unfold Account.replaceOpenTrial
  split
  · exact hinv
  · exact hkept.ended _ _ _ _ _ _ le_rfl hinv

theorem Kept.unlock (hkept : Kept now Inv) (h : acc.unlock reason now = .ok after)
    (hinv : Inv acc.trials) : Inv after.trials := by
  rcases unlock_cases h with ⟨trial, -, hend⟩ | ⟨trial, -, -, rfl⟩ | ⟨rfl, -⟩
  · exact hkept.endTrial le_rfl hend hinv
  · exact hkept.unscheduled _ _ hinv
  · exact hinv

theorem claim_trials {via : String} (h : acc.claim via now = some after) :
    after.trials = acc.trials := by
  unfold claim at h
  split at h
  · cases h
  · cases h
    rfl

theorem Kept.onPaymentCredited (hkept : Kept now Inv) {amount : ℕ} {via : String}
    (h : acc.onPaymentCredited amount via now = .ok after) (hinv : Inv acc.trials) :
    Inv after.trials := by
  unfold Account.onPaymentCredited at h
  split at h
  · cases h
    exact hinv
  · split at h
    · cases h
      exact hinv
    · rename_i hclaim
      rw [← claim_trials hclaim] at hinv
      exact hkept.unlock h hinv

theorem Kept.onComplimentaryConversion (hkept : Kept now Inv)
    (h : acc.onComplimentaryConversion now = .ok after) (hinv : Inv acc.trials) :
    Inv after.trials := by
  unfold Account.onComplimentaryConversion at h
  split at h
  · cases h
    exact hinv
  · rename_i hclaim
    rw [← claim_trials hclaim] at hinv
    exact hkept.unlock h hinv

theorem onOperatorConversion_trials : (acc.onOperatorConversion now).trials = acc.trials := by
  unfold onOperatorConversion
  cases hclaim : acc.claim "operator_conversion" now with
  | none => rfl
  | some paid => exact claim_trials hclaim

theorem Kept.closeTrial (hkept : Kept now Inv) {converted : Bool}
    (h : acc.closeTrial converted reason now = .ok after) (hinv : Inv acc.trials) :
    Inv after.trials := by
  unfold Account.closeTrial at h
  split at h
  · cases hend : acc.endTrial .converted reason now with
    | error _ =>
      rw [hend] at h
      cases h
    | ok ended =>
      rw [hend] at h
      cases h
      rw [onOperatorConversion_trials]
      exact hkept.endTrial le_rfl hend hinv
  · exact hkept.endTrial le_rfl h hinv

theorem Kept.endIfMinutesUsed (hkept : Kept now Inv) {trial : TrialState} {secondsUsed at_ : ℕ}
    (hat : at_ ≤ now) (h : acc.endIfMinutesUsed trial secondsUsed at_ = .ok after)
    (hinv : Inv acc.trials) : Inv after.trials := by
  rcases endIfMinutesUsed_cases h with rfl | hend
  · exact hinv
  · exact hkept.endTrial hat hend hinv

theorem Kept.closeIfMinutesUsed (hkept : Kept now Inv) {secondsUsed at_ : ℕ} (hat : at_ ≤ now)
    (h : acc.closeIfMinutesUsed secondsUsed at_ = .ok after) (hinv : Inv acc.trials) :
    Inv after.trials := by
  unfold Account.closeIfMinutesUsed at h
  split at h
  · cases h
    exact hinv
  · split at h
    · exact hkept.endIfMinutesUsed hat h hinv
    · cases h
      exact hinv

theorem Kept.closeIfExpired (hkept : Kept now Inv) {secondsUsed at_ : ℕ} (hat : at_ ≤ now)
    (h : acc.closeIfExpired secondsUsed at_ = .ok after) (hinv : Inv acc.trials) :
    Inv after.trials := by
  unfold Account.closeIfExpired at h
  split at h
  · cases h
    exact hinv
  · split at h
    · exact hkept.endIfMinutesUsed hat h hinv
    · rename_i hpast
      exact hkept.endTrial ((Nat.le_of_not_lt hpast).trans hat) h hinv

theorem Kept.fileErasure (hkept : Kept now Inv) (at_ : ℕ) (hinv : Inv acc.trials) :
    Inv (acc.fileErasureIfDue at_).2.trials := by
  rcases fileErasure_eq acc at_ with hsame | ⟨trial, hread, hover, hfiled⟩
  · rw [hsame]
    exact hinv
  · rw [hfiled]
    exact hkept.filed _ _ _ (mem_of_readTrial hread) hover hinv

end Keep

end Account

namespace World

variable {Inv : ℕ → List TrialState → Prop}

/-- What a transaction that commits keeps, its outcome keeps. -/
theorem commit_keeps {w : World} {result : Except TrialError Account}
    (h : ∀ after, result = .ok after → Inv w.clock after.trials) (hinv : Inv w.clock w.acc.trials) :
    Inv (w.commit result).clock (w.commit result).acc.trials := by
  cases result with
  | error _ => exact hinv
  | ok after => exact h after rfl

/-- **What every write keeps and time does not undo, every step keeps.** -/
theorem step_keeps (hkept : ∀ now, Account.Kept now (Inv now))
    (htime : ∀ now d trials, Inv now trials → Inv (now + d) trials) (w : World) (action : Action)
    (hinv : Inv w.clock w.acc.trials) : Inv (w.step action).clock (w.step action).acc.trials := by
  have hnow := hkept w.clock
  cases action with
  | startTrial terms => exact commit_keeps (fun _ h => hnow.startTrial h hinv) hinv
  | replaceOpenTrial => exact hnow.replaceOpenTrial hinv
  | openTrial terms =>
    exact commit_keeps (fun _ h => hnow.startTrial h (hnow.replaceOpenTrial hinv)) hinv
  | endTrial outcome reason ago =>
    exact commit_keeps (fun _ h => hnow.endTrial (Nat.sub_le ..) h hinv) hinv
  | closeTrial converted reason => exact commit_keeps (fun _ h => hnow.closeTrial h hinv) hinv
  | onPaymentCredited amount via =>
    exact commit_keeps (fun _ h => hnow.onPaymentCredited h hinv) hinv
  | onComplimentaryConversion =>
    exact commit_keeps (fun _ h => hnow.onComplimentaryConversion h hinv) hinv
  | closeIfMinutesUsed secondsUsed ago =>
    exact commit_keeps (fun _ h => hnow.closeIfMinutesUsed (Nat.sub_le ..) h hinv) hinv
  | closeIfExpired secondsUsed ago =>
    exact commit_keeps (fun _ h => hnow.closeIfExpired (Nat.sub_le ..) h hinv) hinv
  | fileErasure ago => exact hnow.fileErasure _ hinv
  | setAccount churned erased => exact hinv
  | wait d => exact htime _ _ _ hinv

/-- And so every run does. -/
theorem run_keeps (hkept : ∀ now, Account.Kept now (Inv now))
    (htime : ∀ now d trials, Inv now trials → Inv (now + d) trials) (hnone : Inv 0 [])
    (actions : List Action) : Inv (run actions).clock (run actions).acc.trials :=
  Run.foldl_inv (fun w action h => step_keeps hkept htime w action h)
    (s := World.empty) hnone actions

end World

end Calevate.Trials
