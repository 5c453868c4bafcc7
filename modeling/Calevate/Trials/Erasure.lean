import Calevate.Trials.Newest
import Mathlib.Data.List.Pairwise

/-!
# A paid account and its erasure date

A trial that ends other than converted leaves the date its account's data may be erased, and
the first payment takes it off. Nothing takes it off a trial that ends after that. So a paid
account is scheduled for erasure exactly when an open trial of it is let end as expired or
stopped.
-/

namespace Calevate.Trials

open Lib

namespace Account

/-- The newest trial is over and has an erasure ahead of it. -/
def Scheduled (acc : Account) : Prop :=
  ∃ trial, acc.readTrial = some trial ∧ trial.status ≠ .active ∧ trial.eraseAfter.isSome ∧
    trial.erasureFiledAt = none

/-- The free minutes are used. -/
def minutesUsed (secondsUsed : ℕ) (trial : TrialState) : Bool :=
  trial.freeMinutes.any (· * 60 ≤ secondsUsed)

/-- What ends the open trial as expired or stopped. -/
def Lapses (acc : Account) (now : ℕ) : Action → Prop
  | .endTrial outcome _ _ => acc.openTrial.isSome ∧ outcome ≠ .converted
  | .closeTrial converted _ => acc.openTrial.isSome ∧ converted = false
  | .closeIfMinutesUsed secondsUsed ago =>
    acc.openTrial.any fun trial =>
      now - ago < trial.endsAt ∧ minutesUsed secondsUsed trial
  | .closeIfExpired secondsUsed ago =>
    acc.openTrial.any fun trial =>
      trial.endsAt ≤ now - ago ∨ minutesUsed secondsUsed trial
  | _ => False

end Account

namespace World

/-- A paid account is not scheduled for erasure by its newest trial, and the sweep neither
files one nor reports one blocked. -/
def Safe (w : World) : Prop :=
  w.acc.firstPaidAt.isSome →
    ¬ w.acc.Scheduled ∧ ∀ now, (w.acc.fileErasureIfDue now).1 = none

/-- The step lets no trial of a paid account lapse. -/
def NoLapse (w : World) (action : Action) : Prop :=
  w.acc.firstPaidAt.isSome → ¬ w.acc.Lapses w.clock action

end World

namespace Account

variable {acc after : Account} {trial : TrialState} {now at_ : ℕ}

/-- What is due is scheduled. -/
theorem erasureDue_none (h : ¬ acc.Scheduled) (now : ℕ) : acc.erasureDue now = none := by
  cases hdue : acc.erasureDue now with
  | none => rfl
  | some trial =>
    obtain ⟨hread, hwhen⟩ := Option.filter_eq_some_iff.mp hdue
    obtain ⟨herase, hfiled, hover⟩ := of_decide_eq_true hwhen
    refine absurd ⟨trial, hread, hover, ?_, hfiled⟩ h
    cases heq : trial.eraseAfter with
    | none =>
      rw [heq] at herase
      cases herase
    | some eraseAfter => rfl

theorem fileErasure_none (h : ¬ acc.Scheduled) (now : ℕ) :
    acc.fileErasureIfDue now = (none, acc) := by
  unfold fileErasureIfDue
  rw [erasureDue_none h now]

theorem not_scheduled_of_active (hread : acc.readTrial = some trial)
    (h : trial.status = .active) : ¬ acc.Scheduled := by
  rintro ⟨other, hother, hover, -⟩
  rw [hread] at hother
  cases hother
  exact hover h

theorem not_scheduled_of_none (hread : acc.readTrial = some trial) (h : trial.eraseAfter = none) :
    ¬ acc.Scheduled := by
  rintro ⟨other, hother, -, herase, -⟩
  rw [hread] at hother
  cases hother
  rw [h] at herase
  cases herase

/-- The erasure a trial has ahead of it is a question of the rows alone. -/
theorem scheduled_congr (h : after.trials = acc.trials) : after.Scheduled ↔ acc.Scheduled := by
  unfold Scheduled readTrial
  rw [h]

/-! ## What schedules, and what does not -/

/-- A new trial does not schedule. -/
theorem startTrial_scheduled {terms : TrialTerms} (h : acc.startTrial terms now = .ok after)
    (hnot : ¬ acc.Scheduled) : ¬ after.Scheduled := by
  obtain ⟨-, rfl⟩ := startTrial_eq h
  rcases readTrial_cons (newTrial terms now) acc.trials with hnew | hold
  · exact not_scheduled_of_active hnew rfl
  · rintro ⟨trial, hread, hscheduled⟩
    exact hnot ⟨trial, hold.symm.trans hread, hscheduled⟩

/-- A replaced trial has no erasure ahead of it. -/
theorem replaceOpenTrial_scheduled (hnot : ¬ acc.Scheduled) :
    ¬ (acc.replaceOpenTrial now).Scheduled := by
  unfold replaceOpenTrial
  cases hopen : acc.openTrial with
  | none => exact hnot
  | some trial => exact not_scheduled_of_none (readTrial_updateOpen hopen) rfl

/-- A converted one has none either. -/
theorem converted_scheduled {reason : String} (h : acc.endTrial .converted reason at_ = .ok after) :
    ¬ after.Scheduled := by
  obtain ⟨trial, hread, herase⟩ := eraseAfter_converted h
  exact not_scheduled_of_none hread herase

/-- **A trial that ends as expired or stopped schedules the erasure.** -/
theorem lapsed_scheduled {outcome : TrialOutcome} {reason : String}
    (hunfiled : ∀ trial ∈ acc.trials, trial.status = .active → trial.erasureFiledAt = none)
    (houtcome : outcome ≠ .converted) (h : acc.endTrial outcome reason at_ = .ok after) :
    after.Scheduled := by
  obtain ⟨trial, hopen, rfl⟩ := endTrial_eq h
  obtain ⟨hread, hactive⟩ := openTrial_eq hopen
  refine ⟨_, readTrial_updateOpen hopen, ?_, ?_, hunfiled trial (mem_of_readTrial hread) hactive⟩
  · cases outcome <;> simp [ended, TrialOutcome.status]
  · simp [ended, houtcome]

/-- **What the first payment unlocks takes the date off.** -/
theorem unlock_scheduled {reason : String} (h : acc.unlock reason now = .ok after) :
    ¬ after.Scheduled := by
  rcases unlock_cases h with ⟨trial, -, hend⟩ | ⟨trial, hread, hover, rfl⟩ | ⟨rfl, hrest⟩
  · exact converted_scheduled hend
  · have hage : ∀ row, (amended trial.id kept row).age = row.age := by
      intro row
      unfold amended
      split <;> rfl
    have hkept : ({ acc with trials := acc.trials.map (amended trial.id kept) } : Account).readTrial =
        some (kept trial) := by
      unfold readTrial at hread ⊢
      rw [argmax_map hage, hread, Option.map_some, amended, if_pos rfl]
    exact not_scheduled_of_none hkept rfl
  · rintro ⟨trial, hread, hover, herase, hfiled⟩
    exact (hrest trial hread).2 herase hfiled

/-! ## What stamps the account -/

theorem startTrial_paid {terms : TrialTerms} (h : acc.startTrial terms now = .ok after) :
    after.firstPaidAt = acc.firstPaidAt := by
  obtain ⟨-, rfl⟩ := startTrial_eq h
  rfl

theorem replaceOpenTrial_paid : (acc.replaceOpenTrial now).firstPaidAt = acc.firstPaidAt := by
  unfold replaceOpenTrial
  split <;> rfl

theorem endTrial_paid {outcome : TrialOutcome} {reason : String}
    (h : acc.endTrial outcome reason at_ = .ok after) : after.firstPaidAt = acc.firstPaidAt := by
  obtain ⟨trial, -, rfl⟩ := endTrial_eq h
  rfl

theorem openTrial_of_endTrial {outcome : TrialOutcome} {reason : String}
    (h : acc.endTrial outcome reason at_ = .ok after) : acc.openTrial.isSome := by
  obtain ⟨trial, hopen, -⟩ := endTrial_eq h
  rw [hopen]
  rfl

theorem fileErasure_paid : (acc.fileErasureIfDue at_).2.firstPaidAt = acc.firstPaidAt := by
  rcases fileErasure_eq acc at_ with hsame | ⟨trial, -, -, hfiled⟩
  · rw [hsame]
  · rw [hfiled]

/-- The trial of a paid account that ends, if it is converted, schedules nothing. -/
theorem endTrial_held {outcome : TrialOutcome} {reason : String}
    (h : acc.endTrial outcome reason at_ = .ok after)
    (hno : acc.firstPaidAt.isSome → outcome = .converted) : after.firstPaidAt.isSome →
      ¬ after.Scheduled := by
  intro hpaid
  rw [endTrial_paid h] at hpaid
  have houtcome := hno hpaid
  subst houtcome
  exact converted_scheduled h

/-- A payment leaves a paid account as it was, and schedules nothing for another. -/
theorem onPaymentCredited_scheduled {amount : ℕ} {via : String}
    (h : acc.onPaymentCredited amount via now = .ok after)
    (hnot : acc.firstPaidAt.isSome → ¬ acc.Scheduled) :
    after.firstPaidAt.isSome → ¬ after.Scheduled := by
  unfold onPaymentCredited at h
  split at h
  · cases h
    exact hnot
  · split at h
    · cases h
      exact hnot
    · exact fun _ => unlock_scheduled h

theorem onComplimentaryConversion_scheduled (h : acc.onComplimentaryConversion now = .ok after)
    (hnot : acc.firstPaidAt.isSome → ¬ acc.Scheduled) :
    after.firstPaidAt.isSome → ¬ after.Scheduled := by
  unfold onComplimentaryConversion at h
  split at h
  · cases h
    exact hnot
  · exact fun _ => unlock_scheduled h

theorem endIfMinutesUsed_eq (secondsUsed : ℕ) :
    acc.endIfMinutesUsed trial secondsUsed at_ =
      if minutesUsed secondsUsed trial then acc.endTrial .expired minutesUsedReason at_
      else .ok acc := by
  unfold endIfMinutesUsed minutesUsed
  cases trial.freeMinutes with
  | none => rfl
  | some minutes =>
    simp only [Option.any_some, decide_eq_true_eq]
    by_cases hused : minutes * 60 ≤ secondsUsed
    · rw [if_pos hused, if_neg (Nat.not_lt.mpr hused)]
    · rw [if_neg hused, if_pos (Nat.lt_of_not_le hused)]

/-- The check of the minutes ends the open trial, before its date, or does nothing. -/
theorem closeIfMinutesUsed_eq (secondsUsed : ℕ) :
    acc.closeIfMinutesUsed secondsUsed at_ =
      if acc.openTrial.any fun trial => at_ < trial.endsAt ∧ minutesUsed secondsUsed trial then
        acc.endTrial .expired minutesUsedReason at_
      else .ok acc := by
  unfold closeIfMinutesUsed openTrial
  cases acc.readTrial with
  | none => rfl
  | some trial =>
    dsimp only
    by_cases hactive : trial.status = .active
    · rw [endIfMinutesUsed_eq]
      by_cases hrunning : at_ < trial.endsAt
      · simp [TrialState.isActive, hactive, hrunning]
      · simp [TrialState.isActive, hactive, hrunning]
    · simp [TrialState.isActive, hactive]

/-- The sweep ends the open trial, at or past its date or its minutes used, or does
nothing. -/
theorem closeIfExpired_eq (acc : Account) (secondsUsed at_ : ℕ) : ∃ reason end_,
    acc.closeIfExpired secondsUsed at_ =
      if acc.openTrial.any fun trial => trial.endsAt ≤ at_ ∨ minutesUsed secondsUsed trial then
        acc.endTrial .expired reason end_
      else .ok acc := by
  unfold closeIfExpired
  cases acc.openTrial with
  | none => exact ⟨expiryReason, at_, rfl⟩
  | some trial =>
    dsimp only
    by_cases hrunning : at_ < trial.endsAt
    · refine ⟨minutesUsedReason, at_, ?_⟩
      rw [if_pos hrunning, endIfMinutesUsed_eq]
      simp [Nat.not_le.mpr hrunning]
    · refine ⟨expiryReason, trial.endsAt, ?_⟩
      rw [if_neg hrunning]
      simp [Nat.le_of_not_lt hrunning]

/-- A trial is not marked before it is over, and its id is its own. -/
structure Tidy (trials : List TrialState) : Prop where
  ids : trials.Pairwise fun later earlier => earlier.id ≠ later.id
  unfiled : ∀ trial ∈ trials, trial.status = .active → trial.erasureFiledAt = none

theorem Tidy.map {trials : List TrialState} (h : Tidy trials) {f : TrialState → TrialState}
    (hid : ∀ trial, (f trial).id = trial.id)
    (hunfiled : ∀ trial ∈ trials, (f trial).status = .active → (f trial).erasureFiledAt = none) :
    Tidy (trials.map f) where
  ids := by
    refine List.pairwise_map.mpr (h.ids.imp ?_)
    intro later earlier hne
    rwa [hid, hid]
  unfiled := by
    intro row hrow
    obtain ⟨trial, htrial, rfl⟩ := List.mem_map.mp hrow
    exact hunfiled trial htrial

theorem Tidy.eq_of_id {trials : List TrialState} (h : Tidy trials) {a b : TrialState}
    (ha : a ∈ trials) (hb : b ∈ trials) (hid : a.id = b.id) : a = b := by
  by_contra hne
  have : Std.Symm fun later earlier : TrialState => earlier.id ≠ later.id :=
    ⟨fun _ _ hids => hids.symm⟩
  exact h.ids.forall ha hb hne hid.symm

theorem Tidy.kept (now : ℕ) : Kept now Tidy where
  opened := by
    intro trials terms hclosed h
    constructor
    · exact List.pairwise_cons.mpr ⟨fun earlier hearlier => (hclosed earlier hearlier).2, h.ids⟩
    · intro trial htrial hactive
      rcases List.mem_cons.mp htrial with rfl | holder
      · rfl
      · exact h.unfiled trial holder hactive
  ended := by
    intro trials id outcome reason at_ eraseAfter _ h
    apply h.map
    · intro trial
      unfold updated
      split <;> rfl
    · intro trial htrial hactive
      unfold updated at hactive ⊢
      split at hactive
      · rename_i hopen
        rw [if_pos hopen]
        exact h.unfiled trial htrial hopen.2
      · rename_i hother
        rw [if_neg hother]
        exact h.unfiled trial htrial hactive
  unscheduled := by
    intro trials id h
    apply h.map
    · intro trial
      unfold amended
      split <;> rfl
    · intro trial htrial hactive
      unfold amended at hactive ⊢
      split at hactive
      · rename_i hsame
        rw [if_pos hsame]
        exact h.unfiled trial htrial hactive
      · rename_i hother
        rw [if_neg hother]
        exact h.unfiled trial htrial hactive
  filed := by
    intro trials due at_ hdue hover h
    apply h.map
    · intro trial
      unfold amended
      split <;> rfl
    · intro trial htrial hactive
      unfold amended at hactive ⊢
      split at hactive
      · rename_i hsame
        rw [h.eq_of_id htrial hdue hsame] at hactive
        exact absurd hactive hover
      · rename_i hother
        rw [if_neg hother]
        exact h.unfiled trial htrial hactive

end Account

namespace World

open Account

variable {w : World}

/-- The account is not paid, or not scheduled. -/
def Held (acc : Account) : Prop := acc.firstPaidAt.isSome → ¬ acc.Scheduled

theorem safe_of_held (h : Held w.acc) : w.Safe := by
  intro hpaid
  refine ⟨h hpaid, fun now => ?_⟩
  rw [fileErasure_none (h hpaid) now]

theorem commit_held {result : Except TrialError Account} (h : Held w.acc)
    (hok : ∀ after, result = .ok after → Held after) : Held (w.commit result).acc := by
  cases result with
  | error _ => exact h
  | ok after => exact hok after rfl

/-- **A step that lets no trial of a paid account lapse leaves it unscheduled.** -/
theorem step_held {action : Action} (h : Held w.acc) (hno : w.NoLapse action) :
    Held (w.step action).acc := by
  cases action with
  | startTrial terms =>
    refine commit_held h fun after hafter hpaid => startTrial_scheduled hafter (h ?_)
    rwa [← startTrial_paid hafter]
  | replaceOpenTrial =>
    intro hpaid
    rw [step, replaceOpenTrial_paid] at hpaid
    exact replaceOpenTrial_scheduled (h hpaid)
  | openTrial terms =>
    refine commit_held h fun after hafter hpaid => ?_
    rw [startTrial_paid hafter, replaceOpenTrial_paid] at hpaid
    exact startTrial_scheduled hafter (replaceOpenTrial_scheduled (h hpaid))
  | endTrial outcome reason ago =>
    refine commit_held h fun after hafter => endTrial_held hafter fun hpaid => ?_
    by_contra houtcome
    exact hno hpaid ⟨openTrial_of_endTrial hafter, houtcome⟩
  | closeTrial converted reason =>
    refine commit_held h fun after hafter => ?_
    unfold closeTrial at hafter
    split at hafter
    · cases hend : w.acc.endTrial .converted reason w.clock with
      | error _ =>
        rw [hend] at hafter
        cases hafter
      | ok ended =>
        rw [hend] at hafter
        cases hafter
        intro _
        rw [scheduled_congr onOperatorConversion_trials]
        exact converted_scheduled hend
    · rename_i hstopped
      refine endTrial_held hafter fun hpaid => ?_
      exact absurd ⟨openTrial_of_endTrial hafter, Bool.eq_false_of_not_eq_true hstopped⟩
        (hno hpaid)
  | onPaymentCredited amount via =>
    exact commit_held h fun _ hafter => onPaymentCredited_scheduled hafter h
  | onComplimentaryConversion =>
    exact commit_held h fun _ hafter => onComplimentaryConversion_scheduled hafter h
  | closeIfMinutesUsed secondsUsed ago =>
    refine commit_held h fun after hafter => ?_
    rw [closeIfMinutesUsed_eq] at hafter
    split at hafter
    · rename_i hlapses
      exact endTrial_held hafter fun hpaid => absurd hlapses (hno hpaid)
    · cases hafter
      exact h
  | closeIfExpired secondsUsed ago =>
    refine commit_held h fun after hafter => ?_
    obtain ⟨reason, end_, heq⟩ := closeIfExpired_eq w.acc secondsUsed (w.clock - ago)
    rw [heq] at hafter
    split at hafter
    · rename_i hlapses
      exact endTrial_held hafter fun hpaid => absurd hlapses (hno hpaid)
    · cases hafter
      exact h
  | fileErasure ago =>
    intro hpaid
    rw [step, fileErasure_paid] at hpaid
    rw [step, fileErasure_none (h hpaid)]
    exact h hpaid
  | setAccount churned erased => exact h
  | wait d => exact h

/-- An open trial can be ended. -/
theorem endTrial_of_open {acc : Account} (h : acc.openTrial.isSome) (outcome : TrialOutcome)
    (reason : String) (at_ : ℕ) : ∃ after, acc.endTrial outcome reason at_ = .ok after := by
  obtain ⟨trial, hopen⟩ := Option.isSome_iff_exists.mp h
  unfold Account.endTrial
  rw [hopen]
  exact ⟨_, rfl⟩

/-- A lapse of a paid account's trial that is committed. -/
theorem commit_lapsed {outcome : TrialOutcome} {reason : String} {at_ : ℕ}
    (htidy : Tidy w.acc.trials) (hpaid : w.acc.firstPaidAt.isSome) (hopen : w.acc.openTrial.isSome)
    (houtcome : outcome ≠ .converted) :
    ¬ Held (w.commit (w.acc.endTrial outcome reason at_)).acc := by
  obtain ⟨after, hafter⟩ := endTrial_of_open hopen outcome reason at_
  rw [hafter]
  intro hheld
  refine hheld ?_ (lapsed_scheduled htidy.unfiled houtcome hafter)
  change after.firstPaidAt.isSome
  rwa [endTrial_paid hafter]

theorem isSome_of_any {acc : Account} {p : TrialState → Bool} (h : acc.openTrial.any p) :
    acc.openTrial.isSome := by
  cases hopen : acc.openTrial with
  | none =>
    rw [hopen] at h
    cases h
  | some trial => rfl

/-- **A step that lets a trial of a paid account lapse schedules its erasure.** -/
theorem step_lapsed {action : Action} (htidy : Tidy w.acc.trials)
    (hlapse : ¬ w.NoLapse action) : ¬ Held (w.step action).acc := by
  obtain ⟨hpaid, hlapses⟩ := Classical.not_imp.mp hlapse
  have hlapses := Classical.not_not.mp hlapses
  cases action with
  | endTrial outcome reason ago => exact commit_lapsed htidy hpaid hlapses.1 hlapses.2
  | closeTrial converted reason =>
    obtain ⟨hopen, rfl⟩ := hlapses
    exact commit_lapsed htidy hpaid hopen (by decide)
  | closeIfMinutesUsed secondsUsed ago =>
    simp only [Account.Lapses] at hlapses
    rw [step, closeIfMinutesUsed_eq, if_pos hlapses]
    exact commit_lapsed htidy hpaid (isSome_of_any hlapses) (by decide)
  | closeIfExpired secondsUsed ago =>
    obtain ⟨reason, end_, heq⟩ := closeIfExpired_eq w.acc secondsUsed (w.clock - ago)
    simp only [Account.Lapses] at hlapses
    rw [step, heq, if_pos hlapses]
    exact commit_lapsed htidy hpaid (isSome_of_any hlapses) (by decide)
  | _ => exact hlapses.elim

theorem run_tidy (actions : List Action) : Tidy (run actions).acc.trials :=
  @run_keeps (fun _ => Tidy) Tidy.kept (fun _ _ _ h => h)
    ⟨List.Pairwise.nil, fun _ h => (List.not_mem_nil h).elim⟩ actions

theorem held_of_safe (h : w.Safe) : Held w.acc := fun hpaid => (h hpaid).1

/-- **Over every history of an account, its newest trial schedules no erasure once the
account is paid, and none is filed or reported blocked, exactly where no open trial of the
paid account is ever let end as expired or stopped.** -/
theorem paid_never_scheduled_iff (actions : List Action) :
    (∀ seen, seen <+: actions → (run seen).Safe) ↔
      Run.Guarded step NoLapse World.empty actions := by
  constructor
  · intro hsafe
    apply Run.Guarded.of_at
    intro before action after hsplit
    by_contra hlapse
    have hnext : (run (before ++ [action])).Safe :=
      hsafe _ ⟨after, by rw [hsplit, List.append_assoc, List.singleton_append]⟩
    rw [run, List.foldl_append, List.foldl_cons, List.foldl_nil] at hnext
    exact step_lapsed (run_tidy before) hlapse (held_of_safe hnext)
  · rintro hguarded seen ⟨after, rfl⟩
    have hnew : Held World.empty.acc := fun hpaid => by cases hpaid
    exact safe_of_held (@Run.Guarded.inv _ _ step NoLapse (fun w => Held w.acc)
      (fun _ _ h hno => step_held h hno) World.empty seen hnew hguarded.begins)

/-- A client pays, is given a trial by an operator, and its end date passes. -/
def giftAfterPayment : List Action :=
  [.onPaymentCredited 50000 "wallet_topup", .openTrial ⟨1, 14, 30, some 60, some 9⟩,
    .wait (15 * Calendar.day), .closeIfExpired 0 0]

/-- The paid client is up for erasure, and a second payment does not change it. -/
theorem giftAfterPayment_scheduled :
    ¬ (run giftAfterPayment).Safe ∧
      ¬ (run (giftAfterPayment ++ [.onPaymentCredited 50000 "wallet_topup"])).Safe := by
  have hscheduled : ∀ w : World, w.acc.firstPaidAt.isSome = true →
      (w.acc.fileErasureIfDue (60 * Calendar.day)).1 = some .blocked → ¬ w.Safe := by
    intro w hpaid hblocked hsafe
    rw [(hsafe hpaid).2] at hblocked
    cases hblocked
  constructor
  · exact hscheduled _ (by decide +kernel) (by decide +kernel)
  · exact hscheduled _ (by decide +kernel) (by decide +kernel)

end World

end Calevate.Trials
