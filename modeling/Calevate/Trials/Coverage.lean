import Calevate.Trials.Newest
import Mathlib.Data.List.Pairwise

/-!
# Was this minute free

The meter and the rental ask the newest trial about an instant, the reports ask all of
them. No two trials of an account cover one instant, so the two answers part exactly at the
instants of a trial that another has followed, and there what was free is charged.
-/

namespace Calevate.Trials

open Lib Lib.Calendar

/-! ## The predicates -/

namespace Account

/-- **`trial_covers`**, the meter's question. -/
def trialCovers (acc : Account) (t : ℕ) : Bool := acc.readTrial.any fun trial => trial.Covers t

/-- **`ON_TRIAL_ROW_SQL`**, the reports' question. -/
def OnTrialRow (acc : Account) (occurredAt : ℕ) : Prop :=
  ∃ trial ∈ acc.trials, trial.startedAt ≤ occurredAt ∧
    occurredAt < min trial.endsAt (trial.endedAt.getD trial.endsAt)

/-- **`trial_overlaps`**. -/
def TrialOverlaps (acc : Account) (start next : ℕ) : Prop :=
  ∃ trial ∈ acc.trials, trial.startedAt < next ∧
    start < min trial.endsAt (trial.endedAt.getD trial.endsAt)

/-- The meter debits the wallet for the call (`charge_for_call`). -/
def meterCharges (acc : Account) (occurredAt : ℕ) (prepaid : Bool) : Bool :=
  prepaid && !acc.trialCovers occurredAt

/-- What an account's month is billed for the call. -/
def meterBilled (acc : Account) (occurredAt billed : ℕ) : ℕ :=
  if acc.trialCovers occurredAt then 0 else billed

end Account

/-! ## Rentals -/

/-- The offset of Indian time. -/
def istOffset : ℕ := 5 * hour + 30 * minute

/-- `ist_date`. -/
def istDate (moment : ℕ) : ℕ := (moment + istOffset) / day

/-- `add_months`, on day numbers. -/
def addMonths (anchor months : ℕ) : ℕ := Calendar.addMonths 0 months (anchor * day) / day

/-- **`rental_period_start`**; a date before the anchor is refused. -/
def rentalPeriodStart (anchor date : ℕ) : Option ℕ :=
  if date < anchor then none
  else
    let months := monthIndex (civilOfDays date) - monthIndex (civilOfDays anchor)
    let start := addMonths anchor months
    some (if start ≤ date then start else addMonths anchor (months - 1))

/-- A number's period as it falls due: `phone_numbers.created_at`, `rental_charged_from` and
the day the period starts; `collected` is that its row is there already. -/
structure RentalPeriod where
  recordedAt : ℕ
  chargedFrom : Option ℕ
  periodStart : ℕ
  collected : Bool
  deriving DecidableEq, Repr

/-- `RentalOutcome`. -/
inductive RentalOutcome where
  | charged
  | invoiced
  | replayed
  | closed
  | trial
  | beforeFirstPeriod
  deriving DecidableEq, Repr

namespace RentalPeriod

/-- The instant the period began. -/
def began (period : RentalPeriod) : ℕ :=
  if period.periodStart = istDate period.recordedAt then period.recordedAt
  else period.periodStart * day - istOffset

end RentalPeriod

/-- **`collect_number_rental`**; a day that is no renewal date is refused. -/
def Account.collectNumberRental (acc : Account) (period : RentalPeriod) (closed prepaid : Bool) :
    Option RentalOutcome :=
  if rentalPeriodStart (istDate period.recordedAt) period.periodStart ≠ some period.periodStart
  then none
  else if period.chargedFrom.any (period.periodStart < ·) then some .beforeFirstPeriod
  else if closed then some .closed
  else if acc.trialCovers period.began then some .trial
  else if period.collected then some .replayed
  else if prepaid then some .charged
  else some .invoiced

/-! ## One answer -/

/-- What the account owes to the instant: the meter agrees with the reports, and neither a
call nor a rental that began in any trial is charged. -/
structure FreeMinute (acc : Account) (t : ℕ) : Prop where
  rows : acc.trialCovers t = true ↔ acc.OnTrialRow t
  overlaps : acc.trialCovers t = true ↔ acc.TrialOverlaps t (t + 1)
  call : acc.OnTrialRow t → ∀ prepaid, acc.meterCharges t prepaid = false
  invoice : acc.OnTrialRow t → ∀ billed, acc.meterBilled t billed = 0
  rental : acc.OnTrialRow t → ∀ period closed prepaid, period.began = t →
    acc.collectNumberRental period closed prepaid ≠ some .charged ∧
      acc.collectNumberRental period closed prepaid ≠ some .invoiced

/-- No trial but the newest covers the instant. -/
def InNewestOnly (acc : Account) (t : ℕ) : Prop :=
  ∀ trial ∈ acc.trials, acc.readTrial ≠ some trial → ¬ trial.Covers t

section Predicates

variable {acc : Account} {t : ℕ}

theorem trialOverlaps_instant : acc.TrialOverlaps t (t + 1) ↔ acc.OnTrialRow t := by
  simp only [Account.TrialOverlaps, Account.OnTrialRow, Nat.lt_succ_iff]

theorem trialCovers_iff :
    acc.trialCovers t = true ↔ ∃ trial, acc.readTrial = some trial ∧ trial.Covers t := by
  simp [Account.trialCovers, Option.any_eq_true]

theorem onTrialRow_of_trialCovers (h : acc.trialCovers t = true) : acc.OnTrialRow t := by
  obtain ⟨trial, hread, hcovers⟩ := (trialCovers_iff).mp h
  exact ⟨trial, Account.mem_of_readTrial hread, hcovers⟩

/-- What the newest trial covers is free. -/
theorem FreeMinute.of_rows (h : acc.OnTrialRow t → acc.trialCovers t = true) :
    FreeMinute acc t where
  rows := ⟨onTrialRow_of_trialCovers, h⟩
  overlaps := by rw [trialOverlaps_instant]; exact ⟨onTrialRow_of_trialCovers, h⟩
  call hrow prepaid := by simp [Account.meterCharges, h hrow]
  invoice hrow billed := if_pos (h hrow)
  rental := by
    rintro hrow period closed prepaid rfl
    unfold Account.collectNumberRental
    rw [if_pos (h hrow)]
    constructor
    · split_ifs <;> simp
    · split_ifs <;> simp

end Predicates

/-! ## Trials do not overlap -/

/-- The trials of an account at an instant: each began by then, those that are over cover
nothing after it, and each began where the earlier ones had ended. -/
structure Orderly (now : ℕ) (trials : List TrialState) : Prop where
  begun : ∀ trial ∈ trials, trial.startedAt ≤ now
  past : ∀ trial ∈ trials, trial.status ≠ .active → trial.coveredUntil ≤ now
  apart : trials.Pairwise fun later earlier =>
    earlier.status ≠ .active ∧ earlier.coveredUntil ≤ later.startedAt

namespace Orderly

variable {now : ℕ} {trials : List TrialState}

theorem wait (h : Orderly now trials) (d : ℕ) : Orderly (now + d) trials where
  begun trial htrial := (h.begun trial htrial).trans (Nat.le_add_right ..)
  past trial htrial hpast := (h.past trial htrial hpast).trans (Nat.le_add_right ..)
  apart := h.apart

/-- A write of the open row that dates its end by now. -/
theorem ended (h : Orderly now trials) (id : ℕ) (outcome : TrialOutcome) (reason : String)
    {at_ : ℕ} (eraseAfter : Option ℕ) (hat : at_ ≤ now) :
    Orderly now (trials.map (Account.updated id (Account.ended outcome reason at_ eraseAfter))) where
  begun := by
    intro row hrow
    obtain ⟨trial, htrial, rfl⟩ := List.mem_map.mp hrow
    unfold Account.updated
    split
    · exact h.begun trial htrial
    · exact h.begun trial htrial
  past := by
    intro row hrow hpast
    obtain ⟨trial, htrial, rfl⟩ := List.mem_map.mp hrow
    unfold Account.updated at hpast ⊢
    split at hpast
    · rename_i hopen
      rw [if_pos hopen]
      exact (min_le_right ..).trans hat
    · rename_i hother
      rw [if_neg hother]
      exact h.past trial htrial hpast
  apart := by
    refine List.pairwise_map.mpr (h.apart.imp ?_)
    rintro later earlier ⟨hpast, hbefore⟩
    have hearlier : Account.updated id (Account.ended outcome reason at_ eraseAfter) earlier =
        earlier := if_neg fun hopen => hpast hopen.2
    rw [hearlier]
    refine ⟨hpast, hbefore.trans_eq ?_⟩
    unfold Account.updated
    split <;> rfl

/-- A write that leaves a row's period and status leaves the order. -/
theorem amended (h : Orderly now trials) (id : ℕ) {f : TrialState → TrialState}
    (hstart : ∀ trial, (f trial).startedAt = trial.startedAt)
    (hstatus : ∀ trial, (f trial).status = trial.status)
    (hcovered : ∀ trial, (f trial).coveredUntil = trial.coveredUntil) :
    Orderly now (trials.map (Account.amended id f)) := by
  have hsame : ∀ trial, (Account.amended id f trial).startedAt = trial.startedAt ∧
      (Account.amended id f trial).status = trial.status ∧
        (Account.amended id f trial).coveredUntil = trial.coveredUntil := by
    intro trial
    unfold Account.amended
    split
    · exact ⟨hstart trial, hstatus trial, hcovered trial⟩
    · exact ⟨rfl, rfl, rfl⟩
  constructor
  · intro row hrow
    obtain ⟨trial, htrial, rfl⟩ := List.mem_map.mp hrow
    rw [(hsame trial).1]
    exact h.begun trial htrial
  · intro row hrow hpast
    obtain ⟨trial, htrial, rfl⟩ := List.mem_map.mp hrow
    rw [(hsame trial).2.1] at hpast
    rw [(hsame trial).2.2]
    exact h.past trial htrial hpast
  · refine List.pairwise_map.mpr (h.apart.imp ?_)
    rintro later earlier ⟨hpast, hbefore⟩
    rw [(hsame later).1, (hsame earlier).2.1, (hsame earlier).2.2]
    exact ⟨hpast, hbefore⟩

theorem kept (now : ℕ) : Account.Kept now (Orderly now) where
  opened := by
    intro trials terms hclosed h
    constructor
    · intro trial htrial
      rcases List.mem_cons.mp htrial with rfl | holder
      · exact le_rfl
      · exact h.begun trial holder
    · intro trial htrial hpast
      rcases List.mem_cons.mp htrial with rfl | holder
      · exact absurd rfl hpast
      · exact h.past trial holder hpast
    · refine List.pairwise_cons.mpr ⟨fun earlier hearlier => ?_, h.apart⟩
      have hpast := (hclosed earlier hearlier).1
      exact ⟨hpast, h.past earlier hearlier hpast⟩
  ended := fun _ id outcome reason _ eraseAfter hat h => h.ended id outcome reason eraseAfter hat
  unscheduled := fun _ id h => h.amended id (fun _ => rfl) (fun _ => rfl) fun _ => rfl
  filed := fun _ trial _ _ _ h => h.amended trial.id (fun _ => rfl) (fun _ => rfl) fun _ => rfl

/-- **No two trials cover one instant.** -/
theorem eq_of_covers (h : Orderly now trials) {a b : TrialState} (ha : a ∈ trials)
    (hb : b ∈ trials) {t : ℕ} (hat : a.Covers t) (hbt : b.Covers t) : a = b := by
  have hapart : trials.Pairwise fun a b => ¬ (a.Covers t ∧ b.Covers t) :=
    h.apart.imp fun ⟨_, hbefore⟩ ⟨hlater, hearlier⟩ =>
      absurd (hearlier.2.trans_le (hbefore.trans hlater.1)) (lt_irrefl t)
  by_contra hne
  have : Std.Symm fun a b : TrialState => ¬ (a.Covers t ∧ b.Covers t) :=
    ⟨fun a b hnot hboth => hnot hboth.symm⟩
  exact hapart.forall ha hb hne ⟨hat, hbt⟩

end Orderly

theorem World.run_orderly (actions : List Action) :
    Orderly (World.run actions).clock (World.run actions).acc.trials :=
  World.run_keeps Orderly.kept (fun _ d _ h => h.wait d)
    ⟨fun _ h => (List.not_mem_nil h).elim, fun _ h => (List.not_mem_nil h).elim,
      List.Pairwise.nil⟩ actions

/-- **After any history of an account's trials, the meter and the reports have one answer
about an instant, and what began in a trial is not charged, exactly where no trial but the
newest covers it.** -/
theorem free_minute_iff (actions : List Action) (t : ℕ) :
    FreeMinute (World.run actions).acc t ↔ InNewestOnly (World.run actions).acc t := by
  have horder := World.run_orderly actions
  constructor
  · intro hfree trial htrial hnot hcovers
    obtain ⟨newest, hread, hnewest⟩ := trialCovers_iff.mp (hfree.rows.mpr ⟨trial, htrial, hcovers⟩)
    apply hnot
    rw [hread, horder.eq_of_covers (Account.mem_of_readTrial hread) htrial hnewest hcovers]
  · intro honly
    apply FreeMinute.of_rows
    rintro ⟨trial, htrial, hcovers⟩
    by_cases hread : (World.run actions).acc.readTrial = some trial
    · exact (trialCovers_iff).mpr ⟨trial, hread, hcovers⟩
    · exact absurd hcovers (honly trial htrial hread)

/-- Two weeks on trial, replaced by an operator's own terms after the first. -/
def replacedInside : List Action :=
  [.startTrial ⟨1, 14, 30, none, none⟩, .wait (7 * day), .openTrial ⟨2, 30, 30, some 60, some 9⟩]

/-- A call of the first day, settled after the operator's trial replaced the first, is
charged. -/
theorem replacedInside_charged : ¬ FreeMinute (World.run replacedInside).acc day := by
  intro hfree
  have hcharged : (World.run replacedInside).acc.meterCharges day true = true := by decide +kernel
  have hrow : (World.run replacedInside).acc.OnTrialRow day :=
    ⟨(World.run replacedInside).acc.trials.getLast (by decide +kernel), by decide +kernel⟩
  rw [hfree.call hrow true] at hcharged
  cases hcharged

end Calevate.Trials
