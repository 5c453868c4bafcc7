import Calevate.Lib.Calendar
import Calevate.Lib.Run
import Mathlib.Data.List.MinMax
import Mathlib.Data.Prod.Lex

/-!
# Trial periods

An account's trials, the writes that open, replace and end one, and the first payment. Each
write is one transaction under the account's trial lock, so the machine moves by
transactions; the sweeps read their clock before they reach an account, and end a trial at
an instant that may already be past. Where a transaction raises, nothing of it stays.

The newest trial is the one with the latest start, and of those the one with the largest id.
Amounts are paise.
-/

namespace Calevate.Trials

open Lib Lib.Calendar

/-! ## Rows -/

inductive TrialStatus where
  | active
  | converted
  | expired
  | stopped
  deriving DecidableEq, Repr

/-- How a trial ends. -/
inductive TrialOutcome where
  | converted
  | expired
  | stopped
  deriving DecidableEq, Repr

/-- The status an outcome leaves. -/
def TrialOutcome.status : TrialOutcome → TrialStatus
  | .converted => .converted
  | .expired => .expired
  | .stopped => .stopped

/-- `TrialState`, a row of `tenant_trials`. -/
structure TrialState where
  id : ℕ
  days : ℕ
  startedAt : ℕ
  endsAt : ℕ
  status : TrialStatus
  endedAt : Option ℕ
  endedReason : Option String
  eraseAfter : Option ℕ
  erasureFiledAt : Option ℕ
  startedBy : Option ℕ
  freeMinutes : Option ℕ
  deriving DecidableEq, Repr

namespace TrialState

/-- **`is_active`**. -/
def isActive (trial : TrialState) (t : ℕ) : Bool := trial.status = .active ∧ t < trial.endsAt

/-- **`covered_until`**. -/
def coveredUntil (trial : TrialState) : ℕ := min trial.endsAt (trial.endedAt.getD trial.endsAt)

/-- The instant is in the period the trial covers. -/
def Covers (trial : TrialState) (t : ℕ) : Prop := trial.startedAt ≤ t ∧ t < trial.coveredUntil

instance (trial : TrialState) (t : ℕ) : Decidable (trial.Covers t) :=
  inferInstanceAs (Decidable (_ ∧ _))

/-- What the newest trial is the largest of. -/
def age (trial : TrialState) : ℕ ×ₗ ℕ := toLex (trial.startedAt, trial.id)

end TrialState

/-- `DEFAULT_ERASURE_GRACE_DAYS`. -/
def defaultErasureGraceDays : ℕ := 30

/-- `EXPIRY_REASON`. -/
def expiryReason : String := "The trial ran to its end date."

/-- `MINUTES_USED_REASON`. -/
def minutesUsedReason : String := "The trial's free minutes were used."

/-- `PAID_REASON`. -/
def paidReason : String := "The client added credit."

/-- `REPLACED_REASON`. -/
def replacedReason : String := "Replaced by the trial Calevate set for this account."

/-- `COMPLIMENTARY_REASON`. -/
def complimentaryReason : String := "Made a paid account by a super admin, without a payment"

/-- `MIN_TOPUP_INR`. -/
def minTopup : ℕ := 10000

/-- What a write is refused with; `integrity` is the unique index of open trials, or a used
id. -/
inductive TrialError where
  | invalidTrialDays
  | invalidErasureGrace
  | invalidTrialMinutes
  | trialAlreadyOpen
  | noOpenTrial
  | integrity
  deriving DecidableEq, Repr

/-! ## The account -/

/-- An account: its trials, newest write first, its first payment, and whether it is closed
(`churned`) or its data erased. -/
structure Account where
  trials : List TrialState
  firstPaidAt : Option ℕ
  firstPaidVia : Option String
  churned : Bool
  erased : Bool
  deriving DecidableEq, Repr

/-- The terms of a new trial. -/
structure TrialTerms where
  id : ℕ
  days : ℕ
  erasureGraceDays : ℕ
  freeMinutes : Option ℕ
  startedBy : Option ℕ
  deriving DecidableEq, Repr

namespace Account

/-- An account as it is born. -/
def empty : Account := ⟨[], none, none, false, false⟩

/-- **`read_trial`**: the newest trial. -/
def readTrial (acc : Account) : Option TrialState := acc.trials.argmax TrialState.age

/-- **`trial_billing_active`**. -/
def trialBillingActive (acc : Account) (t : ℕ) : Bool := acc.readTrial.any (·.isActive t)

/-- The newest trial, where it is open. -/
def openTrial (acc : Account) : Option TrialState := acc.readTrial.filter (·.status = .active)

/-- The row `start_trial` inserts. -/
def newTrial (terms : TrialTerms) (now : ℕ) : TrialState where
  id := terms.id
  days := terms.days
  startedAt := now
  endsAt := now + terms.days * day
  status := .active
  endedAt := none
  endedReason := none
  eraseAfter := some (now + terms.days * day + terms.erasureGraceDays * day)
  erasureFiledAt := none
  startedBy := terms.startedBy
  freeMinutes := terms.freeMinutes

/-- **`start_trial`**. -/
def startTrial (acc : Account) (terms : TrialTerms) (now : ℕ) : Except TrialError Account :=
  if ¬ (1 ≤ terms.days ∧ terms.days ≤ 365) then .error .invalidTrialDays
  else if ¬ (1 ≤ terms.erasureGraceDays ∧ terms.erasureGraceDays ≤ 180) then
    .error .invalidErasureGrace
  else if terms.freeMinutes.any fun minutes => ¬ (1 ≤ minutes ∧ minutes ≤ 1000) then
    .error .invalidTrialMinutes
  else if acc.openTrial.isSome then .error .trialAlreadyOpen
  else if acc.trials.any fun trial => trial.status = .active ∨ trial.id = terms.id then
    .error .integrity
  else .ok { acc with trials := newTrial terms now :: acc.trials }

/-- An `UPDATE ... WHERE id = :id AND status = 'active'`. -/
def updateOpen (acc : Account) (id : ℕ) (f : TrialState → TrialState) : Account :=
  { acc with
    trials := acc.trials.map fun trial =>
      if trial.id = id ∧ trial.status = .active then f trial else trial }

/-- What `end_trial` writes. -/
def ended (outcome : TrialOutcome) (reason : String) (at_ : ℕ) (eraseAfter : Option ℕ)
    (trial : TrialState) : TrialState :=
  { trial with
    status := outcome.status
    endedAt := some at_
    endedReason := some reason
    eraseAfter := eraseAfter }

/-- **`replace_open_trial`**: closes the open trial, if there is one. -/
def replaceOpenTrial (acc : Account) (now : ℕ) : Account :=
  match acc.openTrial with
  | none => acc
  | some trial => acc.updateOpen trial.id (ended .stopped replacedReason now none)

/-- The grace agreed when the trial was opened. -/
def grace (trial : TrialState) : ℕ :=
  match trial.eraseAfter with
  | some eraseAfter => eraseAfter - trial.endsAt
  | none => defaultErasureGraceDays * day

/-- **`end_trial`**. -/
def endTrial (acc : Account) (outcome : TrialOutcome) (reason : String) (at_ : ℕ) :
    Except TrialError Account :=
  match acc.openTrial with
  | none => .error .noOpenTrial
  | some trial =>
    let eraseAfter := if outcome = .converted then none else some (at_ + grace trial)
    .ok (acc.updateOpen trial.id (ended outcome reason at_ eraseAfter))

/-! ## The first payment -/

/-- `_claim`: the account stamped paid, or nothing where it already was. -/
def claim (acc : Account) (via : String) (now : ℕ) : Option Account :=
  if acc.firstPaidAt.isSome then none
  else some { acc with firstPaidAt := some now, firstPaidVia := some via }

/-- `_unlock`: an open trial is converted, and one that ended keeps the data it had up for
erasure. -/
def unlock (acc : Account) (trialReason : String) (now : ℕ) : Except TrialError Account :=
  match acc.readTrial with
  | none => .ok acc
  | some trial =>
    if trial.status = .active then acc.endTrial .converted trialReason now
    else if trial.eraseAfter.isSome ∧ trial.erasureFiledAt = none then
      .ok { acc with
        trials := acc.trials.map fun row =>
          if row.id = trial.id then { row with eraseAfter := none } else row }
    else .ok acc

/-- **`on_payment_credited`**. -/
def onPaymentCredited (acc : Account) (amount : ℕ) (via : String) (now : ℕ) :
    Except TrialError Account :=
  if amount < minTopup then .ok acc
  else
    match acc.claim via now with
    | none => .ok acc
    | some acc => acc.unlock paidReason now

/-- **`on_complimentary_conversion`**. -/
def onComplimentaryConversion (acc : Account) (now : ℕ) : Except TrialError Account :=
  match acc.claim "complimentary" now with
  | none => .ok acc
  | some acc => acc.unlock complimentaryReason now

/-- **`on_operator_conversion`**. -/
def onOperatorConversion (acc : Account) (now : ℕ) : Account :=
  (acc.claim "operator_conversion" now).getD acc

/-! ## The operator's routes -/

/-- `open_trial`: an operator's trial replaces the one that is open. -/
def openTrialRoute (acc : Account) (terms : TrialTerms) (now : ℕ) : Except TrialError Account :=
  (acc.replaceOpenTrial now).startTrial terms now

/-- `close_trial`; an operator converts or stops. -/
def closeTrial (acc : Account) (converted : Bool) (reason : String) (now : ℕ) :
    Except TrialError Account :=
  if converted then
    (acc.endTrial .converted reason now).map (·.onOperatorConversion now)
  else acc.endTrial .stopped reason now

/-! ## The sweeps -/

/-- `_end_if_minutes_used`, with the seconds the test calls of the trial took. -/
def endIfMinutesUsed (acc : Account) (trial : TrialState) (secondsUsed now : ℕ) :
    Except TrialError Account :=
  match trial.freeMinutes with
  | none => .ok acc
  | some minutes =>
    if secondsUsed < minutes * 60 then .ok acc
    else acc.endTrial .expired minutesUsedReason now

/-- `close_if_minutes_used`. -/
def closeIfMinutesUsed (acc : Account) (secondsUsed now : ℕ) : Except TrialError Account :=
  match acc.readTrial with
  | none => .ok acc
  | some trial =>
    if trial.isActive now then acc.endIfMinutesUsed trial secondsUsed now else .ok acc

/-- **`_close_if_expired`**: at the end date, not at the sweep's clock. -/
def closeIfExpired (acc : Account) (secondsUsed now : ℕ) : Except TrialError Account :=
  match acc.openTrial with
  | none => .ok acc
  | some trial =>
    if now < trial.endsAt then acc.endIfMinutesUsed trial secondsUsed now
    else acc.endTrial .expired expiryReason trial.endsAt

/-- What `_file_erasure_if_due` answers. -/
inductive Filing where
  | filed
  | blocked
  deriving DecidableEq, Repr

/-- The trial whose erasure is due. -/
def erasureDue (acc : Account) (now : ℕ) : Option TrialState :=
  acc.readTrial.filter fun trial =>
    trial.eraseAfter.any (· ≤ now) ∧ trial.erasureFiledAt = none ∧ trial.status ≠ .active

/-- **`_file_erasure_if_due`**; `request_tenant_erasure` raises for an account whose data is
erased already. -/
def fileErasureIfDue (acc : Account) (now : ℕ) : Option Filing × Account :=
  match acc.erasureDue now with
  | none => (none, acc)
  | some trial =>
    if ¬ acc.churned then (some .blocked, acc)
    else if acc.erased then (none, acc)
    else
      (some .filed, { acc with
        trials := acc.trials.map fun row =>
          if row.id = trial.id then { row with erasureFiledAt := some now } else row })

end Account

/-! ## Runs -/

/-- A transaction. `ago` is how long before it the instant it goes by was read. -/
inductive Action where
  | startTrial (terms : TrialTerms)
  | replaceOpenTrial
  | openTrial (terms : TrialTerms)
  | endTrial (outcome : TrialOutcome) (reason : String) (ago : ℕ)
  | closeTrial (converted : Bool) (reason : String)
  | onPaymentCredited (amount : ℕ) (via : String)
  | onComplimentaryConversion
  | closeIfMinutesUsed (secondsUsed ago : ℕ)
  | closeIfExpired (secondsUsed ago : ℕ)
  | fileErasure (ago : ℕ)
  | setAccount (churned erased : Bool)
  | wait (d : ℕ)
  deriving DecidableEq, Repr

/-- An account and the clock. -/
structure World where
  acc : Account
  clock : ℕ
  deriving DecidableEq, Repr

namespace World

/-- A transaction's outcome, or what was there before it raised. -/
def commit (w : World) (result : Except TrialError Account) : World :=
  match result with
  | .ok acc => { w with acc := acc }
  | .error _ => w

def step (w : World) : Action → World
  | .startTrial terms => w.commit (w.acc.startTrial terms w.clock)
  | .replaceOpenTrial => { w with acc := w.acc.replaceOpenTrial w.clock }
  | .openTrial terms => w.commit (w.acc.openTrialRoute terms w.clock)
  | .endTrial outcome reason ago => w.commit (w.acc.endTrial outcome reason (w.clock - ago))
  | .closeTrial converted reason => w.commit (w.acc.closeTrial converted reason w.clock)
  | .onPaymentCredited amount via => w.commit (w.acc.onPaymentCredited amount via w.clock)
  | .onComplimentaryConversion => w.commit (w.acc.onComplimentaryConversion w.clock)
  | .closeIfMinutesUsed secondsUsed ago =>
    w.commit (w.acc.closeIfMinutesUsed secondsUsed (w.clock - ago))
  | .closeIfExpired secondsUsed ago =>
    w.commit (w.acc.closeIfExpired secondsUsed (w.clock - ago))
  | .fileErasure ago => { w with acc := (w.acc.fileErasureIfDue (w.clock - ago)).2 }
  | .setAccount churned erased => { w with acc := { w.acc with churned, erased } }
  | .wait d => { w with clock := w.clock + d }

def empty : World := ⟨Account.empty, 0⟩

def run (actions : List Action) : World := actions.foldl step empty

end World

end Calevate.Trials
