import Calevate.Lib.Calendar
import Calevate.Lib.Run
import Mathlib.Algebra.GroupWithZero.Nat
import Mathlib.Data.List.Basic

/-!
# Auto-recharge

An account's settings and mandate, its charges, and what moves them: the client's settings,
an authorisation begun, its token remembered, the provider's token events, the withdrawal,
the sweep's charges, and the payment webhooks. A function that reads in one transaction and
writes in another takes two steps here, and anything may come between.

The provider's side of a charge is kept beside our row of it: whether its money was asked
for, can still be taken, was taken, or never will be. A token carries the authorisation
order it was approved under. Amounts are paise.
-/

namespace Calevate.AutoRecharge

open Lib Lib.Calendar

/-! ## Rows -/

inductive MandateMethod where
  | upi
  | card
  deriving DecidableEq, Repr

inductive MandateStatus where
  | none
  | pending
  | confirmed
  | rejected
  | cancelled
  | paused
  deriving DecidableEq, Repr

/-- A token of the provider, with the order whose payment it was approved by. -/
structure Token where
  order : ℕ
  serial : ℕ
  deriving DecidableEq, Repr

/-- A row of `auto_recharge_settings`. -/
structure Settings where
  enabled : Bool
  threshold : ℕ
  amount : ℕ
  monthlyCap : ℕ
  customerId : Option ℕ
  tokenId : Option Token
  mandateMethod : Option MandateMethod
  mandateStatus : MandateStatus
  mandateMax : Option ℕ
  mandateOrderId : Option ℕ
  authorisedBy : Option ℕ
  consecutiveFailures : ℕ
  disabledReason : Option String
  deriving DecidableEq, Repr

inductive ChargeStatus where
  | pending
  | captured
  | failed
  deriving DecidableEq, Repr

/-- The money of a charge, at the provider: not asked for yet, asked for and to be had,
taken, or out of reach for good. -/
inductive Money where
  | unasked
  | live
  | taken
  | gone
  deriving DecidableEq, Repr

/-- A row of `auto_recharge_charges`; without an order id it has its placeholder. -/
structure Charge where
  id : ℕ
  orderId : Option ℕ
  paymentId : Option ℕ
  amount : ℕ
  status : ChargeStatus
  failureCode : Option String
  createdAt : ℕ
  settledAt : Option ℕ
  money : Money
  deriving DecidableEq, Repr

/-- The provider may yet take the money of the charge. -/
def Charge.canMove (charge : Charge) : Bool := charge.money = .unasked || charge.money = .live

/-- `MIN_TOPUP_INR`. -/
def minTopup : ℕ := 10000

/-- `min(MAX_TOPUP_INR, MANDATE_MAX_DEBIT_INR)`. -/
def maxDebit : ℕ := min 10000000 1500000

/-- `CHARGE_ANSWER_WINDOW`. -/
def chargeAnswerWindow : ℕ := 3 * day

/-- `_DISABLED_REASON`. -/
def failuresReason : String :=
  "Auto-recharge is off because the last automatic payments did not go through."

/-- `_ENDED_REASON`. -/
def endedReason : MandateStatus → Option String
  | .rejected => some "Your bank or UPI app did not approve the automatic payment."
  | .cancelled => some "The automatic payment approval was cancelled."
  | .paused => some "The automatic payment approval was paused in your UPI app."
  | _ => none

/-- The offset of Indian time. -/
def istOffset : ℕ := 5 * hour + 30 * minute

/-- `ist_billing_month`. -/
def billingMonth (t : ℕ) : ℕ := monthOf istOffset t

/-! ## The world -/

/-- A function between its two transactions: `confirm_mandate` or `note_mandate_payment`
that found the order its own, and `cancel_mandate` with whether it found a token. -/
inductive Underway where
  | remember (token : Token)
  | cancel (sawToken : Bool)
  deriving DecidableEq, Repr

/-- An account. `withdrawn` is that `cancel_mandate` was the last of it and `begin_mandate`;
`orders` are the authorisation orders so far. -/
structure World where
  settings : Option Settings
  charges : List Charge
  underway : List Underway
  withdrawn : Bool
  orders : List ℕ
  clock : ℕ
  deriving DecidableEq, Repr

/-- `AutoRechargeDefaults`. -/
structure Defaults where
  threshold : ℕ
  amount : ℕ
  monthlyCap : ℕ
  deriving DecidableEq, Repr

/-- What `save_auto_recharge` is asked for. -/
structure Preferences where
  enabled : Bool
  threshold : ℕ
  amount : ℕ
  monthlyCap : ℕ
  deriving DecidableEq, Repr

/-- `_validate`. -/
def Preferences.Valid (prefs : Preferences) : Prop :=
  minTopup ≤ prefs.amount ∧ prefs.amount ≤ maxDebit ∧ prefs.amount ≤ prefs.monthlyCap

instance (prefs : Preferences) : Decidable prefs.Valid :=
  inferInstanceAs (Decidable (_ ∧ _ ∧ _))

/-- What `begin_mandate` writes, once the provider made the customer and the order. -/
structure Authorisation where
  order : ℕ
  customerId : ℕ
  method : MandateMethod
  maxDebit : ℕ
  userId : ℕ
  offered : Defaults
  deriving DecidableEq, Repr

/-! ## Settings and mandate -/

namespace Settings

/-- The row `save_auto_recharge` inserts. -/
def fresh (prefs : Preferences) : Settings where
  enabled := false
  threshold := prefs.threshold
  amount := prefs.amount
  monthlyCap := prefs.monthlyCap
  customerId := none
  tokenId := none
  mandateMethod := none
  mandateStatus := .none
  mandateMax := none
  mandateOrderId := none
  authorisedBy := none
  consecutiveFailures := 0
  disabledReason := none

/-- The row may be switched on for the amount. -/
def MaySwitchOn (s : Settings) (amount : ℕ) : Prop :=
  s.mandateStatus = .confirmed ∧ s.tokenId.isSome ∧ ∀ max ∈ s.mandateMax, amount ≤ max

instance (s : Settings) (amount : ℕ) : Decidable (s.MaySwitchOn amount) :=
  inferInstanceAs (Decidable (_ ∧ _ ∧ _))

/-- What the client's preferences make of the row. -/
def preferring (s : Settings) (prefs : Preferences) : Settings :=
  { s with
    enabled := prefs.enabled
    threshold := prefs.threshold
    amount := prefs.amount
    monthlyCap := prefs.monthlyCap
    consecutiveFailures := if prefs.enabled then 0 else s.consecutiveFailures
    disabledReason := if prefs.enabled then none else s.disabledReason }

/-- The row `begin_mandate` inserts. -/
def offered (auth : Authorisation) : Settings where
  enabled := false
  threshold := auth.offered.threshold
  amount := min auth.offered.amount auth.maxDebit
  monthlyCap := max auth.offered.monthlyCap auth.maxDebit
  customerId := some auth.customerId
  tokenId := none
  mandateMethod := some auth.method
  mandateStatus := .pending
  mandateMax := some auth.maxDebit
  mandateOrderId := some auth.order
  authorisedBy := some auth.userId
  consecutiveFailures := 0
  disabledReason := none

/-- What `begin_mandate` makes of a row that is there. -/
def authorising (s : Settings) (auth : Authorisation) : Settings :=
  { s with
    enabled := false
    customerId := some auth.customerId
    mandateMethod := some auth.method
    mandateStatus := .pending
    tokenId := none
    mandateMax := some auth.maxDebit
    mandateOrderId := some auth.order
    authorisedBy := some auth.userId }

/-- **`_remember_token`**: the row's token, where it has none. -/
def remembering (s : Settings) (token : Token) : Settings :=
  if s.tokenId = none ∨ s.tokenId = some token then { s with tokenId := some token } else s

/-- **`apply_token_status`**. -/
def tokenStatus (s : Settings) (token : Token) (status : MandateStatus) : Settings :=
  if s.tokenId = some token ∧ s.mandateStatus ≠ status then
    { s with
      mandateStatus := status
      enabled := if status = .confirmed then s.enabled else false
      disabledReason :=
        if status = .confirmed ∨ status = .pending then s.disabledReason
        else endedReason status }
  else s

/-- What the second transaction of `cancel_mandate` writes. -/
def withdrawing (s : Settings) (sawToken : Bool) : Settings :=
  if sawToken then
    { s with enabled := false, mandateStatus := .cancelled, disabledReason := none }
  else { s with enabled := false, mandateStatus := .none }

/-- What a failed charge counts against the switch. -/
def countingFailure (s : Settings) (limit : ℕ) : Settings :=
  { s with
    consecutiveFailures := s.consecutiveFailures + 1
    enabled := if limit ≤ s.consecutiveFailures + 1 then false else s.enabled
    disabledReason :=
      if limit ≤ s.consecutiveFailures + 1 then some failuresReason else s.disabledReason }

end Settings

namespace World

variable (w : World)

/-- Write the settings, if there are any. -/
def updateSettings (f : Settings → Settings) : World := { w with settings := w.settings.map f }

/-- **`save_auto_recharge`**; nothing where it is refused. -/
def saveAutoRecharge (prefs : Preferences) : World :=
  if ¬ prefs.Valid then w
  else
    match w.settings with
    | none => if prefs.enabled then w else { w with settings := some (Settings.fresh prefs) }
    | some s =>
      if prefs.enabled ∧ ¬ s.MaySwitchOn prefs.amount then w
      else { w with settings := some (s.preferring prefs) }

/-- **`begin_mandate`**. The provider's order is a new one. -/
def beginMandate (auth : Authorisation) : World :=
  if minTopup ≤ auth.maxDebit ∧ auth.maxDebit ≤ maxDebit ∧ auth.order ∉ w.orders then
    { w with
      settings := some
        (match w.settings with
        | none => Settings.offered auth
        | some s => s.authorising auth)
      withdrawn := false
      orders := auth.order :: w.orders }
  else w

/-- The first transaction of `confirm_mandate` and of `note_mandate_payment`: the order is
the account's own, and the payment has a token. -/
def checkOrder (token : Token) : World :=
  if w.settings.any fun s => s.mandateOrderId = some token.order then
    { w with underway := .remember token :: w.underway }
  else w

/-- The first transaction of `cancel_mandate`. -/
def readMandate : World :=
  { w with
    underway := .cancel (w.settings.any fun s => s.tokenId.isSome ∧ s.customerId.isSome) ::
      w.underway }

/-- The second transaction of a function that is underway. -/
def resume (what : Underway) : World :=
  if what ∈ w.underway then
    match what with
    | .remember token =>
      { w with
        settings := w.settings.map fun s => s.remembering token
        underway := w.underway.erase what }
    | .cancel sawToken =>
      { w with
        settings := w.settings.map fun s => s.withdrawing sawToken
        underway := w.underway.erase what
        withdrawn := true }
  else w

/-! ## Charges -/

/-- Write a charge. -/
def updateCharge (id : ℕ) (f : Charge → Charge) : World :=
  { w with charges := w.charges.map fun charge => if charge.id = id then f charge else charge }

/-- `_month_spent`: the pending and captured charges created in the month. -/
def monthSpent (at_ : ℕ) : ℕ :=
  ((w.charges.filter fun charge =>
    charge.status ≠ .failed ∧ billingMonth charge.createdAt = billingMonth at_).map
      (·.amount)).sum

/-- The outcome of the first transaction of `maybe_start_recharge`. -/
inductive ClaimOutcome where
  | off
  | aboveThreshold
  | monthlyCapReached
  | inFlight
  | claimed (amount : ℕ)
  deriving DecidableEq, Repr

/-- What the first transaction of `maybe_start_recharge` comes to, with the wallet's balance
and the clock it read before it. -/
def claimOutcome (balance : ℤ) (readAt : ℕ) : ClaimOutcome :=
  match w.settings with
  | none => .off
  | some s =>
    if s.enabled = false ∨ s.tokenId = none then .off
    else if (s.threshold : ℤ) ≤ balance then .aboveThreshold
    else if s.monthlyCap < w.monthSpent readAt + s.amount then .monthlyCapReached
    else if w.charges.any fun charge => charge.status = .pending then .inFlight
    else .claimed s.amount

/-- The row a claim inserts. -/
def newCharge (id amount createdAt : ℕ) : Charge where
  id := id
  orderId := none
  paymentId := none
  amount := amount
  status := .pending
  failureCode := none
  createdAt := createdAt
  settledAt := none
  money := .unasked

/-- **`maybe_start_recharge`**, its first transaction. Its id is a new one. -/
def claimRecharge (id : ℕ) (balance : ℤ) (readAt createdAt : ℕ) : World :=
  if w.charges.any fun charge => charge.id = id then w
  else
    match w.claimOutcome balance readAt with
    | .claimed amount => { w with charges := newCharge id amount createdAt :: w.charges }
    | _ => w

/-- The second: the order's id. -/
def nameOrder (id order : ℕ) : World :=
  if w.charges.any fun charge => charge.orderId = some order then w
  else w.updateCharge id fun charge => { charge with orderId := some order }

/-- The provider has the payment request, whether or not we hear so. -/
def askMoney (id : ℕ) : World :=
  w.updateCharge id fun charge =>
    if charge.money = .unasked ∧ charge.orderId.isSome then { charge with money := .live }
    else charge

/-- The last transaction of a start that was answered. -/
def notePayment (id payment : ℕ) : World :=
  w.updateCharge id fun charge =>
    if charge.status = .pending then { charge with paymentId := some payment } else charge

/-- The worker that started the charge ends without asking, or the provider refuses. -/
def giveUp (id : ℕ) : World :=
  w.updateCharge id fun charge =>
    if charge.money = .unasked then { charge with money := .gone } else charge

/-- The provider takes the money, or ends the payment. -/
def provider (id : ℕ) (takes : Bool) : World :=
  w.updateCharge id fun charge =>
    if charge.money = .live then { charge with money := if takes then .taken else .gone }
    else charge

/-- The code a failure is recorded with. -/
def recordedCode (code : Option String) : String :=
  if code = none ∨ code = some "" then "unknown"
  else String.ofList ((code.getD "").toList.take 64)

/-- What a failure makes of a pending charge. -/
def failing (code : Option String) (now : ℕ) (charge : Charge) : Charge :=
  if charge.status = .pending then
    { charge with
      status := .failed
      failureCode := some (recordedCode code)
      settledAt := some now }
  else charge

/-- **`_fail_charge`**. -/
def failCharge (limit id : ℕ) (code : Option String) : World :=
  if w.charges.any fun charge => charge.id = id ∧ charge.status = .pending then
    { w.updateCharge id (failing code w.clock) with
      settings := w.settings.map fun s => s.countingFailure limit }
  else w

/-- The charge `settle_charge` finds. -/
def toSettle (order : ℕ) (captured : Bool) : Option Charge :=
  w.charges.find? fun charge =>
    charge.orderId = some order ∧
      (charge.status = .pending ∨ charge.status = .failed ∧ captured)

/-- **`settle_charge`**, for a payment event of the order; a capture is reported once the
money was taken, a failure once it was asked for. -/
def settleCharge (limit order : ℕ) (payment : Option ℕ) (captured : Bool)
    (code : Option String) : World :=
  match w.toSettle order captured with
  | none => w
  | some charge =>
    if captured then
      if charge.money = .taken then
        { w.updateCharge charge.id fun charge =>
            { charge with
              status := .captured
              failureCode := none
              paymentId := payment.or charge.paymentId
              settledAt := some w.clock } with
          settings := w.settings.map fun s => { s with consecutiveFailures := 0 } }
      else w
    else if charge.money = .unasked then w
    else w.failCharge limit charge.id code

/-- The charges `expire_unanswered` fails. -/
def unanswered (now : ℕ) : List ℕ :=
  (w.charges.filter fun charge =>
    charge.status = .pending ∧ charge.createdAt + chargeAnswerWindow < now).map (·.id)

/-- **`expire_unanswered`**. -/
def expireUnanswered (limit now : ℕ) : World :=
  (w.unanswered now).foldl (fun w id => w.failCharge limit id (some "no_answer")) w

end World

/-! ## Runs -/

inductive Action where
  | save (prefs : Preferences)
  | beginMandate (auth : Authorisation)
  | checkOrder (token : Token)
  | tokenStatus (token : Token) (status : MandateStatus)
  | cancelMandate
  | resume (what : Underway)
  | claim (id : ℕ) (balance : ℤ) (readAgo createdAgo : ℕ)
  | nameOrder (id order : ℕ)
  | askMoney (id : ℕ)
  | notePayment (id payment : ℕ)
  | giveUp (id : ℕ)
  | provider (id : ℕ) (takes : Bool)
  | failStart (id : ℕ) (code : Option String)
  | settle (order : ℕ) (payment : Option ℕ) (captured : Bool) (code : Option String)
  | expire (ago : ℕ)
  | wait (d : ℕ)
  deriving DecidableEq, Repr

namespace World

/-- One transaction, or one act of the provider. -/
def step (limit : ℕ) (w : World) : Action → World
  | .save prefs => w.saveAutoRecharge prefs
  | .beginMandate auth => w.beginMandate auth
  | .checkOrder token => w.checkOrder token
  | .tokenStatus token status => w.updateSettings fun s => s.tokenStatus token status
  | .cancelMandate => w.readMandate
  | .resume what => w.resume what
  | .claim id balance readAgo createdAgo =>
    w.claimRecharge id balance (w.clock - readAgo) (w.clock - createdAgo)
  | .nameOrder id order => w.nameOrder id order
  | .askMoney id => w.askMoney id
  | .notePayment id payment => w.notePayment id payment
  | .giveUp id => w.giveUp id
  | .provider id takes => w.provider id takes
  | .failStart id code => w.failCharge limit id code
  | .settle order payment captured code => w.settleCharge limit order payment captured code
  | .expire ago => w.expireUnanswered limit (w.clock - ago)
  | .wait d => { w with clock := w.clock + d }

/-- An account that has chosen nothing yet. -/
def empty : World := ⟨none, [], [], false, [], 0⟩

def run (limit : ℕ) (actions : List Action) : World := actions.foldl (step limit) empty

end World

end Calevate.AutoRecharge
