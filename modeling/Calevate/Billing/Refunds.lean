import Calevate.Billing.Wallet

/-!
# Refund claims

A refund is money leaving through the gateway, and two of them must not return more than
the payment brought in. The ceiling cannot be a read: the lock is gone before the gateway
is called. So a refund is *claimed* first, as a committed row that counts against the
payment, then asked for, and the row is bound to the gateway's refund once it answers, or
failed when the refund is known not to have happened.

The route is several transactions with the network between them. `RefundDesk` keeps what a
request has read so far beside the account, and a run interleaves the steps of any number
of requests with the gateway's events and with every other credit operation.
-/

namespace Calevate

namespace Billing

open Lib

/-! ## Reading -/

/-- `failed_at IS NULL`. -/
def RefundIntent.isLive (c : RefundIntent) : Bool := c.failedAt.isNone

/-- `payments.claimed_refund_total_inr`. -/
def Account.claimedRefundTotalInr (a : Account) (paymentId : String) : ℤ :=
  ((a.refundIntents.filter fun c => c.paymentRef = paymentId ∧ c.isLive).map
    RefundIntent.amountInr).sum

/-- `payments.unspent_credit_of_payment`. -/
def Account.unspentCreditOfPayment (a : Account) (paymentId : String) (entryId : ℕ) : ℤ :=
  match a.purchaseLotOfEntry entryId with
  | none => 0
  | some lot =>
    let pending := max (a.claimedRefundTotalInr paymentId - a.refundedTotalInr paymentId) 0
    toPaise (max (lot.creditsRemaining - pending) 0 : ℤ)

/-- The attempts of this payment and amount that failed definitively. -/
def Account.failedAttempts (a : Account) (paymentId : String) (amountInr : ℤ) : ℕ :=
  (a.refundIntents.filter fun c =>
    c.paymentRef = paymentId ∧ c.amountInr = amountInr ∧ !c.isLive).length

/-! ## Claiming -/

/-- `payments._refuse_if_disputed`. -/
def refuseIfDisputed (paymentId : String) : CreditTx Unit := do
  let a ← get
  let blocking := a.disputes.filter fun d =>
    d.paymentId = paymentId ∧ (d.status.isOpen ∨ d.status = .lost)
  if blocking.any fun d => d.status = .lost then
    throw .refundPaymentChargedBack
  else if blocking ≠ [] then
    throw .refundPaymentDisputed
  else
    pure ()

/-- `payments.RefundClaim`. -/
structure RefundClaim where
  refundKey : String
  claimed : Bool
  deriving DecidableEq

/-- `INSERT INTO refund_intents`, with the table's `CHECK` and its unique index. -/
def insertRefundIntent (paymentId key : String) (amountInr : ℤ) : CreditTx Unit := do
  let id ← uuid7
  let a ← get
  if amountInr ≤ 0 then
    throw .checkViolation
  else if a.refundIntents.any fun c => c.refundKey = key then
    throw .duplicateKey
  else
    set (a.setRefundIntents (a.refundIntents ++ [
      { id := id, paymentRef := paymentId, refundKey := key, amountInr := amountInr,
        failedAt := none, refundRef := none }]))

/-- The new-claim half of `payments.claim_refund`. `refundKey` is the digest the gateway is
sent as its idempotency key. -/
def newRefundClaim (refundKey : String → ℤ → ℕ → String) (paymentId : String)
    (amountInr paymentTotalInr : ℤ) (topupEntryId : ℕ) : CreditTx RefundClaim := do
  refuseIfDisputed paymentId
  let a ← get
  let key := refundKey paymentId amountInr (a.failedAttempts paymentId amountInr)
  if paymentTotalInr - a.claimedRefundTotalInr paymentId < amountInr then
    throw .refundExceedsPayment
  else if a.unspentCreditOfPayment paymentId topupEntryId < amountInr then
    throw .refundExceedsUnspent
  else do
    insertRefundIntent paymentId key amountInr
    pure ⟨key, true⟩

/-- **`payments.claim_refund`.** Reserve one refund against a payment, or refuse it. -/
def claimRefund (refundKey : String → ℤ → ℕ → String) (paymentId : String)
    (amountInr paymentTotalInr : ℤ) (topupEntryId : ℕ) : CreditTx RefundClaim := do
  let a ← get
  match a.refundIntents.find? fun c =>
    c.paymentRef = paymentId ∧ c.amountInr = amountInr ∧ c.isLive with
  | some live => pure ⟨live.refundKey, false⟩
  | none => newRefundClaim refundKey paymentId amountInr paymentTotalInr topupEntryId

/-! ## Binding and failing -/

/-- `payments.release_refund_claim`. -/
def releaseRefundClaim (key : String) (refundId : Option String) : CreditTx Unit := do
  let a ← get
  set (a.setRefundIntents (Table.update (fun c => c.refundKey = key ∧ c.isLive)
    (fun c => { c with failedAt := some a.clock, refundRef := c.refundRef.or refundId })
    a.refundIntents))

/-- `payments.bind_refund_claim`. -/
def bindRefundClaim (key refundId : String) : CreditTx Unit := do
  let a ← get
  set (a.setRefundIntents (Table.update (fun c => c.refundKey = key ∧ c.refundRef.isNone)
    (fun c => { c with refundRef := some refundId }) a.refundIntents))

/-- The live claim bound to a refund. -/
def Account.boundClaim (a : Account) (refundId : String) : Option RefundIntent :=
  a.refundIntents.find? fun c => c.isLive ∧ c.refundRef = some refundId

/-- The live claim of a payment and an amount that no refund is bound to. -/
def Account.unboundClaim (a : Account) (refund : RefundEvent) : Option RefundIntent :=
  a.refundIntents.find? fun c => c.isLive ∧ c.refundRef = none ∧
    c.paymentRef = refund.paymentId ∧ c.amountInr = refund.amountInr

/-- `payments.claim_of_failed_refund`: the bound claim sorts first. -/
def Account.claimOfFailedRefund (a : Account) (refund : RefundEvent) : Option RefundIntent :=
  if a.refundIntents.any fun c => !c.isLive ∧ c.refundRef = some refund.refundId then none
  else (a.boundClaim refund.refundId).or (a.unboundClaim refund)

/-- **`payment_events.apply_refund_failed`**, and the release the daily reconciliation makes
for a failure it finds in the gateway's listing. -/
def applyRefundFailed (refund : RefundEvent) : CreditTx Unit := do
  let a ← get
  match a.claimOfFailedRefund refund with
  | none => pure ()
  | some claim => releaseRefundClaim claim.refundKey (some refund.refundId)

/-! ## The desk -/

/-- The account, and the top-ups the requests in flight have read. -/
structure RefundDesk where
  account : Account := {}
  requests : List (String × Entry) := []

/-- One transaction of some request, one event of the gateway, or any other operation. A
processed refund is `Op.refund`. -/
inductive RefundStep
  | op (o : Op)
  /-- A request finds the payment it refunds. -/
  | read (paymentId : String)
  /-- A request claims, for an amount in paise or for the whole payment. -/
  | claim (request : ℕ) (paise : Option ℤ)
  /-- A request is definitively refused by the gateway. -/
  | release (key : String)
  /-- A request is answered by the gateway. -/
  | bind (key refundId : String)
  /-- The gateway could not process a refund. -/
  | failed (refund : RefundEvent)

/-- The account rewritten. -/
def RefundDesk.setAccount (s : RefundDesk) (a : Account) : RefundDesk := { s with account := a }

@[simp] theorem RefundDesk.setAccount_account (s : RefundDesk) (a : Account) :
    (s.setAccount a).account = a := rfl

/-- One transaction on the desk's account. -/
def RefundDesk.commit {α : Type} (s : RefundDesk) (m : CreditTx α) : RefundDesk :=
  s.setAccount (Tx.commit m s.account)

/-- What a step leaves behind. -/
def RefundDesk.step (refundKey : String → ℤ → ℕ → String) (s : RefundDesk) :
    RefundStep → RefundDesk
  | .op o => s.setAccount (o.step s.account)
  | .read paymentId =>
    match s.account.findTopup paymentId with
    | none => s
    | some paid => { s with requests := s.requests ++ [(paymentId, paid)] }
  | .claim request paise =>
    match s.requests[request]? with
    | none => s
    | some (paymentId, paid) =>
      let amount := (paise.map ofPaise).getD paid.delta
      if amount ≤ 0 then s
      else s.commit (claimRefund refundKey paymentId amount paid.delta paid.id)
  | .release key => s.commit (releaseRefundClaim key none)
  | .bind key refundId => s.commit (bindRefundClaim key refundId)
  | .failed refund => s.commit (applyRefundFailed refund)

/-- A run of the desk. -/
def runRefunds (refundKey : String → ℤ → ℕ → String) (steps : List RefundStep)
    (s : RefundDesk) : RefundDesk :=
  steps.foldl (RefundDesk.step refundKey) s

end Billing

end Calevate
