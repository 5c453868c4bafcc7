import Calevate.Billing.Operations

/-!
# Disputes

A chargeback takes the disputed money off the wallet while it is open and gives it back
when it is won. The gateway's events arrive in any order and more than once, so what an
event does is decided from the ledger: a hold and its release are rows keyed by the
dispute and by a round, one round for each phase in which a won chargeback is challenged
again.
-/

namespace Calevate

namespace Billing

open Lib

/-- `disputes.DisputeFacts`. A status outside the column's `CHECK` never reaches a row. -/
structure DisputeFacts where
  disputeId : String
  paymentId : String
  paise : ℕ+
  status : DisputeStatus
  phase : Option String
  deriving DecidableEq

/-- `DisputeFacts.amount_inr`. -/
def DisputeFacts.amountInr (d : DisputeFacts) : ℤ := paiseToInr d.paise

/-- `dispute_hold.OPEN_STATES`. -/
def DisputeStatus.isOpen : DisputeStatus → Bool
  | .open | .underReview => true
  | _ => false

/-- `disputes.TERMINAL_STATES`. -/
def DisputeStatus.isTerminal : DisputeStatus → Bool
  | .won | .lost | .closed => true
  | _ => false

/-- `disputes.ESCALATION_PHASES`, as the suffix each gives its round. -/
def phaseSuffixes : Option String → List String
  | some "pre_arbitration" => [":pre_arbitration"]
  | some "arbitration" => [":pre_arbitration", ":arbitration"]
  | _ => []

/-- `disputes._escalated`. -/
def escalated (phase was : Option String) : Bool :=
  phaseSuffixes phase ≠ [] ∧ phase ≠ was

/-- `disputes._round_suffixes`: every round up to this event's phase, oldest first. -/
def roundSuffixes (phase : Option String) : List String := "" :: phaseSuffixes phase

/-- The ledger reference of a round's hold. -/
def disputeHoldRef (disputeId suffix : String) : String := "dispute_hold:" ++ disputeId ++ suffix

/-- The ledger reference of a round's release. -/
def disputeReleaseRef (disputeId suffix : String) : String :=
  "dispute_release:" ++ disputeId ++ suffix

/-- Is the round's hold on the ledger? -/
def Account.roundHeld (a : Account) (disputeId suffix : String) : Bool :=
  (a.findEntryByRef .adjustment (disputeHoldRef disputeId suffix)).isSome

/-- Is the round's release on the ledger? -/
def Account.roundReleased (a : Account) (disputeId suffix : String) : Bool :=
  (a.findEntryByRef .adjustment (disputeReleaseRef disputeId suffix)).isSome

/-- A round whose money is still taken. -/
def Account.roundOpen (a : Account) (disputeId suffix : String) : Bool :=
  a.roundHeld disputeId suffix && !a.roundReleased disputeId suffix

/-- This event's own round. -/
def DisputeFacts.ownRound (d : DisputeFacts) : String :=
  (roundSuffixes d.phase).getLast (by simp [roundSuffixes])

/-- `UPDATE payment_disputes SET hold_inr`. -/
def setHoldInr (disputeId : String) (amountInr : ℤ) : CreditTx Unit := do
  let a ← get
  set (a.setDisputes (Table.updateKey Dispute.disputeId disputeId
    (fun row => { row with holdInr := amountInr }) a.disputes))

/-- The writing half of `disputes._hold`. -/
def writeHold (d : DisputeFacts) (paid : Option Entry) : CreditTx Unit := do
  let removal ← removeCreditFromLots (paid.map Entry.id) d.amountInr
  let _ ← recordEntry (-d.amountInr) .adjustment (some (disputeHoldRef d.disputeId d.ownRound))
    { kind := some .disputeHold, paymentRef := some d.paymentId, lots := removal.splits,
      expiryRestatedInr :=
        if 0 < removal.expiryRestatedInr then some removal.expiryRestatedInr else none }
    true false
  setHoldInr d.disputeId d.amountInr

/-- `disputes._hold`. -/
def hold (d : DisputeFacts) : CreditTx Bool := do
  let a ← get
  if a.roundHeld d.disputeId d.ownRound ∨
      (roundSuffixes d.phase).any (a.roundOpen d.disputeId) then
    pure false
  else if a.findTopup d.paymentId = none ∧ d.paymentId ∈ a.feePayments then
    -- a platform fee never reached the wallet, so there is no credit to hold
    pure false
  else do
    writeHold d (a.findTopup d.paymentId)
    pure true

/-- What a hold took: its row, less the lapsed credit a compensating row gave back. -/
def Entry.heldAmount (e : Entry) : ℤ := |e.delta| - e.entryMeta.expiryRestatedInr.getD 0

/-- The writing half of `disputes._release`, for the round it releases. -/
def writeRelease (ctx : Ctx) (d : DisputeFacts) (suffix : String) : CreditTx Unit := do
  let a ← get
  let held ← Tx.ofOption .assertionFailed
    (a.findEntryByRef .adjustment (disputeHoldRef d.disputeId suffix))
  let ref := disputeReleaseRef d.disputeId suffix
  let balance ← recordEntry held.heldAmount .adjustment (some ref)
    { kind := some .disputeRelease, paymentRef := some d.paymentId } false true
  let b ← get
  let released ← Tx.ofOption .assertionFailed (b.findEntryByRef .adjustment ref)
  let lot := (b.findTopup d.paymentId).bind fun paid => b.purchaseLotOfEntry paid.id
  let _ ← applyCreditToLots ctx held.heldAmount balance.amountInr
    (ctx.card.forPurchase none held.heldAmount) .topup none released.id (lot.map Lot.id) none
  pure ()

/-- `disputes._release`: the newest round whose hold is still taken. -/
def release (ctx : Ctx) (d : DisputeFacts) : CreditTx Bool := do
  let a ← get
  match ((roundSuffixes d.phase).filter (a.roundOpen d.disputeId)).getLast? with
  | none => pure false
  | some suffix => do
    writeRelease ctx d suffix
    pure true

/-- What `apply_dispute_event` answers. -/
inductive DisputeOutcome
  | stale | recorded | held | released | debited
  deriving DecidableEq, Repr

/-- A late redelivery of an open state after the outcome. -/
def staleEvent (existing : Option Dispute) (d : DisputeFacts) : Bool :=
  match existing with
  | none => false
  | some row =>
    row.status.isTerminal && !d.status.isTerminal && !escalated d.phase row.phase

/-- The row after the event: inserted, or its status and phase moved. -/
def recordDispute (existing : Option Dispute) (d : DisputeFacts) : CreditTx Unit := do
  let a ← get
  match existing with
  | none =>
    set (a.setDisputes (a.disputes ++ [
      { disputeId := d.disputeId, paymentId := d.paymentId, amountInr := d.amountInr,
        status := d.status, phase := d.phase, holdInr := 0 }]))
  | some _ =>
    set (a.setDisputes (Table.updateKey Dispute.disputeId d.disputeId
      (fun row => { row with status := d.status, phase := d.phase.or row.phase }) a.disputes))

/-- The money half of one applied event. -/
def moveDisputeMoney (ctx : Ctx) (d : DisputeFacts) : CreditTx DisputeOutcome :=
  match d.status with
  | .open | .underReview => do
    let held ← hold d
    pure (if held then .held else .recorded)
  | .won | .closed => do
    let released ← release ctx d
    pure (if released then .released else .recorded)
  | .lost => do
    let held ← hold d
    pure (if held then .debited else .recorded)

/-- The stored row of a dispute. -/
def Account.findDispute (a : Account) (disputeId : String) : Option Dispute :=
  Table.findKey Dispute.disputeId disputeId a.disputes

/-- **`disputes.apply_dispute_event`.** -/
def applyDisputeEvent (ctx : Ctx) (d : DisputeFacts) : CreditTx DisputeOutcome := do
  let a ← get
  if staleEvent (a.findDispute d.disputeId) d then
    pure .stale
  else do
    recordDispute (a.findDispute d.disputeId) d
    moveDisputeMoney ctx d

end Billing

end Calevate
