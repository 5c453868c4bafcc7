import Calevate.Lib.Tx
import Calevate.Lib.Table

/-!
# One client's account

The tables the credit code writes, for one tenant: the append-only `credit_ledger`,
the mutable `credit_lots`, `payment_disputes`, `refund_intents` and the outbox. Row
level security scopes every statement to the tenant, so no row here names one.

Money is counted in ticks of a ten-thousandth of a rupee, the scale of every money
column, so a stored amount is an integer and adding amounts is exact. A rate is ticks
per minute. A timestamp is a natural number; `clock` is the database's
`clock_timestamp()`, which moves strictly between two statements that stamp a row.

What a column's `CHECK` says is a field of the row, so a row that breaks it cannot be
built; a statement that would write one raises `Problem.checkViolation` instead.
-/

namespace Calevate

namespace Billing

open Lib

/-! ## Vocabulary -/

/-- `models.CREDIT_REASONS`. -/
inductive CreditReason
  | topup | usage | adjustment | refund | bonus | grant
  deriving DecidableEq, Repr

/-- `models.LOT_SOURCES`. -/
inductive LotSource
  | topup | grant | bonusLegacy | migration | override
  deriving DecidableEq, Repr

/-- The two rungs a call bills on; `value` is Clear, `premium` is Studio. -/
inductive VoiceTier
  | value | premium
  deriving DecidableEq, Repr

/-- `credit_ledger.meta.kind`, for the writers that set one. -/
inductive MetaKind
  | operatorAdjustment | operatorGrant | topupRestatement
  | creditPackBonus | creditPackBonusClawback
  | creditExpiry | creditExpiryRestated | lotRateOverride
  | disputeHold | disputeRelease
  | aiAssistOverage | numberRental
  deriving DecidableEq, Repr

/-- Every way a credit transaction is refused. The names are the problem codes; the
last four are raised by the database or by an assertion and carry no code. -/
inductive Problem
  | insufficientCredits
  | creditLotsContended
  | restatementEmptiesLot
  | creditLotNotFound
  | lotIsSpent
  | lotAlreadyAtThoseRates
  | lotRepriceRaisesRate
  | topupReferenceConflict
  | topupOverrideConflict
  | unknownCreditPack
  | paymentAmountConflict
  | grantReferenceConflict
  | ledgerEntryNotFound
  | invalidTopupAmount
  | invalidGrantAmount
  | grantAmountUnconfirmed
  | invalidAdjustmentAmount
  | invalidRestatementAmount
  | entryMovedNothing
  | adjustmentExceedsEntry
  | paymentReferenceNotFound
  | restatementNotAnIncrease
  | refundAmountConflict
  | refundPaymentNotFound
  | refundPaymentDisputed
  | refundPaymentChargedBack
  | refundExceedsPayment
  | refundExceedsUnspent
  | valueError
  | checkViolation
  | duplicateKey
  | assertionFailed
  deriving DecidableEq, Repr

/-- `service.LotRates`: the pair of per-minute rates. A published rate is positive, by
the `CHECK` of the table the card is read from. -/
structure LotRates where
  clearInrPerMin : ℤ
  studioInrPerMin : ℤ
  clear_pos : 0 < clearInrPerMin
  studio_pos : 0 < studioInrPerMin
  deriving DecidableEq

/-- `LotRates.rate_for`. -/
def LotRates.rateFor (r : LotRates) : VoiceTier → ℤ
  | .value => r.clearInrPerMin
  | .premium => r.studioInrPerMin

theorem LotRates.rateFor_pos (r : LotRates) (t : VoiceTier) : 0 < r.rateFor t := by
  cases t
  · exact r.clear_pos
  · exact r.studio_pos

/-- One lot's contribution to a debit: `CallSplit` carries the minutes it paid for, the
rate it was priced at and the rung, `AiAssistSplit` carries none of them. A split with
no lot is the overdraft portion. -/
structure LotSplit where
  lotId : Option ℕ
  credits : ℤ
  call : Option (ℚ × ℤ × VoiceTier)
  deriving DecidableEq

/-! ## Rows -/

/-- The keys of `credit_ledger.meta` that some statement reads back. -/
structure EntryMeta where
  kind : Option MetaKind := none
  lotId : Option ℕ := none
  paymentRef : Option String := none
  correctsEntryId : Option ℕ := none
  expiryRestatedInr : Option ℤ := none
  lots : List LotSplit := []
  deriving DecidableEq

/-- A row of `credit_ledger`. -/
structure Entry where
  id : ℕ
  delta : ℤ
  reason : CreditReason
  ref : Option String
  balanceAfter : ℤ
  occurredAt : ℕ
  entryMeta : EntryMeta
  deriving DecidableEq

/-- A row of `credit_lots`. The last four fields are the table's `CHECK`s. -/
structure Lot where
  id : ℕ
  source : LotSource
  packId : Option String
  overrideOfPackId : Option String
  creditsTotal : ℤ
  creditsRemaining : ℤ
  rates : LotRates
  ledgerEntryId : ℕ
  openedAt : ℕ
  closedAt : Option ℕ
  expiresAt : Option ℕ
  total_positive : 0 < creditsTotal
  remaining_nonneg : 0 ≤ creditsRemaining
  remaining_within_total : creditsRemaining ≤ creditsTotal
  studio_not_below_clear : rates.clearInrPerMin ≤ rates.studioInrPerMin
  deriving DecidableEq

/-- `models.DISPUTE_STATUSES`. -/
inductive DisputeStatus
  | «open» | underReview | won | lost | closed
  deriving DecidableEq, Repr

/-- A row of `payment_disputes`, less what no decision reads. -/
structure Dispute where
  disputeId : String
  paymentId : String
  amountInr : ℤ
  status : DisputeStatus
  phase : Option String
  holdInr : ℤ
  deriving DecidableEq

/-- A row of `refund_intents`. -/
structure RefundIntent where
  id : ℕ
  paymentRef : String
  refundKey : String
  amountInr : ℤ
  failedAt : Option ℕ
  refundRef : Option String
  deriving DecidableEq

/-- A message owed through the outbox by the ledger writer. -/
inductive OutboxJob
  | applyInboundCreditState
  | settleNumberHolds
  | notifyLowBalance (level : String) (balanceInr : ℤ)
  deriving DecidableEq

/-- One tenant's state. -/
structure Account where
  ledger : List Entry := []
  lots : List Lot := []
  disputes : List Dispute := []
  refundIntents : List RefundIntent := []
  /-- `monthly_fee_payments.payment_ref` of the fees paid through the gateway. -/
  feePayments : List String := []
  /-- `organizations.low_balance_alert_inr`. -/
  lowBalanceAlertInr : Option ℤ := none
  outbox : List OutboxJob := []
  clock : ℕ := 0
  nextId : ℕ := 0

/-- A transaction on one account. Every writer takes the tenant's advisory lock before
its first read, so transactions of one account run one after the other. -/
abbrev CreditTx := Tx Account Problem

namespace Account

/-- The clock moved on. -/
def tick (a : Account) : Account := { a with clock := a.clock + 1 }

/-- An id given out. -/
def mint (a : Account) : Account := { a with nextId := a.nextId + 1 }

/-- The lots rewritten. -/
def setLots (a : Account) (lots : List Lot) : Account := { a with lots := lots }

/-- The disputes rewritten. -/
def setDisputes (a : Account) (disputes : List Dispute) : Account :=
  { a with disputes := disputes }

/-- The refund claims rewritten. -/
def setRefundIntents (a : Account) (intents : List RefundIntent) : Account :=
  { a with refundIntents := intents }

end Account

/-- `clock_timestamp()`. -/
def clockTimestamp : CreditTx ℕ := do
  let a ← get
  set a.tick
  pure a.tick.clock

/-- `uuid7()`. -/
def uuid7 : CreditTx ℕ := do
  let a ← get
  set a.mint
  pure a.nextId

theorem clockTimestamp_ok {a : Account} {r : ℕ × Account} :
    clockTimestamp a = .ok r ↔ r = (a.clock + 1, a.tick) := by
  simp only [clockTimestamp, Tx.bind_ok, Tx.get_ok, Tx.set_ok, Tx.pure_ok]
  constructor
  · rintro ⟨_, _, h, _, _, h', rfl⟩
    cases h
    cases h'
    rfl
  · rintro rfl
    exact ⟨_, _, rfl, _, _, rfl, rfl⟩

theorem uuid7_ok {a : Account} {r : ℕ × Account} :
    uuid7 a = .ok r ↔ r = (a.nextId, a.mint) := by
  simp only [uuid7, Tx.bind_ok, Tx.get_ok, Tx.set_ok, Tx.pure_ok]
  constructor
  · rintro ⟨_, _, h, _, _, h', rfl⟩
    cases h
    cases h'
    rfl
  · rintro rfl
    exact ⟨_, _, rfl, _, _, rfl, rfl⟩

end Billing

end Calevate
