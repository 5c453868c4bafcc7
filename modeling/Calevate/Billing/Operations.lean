import Calevate.Billing.Credit
import Mathlib.Data.PNat.Defs

/-!
# The credit operations

The routes and receivers that move a client's credit, each one transaction under the
tenant's lock: a payment recorded by hand or captured by the gateway, a grant, a
correction of a wrong entry, a restated payment, and a refund with the share of the pack's
bonus it takes back. Each looks up its own reference first and does nothing when it is
already on the ledger.

An operator's amount arrives in whole paise and may be anything; a gateway's amount is a
positive count of paise, which `paise_to_inr` refuses otherwise.
-/

namespace Calevate

namespace Billing

open Lib

/-- A rupee amount sent as whole paise, in ticks. -/
def ofPaise (paise : ℤ) : ℤ := paise * 100

/-- `payments.paise_to_inr`. -/
def paiseToInr (paise : ℕ+) : ℤ := ofPaise (paise : ℕ)

/-- `str(to_paise(amount))`: a rupee amount as it stands in a reference. -/
def paiseText (amountInr : ℤ) : String :=
  let paise := (toPaise amountInr / 100).natAbs
  (if toPaise amountInr < 0 then "-" else "") ++ toString (paise / 100) ++ "." ++
    toString (paise % 100 / 10) ++ toString (paise % 10)

/-! ## References -/

/-- `service.adjustment_ref`. -/
def adjustmentRef (entryId : ℕ) (amountInr : ℤ) : String :=
  "adjust:" ++ toString entryId ++ ":" ++ paiseText amountInr

/-- `service.grant_ref`. -/
def grantRef (reference : String) : String := "grant:" ++ reference

/-- `service.restatement_ref`. -/
def restatementRef (paymentRef : String) (creditedTotalInr : ℤ) : String :=
  "restated:" ++ paymentRef ++ ":" ++ paiseText creditedTotalInr

/-- `PAYMENT_REF_SQL`: which bank transfer a row belongs to. -/
def Entry.paymentRef (e : Entry) : Option String :=
  if e.reason = .topup then e.entryMeta.paymentRef.or e.ref else none

/-- `service.read_recorded_payment`: everything this reference has credited. -/
def Account.recordedPayment (a : Account) (ref : String) : Option ℤ :=
  let rows := a.ledger.filter fun e => e.paymentRef = some ref
  if rows = [] then none else some (rows.map Entry.delta).sum

/-! ## A payment recorded by hand -/

/-- `credit_routes._refuse_conflicting_override`. -/
def refuseConflictingOverride (entryId : ℕ) (override : Option CreditPack) : CreditTx Unit := do
  let a ← get
  match override with
  | none => pure ()
  | some pack =>
    if (a.lotOfEntry entryId).bind Lot.overrideOfPackId = some pack.packId then pure ()
    else throw .topupOverrideConflict

/-- The override's pack, which must be on the card (`credit_routes._override_pack`). -/
def overridePack (ctx : Ctx) (ratesOfPackId : Option String) : CreditTx (Option CreditPack) :=
  match ratesOfPackId with
  | none => pure none
  | some pid => do
    let pack ← Tx.ofOption .unknownCreditPack (ctx.card.packs.find? fun p => p.packId = pid)
    pure (some pack)

/-- The new-payment half of `record_topup`: the row, then the lot it opens. -/
def creditTopup (ctx : Ctx) (amountInr : ℤ) (ref : String) (override : Option CreditPack) :
    CreditTx CreditedLot := do
  let balance ← recordEntry amountInr .topup (some ref) {} false false
  let a ← get
  let written ← Tx.ofOption .assertionFailed (a.findTopup ref)
  applyCreditToLots ctx amountInr balance.amountInr
    (match override with
      | none => ctx.card.forAmount amountInr
      | some pack => ctx.card.ofPack pack)
    (if override = none then .topup else .override) none written.id none
    (override.map CreditPack.packId)

/-- **`credit_routes.record_topup`.** -/
def recordTopup (ctx : Ctx) (paise : ℤ) (ref : String) (ratesOfPackId : Option String) :
    CreditTx Unit := do
  if ofPaise paise ≤ 0 then
    throw .invalidTopupAmount
  else do
    let override ← overridePack ctx ratesOfPackId
    let a ← get
    match a.findTopup ref with
    | some existing =>
      if a.recordedPayment ref = some (ofPaise paise) then
        refuseConflictingOverride existing.id override
      else
        throw .topupReferenceConflict
    | none => do
      let _ ← creditTopup ctx (ofPaise paise) ref override
      pure ()

/-! ## A payment captured by the gateway -/

/-- `payments.CapturedPayment`. -/
structure CapturedPayment where
  paymentId : String
  paise : ℕ+
  packId : Option String
  deriving DecidableEq

/-- `payments._grant_pack_bonus`. -/
def grantPackBonus (ctx : Ctx) (paymentId : String) (pack : CreditPack) : CreditTx Unit := do
  if pack.bonusCredits ≤ 0 then
    pure ()
  else do
    let a ← get
    if (a.findEntryByRef .bonus paymentId).isSome then
      pure ()
    else do
      let balance ← recordEntry pack.bonusCredits .bonus (some paymentId)
        { kind := some .creditPackBonus } false false
      let b ← get
      let written ← Tx.ofOption .assertionFailed (b.findEntryByRef .bonus paymentId)
      let _ ← applyCreditToLots ctx pack.bonusCredits balance.amountInr ctx.card.listRates
        .bonusLegacy (some pack.packId) written.id none none
      pure ()

/-- The new-payment half of `credit_captured_payment`. -/
def creditNewPayment (ctx : Ctx) (payment : CapturedPayment) (pack : Option CreditPack) :
    CreditTx Unit := do
  let amountInr := paiseToInr payment.paise
  let balance ← recordEntry amountInr .topup (some payment.paymentId) {} false false
  let a ← get
  let written ← Tx.ofOption .assertionFailed (a.findTopup payment.paymentId)
  let _ ← applyCreditToLots ctx amountInr balance.amountInr
    (ctx.card.forPurchase (pack.map CreditPack.packId) amountInr) .topup
    (pack.map CreditPack.packId) written.id none none
  match pack with
  | none => pure ()
  | some pack => grantPackBonus ctx payment.paymentId pack

/-- **`payments.credit_captured_payment`.** -/
def creditCapturedPayment (ctx : Ctx) (payment : CapturedPayment) : CreditTx Unit := do
  let a ← get
  match a.findTopup payment.paymentId with
  | some existing =>
    if existing.delta = paiseToInr payment.paise then pure () else throw .paymentAmountConflict
  | none =>
    creditNewPayment ctx payment (ctx.card.packPaidFor payment.packId (paiseToInr payment.paise))

/-! ## A grant -/

/-- `credit_routes.check_grant_amount`, against `MIN_GRANT_INR`, `MAX_GRANT_INR` and
`LARGE_GRANT_INR`. -/
def checkGrantAmount (paise : ℤ) (confirmation : Option ℤ) : CreditTx Unit :=
  if paise < 100 ∨ 1000000000 < paise then throw .invalidGrantAmount
  else if 5000000 < paise ∧ confirmation ≠ some paise then throw .grantAmountUnconfirmed
  else pure ()

/-- **`credit_routes.record_grant`**, after `grant_credits` has checked the figure. -/
def recordGrant (ctx : Ctx) (paise : ℤ) (confirmation : Option ℤ) (reference : String) :
    CreditTx Unit := do
  checkGrantAmount paise confirmation
  let a ← get
  match a.findEntryByRef .grant (grantRef reference) with
  | some existing =>
    if existing.delta = ofPaise paise then pure () else throw .grantReferenceConflict
  | none => do
    let balance ← recordEntry (ofPaise paise) .grant (some (grantRef reference))
      { kind := some .operatorGrant } false false
    let b ← get
    let written ← Tx.ofOption .assertionFailed (b.findEntryByRef .grant (grantRef reference))
    let _ ← applyCreditToLots ctx (ofPaise paise) balance.amountInr ctx.card.listRates .grant none
      written.id none none
    pure ()

/-! ## A correction -/

/-- `service.reversed_amounts`, of one entry. -/
def Account.reversedInr (a : Account) (entryId : ℕ) : ℤ :=
  ((a.ledger.filter fun e => e.reason = .adjustment ∧
    e.entryMeta.correctsEntryId = some entryId).map fun e => |e.delta|).sum

/-- `CorrectableEntry.reversible_inr`. -/
def Account.reversibleInr (a : Account) (target : Entry) : ℤ :=
  max 0 (|target.delta| - a.reversedInr target.id)

/-- The writing half of `record_adjustment`. The direction is the entry's: a row that
added credit is taken off the lots, a row that took it opens a lot at the list rates. -/
def writeAdjustment (ctx : Ctx) (target : Entry) (amountInr : ℤ) : CreditTx Unit := do
  let ref := adjustmentRef target.id amountInr
  if 0 < target.delta then do
    let returned ← removeCreditFromLots (some target.id) amountInr
    let _ ← recordEntry (-amountInr) .adjustment (some ref)
      { kind := some .operatorAdjustment, correctsEntryId := some target.id,
        lots := returned.splits } true false
    pure ()
  else do
    let balance ← recordEntry amountInr .adjustment (some ref)
      { kind := some .operatorAdjustment, correctsEntryId := some target.id } true false
    let b ← get
    let written ← Tx.ofOption .assertionFailed (b.findEntryByRef .adjustment ref)
    let _ ← applyCreditToLots ctx amountInr balance.amountInr ctx.card.listRates .grant none
      written.id none none
    pure ()

/-- **`credit_routes.record_adjustment`.** -/
def recordAdjustment (ctx : Ctx) (correctsEntryId : ℕ) (paise : ℤ) : CreditTx Unit := do
  if ofPaise paise ≤ 0 then
    throw .invalidAdjustmentAmount
  else do
    let a ← get
    let target ← Tx.ofOption .ledgerEntryNotFound (Table.findKey Entry.id correctsEntryId a.ledger)
    if target.delta = 0 then
      throw .entryMovedNothing
    else if (a.findEntryByRef .adjustment (adjustmentRef target.id (ofPaise paise))).isSome then
      pure ()
    else if a.reversibleInr target < ofPaise paise then
      throw .adjustmentExceedsEntry
    else
      writeAdjustment ctx target (ofPaise paise)

/-! ## A restated payment -/

/-- The writing half of `record_restatement`: what is missing lands on the lot that holds
the purchase now. -/
def writeRestatement (ctx : Ctx) (paymentRef : String) (correctedInr addedInr : ℤ) :
    CreditTx Unit := do
  let entryRef := restatementRef paymentRef correctedInr
  let balance ← recordEntry addedInr .topup (some entryRef)
    { kind := some .topupRestatement, paymentRef := some paymentRef } false false
  let b ← get
  let written ← Tx.ofOption .assertionFailed (b.findTopup entryRef)
  let anchor ← Tx.ofOption .assertionFailed (b.findTopup paymentRef)
  let _ ← applyCreditToLots ctx addedInr balance.amountInr (ctx.card.forAmount correctedInr)
    .topup none written.id ((b.purchaseLotOfEntry anchor.id).map Lot.id) none
  pure ()

/-- **`credit_routes.record_restatement`.** -/
def recordRestatement (ctx : Ctx) (paymentRef : String) (correctedPaise : ℤ) :
    CreditTx Unit := do
  let correctedInr := ofPaise correctedPaise
  if correctedInr ≤ 0 then
    throw .invalidRestatementAmount
  else do
    let a ← get
    let credited ← Tx.ofOption .paymentReferenceNotFound (a.recordedPayment paymentRef)
    if (a.findTopup (restatementRef paymentRef correctedInr)).isSome then
      pure ()
    else if correctedInr ≤ credited then
      throw .restatementNotAnIncrease
    else
      writeRestatement ctx paymentRef correctedInr (correctedInr - credited)

/-! ## A refund -/

/-- `payments.RefundEvent`. -/
structure RefundEvent where
  refundId : String
  paymentId : String
  paise : ℕ+
  deriving DecidableEq

/-- `RefundEvent.amount_inr`. -/
def RefundEvent.amountInr (r : RefundEvent) : ℤ := paiseToInr r.paise

/-- `payments.refunded_total_inr`. -/
def Account.refundedTotalInr (a : Account) (paymentId : String) : ℤ :=
  ((a.ledger.filter fun e => e.reason = .refund ∧
    e.entryMeta.paymentRef = some paymentId).map fun e => |e.delta|).sum

/-- `payments._clawed_back_bonus_inr`. -/
def Account.clawedBackBonusInr (a : Account) (paymentId : String) : ℤ :=
  ((a.ledger.filter fun e => e.reason = .bonus ∧
    e.entryMeta.kind = some .creditPackBonusClawback ∧
    e.entryMeta.paymentRef = some paymentId).map fun e => |e.delta|).sum

/-- The share of the bonus the refunds so far have earned back, less what was taken. -/
def Account.clawbackDue (a : Account) (paid grant : Entry) (paymentId : String) : ℤ :=
  min grant.delta
      (money (Dec.ctx (Dec.ctx (grant.delta * a.refundedTotalInr paymentId) / paid.delta))) -
    a.clawedBackBonusInr paymentId

/-- The writing half of `payments._claw_back_pack_bonus`. -/
def writeClawback (refund : RefundEvent) (grant : Entry) (delta : ℤ) : CreditTx Unit := do
  let removal ← removeCreditFromLots (some grant.id) delta
  let _ ← recordEntry (-delta) .bonus (some refund.refundId)
    { kind := some .creditPackBonusClawback, paymentRef := some refund.paymentId,
      lots := removal.splits } true false
  pure ()

/-- `payments._claw_back_pack_bonus`. -/
def clawBackPackBonus (refund : RefundEvent) : CreditTx Unit := do
  let a ← get
  match a.findTopup refund.paymentId, a.findEntryByRef .bonus refund.paymentId with
  | some paid, some grant =>
    if paid.delta ≤ 0 ∨ grant.delta ≤ 0 ∨ a.clawbackDue paid grant refund.paymentId ≤ 0 then
      pure ()
    else
      writeClawback refund grant (a.clawbackDue paid grant refund.paymentId)
  | _, _ => pure ()

/-- The writing half of `payments.credit_refund`. -/
def writeRefund (refund : RefundEvent) : CreditTx Unit := do
  let a ← get
  let removal ← removeCreditFromLots ((a.findTopup refund.paymentId).map Entry.id)
    refund.amountInr
  let _ ← recordEntry (-refund.amountInr) .refund (some refund.refundId)
    { paymentRef := some refund.paymentId, lots := removal.splits } true false
  clawBackPackBonus refund

/-- **`payments.credit_refund`.** -/
def creditRefund (refund : RefundEvent) : CreditTx Unit := do
  let a ← get
  match a.findEntryByRef .refund refund.refundId with
  | some existing =>
    if |existing.delta| = refund.amountInr then pure () else throw .refundAmountConflict
  | none => writeRefund refund

end Billing

end Calevate
