import Calevate.Billing.Lots
import Calevate.Lib.Calendar

/-!
# The seam between the ledger and the lots

The wallet is kept twice: a signed balance on the append-only ledger, and the lots that
say at which rates what is left of it will be spent. Every movement of credit goes
through one of the doors of this file, which moves the two together in one transaction:
`applyCreditToLots` for credit that arrives, `recordUsageFromLots` for a metered charge,
`removeCreditFromLots` for credit taken back, `expireLot` for credit that lapses and
`repriceLot` for a lot sold again at lower rates.
-/

namespace Calevate

namespace Billing

open Lib

/-! ## The card -/

/-- `credit_packs.CreditPack`: what a pack costs, and the bonus it carries. The rates it
is sold at are the card's. -/
structure CreditPack where
  packId : String
  amountInr : ℤ
  bonusPct : ℚ := 0
  deriving DecidableEq

/-- `CreditPack.bonus_credits`, in ticks. -/
def CreditPack.bonusCredits (p : CreditPack) : ℤ :=
  money (Dec.ctx (Dec.ctx (p.amountInr * p.bonusPct) / 100))

/-- `service.RateCard`: the ladder of packs this build sells and the rates published for
each at one instant. -/
structure RateCard where
  packs : List CreditPack
  packs_ne : packs ≠ []
  cells : String → LotRates

/-- `service._smallest_pack`. -/
def RateCard.smallestPack (c : RateCard) : CreditPack :=
  c.packs.tail.foldl (fun best p => if p.amountInr < best.amountInr then p else best)
    (c.packs.head c.packs_ne)

/-- `RateCard.of_pack`. -/
def RateCard.ofPack (c : RateCard) (p : CreditPack) : LotRates := c.cells p.packId

/-- `RateCard.list_rates`. -/
def RateCard.listRates (c : RateCard) : LotRates := c.ofPack c.smallestPack

/-- `RateCard.for_amount`: the largest pack the amount would have bought. -/
def RateCard.forAmount (c : RateCard) (amountInr : ℤ) : LotRates :=
  match c.packs.filter fun p => p.amountInr ≤ amountInr with
  | [] => c.listRates
  | p :: ps =>
    c.ofPack (ps.foldl (fun best q => if best.amountInr < q.amountInr then q else best) p)

/-- `credit_packs.pack_paid_for`: the pack whose price this payment paid. -/
def RateCard.packPaidFor (c : RateCard) (packId : Option String) (amountInr : ℤ) :
    Option CreditPack :=
  match packId with
  | none => none
  | some pid => (c.packs.find? fun p => p.packId = pid).filter fun p => p.amountInr = amountInr

/-- `RateCard.for_purchase`. -/
def RateCard.forPurchase (c : RateCard) (packId : Option String) (amountInr : ℤ) : LotRates :=
  match c.packPaidFor packId amountInr with
  | none => c.forAmount amountInr
  | some p => c.ofPack p

/-- What a transaction reads outside the account's own tables: the card in force, and the
months credit bought now lapses after (`credit_expiry_months_for`). -/
structure Ctx where
  card : RateCard
  expiryMonths : Option ℕ

/-! ## References -/

/-- IST is five and a half hours ahead. -/
def istOffset : ℕ := 5 * Calendar.hour + 30 * Calendar.minute

/-- `credit_expiry.expires_at_for`. -/
def expiresAtFor (openedAt months : ℕ) : ℕ := Calendar.addMonths istOffset months openedAt

/-- `credit_expiry.credit_expiry_ref`. -/
def creditExpiryRef (lotId : ℕ) : String := "credit_expiry:" ++ toString lotId

/-- `service.lot_reprice_ref`. -/
def lotRepriceRef (lotId : ℕ) (packId : String) : String :=
  "lot_rates:" ++ toString lotId ++ ":" ++ packId

/-- The reference of one compensating row of a lapse, unique to the reversal. -/
def creditExpiryRestatedRef (lotId fresh : ℕ) : String :=
  "credit_expiry_restated:" ++ toString lotId ++ ":" ++ toString fresh

/-- `service.to_paise`, in ticks. -/
def toPaise (amount : ℚ) : ℤ := Dec.roundHalfUp (amount / 100) * 100

/-! ## Credit that arrives -/

/-- `service.CreditedLot`. -/
structure CreditedLot where
  lotId : Option ℕ
  creditsInr : ℤ
  repaidOverdraftInr : ℤ
  deriving DecidableEq

/-- Is the lot past its expiry, by its own date or by an expiry already on the ledger? -/
def Account.lapsed (a : Account) (l : Lot) : Bool :=
  match l.expiresAt with
  | none => false
  | some at_ => decide (at_ ≤ a.clock) ||
      (a.findEntryByRef .adjustment (creditExpiryRef l.id)).isSome

/-- **`service.apply_credit_to_lots`.** Put a credit-adding row onto the lots, after it has
repaid any overdraft. -/
def applyCreditToLots (ctx : Ctx) (creditsInr balanceAfter : ℤ) (rates : LotRates)
    (source : LotSource) (packId : Option String) (ledgerEntryId : ℕ)
    (restateLotId : Option ℕ) (overrideOfPackId : Option String) : CreditTx CreditedLot := do
  let overdraft := max (-(balanceAfter - creditsInr)) 0
  let repaid := min creditsInr overdraft
  let remainder := creditsInr - repaid
  if remainder ≤ 0 then
    pure ⟨none, 0, repaid⟩
  else do
    let a ← get
    let months := if source = .topup then ctx.expiryMonths else none
    let expires := months.map (expiresAtFor a.clock)
    match restateLotId with
    | none => do
      let lotId ← openLot remainder rates source packId ledgerEntryId overrideOfPackId none expires
      pure ⟨some lotId, remainder, repaid⟩
    | some lotId =>
      match (a.readLot lotId).filter a.lapsed with
      | none => do
        let _ ← adjustLotForRestatement lotId remainder
        pure ⟨some lotId, remainder, repaid⟩
      | some target => do
        -- a lapsed lot is not grown: the money opens its own lot at the purchase's rates
        let fresh ← openLot remainder target.rates target.source target.packId ledgerEntryId
          target.overrideOfPackId none expires
        pure ⟨some fresh, remainder, repaid⟩

/-! ## Which lot holds a purchase -/

/-- `service.lot_of_entry`. -/
def Account.lotOfEntry (a : Account) (entryId : ℕ) : Option Lot :=
  Table.findKey Lot.ledgerEntryId entryId a.lots

/-- `_REPRICE_SUCCESSOR_SQL`: the lot a re-price opened in place of this one. -/
def Account.repriceSuccessor (a : Account) (lotId : ℕ) : Option Lot :=
  (a.ledger.filter fun e => e.reason = .adjustment ∧ e.entryMeta.kind = some .lotRateOverride ∧
    e.entryMeta.lotId = some lotId).findSome? fun e => a.lotOfEntry e.id

/-- The loop of `purchase_lot_of_entry`. A re-price closes its lot and opens a later one,
so no lot comes twice and as many turns as there are lots reach the end. -/
def Account.followReprice (a : Account) : ℕ → Lot → Lot
  | 0, l => l
  | n + 1, l =>
    match a.repriceSuccessor l.id with
    | none => l
    | some next => a.followReprice n next

/-- `service.purchase_lot_of_entry`. -/
def Account.purchaseLotOfEntry (a : Account) (entryId : ℕ) : Option Lot :=
  (a.lotOfEntry entryId).map (a.followReprice a.lots.length)

/-! ## A metered charge -/

/-- `service.LotDebit`. -/
structure LotDebit where
  charged : Bool
  creditsInr : ℤ
  splits : List LotSplit
  deriving DecidableEq

/-- Money owed for a call that is not minutes, at face value. -/
def consumeExtra (extraInr : ℚ) : CreditTx (List LotSplit) :=
  if 0 < extraInr then consume (.aiAssist extraInr) else pure []

/-- What a charge buys: a call, a block of dashboard assistance (`purchase_ai_overage`) or a
number's rental (`charge_number_rental`). -/
inductive UsageKind
  | call | aiAssistOverage | numberRental
  deriving DecidableEq, Repr

/-- The `meta.kind` its caller sets, if any. -/
def UsageKind.metaKind : UsageKind → Option MetaKind
  | .call => none
  | .aiAssistOverage => some .aiAssistOverage
  | .numberRental => some .numberRental

/-- **`service.record_usage_from_lots`.** Consume the lots for one debit and append the
one `usage` row that records it. -/
def recordUsageFromLots (ref : String) (demand : LotDemand) (extraInr : ℚ)
    (allowNegative : Bool) (kind : UsageKind := .call) : CreditTx LotDebit := do
  let a ← get
  if a.ledger.any fun e => e.reason = .usage ∧ e.ref = some ref then
    pure ⟨false, 0, []⟩
  else do
    let calls ← consume demand
    let extras ← consumeExtra extraInr
    let splits := calls ++ extras
    if creditsOf splits ≤ 0 then
      pure ⟨false, 0, []⟩
    else do
      let _ ← recordEntry (-creditsOf splits) .usage (some ref)
        { kind := kind.metaKind, lots := splits } allowNegative false
      pure ⟨true, creditsOf splits, splits⟩

/-- `service.charge_for_call`. -/
def chargeForCall (callId : ℕ) (minutes : ℚ) (voiceTier : VoiceTier) (fallbackRates : LotRates)
    (extraInr : ℚ) : CreditTx ℤ := do
  if minutes ≤ 0 ∧ extraInr ≤ 0 then
    pure 0
  else do
    let debit ← recordUsageFromLots (toString callId) (.call minutes voiceTier fallbackRates)
      extraInr true
    pure debit.creditsInr

/-! ## Credit taken back -/

/-- `service.CreditRemoval`. -/
structure CreditRemoval where
  splits : List LotSplit
  overdraftInr : ℤ
  expiryRestatedInr : ℤ
  deriving DecidableEq

/-- `_LAPSED_UNRESTATED_SQL`: what expiries took off this lot, less what was given back. -/
def Account.lapsedUnrestated (a : Account) (lotId : ℕ) : ℤ :=
  let rows := a.ledger.filter fun e => e.reason = .adjustment ∧ e.entryMeta.lotId = some lotId
  ((rows.filter fun e => e.entryMeta.kind = some .creditExpiry).map fun e => -e.delta).sum -
    ((rows.filter fun e => e.entryMeta.kind = some .creditExpiryRestated).map Entry.delta).sum

/-- `service._restate_lapsed_credit`. -/
def restateLapsedCredit (lotId : ℕ) (amountInr : ℤ) : CreditTx ℤ := do
  let a ← get
  let restated := min amountInr (a.lapsedUnrestated lotId)
  if restated ≤ 0 then
    pure 0
  else do
    let fresh ← uuid7
    let _ ← recordEntry restated .adjustment (some (creditExpiryRestatedRef lotId fresh))
      { kind := some .creditExpiryRestated, lotId := some lotId } true false
    pure restated

/-- The lapse of the corrected purchase's lot, where it has one. -/
def restateLapseOf (lot : Option Lot) (amountInr : ℤ) : CreditTx ℤ :=
  match lot with
  | none => pure 0
  | some l => restateLapsedCredit l.id amountInr

/-- `service._overdraft_of`. -/
def overdraftOf (splits : List LotSplit) : ℤ :=
  toPaise (creditsOf (splits.filter fun s => s.lotId.isNone))

/-- What a removal takes off the lots once nothing of it had lapsed: the corrected lot is
restated when it was worth more than the correction, and the rest comes off the queue. -/
def removeUnlapsed (lot : Option Lot) (amountInr : ℤ) : CreditTx CreditRemoval := do
  match lot.filter fun l => amountInr < l.creditsTotal with
  | some l => do
    let restated ← adjustLotForRestatement l.id (-amountInr)
    if restated.shortfall ≤ 0 then
      pure ⟨[], 0, 0⟩
    else do
      let splits ← consume (.aiAssist restated.shortfall)
      pure ⟨splits, overdraftOf splits, 0⟩
  | none => do
    let splits ← consume (.aiAssist amountInr)
    pure ⟨splits, overdraftOf splits, 0⟩

/-- **`service.remove_credit_from_lots`.** Take credit back off the lots when an entry that
added it is reversed. -/
def removeCreditFromLots (correctedEntryId : Option ℕ) (amountInr : ℤ) :
    CreditTx CreditRemoval := do
  let a ← get
  let lot := correctedEntryId.bind a.purchaseLotOfEntry
  let restatedLapse ← restateLapseOf lot amountInr
  if 0 < restatedLapse then
    if amountInr - restatedLapse ≤ 0 then
      pure ⟨[], 0, restatedLapse⟩
    else do
      let splits ← consume (.aiAssist (amountInr - restatedLapse))
      pure ⟨splits, overdraftOf splits, restatedLapse⟩
  else
    removeUnlapsed lot amountInr

/-! ## Credit that lapses -/

/-- The lot, if it is open, past its expiry and not spent. -/
def Account.dueLot (a : Account) (lotId now : ℕ) : Option Lot :=
  (a.readLot lotId).filter fun l => l.closedAt = none ∧
    (l.expiresAt.any fun at_ => decide (at_ ≤ now)) ∧ 0 < l.creditsRemaining

/-- `credit_expiry.expire_lot`: the credit lapsed, or nothing. -/
def expireLot (lotId now : ℕ) : CreditTx (Option ℤ) := do
  let a ← get
  if (a.findEntryByRef .adjustment (creditExpiryRef lotId)).isSome then
    pure none
  else
    match a.dueLot lotId now with
    | none => pure none
    | some l => do
      let closed ← closeLot lotId l.creditsRemaining
      if closed then do
        let _ ← recordEntry (-l.creditsRemaining) .adjustment (some (creditExpiryRef lotId))
          { kind := some .creditExpiry, lotId := some lotId } false false
        pure (some l.creditsRemaining)
      else
        throw .assertionFailed

/-! ## A lot sold again -/

/-- `service.RepricedLot`. -/
structure RepricedLot where
  closedLotId : ℕ
  replacementLotId : ℕ
  creditsInr : ℤ
  ledgerEntryId : ℕ
  previousRates : LotRates
  rates : LotRates
  deriving DecidableEq

/-- **`service.reprice_lot`.** Close a lot and open a replacement carrying its credit at
another pack's rates, never dearer on either rung. -/
def repriceLot (ctx : Ctx) (lotId : ℕ) (pack : CreditPack) : CreditTx (Option RepricedLot) := do
  let ref := lotRepriceRef lotId pack.packId
  let a ← get
  if (a.findEntryByRef .adjustment ref).isSome then
    pure none
  else do
    let l ← Tx.ofOption .creditLotNotFound (a.readLot lotId)
    if l.closedAt ≠ none then
      throw .lotIsSpent
    else do
      let rates := ctx.card.ofPack pack
      if rates = l.rates then
        throw .lotAlreadyAtThoseRates
      else if l.rates.clearInrPerMin < rates.clearInrPerMin ∨
          l.rates.studioInrPerMin < rates.studioInrPerMin then
        throw .lotRepriceRaisesRate
      else do
        let _ ← recordEntry 0 .adjustment (some ref)
          { kind := some .lotRateOverride, lotId := some lotId } true true
        let b ← get
        let marker ← Tx.ofOption .assertionFailed (b.findEntryByRef .adjustment ref)
        let closed ← closeLot lotId l.creditsRemaining
        if closed then do
          let replacement ← openLot l.creditsRemaining rates .override none marker.id
            (some pack.packId) (some l.openedAt) l.expiresAt
          pure (some ⟨lotId, replacement, l.creditsRemaining, marker.id, l.rates, rates⟩)
        else
          throw .creditLotsContended

end Billing

end Calevate
