import Calevate.Billing.Ledger
import Calevate.Lib.Decimal
import Mathlib.Data.List.Sort

/-!
# Credit lots

What one purchase sold, with the rates it was sold at, and the walk that spends it.
`consume` reads the open lots oldest first and draws a demand out of them one
compare-and-swap at a time; what no lot can pay comes back as an overdraft split.

The three writing statements are functions on one row (`takeRow`, `closeRow`,
`restateRow`), each with the predicate its `WHERE` states, so the same statements serve
the walk here and the interleaved walks of `Billing.Contention`. The two demands, minutes
of a call and rupees of assistance, run the same loop with a different portion; `Want` is
its loop variable.
-/

namespace Calevate

namespace Billing

open Lib

/-! ## Reading -/

/-- `closed_at IS NULL`. -/
def Lot.isOpen (l : Lot) : Bool := l.closedAt.isNone

/-- `OpenLot.rate_for`. -/
def Lot.rateFor (l : Lot) (t : VoiceTier) : ℤ := l.rates.rateFor t

/-- `ORDER BY opened_at, id`. -/
def Lot.fifoLe (l k : Lot) : Prop :=
  l.openedAt < k.openedAt ∨ (l.openedAt = k.openedAt ∧ l.id ≤ k.id)

instance : DecidableRel Lot.fifoLe :=
  fun _ _ => inferInstanceAs (Decidable (_ ∨ _))

/-- `lots.read_open_lots`: every lot with credit left, oldest first. -/
def Account.readOpenLots (a : Account) : List Lot :=
  (a.lots.filter Lot.isOpen).insertionSort Lot.fifoLe

/-- `lots.read_lot`. -/
def Account.readLot (a : Account) (lotId : ℕ) : Option Lot := Table.findKey Lot.id lotId a.lots

/-- `lots._read_open_lot`. -/
def Account.readOpenLot (a : Account) (lotId : ℕ) : Option Lot :=
  (a.readLot lotId).filter Lot.isOpen

/-- What the wallet's open lots hold. -/
def Account.held (a : Account) : ℤ := (a.readOpenLots.map Lot.creditsRemaining).sum

/-! ## The writing statements, on one row -/

/-- Write the three columns a statement moves, if the `CHECK`s allow it. -/
def Lot.write (l : Lot) (total remaining : ℤ) (closedAt : Option ℕ) : Except Problem Lot :=
  if h : 0 < total ∧ 0 ≤ remaining ∧ remaining ≤ total then
    .ok { l with
      creditsTotal := total, creditsRemaining := remaining, closedAt := closedAt,
      total_positive := h.1, remaining_nonneg := h.2.1, remaining_within_total := h.2.2 }
  else .error .checkViolation

/-- `_TAKE_FROM_LOT`. `none` is an update that matched no row. -/
def takeRow (seen take : ℤ) (now : ℕ) (l : Lot) : Except Problem (Option Lot) :=
  if l.creditsRemaining = seen ∧ l.closedAt = none then
    (l.write l.creditsTotal (l.creditsRemaining - take)
      (if l.creditsRemaining - take = 0 then some now else l.closedAt)).map some
  else .ok none

/-- `_CLOSE_LOT`. -/
def closeRow (seen : ℤ) (now : ℕ) (l : Lot) : Except Problem (Option Lot) :=
  if l.creditsRemaining = seen ∧ l.closedAt = none then
    (l.write l.creditsTotal 0 (some now)).map some
  else .ok none

/-- `_RESTATE_LOT`. -/
def restateRow (delta seenTotal seenRemaining : ℤ) (now : ℕ) (l : Lot) :
    Except Problem (Option Lot) :=
  if l.creditsTotal = seenTotal ∧ l.creditsRemaining = seenRemaining then
    (l.write (l.creditsTotal + delta) (max (l.creditsRemaining + delta) 0)
      (if max (l.creditsRemaining + delta) 0 = 0 then some (l.closedAt.getD now) else none)).map
      some
  else .ok none

/-- Run one statement against the lot with this id; `true` is a row count of one. -/
def execOnLot (lotId : ℕ) (stmt : ℕ → Lot → Except Problem (Option Lot)) : CreditTx Bool := do
  let now ← clockTimestamp
  let a ← get
  match a.readLot lotId with
  | none => pure false
  | some l =>
    match stmt now l with
    | .error e => throw e
    | .ok none => pure false
    | .ok (some l') => do
      set (a.setLots (Table.updateKey Lot.id lotId (fun _ => l') a.lots))
      pure true

/-! ## Opening, closing, restating -/

/-- The row `_INSERT_LOT` writes. -/
def newLot (lotId now : ℕ) (creditsInr : ℤ) (rates : LotRates) (source : LotSource)
    (packId : Option String) (ledgerEntryId : ℕ) (overrideOfPackId : Option String)
    (openedAt expiresAt : Option ℕ)
    (h : 0 < creditsInr ∧ rates.clearInrPerMin ≤ rates.studioInrPerMin) : Lot :=
  { id := lotId, source := source, packId := packId, overrideOfPackId := overrideOfPackId,
    creditsTotal := creditsInr, creditsRemaining := creditsInr, rates := rates,
    ledgerEntryId := ledgerEntryId, openedAt := openedAt.getD now, closedAt := none,
    expiresAt := expiresAt, total_positive := h.1, remaining_nonneg := h.1.le,
    remaining_within_total := le_refl _, studio_not_below_clear := h.2 }

/-- `lots.open_lot`. -/
def openLot (creditsInr : ℤ) (rates : LotRates) (source : LotSource) (packId : Option String)
    (ledgerEntryId : ℕ) (overrideOfPackId : Option String) (openedAt expiresAt : Option ℕ) :
    CreditTx ℕ := do
  if h : 0 < creditsInr ∧ rates.clearInrPerMin ≤ rates.studioInrPerMin then do
    let lotId ← uuid7
    let now ← clockTimestamp
    let a ← get
    if a.lots.any fun l => l.ledgerEntryId = ledgerEntryId then
      throw .duplicateKey
    else do
      set (a.setLots (a.lots ++ [newLot lotId now creditsInr rates source packId ledgerEntryId
        overrideOfPackId openedAt expiresAt h]))
      pure lotId
  else throw .valueError

/-- `lots.close_lot`. -/
def closeLot (lotId : ℕ) (seenRemaining : ℤ) : CreditTx Bool :=
  execOnLot lotId (closeRow seenRemaining)

/-- `lots.LotRestatement`. -/
structure LotRestatement where
  lotId : ℕ
  creditsTotal : ℤ
  creditsRemaining : ℤ
  closed : Bool
  shortfall : ℤ
  deriving DecidableEq

/-- `lots.adjust_lot_for_restatement`. -/
def adjustLotForRestatement (lotId : ℕ) (delta : ℤ) : CreditTx LotRestatement := do
  if delta = 0 then
    throw .valueError
  else do
    let a ← get
    let l ← Tx.ofOption .creditLotNotFound (a.readLot lotId)
    if l.creditsTotal + delta ≤ 0 then
      throw .restatementEmptiesLot
    else do
      let changed ← execOnLot lotId (restateRow delta l.creditsTotal l.creditsRemaining)
      if changed then
        pure { lotId := lotId, creditsTotal := l.creditsTotal + delta,
               creditsRemaining := max (l.creditsRemaining + delta) 0,
               closed := max (l.creditsRemaining + delta) 0 = 0,
               shortfall := max (-delta - l.creditsRemaining) 0 }
      else
        throw .creditLotsContended

/-! ## What a debit asks for -/

/-- `lots.LotDemand`: minutes of talk on one rung, or rupees at face value. -/
inductive LotDemand
  | call (minutes : ℚ) (voiceTier : VoiceTier) (fallbackRates : LotRates)
  | aiAssist (credits : ℚ)

/-- `lots._money`: half up to the tick. -/
def money (amount : ℚ) : ℤ := Dec.roundHalfUp amount

/-- `lots._minutes`: down to four places. -/
def minutesDown (amount : ℚ) : ℚ := Dec.roundDown (amount * 10000) / 10000

/-- `lots._portion_for_call`: the credits taken, the minutes reported, the minutes used. -/
def portionForCall (l : Lot) (minutesLeft : ℚ) (voiceTier : VoiceTier) : ℤ × ℚ × ℚ :=
  let rate := l.rateFor voiceTier
  let covered := Dec.ctx (l.creditsRemaining / rate)
  if minutesLeft ≤ covered then
    (min (money (Dec.ctx (minutesLeft * rate))) l.creditsRemaining, minutesLeft, minutesLeft)
  else (l.creditsRemaining, minutesDown covered, covered)

/-- What is left to draw: the loop variables of `_consume_call` and `_consume_ai_assist`. -/
inductive Want
  | call (minutesLeft : ℚ) (voiceTier : VoiceTier) (pricedAt : ℤ)
  | aiAssist (creditsLeft : ℤ)
  deriving DecidableEq

namespace Want

/-- The loop variables before the first lot. -/
def ofDemand : LotDemand → Want
  | .call minutes tier fallback => .call minutes tier (fallback.rateFor tier)
  | .aiAssist credits => .aiAssist (money credits)

/-- The loop runs while something is left. -/
def pending : Want → Bool
  | .call minutesLeft _ _ => decide (0 < minutesLeft)
  | .aiAssist creditsLeft => decide (0 < creditsLeft)

/-- The credits this lot pays. -/
def portion : Want → Lot → ℤ
  | .call minutesLeft tier _, l => (portionForCall l minutesLeft tier).1
  | .aiAssist creditsLeft, l => min creditsLeft l.creditsRemaining

/-- The loop variables after this lot has paid. -/
def after : Want → Lot → Want
  | .call minutesLeft tier _, l =>
    .call (Dec.ctx (minutesLeft - (portionForCall l minutesLeft tier).2.2)) tier (l.rateFor tier)
  | .aiAssist creditsLeft, l => .aiAssist (creditsLeft - min creditsLeft l.creditsRemaining)

/-- The split this lot contributes. -/
def split : Want → Lot → LotSplit
  | .call minutesLeft tier _, l =>
    { lotId := some l.id, credits := (portionForCall l minutesLeft tier).1,
      call := some ((portionForCall l minutesLeft tier).2.1, l.rateFor tier, tier) }
  | .aiAssist creditsLeft, l =>
    { lotId := some l.id, credits := min creditsLeft l.creditsRemaining, call := none }

/-- The portion no lot could pay: a call's at the rate of the lot that ran out, or at the
demand's own when there was none. -/
def overdraft : Want → List LotSplit
  | .call minutesLeft tier pricedAt =>
    if 0 < minutesLeft then
      [{ lotId := none, credits := money (Dec.ctx (minutesLeft * pricedAt)),
         call := some (minutesDown minutesLeft, pricedAt, tier) }]
    else []
  | .aiAssist creditsLeft =>
    if 0 < creditsLeft then [{ lotId := none, credits := creditsLeft, call := none }] else []

end Want

/-! ## The walk -/

/-- `_MAX_CAS_ATTEMPTS`. -/
def maxCasAttempts : ℕ := 8

/-- One lot of the walk. A compare-and-swap that matched no row spends one of the tries
that are left (`_after_lost_race`): with none left it raises, else the lot is read again
and tried again, or passed by when it is gone. -/
def drawLot (want : Want) : ℕ → Lot → CreditTx (ℕ × Option Lot)
  | tries, l => do
    let ok ← execOnLot l.id (takeRow l.creditsRemaining (want.portion l))
    if ok then
      pure (tries, some l)
    else
      match tries with
      | 0 => throw .creditLotsContended
      | tries + 1 => do
        let a ← get
        match a.readOpenLot l.id with
        | none => pure (tries, none)
        | some fresh => drawLot want tries fresh

/-- The loop of `_consume_call` and `_consume_ai_assist` over the lots from `index` on. A
lot that paid less than it held has met the demand, so the loop ends there. -/
def walk : Want → ℕ → List Lot → CreditTx (Want × List LotSplit)
  | want, _, [] => pure (want, [])
  | want, tries, l :: queue =>
    if want.pending then do
      let (tries, drawn) ← drawLot want tries l
      match drawn with
      | none => walk want tries queue
      | some l =>
        if want.portion l = l.creditsRemaining then do
          let (rest, splits) ← walk (want.after l) tries queue
          pure (rest, want.split l :: splits)
        else pure (want.after l, [want.split l])
    else pure (want, [])

/-- **`lots.consume`.** Draw a debit out of the lots, oldest first, and say where it came
from. It does not touch the ledger. -/
def consume (demand : LotDemand) : CreditTx (List LotSplit) := do
  let a ← get
  let (want, splits) ← walk (Want.ofDemand demand) maxCasAttempts a.readOpenLots
  pure (splits ++ want.overdraft)

/-- `lots.credits_of`. -/
def creditsOf (splits : List LotSplit) : ℤ := (splits.map LotSplit.credits).sum

end Billing

end Calevate
