import Calevate.Lib.RowStore
import Calevate.Lib.Run
import Calevate.Billing.Helpers.Lots

/-!
# Lots under contention

The same statements as `Billing.Lots`, with the advisory lock taken away: any number of
sessions read lots and write them back through `_TAKE_FROM_LOT`, `_RESTATE_LOT` and
`_CLOSE_LOT`, each in a transaction of its own and with whatever happens in between. A
session's operation is a `Program`, cut at every statement it sends, and `Action` is the
schedule: it starts an operation (which reads), sends a session's next statement, or ends
a transaction.

A statement waits while another session holds the row it would write, and sees the row's
newest version when it goes on. `noCreditSpentTwice` is what the predicates of the three
statements buy.
-/

namespace Calevate.Billing.Contention

open Lib Billing

/-! ## Sessions -/

/-- What a statement wrote to a lot. -/
inductive LotWrite where
  | take (credits : ℤ)
  | restate (delta absorbed : ℤ)
  | close (credits : ℤ)
  deriving DecidableEq, Repr

/-- What it moved the lot's remaining credits by. -/
def LotWrite.amount : LotWrite → ℤ
  | .take credits => -credits
  | .restate _ absorbed => absorbed
  | .close credits => -credits

/-- Where a session is. A walk is `taking` before each compare-and-swap and `rereading`
after one that matched no row; a session that `raised` can only be rolled back. -/
inductive Program where
  | ready (splits : List LotSplit)
  | taking (want : Want) (lots : List Lot) (attempts : ℕ) (splits : List LotSplit)
  | rereading (want : Want) (lot : Lot) (rest : List Lot) (attempts : ℕ) (splits : List LotSplit)
  | restating (delta : ℤ) (seen : Lot)
  | expiring (seen : Lot)
  | repricing (seen : Lot) (rates : LotRates) (packId : String) (entryId : ℕ)
  | replacing (seen : Lot) (rates : LotRates) (packId : String) (entryId : ℕ)
  | raised (problem : Problem)
  | committed
  | rolledBack

/-- The lots, where each session is, and how many races its walk has lost. -/
structure State where
  store : RowStore Lot LotWrite
  prog : ℕ → Program
  lost : ℕ → ℕ

/-- An empty table and sessions that have done nothing yet. -/
def start : State where
  store := RowStore.empty
  prog := fun _ => .ready []
  lost := fun _ => 0

namespace State

/-- Session `i` is at `p`. -/
def goto (s : State) (i : ℕ) (p : Program) : State := { s with prog := Function.update s.prog i p }

/-- The rows after a statement of session `i`, which goes on at `p`. -/
def after (s : State) (i : ℕ) (store : RowStore Lot LotWrite) (p : Program) : State :=
  { store := store, prog := Function.update s.prog i p, lost := s.lost }

/-- Session `i` lost a race and goes on at `p`. -/
def lose (s : State) (i : ℕ) (p : Program) : State :=
  { store := s.store
    prog := Function.update s.prog i p
    lost := Function.update s.lost i (s.lost i + 1) }

/-- Session `i` begins a walk. -/
def beginWalk (s : State) (i : ℕ) (p : Program) : State :=
  { store := s.store
    prog := Function.update s.prog i p
    lost := Function.update s.lost i 0 }

/-- `lots.read_open_lots`, as session `i` sees the table. -/
def readOpenLots (s : State) (i : ℕ) : List Lot :=
  (((List.range s.store.size).filterMap (s.store.visible i)).filter Lot.isOpen).insertionSort
    Lot.fifoLe

end State

/-! ## Statements -/

/-- What became of a statement. -/
inductive Outcome where
  | blocked
  | missed
  | refused (problem : Problem)
  | wrote (store : RowStore Lot LotWrite)

/-- One `UPDATE … WHERE id = :id AND …` of session `i`. A row that does not match is
skipped whoever holds it; one that matches is waited for. -/
def exec (store : RowStore Lot LotWrite) (i lotId : ℕ) (stmt : Lot → Except Problem (Option Lot))
    (what : LotWrite) : Outcome :=
  match store.visible i lotId with
  | none => .missed
  | some lot =>
    match stmt lot with
    | .ok none => .missed
    | .error problem => if store.free i lotId then .refused problem else .blocked
    | .ok (some lot') =>
      if store.free i lotId then .wrote (store.write i lotId lot' what) else .blocked

/-- What `restateRow` does to the remaining credits it saw. -/
def absorbedBy (delta seenRemaining : ℤ) : ℤ := max (seenRemaining + delta) 0 - seenRemaining

/-! ## Starting an operation -/

/-- `adjust_lot_for_restatement` up to its statement. -/
def beginRestate (s : State) (i lotId : ℕ) (delta : ℤ) : State :=
  if delta = 0 then s.goto i (.raised .valueError)
  else
    match s.store.visible i lotId with
    | none => s.goto i (.raised .creditLotNotFound)
    | some lot =>
      if lot.creditsTotal + delta ≤ 0 then s.goto i (.raised .restatementEmptiesLot)
      else s.goto i (.restating delta lot)

/-- `expire_lot` up to its statement; a lot that is not due is left alone. -/
def beginExpire (s : State) (i lotId now : ℕ) : State :=
  match s.store.visible i lotId with
  | none => s
  | some lot =>
    if lot.closedAt = none ∧ (lot.expiresAt.any fun at_ => decide (at_ ≤ now)) ∧
        0 < lot.creditsRemaining then
      s.goto i (.expiring lot)
    else s

/-- `reprice_lot` up to its statement, the marker row already written. -/
def beginReprice (s : State) (i lotId : ℕ) (rates : LotRates) (packId : String) (entryId : ℕ) :
    State :=
  match s.store.visible i lotId with
  | none => s.goto i (.raised .creditLotNotFound)
  | some lot =>
    if lot.closedAt ≠ none then s.goto i (.raised .lotIsSpent)
    else if rates = lot.rates then s.goto i (.raised .lotAlreadyAtThoseRates)
    else if lot.rates.clearInrPerMin < rates.clearInrPerMin ∨
        lot.rates.studioInrPerMin < rates.studioInrPerMin then
      s.goto i (.raised .lotRepriceRaisesRate)
    else s.goto i (.repricing lot rates packId entryId)

/-- What `open_lot` is called with. -/
structure LotTerms where
  creditsInr : ℤ
  rates : LotRates
  source : LotSource
  packId : Option String
  ledgerEntryId : ℕ
  overrideOfPackId : Option String
  openedAt : Option ℕ
  expiresAt : Option ℕ

/-- `open_lot`. -/
def openLotRow (s : State) (i now : ℕ) (terms : LotTerms) : State :=
  if h : 0 < terms.creditsInr ∧ terms.rates.clearInrPerMin ≤ terms.rates.studioInrPerMin then
    s.after i (s.store.insert i (newLot s.store.size now terms.creditsInr terms.rates terms.source
      terms.packId terms.ledgerEntryId terms.overrideOfPackId terms.openedAt terms.expiresAt h))
      (.ready [])
  else s.goto i (.raised .valueError)

/-! ## The next statement of a session -/

/-- One turn of the loop of `_consume_call` and `_consume_ai_assist`, up to and including
its compare-and-swap. -/
def advanceTaking (s : State) (i now : ℕ) (want : Want) (lots : List Lot) (attempts : ℕ)
    (splits : List LotSplit) : State :=
  if want.pending then
    match lots with
    | [] => s.goto i (.ready (splits ++ want.overdraft))
    | lot :: rest =>
      let take := want.portion lot
      match exec s.store i lot.id (takeRow lot.creditsRemaining take now) (.take take) with
      | .blocked => s
      | .refused problem => s.goto i (.raised problem)
      | .wrote store =>
        s.after i store (.taking (want.after lot)
          (if take = lot.creditsRemaining then rest else lot :: rest) attempts
          (splits ++ [want.split lot]))
      | .missed =>
        s.lose i (if maxCasAttempts < attempts + 1 then .raised .creditLotsContended
          else .rereading want lot rest (attempts + 1) splits)
  else s.goto i (.ready splits)

/-- `_read_open_lot` after a lost race: the lot is tried again, or passed by. -/
def advanceRereading (s : State) (i : ℕ) (want : Want) (lot : Lot) (rest : List Lot)
    (attempts : ℕ) (splits : List LotSplit) : State :=
  match (s.store.visible i lot.id).filter Lot.isOpen with
  | none => s.goto i (.taking want rest attempts splits)
  | some fresh => s.goto i (.taking want (fresh :: rest) attempts splits)

/-- A single compare-and-swap: go on at `next`, or raise `contended`. -/
def advanceOnce (s : State) (i : ℕ) (outcome : Outcome) (next : Program) (contended : Problem) :
    State :=
  match outcome with
  | .blocked => s
  | .refused problem => s.goto i (.raised problem)
  | .wrote store => s.after i store next
  | .missed => s.goto i (.raised contended)

/-- Session `i` sends its next statement at `now`. -/
def advance (s : State) (i now : ℕ) : State :=
  match s.prog i with
  | .taking want lots attempts splits => advanceTaking s i now want lots attempts splits
  | .rereading want lot rest attempts splits =>
    advanceRereading s i want lot rest attempts splits
  | .restating delta seen =>
    advanceOnce s i
      (exec s.store i seen.id (restateRow delta seen.creditsTotal seen.creditsRemaining now)
        (.restate delta (absorbedBy delta seen.creditsRemaining)))
      (.ready []) .creditLotsContended
  | .expiring seen =>
    advanceOnce s i
      (exec s.store i seen.id (closeRow seen.creditsRemaining now) (.close seen.creditsRemaining))
      (.ready []) .assertionFailed
  | .repricing seen rates packId entryId =>
    advanceOnce s i
      (exec s.store i seen.id (closeRow seen.creditsRemaining now) (.close seen.creditsRemaining))
      (.replacing seen rates packId entryId) .creditLotsContended
  | .replacing seen rates packId entryId =>
    openLotRow s i now
      { creditsInr := seen.creditsRemaining, rates := rates, source := .override, packId := none,
        ledgerEntryId := entryId, overrideOfPackId := some packId, openedAt := some seen.openedAt,
        expiresAt := seen.expiresAt }
  | _ => s

/-! ## The schedule -/

/-- What can happen next. -/
inductive Action where
  | consume (i : ℕ) (demand : LotDemand)
  | restate (i lotId : ℕ) (delta : ℤ)
  | expire (i lotId now : ℕ)
  | reprice (i lotId : ℕ) (rates : LotRates) (packId : String) (entryId : ℕ)
  | openLot (i now : ℕ) (terms : LotTerms)
  | advance (i now : ℕ)
  | commit (i : ℕ)
  | rollback (i : ℕ)

/-- Between operations. -/
def Program.isReady : Program → Bool
  | .ready _ => true
  | _ => false

/-- The transaction is over. -/
def Program.isOver : Program → Bool
  | .committed => true
  | .rolledBack => true
  | _ => false

/-- One step. A session starts an operation, or commits, only between operations; it may be
rolled back at any time. -/
def step (s : State) : Action → State
  | .consume i demand =>
    if (s.prog i).isReady then
      s.beginWalk i (.taking (Want.ofDemand demand) (s.readOpenLots i) 0 [])
    else s
  | .restate i lotId delta => if (s.prog i).isReady then beginRestate s i lotId delta else s
  | .expire i lotId now => if (s.prog i).isReady then beginExpire s i lotId now else s
  | .reprice i lotId rates packId entryId =>
    if (s.prog i).isReady then beginReprice s i lotId rates packId entryId else s
  | .openLot i now terms => if (s.prog i).isReady then openLotRow s i now terms else s
  | .advance i now => advance s i now
  | .commit i => if (s.prog i).isReady then s.after i (s.store.commit i) .committed else s
  | .rollback i => if (s.prog i).isOver then s else s.after i (s.store.rollback i) .rolledBack

/-- The state a schedule leads to. -/
def run (actions : List Action) : State := actions.foldl step start

end Calevate.Billing.Contention
