import Calevate.Lib.Tx
import Calevate.Lib.Calendar
import Calevate.Billing.Credit

/-!
# Spend caps

A plan carries two ceilings on a month's minutes and two on its rupees, the admin's and the
client's own, and the stricter of each pair binds. `spend_state` is one row of counters
stamped with the month it counts; its `capped` flag is what the dial gate reads, and only
while the month is still the current one (`spendCapped`).

Three transactions write the flag: the meter of a finished call (`meterSpend`), a change of
terms (`recordTerms`) and of the client's own caps (`applyClientCaps`) through
`recomputeCapped`, and `recomputeCapped` by itself. Each takes the tenant's advisory lock
before it reads a plan, so they happen one after the other; `now` is the instant a
transaction began, which the lock may have made it wait past, and `clock` the instant it
reads the month at.

Minutes are counted in ten-thousandths and money in ticks, the last place of the columns. A
month is its number (`monthOf`); the column's `YYYY-MM` sorts the same way.
-/

namespace Calevate

namespace Billing

open Lib

/-! ## Plans -/

/-- `terms.CommercialTerms`. -/
structure CommercialTerms where
  setupFee : Option ℤ := none
  monthlyFee : Option ℤ := none
  includedMin : Option ℕ := none
  overageRate : Option ℤ := none
  overageRateSecond : Option ℤ := none
  llmModelSurcharge : Option ℤ := none
  hardCapMin : Option ℤ := none
  hardCapSpend : Option ℤ := none
  concurrencyCeiling : ℕ := 10
  effectiveFrom : Option ℕ := none
  effectiveTo : Option ℕ := none
  deriving DecidableEq

/-- A row of `plans`: the agreed terms and the client's own ceilings. -/
structure PlanRow where
  id : ℕ
  terms : CommercialTerms
  clientCapMin : Option ℤ
  clientCapSpend : Option ℤ
  createdAt : ℕ
  deriving DecidableEq

/-- The window holds the instant: `effective_from <= at < effective_to`. -/
def PlanRow.covers (p : PlanRow) (instant : ℕ) : Bool :=
  (p.terms.effectiveFrom.all fun t => t ≤ instant) && p.terms.effectiveTo.all fun t => instant < t

/-- `COALESCE(effective_from, '-infinity')`. -/
def PlanRow.startKey (p : PlanRow) : ℕ := p.terms.effectiveFrom.elim 0 (· + 1)

/-- The resolver's order: the latest start, then the newest row, then the larger id. -/
def PlanRow.outranks (p q : PlanRow) : Bool :=
  decide (q.startKey < p.startKey) || (decide (q.startKey = p.startKey) &&
    (decide (q.createdAt < p.createdAt) || (decide (q.createdAt = p.createdAt) &&
      decide (q.id < p.id))))

/-- The first of two rows in the resolver's order, the other one or none standing so far. -/
def PlanRow.prefer (best : Option PlanRow) (p : PlanRow) : Option PlanRow :=
  match best with
  | none => some p
  | some q => if p.outranks q then some p else some q

/-- **`plans.plan_in_effect_sql`**: the one row in effect at an instant. -/
def planInEffect (plans : List PlanRow) (instant : ℕ) : Option PlanRow :=
  (plans.filter fun p => p.covers instant).foldl PlanRow.prefer none

/-! ## Ceilings -/

/-- `LEAST` of two columns, which passes over a null. -/
def least : Option ℤ → Option ℤ → Option ℤ
  | none, b => b
  | some a, none => some a
  | some a, some b => some (min a b)

/-- The `caps` CTE. -/
structure Ceilings where
  capMin : Option ℤ
  capSpend : Option ℤ
  deriving DecidableEq

/-- `CAPS_CTE` at an instant; no plan in effect is no ceiling. -/
def capsAt (plans : List PlanRow) (instant : ℕ) : Ceilings :=
  match planInEffect plans instant with
  | none => ⟨none, none⟩
  | some p => ⟨least p.terms.hardCapMin p.clientCapMin, least p.terms.hardCapSpend p.clientCapSpend⟩

/-- `COALESCE(used >= ceiling, false)`. -/
def reached (used : ℤ) : Option ℤ → Bool
  | none => false
  | some ceiling => decide (ceiling ≤ used)

/-- A ceiling in whole minutes, in the counter's units. -/
def minuteUnits : ℤ := 10000

/-- `caps.over_cap_sql`. -/
def Ceilings.overCap (caps : Ceilings) (minutes billed : ℤ) : Bool :=
  reached minutes (caps.capMin.map (· * minuteUnits)) || reached billed caps.capSpend

/-! ## The counters and the gate -/

/-- The tenant's row of `spend_state`. The last field is its `CHECK`. -/
structure SpendState where
  month : ℕ
  minutesUsed : ℤ
  spendUsed : ℤ
  billedInr : ℤ
  capped : Bool
  billed_nonneg : 0 ≤ billedInr

/-- What one call put in the usage ledger: its end, and what it adds to the month. -/
structure MeteredCall where
  endedAt : ℕ
  minutes : ℤ
  billedInr : ℤ
  deriving DecidableEq

/-- What the spend cap reads and writes for one tenant, and the clock it reads the month
from. -/
structure SpendBook where
  plans : List PlanRow := []
  spendState : Option SpendState := none
  metered : List MeteredCall := []
  clock : ℕ := 0
  nextId : ℕ := 0

/-- How a cap transaction is refused. -/
inductive CapProblem
  | clientCapExceedsPlanCap (kind : String)
  | checkViolation
  deriving DecidableEq

/-- A transaction over the book. -/
abbrev CapTx := Tx SpendBook CapProblem

/-- `plans.ist_billing_month`. -/
def istBillingMonth (instant : ℕ) : ℕ := Calendar.monthOf istOffset instant

/-- `service.current_billing_month`. -/
def SpendBook.currentBillingMonth (b : SpendBook) : ℕ := istBillingMonth b.clock

/-- **`compliance.spend_capped`**: what the dial gate asks. -/
def SpendBook.spendCapped (b : SpendBook) : Bool :=
  match b.spendState with
  | none => false
  | some row => row.capped && decide (row.month = b.currentBillingMonth)

/-- `_RECOMPUTE_CAPPED`: the flag of this month's row, and nothing else. -/
def recomputeRow (now : ℕ) : CapTx (Option Bool) := do
  let b ← get
  match b.spendState with
  | none => pure none
  | some row =>
    if row.month = b.currentBillingMonth then do
      let capped := (capsAt b.plans now).overCap row.minutesUsed row.billedInr
      set { b with spendState := some { row with capped := capped } }
      pure (some capped)
    else pure none

/-- The row `_ARM_ZERO_CEILING` writes. -/
def armedRow (month : ℕ) : SpendState := ⟨month, 0, 0, 0, true, le_refl 0⟩

/-- `_ARM_ZERO_CEILING`: a row for this month, closed, where nothing spent is too much. -/
def armZeroCeiling (now : ℕ) : CapTx (Option Bool) := do
  let b ← get
  let armed := { b with spendState := some (armedRow b.currentBillingMonth) }
  if (capsAt b.plans now).overCap 0 0 then
    match b.spendState with
    | none => do
      set armed
      pure (some true)
    | some row =>
      if row.month < b.currentBillingMonth then do
        set armed
        pure (some true)
      else pure none
  else pure none

/-- **`caps.recompute_capped`.** -/
def recomputeCapped (now : ℕ) : CapTx (Option Bool) := do
  match ← recomputeRow now with
  | some capped => pure (some capped)
  | none => armZeroCeiling now

/-! ## The writers -/

/-- `caps._refuse_looser`. -/
def refuseLooser (kind : String) (admin client : Option ℤ) : CapTx PUnit :=
  match admin, client with
  | some a, some c => if a < c then throw (.clientCapExceedsPlanCap kind) else pure ⟨⟩
  | _, _ => pure ⟨⟩

/-- `caps.CapView`. -/
structure CapView where
  adminCapMin : Option ℤ
  adminCapSpend : Option ℤ
  clientCapMin : Option ℤ
  clientCapSpend : Option ℤ
  deriving DecidableEq

/-- `caps.read_caps`. -/
def SpendBook.readCaps (b : SpendBook) (now : ℕ) : CapView :=
  match planInEffect b.plans now with
  | none => ⟨none, none, none, none⟩
  | some p => ⟨p.terms.hardCapMin, p.terms.hardCapSpend, p.clientCapMin, p.clientCapSpend⟩

/-- The plan `_INSERT_CLIENT_CAP_PLAN` mints: the client's caps and no terms. -/
def mintedPlan (id now : ℕ) (capMin capSpend : Option ℤ) : PlanRow := ⟨id, {}, capMin, capSpend, now⟩

/-- `_UPDATE_CLIENT_CAPS` of one row. -/
def PlanRow.withClientCaps (p : PlanRow) (capMin capSpend : Option ℤ) : PlanRow :=
  { p with clientCapMin := capMin, clientCapSpend := capSpend }

/-- The client's pair, on the plan in effect or on one minted for it. -/
def SpendBook.writeClientCaps (b : SpendBook) (now : ℕ) (capMin capSpend : Option ℤ) : SpendBook :=
  match planInEffect b.plans now with
  | none =>
    { b with plans := b.plans ++ [mintedPlan b.nextId now capMin capSpend], nextId := b.nextId + 1 }
  | some p =>
    { b with plans := b.plans.map fun q => if q.id = p.id then q.withClientCaps capMin capSpend
                                           else q }

/-- `caps.CapWriteResult`. -/
structure CapWriteResult where
  caps : CapView
  cappedNow : Bool
  deriving DecidableEq

/-- **`caps.apply_client_caps`.** -/
def applyClientCaps (now : ℕ) (capMin capSpend : Option ℤ) : CapTx CapWriteResult := do
  let b ← get
  let caps := b.readCaps now
  refuseLooser "minute" caps.adminCapMin capMin
  refuseLooser "spend" caps.adminCapSpend capSpend
  set (b.writeClientCaps now capMin capSpend)
  let capped ← recomputeCapped now
  let written ← get
  pure ⟨written.readCaps now, capped.getD false⟩

/-- `terms.TermsWriteResult`. -/
structure TermsWriteResult where
  planId : ℕ
  changed : Bool
  superseded : Option PlanRow
  cappedNow : Bool
  deriving DecidableEq

/-- **`terms.record_terms`**: a new dated row, unless the one it would supersede says the
same. -/
def recordTerms (now : ℕ) (terms : CommercialTerms) : CapTx TermsWriteResult := do
  let b ← get
  let superseded := planInEffect b.plans (terms.effectiveFrom.getD now)
  match superseded.filter fun p => decide (p.terms = terms) with
  | some p => pure ⟨p.id, false, none, false⟩
  | none => do
    set { b with plans := b.plans ++ [PlanRow.mk b.nextId terms none none b.clock]
                 nextId := b.nextId + 1 }
    let capped ← recomputeCapped now
    pure ⟨b.nextId, true, superseded, capped.getD false⟩

/-- `_accumulate`: the call's month is the row's, a later one, or one that is closed. -/
def accumulate (rowMonth month : ℕ) (stored added : ℤ) : ℤ :=
  if rowMonth = month then stored + added else if rowMonth < month then added else stored

/-- A `spend_state` row written with its flag, or the `CHECK` on the client's rupees. -/
def writeSpendState (caps : Ceilings) (month : ℕ) (minutes spend billed : ℤ) : CapTx PUnit := do
  let b ← get
  if h : 0 ≤ billed then
    set { b with spendState := some ⟨month, minutes, spend, billed, caps.overCap minutes billed, h⟩ }
  else throw .checkViolation

/-- `_SPEND_STATE_UPSERT`. -/
def upsertSpendState (now : ℕ) (call : MeteredCall) (spend : ℤ) : CapTx PUnit := do
  let b ← get
  let month := istBillingMonth call.endedAt
  let caps := capsAt b.plans now
  match b.spendState with
  | none => writeSpendState caps month call.minutes spend call.billedInr
  | some row =>
    writeSpendState caps (max row.month month)
      (accumulate row.month month row.minutesUsed call.minutes)
      (accumulate row.month month row.spendUsed spend)
      (accumulate row.month month row.billedInr call.billedInr)

/-- A finished call on the counters, and the usage row of the same transaction. -/
def meterSpend (now : ℕ) (call : MeteredCall) (spend : ℤ) : CapTx PUnit := do
  upsertSpendState now call spend
  modify fun b => { b with metered := b.metered ++ [call] }

/-! ## Runs -/

/-- What can happen to a tenant's caps. A call is metered some time `ago` after it ended. -/
inductive CapStep
  | elapse (span : ℕ)
  | meter (now ago : ℕ) (minutes spend billed : ℤ)
  | newTerms (now : ℕ) (terms : CommercialTerms)
  | clientCaps (now : ℕ) (capMin capSpend : Option ℤ)
  | recompute (now : ℕ)

/-- One of them. -/
def CapStep.apply (b : SpendBook) : CapStep → SpendBook
  | .elapse span => { b with clock := b.clock + span }
  | .meter now ago minutes spend billed =>
    Tx.commit (meterSpend now ⟨b.clock - ago, minutes, billed⟩ spend) b
  | .newTerms now terms => Tx.commit (recordTerms now terms) b
  | .clientCaps now capMin capSpend => Tx.commit (applyClientCaps now capMin capSpend) b
  | .recompute now => Tx.commit (recomputeCapped now) b

/-- Any number of them. -/
def runCaps (steps : List CapStep) (b : SpendBook) : SpendBook := steps.foldl CapStep.apply b

end Billing

end Calevate
