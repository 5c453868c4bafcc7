import Calevate.Lib.Tally
import Calevate.Billing.Credit

/-!
# The prepaid statement's calling lines

A prepaid month's calling is read back from the wallet debits: every `usage` row of a call
of the month carries the lots it was drawn from (`meta.lots`), and
`prepaidCallStatementLines` groups those splits by voice and rate, one line a group, plus
one line for the model upgrade that rode on the same rows.

A group's amount is the credits of its splits, rounded to paise once; a group that rounds
to nothing prints no line.
-/

namespace Calevate

namespace Billing

open Lib

/-! ## What is stored -/

/-- The keys of a stored split that only a `call` split has. -/
structure CallPart where
  minutes : ℚ
  inrPerMin : ℤ
  voiceTier : String
  deriving DecidableEq

/-- One element of `meta.lots` as it comes back from the row: its `kind` is `call` when the
three call keys are there and `ai_assist` when they are not. Every writer stores what it
took off a lot or what was left to pay, so no figure is below nought. -/
structure StoredSplit where
  lotId : Option ℕ
  credits : ℕ
  call : Option CallPart
  deriving DecidableEq

/-- A row of `credit_ledger`, as far as the statement reads it. -/
structure LedgerRow where
  reason : CreditReason
  ref : Option String
  occurredAt : ℕ
  lots : List StoredSplit
  deriving DecidableEq

/-- A row of `usage_events`, as far as the statement reads it. -/
structure UsageEvent where
  callId : String
  occurredAt : ℕ
  deriving DecidableEq

/-- A month by its name and `_month_bounds`. -/
structure BillingMonth where
  label : String
  monthFrom : ℕ
  monthTo : ℕ
  deriving DecidableEq

/-- `_VOICE_TIER_BY_STORED_NAME` behind `rates.stored_voice_tier`: today's spellings and the
two that rows from before the rename still carry. -/
def storedVoiceTier (name : String) : Option VoiceTier :=
  if name = "clear" ∨ name = "sarvam" then some .value
  else if name = "studio" ∨ name = "cartesia" then some .premium
  else none

/-- The token `split_meta` writes for a rung. -/
def VoiceTier.token : VoiceTier → String
  | .value => "clear"
  | .premium => "studio"

/-- **`lots.split_meta`**, of one split. -/
def splitMeta (s : LotSplit) : StoredSplit where
  lotId := s.lotId
  credits := s.credits.toNat
  call := s.call.map fun c => ⟨c.1, c.2.1, c.2.2.token⟩

/-- A ledger entry as the statement reads it back. -/
def Entry.ledgerRow (e : Entry) : LedgerRow :=
  ⟨e.reason, e.ref, e.occurredAt, e.entryMeta.lots.map splitMeta⟩

/-! ## What is read -/

/-- `_CALL_IN_MONTH`: the row names a call with a usage row inside the month. -/
def callInMonth (events : List UsageEvent) (m : BillingMonth) (e : LedgerRow) : Bool :=
  decide (m.monthFrom ≤ e.occurredAt) &&
    events.any fun u => e.ref == some u.callId && decide (m.monthFrom ≤ u.occurredAt) &&
      decide (u.occurredAt < m.monthTo)

/-- The month's `usage` rows. -/
def usageRows (events : List UsageEvent) (m : BillingMonth) (ledger : List LedgerRow) :
    List LedgerRow :=
  ledger.filter fun e => decide (e.reason = .usage) && callInMonth events m e

/-- The rows that carry a `call` split: the month's calls, and not its dashboard work. -/
def LedgerRow.isCall (e : LedgerRow) : Bool := e.lots.any fun s => s.call.isSome

/-- The month's call debits. -/
def callDebits (events : List UsageEvent) (m : BillingMonth) (ledger : List LedgerRow) :
    List LedgerRow :=
  (usageRows events m ledger).filter LedgerRow.isCall

/-- What a row took off the wallet. -/
def LedgerRow.debit (e : LedgerRow) : ℕ := (e.lots.map StoredSplit.credits).sum

/-- A `call` split under the columns the query groups by. -/
def StoredSplit.grouped (s : StoredSplit) : Option ((String × ℤ) × (ℚ × ℕ)) :=
  s.call.map fun c => ((c.voiceTier, c.inrPerMin), (c.minutes, s.credits))

/-- `ORDER BY 1, 2`. -/
def groupBefore (p q : (String × ℤ) × (ℚ × ℕ)) : Prop :=
  p.1.1 < q.1.1 ∨ (p.1.1 = q.1.1 ∧ p.1.2 ≤ q.1.2)

instance : DecidableRel groupBefore :=
  fun p q => inferInstanceAs (Decidable (p.1.1 < q.1.1 ∨ (p.1.1 = q.1.1 ∧ p.1.2 ≤ q.1.2)))

/-- `_CALL_LINE_SPLIT_SQL`: minutes and credits by stored rung and rate. -/
def callLineSplits (events : List UsageEvent) (m : BillingMonth) (ledger : List LedgerRow) :
    List ((String × ℤ) × (ℚ × ℕ)) :=
  (Tally.tally (fun b a => (b.1 + a.1, b.2 + a.2)) (0, 0)
    (((usageRows events m ledger).flatMap LedgerRow.lots).filterMap
      StoredSplit.grouped)).insertionSort groupBefore

/-- `_CALL_EXTRA_SPLIT_SQL`: the credits on call rows that bought no minutes. -/
def callExtraInr (events : List UsageEvent) (m : BillingMonth) (ledger : List LedgerRow) : ℕ :=
  ((((callDebits events m ledger).flatMap LedgerRow.lots).filter
    fun s => s.call.isNone).map StoredSplit.credits).sum

/-! ## What is printed -/

/-- A line's text: `Call minutes, … voice (… min at ₹…/min)`, or `AI model upgrade on calls`. -/
inductive LineText
  | callMinutes (tier : VoiceTier) (qty unitInr : ℤ)
  | modelUpgrade
  deriving DecidableEq

/-- A statement line. The quantity is in hundredths, the unit and the amount in ticks;
`rate_to_display` changes how a rate is written and not what it is. -/
structure StatementLine where
  description : LineText
  qty : ℤ
  unitInr : ℤ
  amountInr : ℤ
  deriving DecidableEq

/-- The refusal of a rung this build cannot place. -/
def unplacedRung (m : BillingMonth) (stored : String) : String :=
  m.label ++ "'s wallet debits carry call splits spelled '" ++ stored ++
    "', which this build cannot place on a rung."

/-- A dictionary of minutes and credits by rung and rate. -/
abbrev Merged := List ((VoiceTier × ℤ) × (ℚ × ℕ))

/-- `merged[key] = (minutes + …, charged + …)`; minutes may outgrow the context's digits. -/
def addSplits (figures added : ℚ × ℕ) : ℚ × ℕ :=
  (Dec.ctx (figures.1 + added.1), figures.2 + added.2)

/-- One row of the query, added to the dictionary. -/
def mergeRow (m : BillingMonth) (merged : Merged) (row : (String × ℤ) × (ℚ × ℕ)) :
    Except String Merged :=
  match storedVoiceTier row.1.1 with
  | none => .error (unplacedRung m row.1.1)
  | some tier => .ok (Tally.file addSplits (0, 0) (tier, row.1.2) row.2 merged)

/-- `sorted(merged.items())`: the value rung first, then by rate. -/
def lineBefore (p q : (VoiceTier × ℤ) × (ℚ × ℕ)) : Prop :=
  (p.1.1 = .value ∧ q.1.1 = .premium) ∨ (p.1.1 = q.1.1 ∧ p.1.2 ≤ q.1.2)

instance : DecidableRel lineBefore := fun p q =>
  inferInstanceAs (Decidable ((p.1.1 = .value ∧ q.1.1 = .premium) ∨
    (p.1.1 = q.1.1 ∧ p.1.2 ≤ q.1.2)))

/-- The line of one rung and rate, unless it comes to nothing. -/
def callLine (item : (VoiceTier × ℤ) × (ℚ × ℕ)) : Option StatementLine :=
  let amount := toPaise (item.2.2 : ℕ)
  let qty := Dec.roundHalfUp (item.2.1 * 100)
  if amount = 0 then none
  else some ⟨.callMinutes item.1.1 qty item.1.2, qty, item.1.2, amount⟩

/-- The line of the model upgrade, unless it comes to nothing. -/
def upgradeLine (extraInr : ℕ) : Option StatementLine :=
  let extra := toPaise (extraInr : ℕ)
  if extra = 0 then none else some ⟨.modelUpgrade, 100, extra, extra⟩

/-- **`service.prepaid_call_statement_lines`.** -/
def prepaidCallStatementLines (events : List UsageEvent) (m : BillingMonth)
    (ledger : List LedgerRow) : Except String (List StatementLine) := do
  let merged ← (callLineSplits events m ledger).foldlM (mergeRow m) []
  let lines := (merged.insertionSort lineBefore).filterMap callLine
  pure (lines ++ (upgradeLine (callExtraInr events m ledger)).toList)

end Billing

end Calevate
