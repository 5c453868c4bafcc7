import Calevate.Lib.Apportion
import Calevate.Billing.Credit

/-!
# The metered month

What a month of calls costs a managed client, and what one more call adds to it. A
month's seconds are read once from the usage rows and partitioned twice, by overage rung
and by surcharged language model (`rungSeconds`); each partition is turned into hundredths
of a minute that add to the month's own figure (`minutesFromSeconds`), and the two are
priced by `pricedOverage` and `pricedLlmSurcharge`. `monthIncrement` is the difference
between the month with a call and the month without it.

Seconds are counted in units of a ten-thousandth (the ledger's four places), minutes in
hundredths, and money in ticks as in the rest of the billing model.
-/

namespace Calevate.Billing

open Lib

/-! ## Which rung, which model -/

/-- A plan's two overage-rate slots, and the rows that name neither. -/
inductive Rung where
  | premium
  | value
  | unattributed
  deriving DecidableEq, Repr

/-- `OVERAGE_RUNGS`: the order is what `allocate_paise` breaks its ties by. -/
def Rung.all : List Rung := [.premium, .value, .unattributed]

/-- The label of a row as `rung_seconds` reads it. -/
def Rung.ofLabel (label : Option String) : Rung :=
  if label = some "premium" then .premium
  else if label = some "value" then .value
  else .unattributed

/-- `LlmPrice`, in US cents for a million tokens. -/
structure LlmPrice where
  inputUsdPerMtok : ℕ
  outputUsdPerMtok : ℕ
  deriving DecidableEq, Repr

/-- `LLM_MODELS`, with the prices the surcharge rule compares. -/
def llmModels : List (String × LlmPrice) :=
  [("gpt-4o-mini", ⟨15, 60⟩), ("gpt-4.1-mini", ⟨40, 160⟩), ("gpt-5.4-mini", ⟨75, 450⟩),
    ("gpt-5.6-luna", ⟨20, 120⟩), ("gemini-2.5-flash", ⟨30, 250⟩),
    ("gemini-2.5-flash-lite", ⟨10, 40⟩), ("gemini-3.1-flash-lite", ⟨25, 150⟩),
    ("gemini-3.5-flash-lite", ⟨30, 250⟩), ("gemini-3.8-flash", ⟨75, 375⟩)]

/-- `BASE_RATE_LLM_MODEL`. -/
def baseRateLlmModel : String := "gpt-4o-mini"

/-- `CLIENT_CHOSEN_LLM_SOURCES`. -/
def clientChosenLlmSources : List String := ["agent", "organization"]

/-- `rates.is_surchargeable_llm_model`: dearer than the base model on both legs. -/
def isSurchargeableLlmModel (model : String) : Bool :=
  if model = "" ∨ model = baseRateLlmModel then false
  else
    match llmModels.lookup model, llmModels.lookup baseRateLlmModel with
    | some spec, some base =>
      base.inputUsdPerMtok < spec.inputUsdPerMtok ∧ base.outputUsdPerMtok < spec.outputUsdPerMtok
    | _, _ => false

/-- `rates.llm_surcharge_applies`. -/
def llmSurchargeApplies (model source : Option String) : Bool :=
  isSurchargeableLlmModel (model.getD "") ∧ source.getD "" ∈ clientChosenLlmSources

/-- `UNSURCHARGED_MODEL`: the bucket of the minutes that carry no surcharge. -/
def unsurchargedModel : String := ""

/-- The bucket the meter places a call in before the month is read. -/
def llmBucket (model source : Option String) : String :=
  if llmSurchargeApplies model source then model.getD "" else unsurchargedModel

/-- The models `_surcharge_binds` binds. -/
def surchargedLlmModels : List String :=
  (llmModels.map Prod.fst).filter fun model => isSurchargeableLlmModel model

/-- `_SURCHARGED_MODEL_SQL`: the bucket the month's reader groups a row in. -/
def surchargedModel (model source : Option String) : String :=
  match source with
  | some s =>
    if s ∈ clientChosenLlmSources ∧ model.getD "" ∈ surchargedLlmModels then model.getD ""
    else unsurchargedModel
  | none => unsurchargedModel

/-! ## The ledger's rows -/

/-- The `telephony_s` row of one call: its stamps, its length and its end. -/
structure UsageRow where
  ttsTier : Option String
  llmModel : Option String
  llmModelSource : Option String
  qty : ℕ
  occurredAt : ℕ
  deriving DecidableEq, Repr

/-- One second, in units of the ledger's last place. -/
def secondUnits : ℕ := 10000

/-- `CLIENT_PULSE_EFFECTIVE_FROM`. -/
def clientPulseEffectiveFrom : ℕ := 1791311400 * Calendar.second

/-- `rates.pulsed_seconds`: rounded up to whole pulses. -/
def pulsedSeconds (seconds pulse : ℕ) : ℕ := (seconds + pulse - 1) / pulse * pulse

/-- `rates.client_billed_seconds`: thirty-second steps from the effective date on. -/
def clientBilledSeconds (duration endedAt : ℕ) : ℕ :=
  if endedAt < clientPulseEffectiveFrom then duration else pulsedSeconds duration (30 * secondUnits)

namespace UsageRow

/-- `_BILLED_SECS_SQL`. -/
def billedSeconds (row : UsageRow) : ℕ := clientBilledSeconds row.qty row.occurredAt

/-- `_ROW_TIER_SQL`, as the reader files it. -/
def rung (row : UsageRow) : Rung := Rung.ofLabel row.ttsTier

/-- `_SURCHARGED_MODEL_SQL` on one row. -/
def modelBucket (row : UsageRow) : String := surchargedModel row.llmModel row.llmModelSource

end UsageRow

/-! ## A month's seconds -/

/-- A `dict` from buckets to seconds: its keys, each once, and what each holds. -/
structure Partition (κ : Type) where
  keys : List κ
  secs : κ → ℕ
  nodup : keys.Nodup

namespace Partition

variable {κ : Type} [DecidableEq κ]

/-- `sum(seconds.values())`. -/
def total (d : Partition κ) : ℕ := (d.keys.map d.secs).sum

/-- `d[key] = seconds`. -/
def set (d : Partition κ) (key : κ) (seconds : ℕ) : Partition κ where
  keys := if key ∈ d.keys then d.keys else d.keys ++ [key]
  secs := Function.update d.secs key seconds
  nodup := by
    split
    · exact d.nodup
    · rename_i hnot
      exact List.nodup_append.mpr ⟨d.nodup, List.nodup_singleton key, by
        intro a ha b hb
        rintro rfl
        exact hnot (List.mem_singleton.mp hb ▸ ha)⟩

end Partition

/-- Seconds of the rows that `bucket` files under `key`. -/
def bucketSeconds {κ : Type} [DecidableEq κ] (bucket : UsageRow → κ) (rows : List UsageRow)
    (key : κ) : ℕ :=
  ((rows.filter fun row => bucket row = key).map UsageRow.billedSeconds).sum

/-- `MonthSeconds`: one read of the month, partitioned two ways. -/
structure MonthSeconds where
  byRung : Partition Rung
  byLlmModel : Partition String

/-- **`rung_seconds`.** -/
def rungSeconds (rows : List UsageRow) : MonthSeconds where
  byRung :=
    { keys := Rung.all
      secs := bucketSeconds UsageRow.rung rows
      nodup := by decide }
  byLlmModel :=
    { keys := (unsurchargedModel :: rows.map UsageRow.modelBucket).dedup
      secs := bucketSeconds UsageRow.modelBucket rows
      nodup := List.nodup_dedup _ }

/-! ## Seconds as minutes -/

/-- Seconds over sixty as the arithmetic context leaves it, in hundredths of a minute. -/
def minutePart (seconds : ℕ) : ℚ := 100 * Dec.ctx (seconds / (60 * secondUnits : ℕ))

/-- **`_minutes_from_seconds`**, in hundredths: `allocate_paise` on the parts in the order
of `keys`, against the whole month rounded once. -/
def minutesFromSeconds {κ : Type} [DecidableEq κ] (d : Partition κ) (keys : List κ) :
    Option (List (κ × ℤ)) :=
  Apportion.allocate (keys.map fun key => (key, minutePart (d.secs key)))
    (Dec.roundHalfUp (minutePart d.total))

/-- `rung_minutes`. -/
def rungMinutes (d : Partition Rung) : Option (List (Rung × ℤ)) := minutesFromSeconds d Rung.all

/-- `sorted(seconds)`. -/
def sortedKeys (d : Partition String) : List String := d.keys.insertionSort (· ≤ ·)

/-- `llm_model_minutes`. -/
def llmModelMinutes (d : Partition String) : Option (List (String × ℤ)) :=
  minutesFromSeconds d (sortedKeys d)

/-! ## Pricing the month -/

/-- A rate in ticks, as wide as its column. -/
structure Rate where
  ticks : ℕ
  fits : ticks < 10 ^ 12
  deriving DecidableEq, Repr

/-- The plan's terms as a call sees them: the included minutes, the two overage rates and
the model surcharge. -/
structure Plan where
  includedMin : ℕ
  rate : Rate
  rateValue : Option Rate
  llmSurcharge : Option Rate
  deriving DecidableEq, Repr

/-- Minutes times a rate, to the paisa. -/
def lineAmount (minutes : ℤ) (rate : Rate) : ℤ :=
  toPaise (10000 * Dec.ctx (minutes / 100 * (rate.ticks / 10000)))

/-- `split_overage`: the allowance is spent on the dearer rung first. -/
def splitOverage (overageMin billablePremium billableValue includedMin : ℤ) (rate : Rate)
    (rateValue : Option Rate) : ℤ × ℤ :=
  match rateValue with
  | none => (overageMin, 0)
  | some second =>
    let dearerIsPremium := second.ticks ≤ rate.ticks
    let dearer := if dearerIsPremium then billablePremium else billableValue
    let covered := min includedMin dearer
    let dearerOverage := min (max 0 (dearer - covered)) overageMin
    let cheaperOverage := overageMin - dearerOverage
    if dearerIsPremium then (dearerOverage, cheaperOverage) else (cheaperOverage, dearerOverage)

/-- `OverageRung`. -/
structure OverageRung where
  label : Rung
  minutes : ℤ
  rateInr : Rate
  amountInr : ℤ

/-- `overage_rungs`. -/
def overageRungs (premiumMin valueMin : ℤ) (rate : Rate) (rateValue : Option Rate) :
    List OverageRung :=
  match rateValue with
  | none =>
    [{ label := .premium, minutes := premiumMin + valueMin, rateInr := rate,
       amountInr := lineAmount (premiumMin + valueMin) rate }]
  | some second =>
    [{ label := .premium, minutes := premiumMin, rateInr := rate,
       amountInr := lineAmount premiumMin rate },
     { label := .value, minutes := valueMin, rateInr := second,
       amountInr := lineAmount valueMin second }]

/-- `PricedOverage`. -/
structure PricedOverage where
  overageMin : ℤ
  premiumMin : ℤ
  valueMin : ℤ
  rungs : List OverageRung
  totalInr : ℤ

/-- `minutes[key]` of a minute map. -/
def minutesAt {κ : Type} [DecidableEq κ] (minutes : List (κ × ℤ)) (key : κ) : ℤ :=
  (minutes.lookup key).getD 0

/-- `sum(minutes.values())`. -/
def minutesSum {κ : Type} (minutes : List (κ × ℤ)) : ℤ := (minutes.map Prod.snd).sum

/-- **`priced_overage`.** Unattributed minutes are priced with the second rung. -/
def pricedOverage (minutesByRung : List (Rung × ℤ)) (plan : Plan) : PricedOverage :=
  let included : ℤ := 100 * plan.includedMin
  let overageMin := max 0 (minutesSum minutesByRung - included)
  let split := splitOverage overageMin (minutesAt minutesByRung .premium)
    (minutesAt minutesByRung .value + minutesAt minutesByRung .unattributed) included plan.rate
    plan.rateValue
  let rungs := overageRungs split.1 split.2 plan.rate plan.rateValue
  { overageMin := overageMin
    premiumMin := split.1
    valueMin := split.2
    rungs := rungs
    totalInr := (rungs.map OverageRung.amountInr).sum }

/-- `PricedLlmSurcharge`. -/
structure PricedLlmSurcharge where
  minutes : ℤ
  models : List String
  totalInr : ℤ

/-- **`priced_llm_surcharge`**: one amount for all the surcharged minutes, past the
allowance and inside it. -/
def pricedLlmSurcharge (minutesByModel : List (String × ℤ)) (surcharge : Option Rate) :
    PricedLlmSurcharge :=
  match surcharge with
  | none => { minutes := 0, models := [], totalInr := 0 }
  | some rate =>
    if rate.ticks = 0 then { minutes := 0, models := [], totalInr := 0 }
    else
      let surcharged := minutesByModel.filter fun m => m.1 ≠ unsurchargedModel ∧ 0 < m.2
      { minutes := minutesSum surcharged
        models := surcharged.map Prod.fst
        totalInr := lineAmount (minutesSum surcharged) rate }

/-! ## What one call adds -/

/-- `MonthIncrement`. -/
structure MonthIncrement where
  minutes : ℤ
  overageInr : ℤ
  llmSurchargeInr : ℤ
  deriving DecidableEq, Repr

/-- The three figures of a month: its minutes, its overage and its surcharge. -/
def pricedMonth (plan : Plan) (month : MonthSeconds) : Option MonthIncrement := do
  let byRung ← rungMinutes month.byRung
  let byModel ← llmModelMinutes month.byLlmModel
  some
    { minutes := minutesSum byRung
      overageInr := (pricedOverage byRung plan).totalInr
      llmSurchargeInr := (pricedLlmSurcharge byModel plan.llmSurcharge).totalInr }

/-- The month with a call's seconds taken back off its rung and its model. -/
def MonthSeconds.without (month : MonthSeconds) (tier : Rung) (llmModelBucket : String)
    (seconds : ℕ) : MonthSeconds where
  byRung := month.byRung.set tier (month.byRung.secs tier - seconds)
  byLlmModel := month.byLlmModel.set llmModelBucket (month.byLlmModel.secs llmModelBucket - seconds)

/-- **`month_increment`**: the month as the ledger has it now, less the month without this
call. `rows` is the ledger with the call's own row already in it. -/
def monthIncrement (rows : List UsageRow) (tier : Rung) (llmModelBucket : String) (seconds : ℕ)
    (plan : Plan) : Option MonthIncrement := do
  let after ← pricedMonth plan (rungSeconds rows)
  let before ← pricedMonth plan ((rungSeconds rows).without tier llmModelBucket seconds)
  some
    { minutes := after.minutes - before.minutes
      overageInr := after.overageInr - before.overageInr
      llmSurchargeInr := after.llmSurchargeInr - before.llmSurchargeInr }

/-- What the meter does with one call: its row is on the ledger, and `month_increment` is
asked with the three values just written. -/
def meterCall (plan : Plan) (ledger : List UsageRow) (row : UsageRow) : Option MonthIncrement :=
  monthIncrement (ledger ++ [row]) row.rung (llmBucket row.llmModel row.llmModelSource)
    (clientBilledSeconds row.qty row.occurredAt) plan

/-- The calls of a month metered one at a time, in the order of the list. -/
def meterCalls (plan : Plan) (ledger : List UsageRow) : List UsageRow → Option (List MonthIncrement)
  | [] => some []
  | row :: rest => do
    let increment ← meterCall plan ledger row
    let increments ← meterCalls plan (ledger ++ [row]) rest
    some (increment :: increments)

end Calevate.Billing
