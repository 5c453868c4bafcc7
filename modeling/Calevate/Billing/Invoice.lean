import Calevate.Billing.OverageSplit
import Calevate.Billing.Statement
import Calevate.Rentals.Collection

/-!
# The monthly statement

`buildInvoice` prints a month: the plan fee, the charges and rentals dated in it, the calling a
prepaid wallet was debited for, the overage with a line for each rate, and the model upgrade.
Every line is whole paise before it is added, so the subtotal is the lines' sum and nothing is
rounded at the end (`toPaise_sum_of_dvd`); the overage lines are priced again from the published
figures by the function that priced the month, which is why they come to its cost
(`sum_overageLines`).

Quantities are in hundredths, money and rates in ticks. Sums of money and the tax on them are
taken exactly.
-/

namespace Calevate.Billing

open Lib

/-! ## Who charges tax, and where -/

/-- `gst.Gstin`. -/
structure Gstin where
  value : String
  stateCode : String
  stateName : String

/-- `gst.SupplierIdentity`. -/
structure SupplierIdentity where
  legalName : Option String
  address : Option String
  gstin : Option Gstin
  sac : Option String

/-- `SupplierIdentity.missing`. -/
def SupplierIdentity.missing (s : SupplierIdentity) : List String :=
  (if s.legalName.getD "" = "" then ["GST_SUPPLIER_LEGAL_NAME"] else []) ++
    (if s.address.getD "" = "" then ["GST_SUPPLIER_ADDRESS"] else []) ++
    (if s.gstin.isNone then ["GST_SUPPLIER_GSTIN"] else []) ++
    (if s.sac.getD "" = "" then ["GST_SUPPLY_SAC"] else [])

/-- `SupplierIdentity.is_registered`. -/
def SupplierIdentity.isRegistered (s : SupplierIdentity) : Bool := s.missing.isEmpty

/-- `gst.SupplyType`. -/
inductive SupplyType
  | intrastate | interstate | undetermined
  deriving DecidableEq, Repr

/-- `gst.PlaceOfSupply`. -/
structure PlaceOfSupply where
  stateCode : Option String
  stateName : Option String
  supplyType : SupplyType
  basis : String

/-- `gst.resolve_place_of_supply`. -/
def resolvePlaceOfSupply (supplier : SupplierIdentity) (recipientGstin : Option Gstin) :
    PlaceOfSupply :=
  match supplier.gstin, recipientGstin with
  | none, _ =>
    { stateCode := none, stateName := none, supplyType := .undetermined
      basis := "No GST registration is configured for Calevate." }
  | some ours, some theirs =>
    { stateCode := some theirs.stateCode, stateName := some theirs.stateName
      supplyType := if theirs.stateCode = ours.stateCode then .intrastate else .interstate
      basis := "Location of the recipient, a registered person (IGST Act s.12(2)(a))." }
  | some ours, none =>
    { stateCode := some ours.stateCode, stateName := some ours.stateName
      supplyType := .intrastate
      basis := "Location of the supplier — the recipient is not a registered person and no " ++
        "address is on record (IGST Act s.12(2)(b))." }

/-- `gst.UT_WITHOUT_LEGISLATURE`. -/
def utWithoutLegislature : List String := ["04", "26", "31", "35", "38"]

/-- `gst.TaxComponent`. -/
structure TaxComponent where
  label : String
  ratePct : ℚ
  amountInr : ℤ
  deriving DecidableEq

/-- **`gst.split_tax`.** The second head is what the first leaves of the tax. -/
def splitTax (subtotalInr : ℤ) (ratePct : ℚ) (place : PlaceOfSupply) : List TaxComponent :=
  let total := toPaise (subtotalInr * ratePct / 100)
  match place.supplyType with
  | .undetermined => [⟨"GST", ratePct, total⟩]
  | .interstate => [⟨"IGST", ratePct, total⟩]
  | .intrastate =>
    let halfRate := ratePct / 2
    let first := toPaise (subtotalInr * halfRate / 100)
    let stateLabel := if place.stateCode.getD "" ∈ utWithoutLegislature then "UTGST" else "SGST"
    [⟨"CGST", halfRate, first⟩, ⟨stateLabel, halfRate, toPaise (total - first : ℤ)⟩]

/-! ## The month's figures -/

/-- The columns of `plans` the month is priced at. -/
structure MonthTerms where
  monthlyFee : Option ℤ
  includedMin : Option ℕ
  overageRate : Option Rate
  overageRateSecond : Option Rate
  llmModelSurcharge : Option Rate

theorem noRate_fits : 0 < 10 ^ 12 := by decide

/-- The terms a month is priced at, with what an account without a plan is priced at. -/
def MonthTerms.plan (terms : Option MonthTerms) : Plan where
  includedMin := (terms.bind MonthTerms.includedMin).getD 0
  rate := (terms.bind MonthTerms.overageRate).getD ⟨0, noRate_fits⟩
  rateValue := terms.bind MonthTerms.overageRateSecond
  llmSurcharge := terms.bind MonthTerms.llmModelSurcharge

theorem toDisplay_fits {r : Rate} (h : toPaise r.ticks = r.ticks) :
    (toPaise r.ticks).toNat < 10 ^ 12 := by
  rw [h, Int.toNat_natCast]
  exact r.fits

/-- `service.rate_to_display`: in paise when that loses nothing, else as it is. -/
def rateToDisplay (r : Rate) : Rate :=
  if h : toPaise r.ticks = r.ticks then ⟨(toPaise r.ticks).toNat, toDisplay_fits h⟩ else r

/-- What `build_invoice` reads of `usage_summary`. -/
structure UsageSummary where
  minutesUsed : ℤ
  calls : ℕ
  includedMinutes : ℕ
  monthlyFeeInr : Option ℤ
  overageMinutes : ℤ
  overageMinutesBaseRung : ℤ
  overageMinutesSecondRung : ℤ
  overageCostInr : ℤ
  overageRateInr : Rate
  overageRateSecondInr : Option Rate
  llmSurchargeMinutes : ℤ
  llmSurchargeRateInr : Option Rate
  llmSurchargeInr : ℤ
  llmSurchargeModels : List String

/-- `usage_summary`, of a month's minutes by rung and by model. -/
def usageSummary (terms : Option MonthTerms) (usage : Rung → ℕ) (byModel : List (String × ℤ))
    (calls : ℕ) : UsageSummary :=
  let plan := MonthTerms.plan terms
  let priced := pricedOverage (minutesByRung usage) plan
  let surcharge := pricedLlmSurcharge byModel plan.llmSurcharge
  { minutesUsed := minutesSum (minutesByRung usage)
    calls := calls
    includedMinutes := plan.includedMin
    monthlyFeeInr := (terms.bind MonthTerms.monthlyFee).map fun fee => toPaise fee
    overageMinutes := priced.overageMin
    overageMinutesBaseRung := priced.premiumMin
    overageMinutesSecondRung := priced.valueMin
    overageCostInr := priced.totalInr
    overageRateInr := rateToDisplay plan.rate
    overageRateSecondInr := plan.rateValue.map rateToDisplay
    llmSurchargeMinutes := surcharge.minutes
    llmSurchargeRateInr := plan.llmSurcharge.map rateToDisplay
    llmSurchargeInr := surcharge.totalInr
    llmSurchargeModels := surcharge.models }

/-! ## The lines -/

/-- A line's description, with what it is filled in with. -/
inductive InvoiceText
  | monthlyPlanFee
  | oneTimeCharge (description : String)
  | numberRental
  | calling (text : LineText)
  | extraMinutes (minutes : ℤ) (rate : Rate)
  | extraMinutesAt (rung : Rung) (minutes : ℤ) (rate : Rate)
  | aiModelUpgrade (models : List String) (minutes : ℤ) (rate : Rate)

/-- The line is part of the month's overage. -/
def InvoiceText.isOverage : InvoiceText → Bool
  | .extraMinutes .. => true
  | .extraMinutesAt .. => true
  | _ => false

/-- A line item. -/
structure InvoiceLine where
  description : InvoiceText
  qty : ℤ
  unitInr : ℤ
  amountInr : ℤ
  sac : Option String := none

/-- What the lines add to. -/
def linesTotal (lines : List InvoiceLine) : ℤ := (lines.map InvoiceLine.amountInr).sum

/-- The plan fee. -/
def feeLines (monthlyFeeInr : Option ℤ) : List InvoiceLine :=
  match monthlyFeeInr with
  | none => []
  | some fee =>
    [{ description := .monthlyPlanFee, qty := 100, unitInr := fee, amountInr := fee }]

/-- `charges.one_time_charge_lines`, of the rows it reads. -/
def oneTimeChargeLines (rows : List (String × ℤ)) : List InvoiceLine :=
  rows.map fun row =>
    { description := .oneTimeCharge row.1, qty := 100
      unitInr := toPaise row.2, amountInr := toPaise row.2 }

/-- `number_rental.rental_statement_lines`, of the prices and periods it reads. -/
def rentalStatementLines (rows : List (ℤ × ℕ)) : List InvoiceLine :=
  rows.map fun row =>
    { description := .numberRental, qty := 100 * row.2
      unitInr := toPaise row.1, amountInr := toPaise (toPaise row.1 * row.2 : ℤ) }

/-- A line of the wallet's statement, on the invoice. -/
def callingLine (line : StatementLine) : InvoiceLine :=
  { description := .calling line.description, qty := line.qty
    unitInr := line.unitInr, amountInr := line.amountInr }

/-- The overage: one rate, one line; two rates, a line for each rung with minutes. -/
def overageLines (usage : UsageSummary) : List InvoiceLine :=
  if 0 < usage.overageMinutes ∧ 0 < usage.overageCostInr then
    let rungs := overageRungs usage.overageMinutesBaseRung usage.overageMinutesSecondRung
      usage.overageRateInr usage.overageRateSecondInr
    match usage.overageRateSecondInr with
    | none => rungs.map fun only =>
        { description := .extraMinutes only.minutes only.rateInr, qty := only.minutes
          unitInr := only.rateInr.ticks, amountInr := only.amountInr }
    | some _ => (rungs.filter fun rung => 0 < rung.minutes).map fun rung =>
        { description := .extraMinutesAt rung.label rung.minutes rung.rateInr, qty := rung.minutes
          unitInr := rung.rateInr.ticks, amountInr := rung.amountInr }
  else []

/-- The language-model surcharge, as a line of its own. -/
def surchargeLines (usage : UsageSummary) : List InvoiceLine :=
  match usage.llmSurchargeRateInr with
  | none => []
  | some rate =>
    if 0 < usage.llmSurchargeMinutes ∧ 0 < usage.llmSurchargeInr then
      [{ description := .aiModelUpgrade usage.llmSurchargeModels usage.llmSurchargeMinutes rate
         qty := usage.llmSurchargeMinutes, unitInr := rate.ticks
         amountInr := usage.llmSurchargeInr }]
    else []

/-! ## The document -/

/-- `invoice.GST_RATE_PCT`. -/
def gstRatePct : ℚ := 18

/-- `invoice.BILL_OF_SUPPLY_TAX_NOTE`. -/
def billOfSupplyTaxNote : String :=
  "Bill of supply. Calevate is a sole proprietorship below the GST registration threshold, " ++
    "so it is not registered for GST, charges no GST and does not issue tax invoices. " ++
    "No input tax credit can be claimed against this document."

/-- The statement. -/
structure Invoice where
  documentType : String
  supplier : SupplierIdentity
  recipientGstin : Option Gstin
  placeOfSupply : PlaceOfSupply
  lineItems : List InvoiceLine
  subtotalInr : ℤ
  gstRatePct : ℚ
  gstInr : ℤ
  taxComponents : List TaxComponent
  totalInr : ℤ
  taxNote : Option String
  usage : UsageSummary

/-- What the statement reads beside the month's usage: the account's tier, the charges, the
rentals and the ledger of the month. -/
structure MonthRows where
  tier : Rentals.PlanTier
  oneTimeCharges : List (String × ℤ)
  rentals : List (ℤ × ℕ)
  events : List UsageEvent
  month : BillingMonth
  ledger : List LedgerRow

/-- The line items, the calling of a prepaid account given. -/
def invoiceLines (usage : UsageSummary) (rows : MonthRows) (calling : List StatementLine) :
    List InvoiceLine :=
  feeLines usage.monthlyFeeInr ++ oneTimeChargeLines rows.oneTimeCharges ++
    rentalStatementLines rows.rentals ++ calling.map callingLine ++ overageLines usage ++
    surchargeLines usage

/-- The document around its lines. -/
def issue (usage : UsageSummary) (supplier : SupplierIdentity) (recipientGstin : Option Gstin)
    (lines : List InvoiceLine) : Invoice :=
  let place := resolvePlaceOfSupply supplier recipientGstin
  let lines := lines.map fun line => { line with sac := supplier.sac }
  let subtotal := toPaise (linesTotal lines)
  let components := splitTax subtotal gstRatePct place
  let gst := (components.map TaxComponent.amountInr).sum
  if supplier.isRegistered then
    { documentType := "tax_invoice", supplier, recipientGstin, placeOfSupply := place
      lineItems := lines, subtotalInr := subtotal, gstRatePct := gstRatePct, gstInr := gst
      taxComponents := components, totalInr := toPaise (subtotal + gst : ℤ), taxNote := none
      usage }
  else
    { documentType := "bill_of_supply", supplier, recipientGstin, placeOfSupply := place
      lineItems := lines, subtotalInr := subtotal, gstRatePct := 0, gstInr := 0
      taxComponents := [], totalInr := subtotal, taxNote := some billOfSupplyTaxNote, usage }

/-- The calling a prepaid account's wallet was debited for; a managed account's takes no debit. -/
def callingLines (rows : MonthRows) : Except String (List StatementLine) :=
  if rows.tier.isPrepaid then prepaidCallStatementLines rows.events rows.month rows.ledger
  else .ok []

/-- **`invoice.build_invoice`.** -/
def buildInvoice (usage : UsageSummary) (rows : MonthRows) (supplier : SupplierIdentity)
    (recipientGstin : Option Gstin) : Except String Invoice := do
  let calling ← callingLines rows
  pure (issue usage supplier recipientGstin (invoiceLines usage rows calling))

/-! ## Whole paise -/

theorem toPaise_dvd (q : ℚ) : 100 ∣ toPaise q := Dvd.intro_left _ rfl

/-- Rounding whole paise changes nothing. -/
theorem toPaise_of_dvd {n : ℤ} (h : 100 ∣ n) : toPaise n = n := by
  obtain ⟨k, rfl⟩ := h
  have hk : ((100 * k : ℤ) : ℚ) / 100 = k := by
    push_cast
    ring
  rw [toPaise, hk, Dec.roundHalfUp_intCast, mul_comm]

theorem dvd_linesTotal {lines : List InvoiceLine} (h : ∀ line ∈ lines, 100 ∣ line.amountInr) :
    100 ∣ linesTotal lines := by
  apply List.dvd_sum
  intro amount hamount
  obtain ⟨line, hline, rfl⟩ := List.mem_map.mp hamount
  exact h line hline

theorem rateToDisplay_eq (r : Rate) : rateToDisplay r = r := by
  rw [rateToDisplay]
  split
  · rename_i h
    obtain ⟨ticks, hfits⟩ := r
    rw [Rate.mk.injEq, h, Int.toNat_natCast]
  · rfl

/-! ## The overage lines -/

theorem lineAmount_nonneg {minutes : ℤ} (h : 0 ≤ minutes) (rate : Rate) :
    0 ≤ lineAmount minutes rate := by
  have hq : (0 : ℚ) ≤ 10000 * Dec.ctx (minutes / 100 * (rate.ticks / 10000)) := by
    have hminutes : (0 : ℚ) ≤ minutes := by exact_mod_cast h
    exact mul_nonneg (by norm_num) (Dec.ctx_nonneg (by positivity))
  exact mul_nonneg (Dec.roundHalfUp_nonneg (div_nonneg hq (by norm_num))) (by norm_num)

/-- Neither figure of a month's split is negative, and without an overage both are nothing. -/
theorem pricedOverage_split (usage : Rung → ℕ) (plan : Plan) :
    0 ≤ (pricedOverage (minutesByRung usage) plan).premiumMin ∧
      0 ≤ (pricedOverage (minutesByRung usage) plan).valueMin ∧
      (pricedOverage (minutesByRung usage) plan).premiumMin +
          (pricedOverage (minutesByRung usage) plan).valueMin =
        (pricedOverage (minutesByRung usage) plan).overageMin := by
  obtain ⟨hmin, hsplit, -⟩ := pricedOverage_eq usage plan
  cases hrate : plan.rateValue with
  | none =>
    rw [hrate, splitOverage] at hsplit
    obtain ⟨hpremium, hvalue⟩ := Prod.mk.inj hsplit
    have hnonneg : 0 ≤ overageOf usage plan := le_max_left _ _
    omega
  | some second =>
    obtain ⟨hdivision, -⟩ := split_division hrate hsplit
    exact ⟨hdivision.premium_nonneg, hdivision.value_nonneg, hmin ▸ hdivision.sum⟩

theorem pricedOverage_totalInr (minutes : List (Rung × ℤ)) (plan : Plan) :
    (pricedOverage minutes plan).totalInr = linesInr plan (pricedOverage minutes plan).premiumMin
      (pricedOverage minutes plan).valueMin := rfl

/-- A bill for no minutes is nothing, and no bill is less. -/
theorem linesInr_nonneg (plan : Plan) {premium value : ℤ} (hpremium : 0 ≤ premium)
    (hvalue : 0 ≤ value) :
    0 ≤ linesInr plan premium value ∧ (premium + value = 0 → linesInr plan premium value = 0) := by
  simp only [linesInr, overageRungs]
  cases plan.rateValue with
  | none =>
    simp only [List.map_cons, List.map_nil, List.sum_cons, List.sum_nil, add_zero]
    refine ⟨lineAmount_nonneg (by omega) _, fun hnone => ?_⟩
    rw [hnone, lineAmount_zero]
  | some second =>
    simp only [List.map_cons, List.map_nil, List.sum_cons, List.sum_nil, add_zero]
    refine ⟨add_nonneg (lineAmount_nonneg hpremium _) (lineAmount_nonneg hvalue _), fun hnone => ?_⟩
    obtain rfl : premium = 0 := by omega
    obtain rfl : value = 0 := by omega
    rw [lineAmount_zero, lineAmount_zero, add_zero]

/-- A rung without minutes comes to nothing, so it can go unprinted. -/
theorem sum_amounts_filter {premium value : ℤ} (hpremium : 0 ≤ premium) (hvalue : 0 ≤ value)
    (rate second : Rate) :
    (((overageRungs premium value rate (some second)).filter fun rung => 0 < rung.minutes).map
        OverageRung.amountInr).sum =
      ((overageRungs premium value rate (some second)).map OverageRung.amountInr).sum := by
  simp only [overageRungs]
  rcases hpremium.lt_or_eq with hp | rfl <;> rcases hvalue.lt_or_eq with hv | rfl
  · simp [hp, hv]
  · simp [hp]
  · simp [hv]
  · simp

/-- **The overage lines come to the overage charge.** -/
theorem sum_overageLines (terms : Option MonthTerms) (usage : Rung → ℕ)
    (byModel : List (String × ℤ)) (calls : ℕ) :
    linesTotal (overageLines (usageSummary terms usage byModel calls)) =
      (usageSummary terms usage byModel calls).overageCostInr := by
  obtain ⟨hpremium, hvalue, hsum⟩ := pricedOverage_split usage (MonthTerms.plan terms)
  have htotal := pricedOverage_totalInr (minutesByRung usage) (MonthTerms.plan terms)
  obtain ⟨hnonneg, hnone⟩ := linesInr_nonneg (MonthTerms.plan terms) hpremium hvalue
  simp only [usageSummary, overageLines, rateToDisplay_eq]
  split
  case isFalse hquiet =>
    -- nothing is printed of an overage without minutes, or one that cost nothing
    rw [htotal]
    have hzero : linesInr (MonthTerms.plan terms)
        (pricedOverage (minutesByRung usage) (MonthTerms.plan terms)).premiumMin
        (pricedOverage (minutesByRung usage) (MonthTerms.plan terms)).valueMin = 0 := by
      rcases not_and_or.mp hquiet with hmin | hcost
      · exact hnone (by omega)
      · omega
    rw [hzero]
    rfl
  case isTrue =>
    rw [htotal, linesInr, linesTotal]
    cases hrate : (MonthTerms.plan terms).rateValue with
    | none =>
      dsimp only [Option.map_none]
      rw [List.map_map]
      rfl
    | some second =>
      dsimp only [Option.map_some]
      rw [rateToDisplay_eq, ← sum_amounts_filter hpremium hvalue, List.map_map]
      rfl

/-! ## The heads of tax -/

/-- Twice the tax on half the rate is within a paisa of the tax. -/
theorem toPaise_half (x : ℚ) : |2 * toPaise (x / 2) - toPaise x| ≤ 100 := by
  have hnear := Dec.roundHalfUp_double (x / 2 / 100)
  rw [show 2 * (x / 2 / 100) = x / 100 by ring, abs_le] at hnear
  rw [toPaise, toPaise, abs_le]
  omega

/-- What the heads of a supply promise: they come to the tax, and two of them are within a paisa
of each other. -/
structure HeadsOf (subtotalInr : ℤ) (ratePct : ℚ) (heads : List TaxComponent) : Prop where
  sum : (heads.map TaxComponent.amountInr).sum = toPaise (subtotalInr * ratePct / 100)
  near : ∀ central ∈ heads, ∀ state ∈ heads, |central.amountInr - state.amountInr| ≤ 100

theorem splitTax_heads (subtotalInr : ℤ) (ratePct : ℚ) (place : PlaceOfSupply) :
    HeadsOf subtotalInr ratePct (splitTax subtotalInr ratePct place) := by
  have hone : ∀ head : TaxComponent, head.amountInr = toPaise (subtotalInr * ratePct / 100) →
      HeadsOf subtotalInr ratePct [head] := by
    intro head hamount
    refine ⟨by rw [List.map_singleton, List.sum_singleton, hamount], ?_⟩
    intro central hcentral state hstate
    rw [List.mem_singleton.mp hcentral, List.mem_singleton.mp hstate, sub_self, abs_zero]
    norm_num
  unfold splitTax
  cases place.supplyType with
  | undetermined => exact hone _ rfl
  | interstate => exact hone _ rfl
  | intrastate =>
    have hnear := toPaise_half (subtotalInr * ratePct / 100)
    rw [show (subtotalInr : ℚ) * ratePct / 100 / 2 = subtotalInr * (ratePct / 2) / 100 by ring,
      abs_le] at hnear
    have hrest := toPaise_of_dvd (dvd_sub (toPaise_dvd (subtotalInr * ratePct / 100))
      (toPaise_dvd (subtotalInr * (ratePct / 2) / 100)))
    dsimp only
    rw [hrest]
    constructor
    · simp only [List.map_cons, List.map_nil, List.sum_cons, List.sum_nil]
      omega
    · intro central hcentral state hstate
      rw [abs_le]
      simp only [List.mem_cons, List.not_mem_nil, or_false] at hcentral hstate
      rcases hcentral with rfl | rfl <;> rcases hstate with rfl | rfl <;> dsimp only <;> omega

/-! ## The document adds up -/

theorem dvd_callingLines {events : List UsageEvent} {month : BillingMonth}
    {ledger : List LedgerRow} {lines : List StatementLine}
    (h : prepaidCallStatementLines events month ledger = .ok lines) :
    ∀ line ∈ lines, 100 ∣ line.amountInr := by
  obtain ⟨merged, -, h⟩ := Lib.Except.bind_ok.mp h
  obtain rfl := Except.ok.inj h
  intro line hline
  rcases List.mem_append.mp hline with hline | hline
  · obtain ⟨item, -, hitem⟩ := List.mem_filterMap.mp hline
    simp only [callLine] at hitem
    split at hitem
    · exact nomatch hitem
    · obtain rfl := Option.some.inj hitem
      exact toPaise_dvd _
  · rw [Option.mem_toList] at hline
    simp only [upgradeLine] at hline
    split at hline
    · exact nomatch hline
    · obtain rfl := Option.some.inj hline
      exact toPaise_dvd _

/-- **What a statement promises of its figures.** -/
structure InvoiceAddsUp (usage : UsageSummary) (invoice : Invoice) : Prop where
  subtotal : linesTotal invoice.lineItems = invoice.subtotalInr
  gst : (invoice.taxComponents.map TaxComponent.amountInr).sum = invoice.gstInr
  /-- The heads are those of `split_tax`, on a document that charges tax. -/
  heads : invoice.supplier.isRegistered = true →
    invoice.taxComponents = splitTax invoice.subtotalInr gstRatePct invoice.placeOfSupply
  untaxed : invoice.supplier.isRegistered = false → invoice.taxComponents = []
  near : ∀ central ∈ invoice.taxComponents, ∀ state ∈ invoice.taxComponents,
    |central.amountInr - state.amountInr| ≤ 100
  total : invoice.totalInr = invoice.subtotalInr + invoice.gstInr
  overage : linesTotal (invoice.lineItems.filter fun line => line.description.isOverage) =
    usage.overageCostInr

/-- The lines of a document are whole paise, and those of its overage come to its cost. -/
structure LinesOk (usage : UsageSummary) (lines : List InvoiceLine) : Prop where
  paise : ∀ line ∈ lines, 100 ∣ line.amountInr
  overage : linesTotal (lines.filter fun line => line.description.isOverage) =
    usage.overageCostInr

theorem linesTotal_sac (sac : Option String) (lines : List InvoiceLine) :
    linesTotal (lines.map fun line => { line with sac := sac }) = linesTotal lines := by
  rw [linesTotal, List.map_map]
  rfl

theorem filter_sac (sac : Option String) (lines : List InvoiceLine) :
    (lines.map fun line => { line with sac := sac }).filter
        (fun line => line.description.isOverage) =
      (lines.filter fun line => line.description.isOverage).map
        fun line => { line with sac := sac } := by
  rw [List.filter_map]
  rfl

/-- **A document adds up** when its lines are whole paise. -/
theorem issue_addsUp {usage : UsageSummary} {lines : List InvoiceLine}
    (h : LinesOk usage lines) (supplier : SupplierIdentity) (recipientGstin : Option Gstin) :
    InvoiceAddsUp usage (issue usage supplier recipientGstin lines) := by
  have hlines := linesTotal_sac supplier.sac lines
  have hpaise := toPaise_of_dvd (dvd_linesTotal h.paise)
  have hoverage := h.overage
  rw [← linesTotal_sac supplier.sac, ← filter_sac] at hoverage
  simp only [issue]
  rw [hlines, hpaise]
  obtain ⟨hsum, hnear⟩ := splitTax_heads (linesTotal lines) gstRatePct
    (resolvePlaceOfSupply supplier recipientGstin)
  by_cases hregistered : supplier.isRegistered = true
  · rw [if_pos hregistered]
    refine ⟨hlines, rfl, fun _ => rfl, fun hnot => ?_, hnear, ?_, hoverage⟩
    · exact absurd (hregistered.symm.trans hnot) (by decide)
    · dsimp only
      rw [hsum]
      exact toPaise_of_dvd (dvd_add (dvd_linesTotal h.paise) (toPaise_dvd _))
  · rw [if_neg hregistered]
    refine ⟨hlines, rfl, fun hyes => absurd hyes hregistered, fun _ => rfl, ?_, ?_, hoverage⟩
    · intro central hcentral
      exact nomatch hcentral
    · exact (add_zero _).symm

/-- The overage lines are those the filter keeps. -/
theorem filter_invoiceLines (usage : UsageSummary) (rows : MonthRows) (calling : List StatementLine) :
    (invoiceLines usage rows calling).filter (fun line => line.description.isOverage) =
      overageLines usage := by
  have hkeeps : ∀ line ∈ overageLines usage, line.description.isOverage = true := by
    intro line hline
    unfold overageLines at hline
    split at hline
    · dsimp only at hline
      split at hline <;> obtain ⟨_, _, rfl⟩ := List.mem_map.mp hline <;> rfl
    · exact nomatch hline
  have hdrops : ∀ {lines : List InvoiceLine},
      (∀ line ∈ lines, line.description.isOverage = false) →
        lines.filter (fun line => line.description.isOverage) = [] := by
    intro lines h
    refine List.filter_eq_nil_iff.mpr fun line hline => ?_
    rw [h line hline]
    decide
  rw [invoiceLines]
  simp only [List.filter_append]
  rw [List.filter_eq_self.mpr hkeeps, hdrops, hdrops, hdrops, hdrops, hdrops]
  · rw [List.append_nil]
    rfl
  · intro line hline
    unfold surchargeLines at hline
    split at hline
    · exact nomatch hline
    · split at hline
      · rw [List.mem_singleton.mp hline]
        rfl
      · exact nomatch hline
  · intro line hline
    obtain ⟨_, _, rfl⟩ := List.mem_map.mp hline
    rfl
  · intro line hline
    obtain ⟨_, _, rfl⟩ := List.mem_map.mp hline
    rfl
  · intro line hline
    obtain ⟨_, _, rfl⟩ := List.mem_map.mp hline
    rfl
  · intro line hline
    unfold feeLines at hline
    split at hline
    · exact nomatch hline
    · rw [List.mem_singleton.mp hline]
      rfl

theorem dvd_overageLines {usage : UsageSummary} : ∀ line ∈ overageLines usage, 100 ∣ line.amountInr := by
  have hrungs : ∀ rung ∈ overageRungs usage.overageMinutesBaseRung usage.overageMinutesSecondRung
      usage.overageRateInr usage.overageRateSecondInr, 100 ∣ rung.amountInr := by
    intro rung hrung
    unfold overageRungs at hrung
    split at hrung
    · rw [List.mem_singleton.mp hrung]
      exact toPaise_dvd _
    · simp only [List.mem_cons, List.not_mem_nil, or_false] at hrung
      rcases hrung with rfl | rfl <;> exact toPaise_dvd _
  intro line hline
  unfold overageLines at hline
  split at hline
  · dsimp only at hline
    split at hline
    · obtain ⟨rung, hrung, rfl⟩ := List.mem_map.mp hline
      exact hrungs rung hrung
    · obtain ⟨rung, hrung, rfl⟩ := List.mem_map.mp hline
      exact hrungs rung (List.mem_filter.mp hrung).1
  · cases hline

theorem dvd_llmSurchargeInr (byModel : List (String × ℤ)) (surcharge : Option Rate) :
    100 ∣ (pricedLlmSurcharge byModel surcharge).totalInr := by
  unfold pricedLlmSurcharge
  split
  · exact dvd_zero _
  · split
    · exact dvd_zero _
    · exact toPaise_dvd _

theorem invoiceLines_ok (terms : Option MonthTerms) (usage : Rung → ℕ) (byModel : List (String × ℤ))
    (calls : ℕ) (rows : MonthRows) {calling : List StatementLine}
    (hcalling : ∀ line ∈ calling, 100 ∣ line.amountInr) :
    LinesOk (usageSummary terms usage byModel calls)
      (invoiceLines (usageSummary terms usage byModel calls) rows calling) where
  paise := by
    intro line hline
    simp only [invoiceLines, List.mem_append] at hline
    rcases hline with ((((hfee | hcharge) | hrental) | hcall) | hoverage) | hsurcharge
    · unfold feeLines at hfee
      split at hfee
      case h_1 => exact nomatch hfee
      case h_2 fee hsome =>
        obtain ⟨_, -, rfl⟩ := Option.map_eq_some_iff.mp hsome
        rw [List.mem_singleton.mp hfee]
        exact toPaise_dvd _
    · obtain ⟨row, -, rfl⟩ := List.mem_map.mp hcharge
      exact toPaise_dvd _
    · obtain ⟨row, -, rfl⟩ := List.mem_map.mp hrental
      exact toPaise_dvd _
    · obtain ⟨call, hmem, rfl⟩ := List.mem_map.mp hcall
      exact hcalling call hmem
    · exact dvd_overageLines line hoverage
    · unfold surchargeLines at hsurcharge
      split at hsurcharge
      · exact nomatch hsurcharge
      · split at hsurcharge
        · rw [List.mem_singleton.mp hsurcharge]
          exact dvd_llmSurchargeInr _ _
        · exact nomatch hsurcharge
  overage := by rw [filter_invoiceLines, sum_overageLines]

/-- **A statement's figures add up.** Whatever a month was used for, priced at, charged beside it
and supplied where, the lines come to the subtotal, the heads of the tax to the tax and within a
paisa of each other, the two together to the total, and the overage lines to the overage
charge. -/
theorem buildInvoice_addsUp (terms : Option MonthTerms) (usage : Rung → ℕ)
    (byModel : List (String × ℤ)) (calls : ℕ) (rows : MonthRows) (supplier : SupplierIdentity)
    (recipientGstin : Option Gstin) {invoice : Invoice}
    (h : buildInvoice (usageSummary terms usage byModel calls) rows supplier recipientGstin =
      .ok invoice) :
    InvoiceAddsUp (usageSummary terms usage byModel calls) invoice := by
  obtain ⟨calling, hcalling, h⟩ := Lib.Except.bind_ok.mp h
  obtain rfl := Except.ok.inj h
  apply issue_addsUp (invoiceLines_ok terms usage byModel calls rows _)
  unfold callingLines at hcalling
  split at hcalling
  · exact dvd_callingLines hcalling
  · obtain rfl := Except.ok.inj hcalling
    intro line hline
    exact nomatch hline

/-! ## A month in two States -/

/-- A plan of ₹100.01 a month, a minute included, and two rates a little apart. -/
def twoRatesTerms : MonthTerms :=
  ⟨some 1000100, some 1, some ⟨14500, dearRate_fits⟩, some ⟨14000, cheapRate_fits⟩, none⟩

/-- A registered supplier. -/
def registeredSupplier : SupplierIdentity where
  legalName := some "Calevate"
  address := some "Bengaluru"
  gstin := some ⟨"29ABCDE1234F1Z5", "29", "Karnataka"⟩
  sac := some "998315"

/-- A managed account's month, nothing charged beside it. -/
def quietMonth : MonthRows := ⟨.managed, [], [], [], ⟨"2026-10", 0, 0⟩, []⟩

theorem buildInvoice_addsUp_twoRatesTerms :
    InvoiceAddsUp (usageSummary (some twoRatesTerms) oneMinute [] 3)
      (issue (usageSummary (some twoRatesTerms) oneMinute [] 3) registeredSupplier none
        (invoiceLines (usageSummary (some twoRatesTerms) oneMinute [] 3) quietMonth [])) :=
  buildInvoice_addsUp (some twoRatesTerms) oneMinute [] 3 quietMonth registeredSupplier none rfl

/-- Eighteen per cent of what that month comes to is an odd number of paise. -/
example :
    (issue (usageSummary (some twoRatesTerms) oneMinute [] 3) registeredSupplier none
      (invoiceLines (usageSummary (some twoRatesTerms) oneMinute [] 3) quietMonth [])).taxComponents =
    [⟨"CGST", 9, 90000⟩, ⟨"SGST", 9, 90100⟩] := by
  decide +kernel

end Calevate.Billing
