import Calevate.Billing.Helpers.Overage

/-!
# Metered increments

The meter charges each call the difference it makes to its month. `pricedMonth_reads`
writes the figures of a month in terms of four numbers only, the minutes of the two sides
each price separates, and `meterCall_eq` says that a call's increment is the difference of
two such months: the ledger with the call and the ledger before it. So the increments of
any order of calls add to the month's own price.

A side's minutes can fall when a call is added, because the largest-remainder allocation
is taken afresh over the whole month. `metered_month` is the exact reach of that: where on
each priced axis the calls that are not whole hundredths of a minute lie on one side, no
increment is negative.
-/

namespace Calevate.Billing

open Lib

/-! ## Prices rise with minutes -/

theorem lineAmount_eq {minutes : ℤ} {rate : Rate} (h0 : 0 ≤ minutes) (h1 : minutes < 10 ^ 16) :
    lineAmount minutes rate = toPaise (minutes * rate.ticks / 100) := by
  have hq : (minutes : ℚ) / 100 * (rate.ticks / 10000) =
      ((minutes * rate.ticks : ℤ) : ℚ) / 10 ^ 6 := by
    push_cast
    ring
  have hn : |minutes * (rate.ticks : ℤ)| < 10 ^ 28 := by
    have hr : (rate.ticks : ℤ) < 10 ^ 12 := by exact_mod_cast rate.fits
    rw [abs_of_nonneg (by positivity)]
    calc minutes * (rate.ticks : ℤ) ≤ 10 ^ 16 * rate.ticks :=
          mul_le_mul_of_nonneg_right h1.le (by positivity)
      _ < 10 ^ 28 := by linarith
  rw [lineAmount, Dec.ctx_eq_self hq hn]
  congr 1
  ring

/-- A longer line never costs less. -/
theorem lineAmount_mono {m m' : ℤ} (rate : Rate) (h : m ≤ m') :
    lineAmount m rate ≤ lineAmount m' rate := by
  have hm : (m : ℚ) ≤ m' := by exact_mod_cast h
  have hrate : (0 : ℚ) ≤ rate.ticks / 10000 := by positivity
  have hexact : (m : ℚ) / 100 * (rate.ticks / 10000) ≤ m' / 100 * (rate.ticks / 10000) :=
    mul_le_mul_of_nonneg_right (by linarith) hrate
  have hctx := Dec.ctx_mono hexact
  have hround : Dec.roundHalfUp (10000 * Dec.ctx (m / 100 * (rate.ticks / 10000)) / 100) ≤
      Dec.roundHalfUp (10000 * Dec.ctx (m' / 100 * (rate.ticks / 10000)) / 100) :=
    Dec.roundHalfUp_le_roundHalfUp (by linarith)
  rw [lineAmount, lineAmount, toPaise, toPaise]
  omega

@[simp] theorem lineAmount_zero (rate : Rate) : lineAmount 0 rate = 0 := by
  norm_num [lineAmount, toPaise, Dec.roundHalfUp]

/-- The overage of a month with so many minutes on the base rung and so many elsewhere. -/
def overageInr (plan : Plan) (premium rest : ℤ) : ℤ :=
  let included : ℤ := 100 * plan.includedMin
  let overageMin := max 0 (premium + rest - included)
  let split := splitOverage overageMin premium rest included plan.rate plan.rateValue
  ((overageRungs split.1 split.2 plan.rate plan.rateValue).map OverageRung.amountInr).sum

/-- Where one rate prices every minute, only the month's total counts. -/
theorem overageInr_mono_of_single {plan : Plan} (hone : plan.rateValue = none) {p r p' r' : ℤ}
    (h : p + r ≤ p' + r') : overageInr plan p r ≤ overageInr plan p' r' := by
  simp only [overageInr, splitOverage, overageRungs, hone, List.map_cons, List.map_nil,
    List.sum_cons, List.sum_nil, add_zero]
  apply lineAmount_mono
  omega

/-- **More minutes on either rung never lower the overage.** -/
theorem overageInr_mono (plan : Plan) {p r p' r' : ℤ} (hp0 : 0 ≤ p) (hr0 : 0 ≤ r) (hp : p ≤ p')
    (hr : r ≤ r') : overageInr plan p r ≤ overageInr plan p' r' := by
  cases hv : plan.rateValue with
  | none => exact overageInr_mono_of_single hv (by omega)
  | some second =>
    simp only [overageInr, splitOverage, overageRungs, hv, List.map_cons, List.map_nil,
      List.sum_cons, List.sum_nil, add_zero]
    -- whichever rung is dearer, both rungs' own overage rises with both of the minutes
    split
    · apply add_le_add <;> apply lineAmount_mono <;> omega
    · apply add_le_add <;> apply lineAmount_mono <;> omega

/-- What a plan charges for so many surcharged minutes. -/
def surchargeInr (plan : Plan) (minutes : ℤ) : ℤ :=
  match plan.llmSurcharge with
  | none => 0
  | some rate => if rate.ticks = 0 then 0 else lineAmount minutes rate

theorem surchargeInr_mono (plan : Plan) {m m' : ℤ} (h : m ≤ m') :
    surchargeInr plan m ≤ surchargeInr plan m' := by
  unfold surchargeInr
  split
  · exact le_refl _
  · split
    · exact le_refl _
    · exact lineAmount_mono _ h

/-! ## The figures of a month -/

/-- The rung a plan's base rate prices. -/
def onBase (rung : Rung) : Bool := rung = .premium

/-- The models a plan's surcharge prices. -/
def onUpgrade (model : String) : Bool := model ≠ unsurchargedModel

/-- A month read off the rows, both ways. -/
structure MonthReads (month : MonthSeconds) (rows : List UsageRow) : Prop where
  byRung : Reads month.byRung Rung.all UsageRow.rung rows
  byModel : Reads month.byLlmModel (sortedKeys month.byLlmModel) UsageRow.modelBucket rows

/-- Unattributed minutes are priced with the second rung's. -/
theorem pricedOverage_three (plan : Plan) (premium value unattributed : ℤ) :
    (pricedOverage [(.premium, premium), (.value, value), (.unattributed, unattributed)]
      plan).totalInr = overageInr plan premium (value + unattributed) := by
  have hsum : minutesSum [(Rung.premium, premium), (Rung.value, value),
      (Rung.unattributed, unattributed)] = premium + (value + unattributed) := by
    simp [minutesSum]
  rw [overageInr, pricedOverage, hsum]
  rfl

theorem rungMinutes_prices {d : Partition Rung} {rows : List UsageRow}
    (h : Reads d Rung.all UsageRow.rung rows) (hfit : billedTotal rows < monthUnits) (plan : Plan) :
    ∃ minutes, rungMinutes d = some minutes ∧
      minutesSum minutes = ((billedTotal rows + 3000) / centUnits : ℕ) ∧
      (pricedOverage minutes plan).totalInr =
        overageInr plan (d.sideMinutes Rung.all onBase)
          (d.sideMinutes Rung.all fun rung => !onBase rung) := by
  have hfit' : d.total < monthUnits := by rwa [h.total]
  have hbase : d.sideMinutes Rung.all onBase = d.minutesOf Rung.all .premium := by
    simp [Partition.sideMinutes, Rung.all, onBase]
  have hrest : (d.sideMinutes Rung.all fun rung => !onBase rung) =
      d.minutesOf Rung.all .value + d.minutesOf Rung.all .unattributed := by
    simp [Partition.sideMinutes, Rung.all, onBase]
  have hsum := Partition.sum_minutesOf h.perm hfit'
  rw [h.total] at hsum
  refine ⟨_, Partition.minutesFromSeconds_eq h.perm hfit', ?_, ?_⟩
  · rw [← hsum, minutesSum, List.map_map]
    rfl
  · rw [hbase, hrest]
    exact pricedOverage_three plan _ _ _

/-- The minutes the surcharge is charged on are all those of the upgraded models. -/
theorem sum_positive (f : String → ℤ) (hf : ∀ model, 0 ≤ f model) (keys : List String) :
    minutesSum ((keys.map fun key => (key, f key)).filter fun m =>
      m.1 ≠ unsurchargedModel ∧ 0 < m.2) = ((keys.filter onUpgrade).map f).sum := by
  induction keys with
  | nil => rfl
  | cons key keys ih =>
    unfold minutesSum at ih ⊢
    have h0 := hf key
    by_cases hk : key = unsurchargedModel
    · simp [hk, onUpgrade] at ih ⊢
      exact ih
    · rcases h0.lt_or_eq with hpos | hzero
      · simp [hk, hpos, onUpgrade] at ih ⊢
        exact ih
      · simp [hk, ← hzero, onUpgrade] at ih ⊢
        exact ih

theorem llmModelMinutes_prices {d : Partition String} {rows : List UsageRow}
    (h : Reads d (sortedKeys d) UsageRow.modelBucket rows) (hfit : billedTotal rows < monthUnits)
    (plan : Plan) :
    ∃ minutes, llmModelMinutes d = some minutes ∧
      (pricedLlmSurcharge minutes plan.llmSurcharge).totalInr =
        surchargeInr plan (d.sideMinutes (sortedKeys d) onUpgrade) := by
  have hfit' : d.total < monthUnits := by rwa [h.total]
  refine ⟨_, Partition.minutesFromSeconds_eq h.perm hfit', ?_⟩
  unfold pricedLlmSurcharge surchargeInr
  cases plan.llmSurcharge with
  | none => rfl
  | some rate =>
    dsimp only
    split
    · rfl
    · rw [sum_positive _ (fun model => Partition.minutesOf_nonneg model)]
      rfl

/-- **The figures of a month**: its minutes, and the prices of its sides. -/
theorem pricedMonth_reads {month : MonthSeconds} {rows : List UsageRow} (h : MonthReads month rows)
    (hfit : billedTotal rows < monthUnits) (plan : Plan) :
    pricedMonth plan month = some
      { minutes := ((billedTotal rows + 3000) / centUnits : ℕ)
        overageInr := overageInr plan (month.byRung.sideMinutes Rung.all onBase)
          (month.byRung.sideMinutes Rung.all fun rung => !onBase rung)
        llmSurchargeInr := surchargeInr plan
          (month.byLlmModel.sideMinutes (sortedKeys month.byLlmModel) onUpgrade) } := by
  obtain ⟨byRung, hrung, hmin, hover⟩ := rungMinutes_prices h.byRung hfit plan
  obtain ⟨byModel, hmodel, hsur⟩ := llmModelMinutes_prices h.byModel hfit plan
  simp [pricedMonth, hrung, hmodel, hmin, hover, hsur]

theorem sortedKeys_perm (d : Partition String) : (sortedKeys d).Perm d.keys :=
  List.perm_insertionSort _ _

/-- The month as the ledger has it. -/
theorem rungSeconds_reads (rows : List UsageRow) : MonthReads (rungSeconds rows) rows where
  byRung :=
    { perm := List.Perm.refl _
      secs := rfl
      filed := fun row _ => by
        change row.rung ∈ Rung.all
        cases row.rung <;> decide }
  byModel :=
    { perm := sortedKeys_perm _
      secs := rfl
      filed := fun row hrow => by
        change row.modelBucket ∈ (unsurchargedModel :: rows.map UsageRow.modelBucket).dedup
        rw [List.mem_dedup]
        exact List.mem_cons_of_mem _ (List.mem_map_of_mem hrow) }

/-- Taking a call's seconds back gives the reading of the ledger before it. -/
theorem Reads.set_back {κ : Type} [DecidableEq κ] {d : Partition κ} {keys keys' : List κ}
    {bucket : UsageRow → κ} {rows : List UsageRow} {row : UsageRow}
    (h : Reads d keys bucket (rows ++ [row]))
    (hkeys : keys'.Perm (d.set (bucket row) (d.secs (bucket row) - row.billedSeconds)).keys) :
    Reads (d.set (bucket row) (d.secs (bucket row) - row.billedSeconds)) keys' bucket rows where
  perm := hkeys
  secs := by
    funext key
    change Function.update d.secs (bucket row) _ key = _
    rw [h.secs]
    by_cases hk : key = bucket row
    · subst hk
      rw [Function.update_self, bucketSeconds_snoc, if_pos rfl]
      omega
    · rw [Function.update_of_ne hk, bucketSeconds_snoc, if_neg (Ne.symm hk), add_zero]
  filed := by
    intro r hr
    have hmem := h.filed r (List.mem_append_left _ hr)
    change bucket r ∈ if _ then _ else _
    split
    · exact hmem
    · exact List.mem_append_left _ hmem

theorem without_reads (rows : List UsageRow) (row : UsageRow) :
    MonthReads ((rungSeconds (rows ++ [row])).without row.rung row.modelBucket row.billedSeconds)
      rows where
  byRung := by
    apply (rungSeconds_reads (rows ++ [row])).byRung.set_back
    have hmem : row.rung ∈ Rung.all := by cases row.rung <;> decide
    change List.Perm _ (if row.rung ∈ Rung.all then Rung.all else _)
    rw [if_pos hmem]
  byModel := (rungSeconds_reads (rows ++ [row])).byModel.set_back (sortedKeys_perm _)

/-! ## Two readings of the same rows -/

theorem Reads.held {κ : Type} [DecidableEq κ] {d : Partition κ} {keys : List κ}
    {bucket : UsageRow → κ} {rows : List UsageRow} (h : Reads d keys bucket rows) {key : κ}
    (hk : d.secs key ≠ 0) : key ∈ keys := by
  by_contra hnot
  apply hk
  rw [h.secs]
  apply bucketSeconds_eq_zero
  intro row hrow heq
  exact hnot (h.perm.mem_iff.mpr (heq ▸ h.filed row hrow))

/-- Sorted, the buckets that hold something are listed alike. -/
theorem held_sortedKeys {d d' : Partition String} {rows : List UsageRow}
    (h : Reads d (sortedKeys d) UsageRow.modelBucket rows)
    (h' : Reads d' (sortedKeys d') UsageRow.modelBucket rows) :
    ((sortedKeys d).filter fun key => d.secs key ≠ 0) =
      (sortedKeys d').filter fun key => d.secs key ≠ 0 := by
  have hsecs : d.secs = d'.secs := h.secs.trans h'.secs.symm
  have hperm : ((sortedKeys d).filter fun key => d.secs key ≠ 0).Perm
      ((sortedKeys d').filter fun key => d.secs key ≠ 0) := by
    rw [List.perm_ext_iff_of_nodup ((h.perm.nodup_iff.mpr d.nodup).filter _)
      ((h'.perm.nodup_iff.mpr d'.nodup).filter _)]
    intro key
    simp only [List.mem_filter, decide_eq_true_eq]
    exact ⟨fun hk => ⟨h'.held (hsecs ▸ hk.2), hk.2⟩, fun hk => ⟨h.held hk.2, hk.2⟩⟩
  have hsorted : ∀ e : Partition String, (sortedKeys e).Pairwise (· ≤ ·) :=
    fun e => List.pairwise_insertionSort _ e.keys
  exact hperm.eq_of_pairwise' ((hsorted d).filter _) ((hsorted d').filter _)

/-- **The rows decide a month's figures.** -/
theorem pricedMonth_congr {month month' : MonthSeconds} {rows : List UsageRow}
    (h : MonthReads month rows) (h' : MonthReads month' rows)
    (hfit : billedTotal rows < monthUnits) (plan : Plan) :
    pricedMonth plan month = pricedMonth plan month' := by
  have hrung := h.byRung.sideMinutes_congr h'.byRung hfit rfl
  have hmodel := h.byModel.sideMinutes_congr h'.byModel hfit (held_sortedKeys h.byModel h'.byModel)
  rw [pricedMonth_reads h hfit, pricedMonth_reads h' hfit, hrung, hrung, hmodel]

theorem Reads.reorder {κ : Type} [DecidableEq κ] {d : Partition κ} {keys : List κ}
    {bucket : UsageRow → κ} {rows rows' : List UsageRow} (h : Reads d keys bucket rows)
    (hrows : rows.Perm rows') : Reads d keys bucket rows' where
  perm := h.perm
  secs := by
    rw [h.secs]
    funext key
    exact ((hrows.filter _).map _).sum_eq
  filed := fun row hrow => h.filed row (hrows.mem_iff.mpr hrow)

theorem MonthReads.reorder {month : MonthSeconds} {rows rows' : List UsageRow}
    (h : MonthReads month rows) (hrows : rows.Perm rows') : MonthReads month rows' :=
  ⟨h.byRung.reorder hrows, h.byModel.reorder hrows⟩

/-! ## One call -/

/-- The two spellings of the surcharge rule put a call in the same bucket. -/
theorem llmBucket_eq (model source : Option String) :
    llmBucket model source = surchargedModel model source := by
  have hlisted : ∀ m, isSurchargeableLlmModel m = true ↔ m ∈ surchargedLlmModels := by
    intro m
    rw [surchargedLlmModels, List.mem_filter]
    refine ⟨fun h => ⟨?_, h⟩, fun h => h.2⟩
    by_contra hnot
    have hnone : llmModels.lookup m = none := by
      rw [List.lookup_eq_none_iff]
      intro p hp
      rw [bne_iff_ne]
      rintro rfl
      exact hnot (List.mem_map_of_mem hp)
    unfold isSurchargeableLlmModel at h
    split at h
    · exact absurd h (by decide)
    · rw [hnone] at h
      exact absurd h (by decide)
  cases source with
  | none => simp [llmBucket, llmSurchargeApplies, surchargedModel, clientChosenLlmSources]
  | some s =>
    simp only [llmBucket, llmSurchargeApplies, surchargedModel, Option.getD_some, ← hlisted,
      decide_eq_true_eq, and_comm]

/-- The figures of the month a list of rows makes. -/
def monthFigures (plan : Plan) (rows : List UsageRow) : MonthIncrement where
  minutes := ((billedTotal rows + 3000) / centUnits : ℕ)
  overageInr := overageInr plan ((rungSeconds rows).byRung.sideMinutes Rung.all onBase)
    ((rungSeconds rows).byRung.sideMinutes Rung.all fun rung => !onBase rung)
  llmSurchargeInr := surchargeInr plan
    ((rungSeconds rows).byLlmModel.sideMinutes (sortedKeys (rungSeconds rows).byLlmModel) onUpgrade)

theorem pricedMonth_eq (plan : Plan) {rows : List UsageRow} (hfit : billedTotal rows < monthUnits) :
    pricedMonth plan (rungSeconds rows) = some (monthFigures plan rows) :=
  pricedMonth_reads (rungSeconds_reads rows) hfit plan

/-- **A call's increment** is its month's figures, less those of the ledger before it. -/
theorem meterCall_eq (plan : Plan) {ledger : List UsageRow} {row : UsageRow}
    (hfit : billedTotal (ledger ++ [row]) < monthUnits) :
    meterCall plan ledger row = some
      { minutes := (monthFigures plan (ledger ++ [row])).minutes - (monthFigures plan ledger).minutes
        overageInr := (monthFigures plan (ledger ++ [row])).overageInr -
          (monthFigures plan ledger).overageInr
        llmSurchargeInr := (monthFigures plan (ledger ++ [row])).llmSurchargeInr -
          (monthFigures plan ledger).llmSurchargeInr } := by
  have hfit0 : billedTotal ledger < monthUnits := by
    rw [billedTotal_append] at hfit
    omega
  have hbefore : pricedMonth plan ((rungSeconds (ledger ++ [row])).without row.rung
      row.modelBucket row.billedSeconds) = some (monthFigures plan ledger) := by
    rw [pricedMonth_congr (without_reads ledger row) (rungSeconds_reads ledger) hfit0,
      pricedMonth_eq plan hfit0]
  rw [meterCall, monthIncrement, llmBucket_eq, ← UsageRow.modelBucket, ← UsageRow.billedSeconds,
    pricedMonth_eq plan hfit, hbefore]
  rfl

/-! ## A month of calls -/

/-- On one side at most are there calls that are not whole hundredths of a minute. -/
def OneSided {κ : Type} (bucket : UsageRow → κ) (side : κ → Bool) (rows : List UsageRow) : Prop :=
  (∀ row ∈ rows, side (bucket row) = true → centUnits ∣ row.billedSeconds) ∨
    ∀ row ∈ rows, side (bucket row) = false → centUnits ∣ row.billedSeconds

instance {κ : Type} (bucket : UsageRow → κ) (side : κ → Bool) (rows : List UsageRow) :
    Decidable (OneSided bucket side rows) :=
  inferInstanceAs (Decidable ((∀ row ∈ rows, _ → _) ∨ ∀ row ∈ rows, _ → _))

theorem OneSided.sub {κ : Type} {bucket : UsageRow → κ} {side : κ → Bool}
    {rows rows' : List UsageRow} (h : OneSided bucket side rows') (hsub : rows ⊆ rows') :
    OneSided bucket side rows :=
  h.imp (fun hw row hrow => hw row (hsub hrow)) (fun hw row hrow => hw row (hsub hrow))

theorem OneSided.mono {κ : Type} [DecidableEq κ] {d d' : Partition κ} {keys keys' : List κ}
    {bucket : UsageRow → κ} {side : κ → Bool} {rows : List UsageRow} {row : UsageRow}
    (hone : OneSided bucket side (rows ++ [row])) (h : Reads d keys bucket rows)
    (h' : Reads d' keys' bucket (rows ++ [row])) (hfit : billedTotal (rows ++ [row]) < monthUnits) :
    d.sideMinutes keys side ≤ d'.sideMinutes keys' side ∧
      d.sideMinutes keys (fun key => !side key) ≤ d'.sideMinutes keys' (fun key => !side key) := by
  rcases hone with hw | hw
  · apply h.sideMinutes_mono h' hfit
    intro r hr
    obtain ⟨hmem, hs⟩ := List.mem_filter.mp hr
    exact hw r hmem hs
  · have hnot := h.sideMinutes_mono h' hfit (fun r hr => by
      obtain ⟨hmem, hs⟩ := List.mem_filter.mp hr
      exact hw r hmem (by simpa using hs) : ∀ r ∈ sideRows bucket (fun key => !side key) _, _)
    simp only [Bool.not_not] at hnot
    exact ⟨hnot.2, hnot.1⟩

/-- The plan charges something for a surcharged minute. -/
def Plan.Surcharges (plan : Plan) : Prop := ∃ rate ∈ plan.llmSurcharge, rate.ticks ≠ 0

/-- **On every axis the plan prices two ways, the calls that are not whole hundredths of a
minute lie on one side.** -/
def PricedOneSided (plan : Plan) (rows : List UsageRow) : Prop :=
  (plan.rateValue ≠ none → OneSided UsageRow.rung onBase rows) ∧
    (plan.Surcharges → OneSided UsageRow.modelBucket onUpgrade rows)

theorem PricedOneSided.sub {plan : Plan} {rows rows' : List UsageRow}
    (h : PricedOneSided plan rows') (hsub : rows ⊆ rows') : PricedOneSided plan rows :=
  ⟨fun hr => (h.1 hr).sub hsub, fun hs => (h.2 hs).sub hsub⟩

/-- **One more call**: the month's minutes never fall, and its prices do not either unless
fractions of a hundredth lie on both sides of one. -/
theorem monthFigures_mono (plan : Plan) {ledger : List UsageRow} {row : UsageRow}
    (hfit : billedTotal (ledger ++ [row]) < monthUnits)
    (hone : PricedOneSided plan (ledger ++ [row])) :
    (monthFigures plan ledger).overageInr ≤ (monthFigures plan (ledger ++ [row])).overageInr ∧
      (monthFigures plan ledger).llmSurchargeInr ≤
        (monthFigures plan (ledger ++ [row])).llmSurchargeInr := by
  have hfit0 : billedTotal ledger < monthUnits := by
    rw [billedTotal_append] at hfit
    omega
  have hbefore := rungSeconds_reads ledger
  have hafter := rungSeconds_reads (ledger ++ [row])
  constructor
  · by_cases hr : plan.rateValue = none
    · apply overageInr_mono_of_single hr
      rw [Partition.sideMinutes_add_not hbefore.byRung.perm (by rwa [hbefore.byRung.total]),
        Partition.sideMinutes_add_not hafter.byRung.perm (by rwa [hafter.byRung.total]),
        hbefore.byRung.total, hafter.byRung.total, billedTotal_append]
      exact_mod_cast Nat.div_le_div_right (by omega)
    · obtain ⟨hbase, hrest⟩ := (hone.1 hr).mono hbefore.byRung hafter.byRung hfit
      exact overageInr_mono plan (Partition.sideMinutes_nonneg _) (Partition.sideMinutes_nonneg _)
        hbase hrest
  · by_cases hs : plan.Surcharges
    · have hup := ((hone.2 hs).mono hbefore.byModel hafter.byModel hfit).1
      exact surchargeInr_mono plan hup
    · have hfree : ∀ m, surchargeInr plan m = 0 := by
        intro m
        unfold surchargeInr
        split
        · rfl
        · rename_i rate hrate
          rw [if_pos (by_contra fun h => hs ⟨rate, hrate, h⟩)]
      rw [monthFigures, monthFigures, hfree, hfree]

/-- **The increments of a run of calls** add to the difference of the months at its two
ends. -/
theorem meterCalls_telescope (plan : Plan) (calls ledger : List UsageRow)
    (hfit : billedTotal (ledger ++ calls) < monthUnits) :
    ∃ increments, meterCalls plan ledger calls = some increments ∧
      (increments.map MonthIncrement.overageInr).sum =
        (monthFigures plan (ledger ++ calls)).overageInr - (monthFigures plan ledger).overageInr ∧
      (increments.map MonthIncrement.llmSurchargeInr).sum =
        (monthFigures plan (ledger ++ calls)).llmSurchargeInr -
          (monthFigures plan ledger).llmSurchargeInr ∧
      (PricedOneSided plan (ledger ++ calls) →
        ∀ increment ∈ increments, 0 ≤ increment.overageInr ∧ 0 ≤ increment.llmSurchargeInr) := by
  -- along the calls, the ledger growing by one at a time
  induction calls generalizing ledger with
  | nil => exact ⟨[], rfl, by simp, by simp, by simp⟩
  | cons row calls ih =>
    have happ : ledger ++ row :: calls = ledger ++ [row] ++ calls := by simp
    rw [happ] at hfit ⊢
    obtain ⟨increments, hmeter, hover, hsur, hnonneg⟩ := ih (ledger ++ [row]) hfit
    have hfit1 : billedTotal (ledger ++ [row]) < monthUnits := by
      rw [billedTotal_append] at hfit
      omega
    have hcall := meterCall_eq plan hfit1
    refine ⟨_, by rw [meterCalls, hcall, hmeter]; rfl, ?_, ?_, ?_⟩
    · rw [List.map_cons, List.sum_cons, hover]
      ring
    · rw [List.map_cons, List.sum_cons, hsur]
      ring
    · intro hone increment hmem
      rcases List.mem_cons.mp hmem with rfl | hrest
      · obtain ⟨ho, hs⟩ := monthFigures_mono plan hfit1
          (hone.sub fun _ hr => List.mem_append_left calls hr)
        exact ⟨sub_nonneg.mpr ho, sub_nonneg.mpr hs⟩
      · exact hnonneg hone increment hrest

/-- Nothing is owed for a month without calls. -/
theorem monthFigures_nil (plan : Plan) :
    (monthFigures plan []).overageInr = 0 ∧ (monthFigures plan []).llmSurchargeInr = 0 := by
  have hfit : billedTotal [] < monthUnits := by decide
  have hreads := rungSeconds_reads []
  have hzero : ∀ {κ : Type} [DecidableEq κ] {d : Partition κ} {keys : List κ}
      {bucket : UsageRow → κ} (side : κ → Bool), Reads d keys bucket [] →
        d.sideMinutes keys side = 0 := by
    intro κ _ d keys bucket side h
    rw [h.sideMinutes_whole hfit (by simp [sideRows])]
    simp [sideRows, billedTotal]
  have hrung := fun side => hzero side hreads.byRung
  have hmodel := fun side => hzero side hreads.byModel
  constructor
  · rw [monthFigures, hrung, hrung]
    unfold overageInr splitOverage overageRungs
    cases plan.rateValue with
    | none => simp
    | some second =>
      have hin : (0 : ℤ) ≤ 100 * plan.includedMin := by positivity
      simp [hin]
  · rw [monthFigures, hmodel]
    unfold surchargeInr
    split
    · rfl
    · split
      · rfl
      · exact lineAmount_zero _

/-- **Metered increments telescope.** For every plan, the calls of a month below
`monthUnits`, metered one at a time in any order, are all answered, and their increments
add to what the month's own totals are priced at. Where on each axis the plan prices two
ways the calls that are not whole hundredths of a minute lie on one side, no increment is
negative. -/
theorem metered_month (plan : Plan) (calls order : List UsageRow) (horder : order.Perm calls)
    (hfit : billedTotal calls < monthUnits) :
    ∃ increments month, meterCalls plan [] order = some increments ∧
      pricedMonth plan (rungSeconds calls) = some month ∧
      (increments.map MonthIncrement.overageInr).sum = month.overageInr ∧
      (increments.map MonthIncrement.llmSurchargeInr).sum = month.llmSurchargeInr ∧
      (PricedOneSided plan calls →
        ∀ increment ∈ increments, 0 ≤ increment.overageInr ∧ 0 ≤ increment.llmSurchargeInr) := by
  have hfit' : billedTotal order < monthUnits := by
    rwa [billedTotal, (horder.map UsageRow.billedSeconds).sum_eq]
  obtain ⟨increments, hmeter, hover, hsur, hnonneg⟩ := meterCalls_telescope plan order [] hfit'
  obtain ⟨hover0, hsur0⟩ := monthFigures_nil plan
  have hmonth : pricedMonth plan (rungSeconds calls) = some (monthFigures plan order) := by
    rw [pricedMonth_congr ((rungSeconds_reads calls).reorder horder.symm) (rungSeconds_reads order)
      hfit', pricedMonth_eq plan hfit']
  refine ⟨increments, monthFigures plan order, hmeter, hmonth, ?_, ?_, ?_⟩
  · rw [hover, hover0, sub_zero, List.nil_append]
  · rw [hsur, hsur0, sub_zero, List.nil_append]
  · intro hone
    exact hnonneg (hone.sub fun _ hr => horder.mem_iff.mp hr)

/-- A plan of five hundred minutes at ₹8, ₹2 a minute more on an upgraded model. -/
def upgradePlan : Plan where
  includedMin := 500
  rate := ⟨80000, by norm_num⟩
  rateValue := none
  llmSurcharge := some ⟨20000, by norm_num⟩

/-- A call of whole seconds, on a model the client chose or on the plan's own. -/
def callOf (model : Option String) (seconds endedAt : ℕ) : UsageRow where
  ttsTier := some "premium"
  llmModel := model
  llmModelSource := some "agent"
  qty := seconds * secondUnits
  occurredAt := endedAt * Calendar.second

/-- Two calls billed in thirty-second steps, metered out of order. -/
theorem pulsedMonth_telescopes :
    ∃ increments month,
      meterCalls upgradePlan []
        [callOf none 31 1791311500, callOf (some "gpt-4.1-mini") 4 1791311400] = some increments ∧
      pricedMonth upgradePlan (rungSeconds
        [callOf (some "gpt-4.1-mini") 4 1791311400, callOf none 31 1791311500]) = some month ∧
      (increments.map MonthIncrement.overageInr).sum = month.overageInr ∧
      (increments.map MonthIncrement.llmSurchargeInr).sum = month.llmSurchargeInr ∧
      ∀ increment ∈ increments, 0 ≤ increment.overageInr ∧ 0 ≤ increment.llmSurchargeInr := by
  obtain ⟨increments, month, hmeter, hmonth, hover, hsur, hnonneg⟩ :=
    metered_month upgradePlan
      [callOf (some "gpt-4.1-mini") 4 1791311400, callOf none 31 1791311500]
      [callOf none 31 1791311500, callOf (some "gpt-4.1-mini") 4 1791311400]
      (List.Perm.swap _ _ _) (by decide +kernel)
  refine ⟨increments, month, hmeter, hmonth, hover, hsur, hnonneg ⟨fun _ => ?_, fun _ => ?_⟩⟩
  · decide +kernel
  · decide +kernel

/-- **Fractions on both sides**: by the second, four seconds on the upgraded model and twice
two on the plan's own leave the upgraded model with less than it was charged for, and the
third call's increment is below zero. -/
theorem bySecond_surcharge_falls :
    ∃ increments,
      meterCalls upgradePlan []
        [callOf (some "gpt-4.1-mini") 4 1791000000, callOf none 2 1791000100,
          callOf none 2 1791000200] = some increments ∧
      ¬ ∀ increment ∈ increments, 0 ≤ increment.overageInr ∧ 0 ≤ increment.llmSurchargeInr := by
  refine ⟨[⟨7, 0, 1400⟩, ⟨3, 0, 0⟩, ⟨3, 0, -200⟩], ?_, ?_⟩
  · decide +kernel
  · decide

end Calevate.Billing
