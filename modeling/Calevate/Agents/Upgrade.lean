import Calevate.Agents.CallScript
import Calevate.Lib.Reference
import Mathlib.Data.List.Nodup

/-!
# Upgraded scripts

A script of the first version, in the sections of the second, for the builder to open: its steps
are stages, its further rules for the end of the call are the ending. The opening of the calls an
agent places is not carried over, and an ending holds a thousand characters: an upgrade keeps the
author's words exactly where there is no such opening and the rules fit.
-/

namespace Calevate.Agents

open Lib.Text
open Lib.ClockText (strip isSpace)

/-! ## Stored scripts -/

/-- `ScriptVariable`. -/
structure ScriptVariable where
  key : Text
  label : Text
  exampleValue : Text
  deriving DecidableEq, Repr

/-- A script as the author left it: structured, or one text of the author's own. -/
structure AuthoredScript extends CallScript where
  scriptVariables : List ScriptVariable
  rawOverride : Option Text

/-- `MAX_SCRIPT_STAGES`. -/
def maxScriptStages : ℕ := 12

/-- `STAGE_DETAIL_MAX`. -/
def stageDetailMax : ℕ := 600

/-- The bound of `ending`. -/
def endingMax : ℕ := 1000

/-- The stage a step of the first version turns into. -/
def stageOfStep (instruction : Text) (i : ℕ) : ConversationStage where
  id := 's' :: (toString i).toList
  name := "Step ".toList ++ (toString i).toList
  mode := .guide
  instruction := instruction
  soundsLike := []
  branches := []
  otherwise := []
  collect := []
  procedure := []

namespace AuthoredScript

variable (script : AuthoredScript)

/-- `is_raw`. -/
def isRaw : Bool := script.rawOverride.isSome

/-- More or longer steps than stages hold. -/
def StepsOutgrowStages : Prop :=
  maxScriptStages < script.steps.length ∨ ∃ step ∈ script.steps, stageDetailMax < step.length

instance : Decidable script.StepsOutgrowStages :=
  inferInstanceAs (Decidable (_ ∨ _))

/-- The stages of the steps. -/
def stagesOfSteps : List ConversationStage :=
  (((script.steps.take maxScriptStages).zipIdx 1).filter fun (step, _) => strip step ≠ []).map
    fun (step, i) => stageOfStep step i

/-- The script in the sections of the second version; what it does not name is as a new script
has it. -/
def converted : AuthoredScript where
  openingLine := script.openingLine
  outboundOpeningLine := []
  openingNotices := ⟨[], [], []⟩
  outboundOpeningNotices := ⟨[], [], []⟩
  steps := []
  faqs := script.faqs
  faqFallback := []
  endCallExtraRules := []
  schemaVersion := .v2
  businessLine := []
  identity := []
  goal := []
  outboundPurpose := []
  style := ⟨[], [], .natural, [], []⟩
  stages := script.stagesOfSteps
  objections := []
  policies := ⟨true, true, true⟩
  ending := (unwords script.endCallExtraRules).take endingMax
  exampleExchange := []
  adherence := .flexible
  rules := List.forall_mem_nil _
  scriptVariables := script.scriptVariables
  rawOverride := none

end AuthoredScript

/-- **`upgrade_to_v2`**. -/
def upgradeToV2 (script : AuthoredScript) : AuthoredScript :=
  if script.isRaw ∨ script.schemaVersion = .v2 then script
  else if script.StepsOutgrowStages then script
  else script.converted

/-! ## Words kept -/

/-- The upgraded script holds what the author wrote, word for word. -/
structure KeepsWords (script upgraded : AuthoredScript) : Prop where
  version : upgraded.schemaVersion = .v2
  opening : upgraded.openingLine = script.openingLine
  outboundOpening : strip script.outboundOpeningLine ≠ [] →
    upgraded.outboundOpeningLine = script.outboundOpeningLine
  steps : upgraded.stages.map (·.instruction) = script.steps.filter (strip · ≠ [])
  faqs : upgraded.faqs = script.faqs
  scriptVariables : upgraded.scriptVariables = script.scriptVariables
  endRules : words upgraded.ending = script.endCallExtraRules.flatMap words

/-- The stages carry the instructions of the steps that have one, in order. -/
theorem instruction_stagesOfSteps (script : AuthoredScript)
    (h : ¬ script.StepsOutgrowStages) :
    script.stagesOfSteps.map (·.instruction) = script.steps.filter (strip · ≠ []) := by
  have hcount : script.steps.length ≤ maxScriptStages :=
    Nat.le_of_not_lt fun hlt => h (.inl hlt)
  have hinstruction : ∀ pairs : List (Text × ℕ),
      ((pairs.filter fun (step, _) => strip step ≠ []).map
        fun (step, i) => (stageOfStep step i).instruction) =
      (pairs.map Prod.fst).filter (strip · ≠ []) := by
    intro pairs
    rw [List.filter_map]
    rfl
  unfold AuthoredScript.stagesOfSteps
  rw [List.map_map, List.take_of_length_le hcount]
  refine (hinstruction _).trans ?_
  rw [List.zipIdx_map_fst]

/-! ## A conversion is never refused -/

/-! ## Words lost -/

/-- No rule for the end of the call ends in white space. -/
theorem getLast?_unwords_rules (script : AuthoredScript) (h : script.endCallExtraRules ≠ []) :
    ∃ c, (unwords script.endCallExtraRules).getLast? = some c ∧ isSpace c = false := by
  obtain ⟨before, last, hrules⟩ := (List.eq_nil_or_concat _).resolve_left h
  obtain ⟨hne, hstrip, -⟩ := script.rules last (by rw [hrules]; simp)
  obtain ⟨c, hc⟩ := Option.isSome_iff_exists.mp (List.getLast?_isSome.mpr hne)
  refine ⟨c, by rw [hrules, List.concat_eq_append, getLast?_unwords before hne, hc], ?_⟩
  exact (hstrip ▸ tight_strip last).2 c hc

/-- An ending holds the rules exactly where they fit in it. -/
theorem words_ending_iff (script : AuthoredScript) :
    words ((unwords script.endCallExtraRules).take endingMax) =
        script.endCallExtraRules.flatMap words ↔
      (unwords script.endCallExtraRules).length ≤ endingMax := by
  rw [← words_unwords]
  constructor
  · intro hwords
    by_contra hlong
    have hsome : script.endCallExtraRules ≠ [] := by
      intro hnone
      rw [hnone] at hlong
      exact hlong (Nat.zero_le _)
    obtain ⟨c, hlast, hc⟩ := getLast?_unwords_rules script hsome
    exact words_take_ne hlast hc (Nat.lt_of_not_le hlong) hwords
  · intro hfits
    rw [List.take_of_length_le hfits]

/-- A converted script keeps the author's words exactly where nothing of them is left out. -/
theorem converted_keepsWords_iff (script : AuthoredScript) (h : ¬ script.StepsOutgrowStages) :
    KeepsWords script script.converted ↔
      strip script.outboundOpeningLine = [] ∧
        (unwords script.endCallExtraRules).length ≤ endingMax := by
  constructor
  · intro hkeeps
    refine ⟨?_, (words_ending_iff script).mp hkeeps.endRules⟩
    by_contra hopening
    -- The converted script has no opening of placed calls, and an empty one is blank.
    exact hopening ((hkeeps.outboundOpening hopening) ▸ rfl)
  · rintro ⟨hopening, hfits⟩
    exact {
      version := rfl
      opening := rfl
      outboundOpening := fun hwritten => absurd hopening hwritten
      steps := instruction_stagesOfSteps script h
      faqs := rfl
      scriptVariables := rfl
      endRules := (words_ending_iff script).mpr hfits }

/-- **An upgrade keeps the author's words exactly where no opening of placed calls is written
and the rules for the end of the call fit in an ending**, or where it leaves the script alone. -/
theorem upgradeToV2_keepsWords_iff (script : AuthoredScript) (hraw : script.isRaw = false)
    (hversion : script.schemaVersion = .v1) :
    (upgradeToV2 script = script ∨ KeepsWords script (upgradeToV2 script)) ↔
      (script.StepsOutgrowStages ∨
        strip script.outboundOpeningLine = [] ∧
          (unwords script.endCallExtraRules).length ≤ endingMax) := by
  have hstructured : ¬ (script.isRaw = true ∨ script.schemaVersion = .v2) := by
    rw [hraw, hversion]
    simp
  unfold upgradeToV2
  rw [if_neg hstructured]
  by_cases hsteps : script.StepsOutgrowStages
  · rw [if_pos hsteps]
    exact iff_of_true (.inl rfl) (.inl hsteps)
  · rw [if_neg hsteps, converted_keepsWords_iff script hsteps]
    have hother : script.converted ≠ script := by
      intro heq
      have hv2 : script.schemaVersion = .v2 := heq ▸ rfl
      rw [hversion] at hv2
      cases hv2
    rw [or_iff_right hother, or_iff_right hsteps]

theorem thankRule_written : ∀ rule ∈ ["Thank them.".toList], OneRule rule := by
  intro rule hrule
  rw [List.mem_singleton] at hrule
  subst hrule
  have hbreaks : "Thank them.".toList.all (fun c => !isBreak c) = true := by decide
  refine ⟨by decide, by decide, ?_⟩
  intro c hc
  simpa using List.all_eq_true.mp hbreaks c hc

/-- A script for an agent that answers and places calls. -/
def bookingsScript : AuthoredScript where
  openingLine := "Namaste, Sunrise Clinic.".toList
  outboundOpeningLine := "Namaste, Sunrise Clinic here, about your booking.".toList
  openingNotices := ⟨[], [], []⟩
  outboundOpeningNotices := ⟨[], [], []⟩
  steps := ["Ask what the caller needs.".toList, "Offer a time.".toList]
  faqs := [⟨"Where are you?".toList, "Near the bus stand.".toList⟩]
  faqFallback := []
  endCallExtraRules := ["Thank them.".toList]
  schemaVersion := .v1
  businessLine := []
  identity := []
  goal := []
  outboundPurpose := []
  style := ⟨[], [], .natural, [], []⟩
  stages := []
  objections := []
  policies := ⟨true, true, true⟩
  ending := []
  exampleExchange := []
  adherence := .flexible
  rules := thankRule_written
  scriptVariables := [⟨"lead_name".toList, "Caller's name".toList, []⟩]
  rawOverride := none

theorem upgradeToV2_keepsWords_iff_bookings :
    (upgradeToV2 bookingsScript = bookingsScript ∨
        KeepsWords bookingsScript (upgradeToV2 bookingsScript)) ↔
      (bookingsScript.StepsOutgrowStages ∨
        strip bookingsScript.outboundOpeningLine = [] ∧
          (unwords bookingsScript.endCallExtraRules).length ≤ endingMax) :=
  upgradeToV2_keepsWords_iff bookingsScript rfl rfl

/-- The opening of the calls the agent places is lost. -/
theorem bookingsScript_loses_opening :
    ¬ ∀ script : AuthoredScript, script.isRaw = false → script.schemaVersion = .v1 →
      (upgradeToV2 script = script ∨ KeepsWords script (upgradeToV2 script)) := by
  intro hall
  have hopening : strip bookingsScript.outboundOpeningLine ≠ [] := by decide
  have hconverted : upgradeToV2 bookingsScript = bookingsScript.converted := by
    have hfew : ¬ bookingsScript.StepsOutgrowStages := by decide
    exact (if_neg (by decide)).trans (if_neg hfew)
  obtain hsame | hkeeps := hall bookingsScript rfl rfl
  · have hversion : (upgradeToV2 bookingsScript).schemaVersion = .v1 := by rw [hsame]; rfl
    rw [hconverted] at hversion
    cases hversion
  · have hlost := hkeeps.outboundOpening hopening
    rw [hconverted] at hlost
    cases hlost

end Calevate.Agents
