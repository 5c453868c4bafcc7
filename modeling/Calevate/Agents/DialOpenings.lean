import Calevate.Agents.NoticesSaid

/-!
# Openings of a dial

The dial gate composes one opening of an agent and asks whether it says each notice switched
on: the answering opening with no name taken out. A call the agent places may carry another:
the name check of a known lead, the agent's own opening on calls it places, the test-call line,
or the answering opening with the sentences that say who is calling taken out. What the gate
accepts is said on the call unless the opening used says the recording in woven words alone and
its introduction takes them out, `dial_discloses_iff`.
-/

namespace Calevate.Agents

open Lib.Text
open Lib.ClockText (strip)

/-! ## Agents that dial -/

/-- The lines of a language's style row that only a dial uses. -/
structure DialWords extends CallWords where
  /-- The row's opening under `NAME_CHECK_KEY`. -/
  nameChecks : Text → Option Text
  /-- `opening_in(tag, "test_call", introduced=…)`. -/
  testCallIn : Text → Bool → Option Text

/-- What a row of `agents` has for its first words. -/
structure AgentRow where
  name : Text
  direction : Direction
  businessName : Text
  languagePrimary : Text
  prompt : Text
  posture : DisclosurePosture
  deriving DecidableEq, Repr

/-- `_to_config`: the config an agent is published with. -/
def AgentRow.toConfig (agent : AgentRow) (callIsRecorded : Bool) : AgentConfig where
  name := agent.name
  direction := agent.direction
  business := agent.businessName
  languagePrimary := agent.languagePrimary
  systemPrompt := agent.prompt
  openingLine := agent.posture.composeOpeningLine callIsRecorded
  aiNotice := agent.posture.spokenAiNotice

namespace CallWords

variable (w : CallWords) (agent : AgentRow) (callIsRecorded : Bool)

/-- **`_first_words_disclose`**. -/
def RowDiscloses : Prop :=
  let openingLine := agent.posture.composeOpeningLine callIsRecorded
  let aiNotice := agent.posture.spokenAiNotice
  let said := w.saidNotices agent.prompt agent.businessName false
  FirstWordsDisclose
    (w.joinFirstWords openingLine
      (w.saidAsTaught (openingLineOf agent.prompt) agent.prompt agent.businessName) aiNotice
      agent.languagePrimary [] said)
    aiNotice (strip (removeLead aiNotice openingLine)) said

instance : Decidable (w.RowDiscloses agent callIsRecorded) :=
  inferInstanceAs (Decidable (FirstWordsDisclose _ _ _ _))

end CallWords

/-! ## The first words of a dial -/

namespace DialWords

variable (w : DialWords)

/-- `name_check_in`. -/
def nameCheckIn (tag : Text) : Option Text :=
  let line := strip ((w.nameChecks tag).getD [])
  if line = [] then none else some line

/-- `trial_call_opening`. -/
def trialCallOpening (tag name business : Text) (introduced : Bool) : Option Text :=
  (w.testCallIn tag introduced).map fun template =>
    flat (replaceFrom "\x7bbusiness\x7d".toList business 0
      (replaceFrom "\x7bname\x7d".toList name 0 template))

/-- **`named_lead_opening`**. -/
def namedLeadOpening (opening language : Text) (introduced : Bool) : Option Text :=
  match w.nameCheckIn language with
  | none => none
  | some check =>
    if strip opening = [] then none
    else
      let question :=
        replaceFrom "\x7bname\x7d".toList "\x7b\x7blead_name\x7d\x7d".toList 0 check
      if introduced then
        -- the reason before the question stays
        let kept := (sentences (strip opening)).filter fun s => s.getLast? ≠ some '?'
        some (unwords (kept ++ [question]))
      else
        let rest := w.withoutGreeting opening
        let greeting :=
          strip ((strip opening).take ((strip opening).length - rest.length))
        some (spoken [greeting, question])

variable (agent : AgentRow) (callIsRecorded : Bool)

/-- The agent's AI sentence opens its calls as an introduction. -/
def introduces : Bool :=
  w.introducesItself agent.posture.spokenAiNotice agent.languagePrimary

/-- The test-call line of an agent that only answers, as it is spoken. -/
def trialLine : Option Text :=
  if agent.direction ≠ .inbound then none
  else
    (w.trialCallOpening agent.languagePrimary agent.name agent.businessName
      (w.introduces agent)).map fun line =>
        w.saidAsTaught line agent.prompt agent.businessName

/-- **`trial_call_first_words`**. -/
def trialCallFirstWords : Option Text :=
  (w.trialLine agent).map fun line =>
    w.joinFirstWords (agent.posture.composeOpeningLine callIsRecorded) line
      agent.posture.spokenAiNotice agent.languagePrimary [] .none

/-- The line an agent opens the calls it places with, as it is spoken. -/
def placedLine : Text :=
  if agent.direction = .both then
    w.placedCallLine agent.prompt agent.languagePrimary agent.businessName
      agent.posture.spokenAiNotice
  else w.saidAsTaught (openingLineOf agent.prompt) agent.prompt agent.businessName

/-- The opening with the name check of an agent that calls leads. -/
def namedLine : Option Text :=
  if agent.direction = .inbound then none
  else w.namedLeadOpening (w.placedLine agent) agent.languagePrimary (w.introduces agent)

/-- **`lead_first_words`**. -/
def leadFirstWords : Option Text :=
  (w.namedLine agent).map fun named =>
    w.joinFirstWords (agent.posture.composeOpeningLine callIsRecorded) named
      agent.posture.spokenAiNotice agent.languagePrimary
      (w.introductionNames agent.name [] agent.prompt)
      (w.saidNotices agent.prompt agent.businessName (agent.direction = .both))

variable (testCall : Bool) (leadName : Option Text)

/-- The lead's name is known, and this is no test call. -/
def checksName : Bool := leadName.any (strip · ≠ []) && !testCall

/-- **`dial_first_words`**. -/
def dialFirstWords : Option Text :=
  let named :=
    if checksName testCall leadName then w.leadFirstWords agent callIsRecorded else none
  match named with
  | some firstWords => some firstWords
  | none =>
    if agent.direction = .both then
      some (w.placedCallFirstWords agent.prompt
        (agent.posture.composeOpeningLine callIsRecorded) agent.posture.spokenAiNotice
        agent.languagePrimary agent.businessName agent.name)
    else if testCall then w.trialCallFirstWords agent callIsRecorded
    else none

/-- The first words a dial carries: its own, else the greeting of the published config. -/
def carriedFirstWords : Text :=
  (w.dialFirstWords agent callIsRecorded testCall leadName).getD
    (w.composeFirstUtterance (agent.toConfig callIsRecorded))

/-! ## The opening used -/

/-- An opening line with the names its introduction says and the record of its notices. -/
structure Opening where
  line : Text
  names : List Text
  said : SaidNotices

/-- The opening line a dial uses. -/
def openingUsed : Opening :=
  let placed := agent.direction = .both
  let named := if checksName testCall leadName then w.namedLine agent else none
  let trial := if testCall then w.trialLine agent else none
  match named with
  | some line =>
    ⟨line, w.introductionNames agent.name [] agent.prompt,
      w.saidNotices agent.prompt agent.businessName placed⟩
  | none =>
    if placed then
      ⟨w.placedLine agent, w.introductionNames agent.name [] agent.prompt,
        w.saidNotices agent.prompt agent.businessName true⟩
    else
      match trial with
      | some line => ⟨line, [], .none⟩
      | none =>
        ⟨w.answeredLine (agent.toConfig callIsRecorded),
          w.answeredNames (agent.toConfig callIsRecorded),
          w.saidNotices agent.prompt agent.businessName false⟩

/-- A dial's first words are its opening joined to the notices. -/
theorem carriedFirstWords_eq :
    w.carriedFirstWords agent callIsRecorded testCall leadName =
      w.joinFirstWords (agent.posture.composeOpeningLine callIsRecorded)
        (w.openingUsed agent callIsRecorded testCall leadName).line agent.posture.spokenAiNotice
        agent.languagePrimary (w.openingUsed agent callIsRecorded testCall leadName).names
        (w.openingUsed agent callIsRecorded testCall leadName).said := by
  unfold carriedFirstWords dialFirstWords openingUsed leadFirstWords trialCallFirstWords
  by_cases hboth : agent.direction = .both
  · cases checksName testCall leadName <;> cases w.namedLine agent <;>
      simp [hboth, CallWords.placedCallFirstWords, placedLine]
  · cases checksName testCall leadName <;> cases w.namedLine agent <;> cases testCall <;>
      cases w.trialLine agent <;>
        simp [hboth, CallWords.composeFirstUtterance, AgentRow.toConfig]

/-! ## What the gate knows of a dial -/

/-- The gate accepts an agent unless the recording notice is in woven words of the greeting its
introduction takes the place of. -/
theorem rowDiscloses_iff :
    w.RowDiscloses agent callIsRecorded ↔
      ¬ w.LosesRecording agent.posture callIsRecorded
        (w.saidAsTaught (openingLineOf agent.prompt) agent.prompt agent.businessName)
        agent.languagePrimary [] (w.saidNotices agent.prompt agent.businessName false) := by
  have hrecording : strip (removeLead agent.posture.spokenAiNotice
      (agent.posture.composeOpeningLine callIsRecorded)) =
        agent.posture.spokenRecordingNotice callIsRecorded :=
    (removeLead_spoken_pair _ (agent.posture.tight_spokenRecordingNotice callIsRecorded)).2
  unfold CallWords.RowDiscloses
  dsimp only
  rw [hrecording]
  exact w.joinFirstWords_disclose agent.posture callIsRecorded _ _ _ _

/-- A line nothing was woven into loses no notice. -/
theorem not_losesRecording_none (posture : DisclosurePosture) (opening language : Text)
    (names : List Text) :
    ¬ w.LosesRecording posture callIsRecorded opening language names .none :=
  fun hlost => hlost.woven.1 rfl

/-- A test call says the notices switched on. -/
theorem trialCallFirstWords_disclose {firstWords : Text}
    (h : w.trialCallFirstWords agent callIsRecorded = some firstWords) :
    FirstWordsDisclose firstWords agent.posture.spokenAiNotice
      (agent.posture.spokenRecordingNotice callIsRecorded) .none := by
  obtain ⟨line, -, rfl⟩ := Option.map_eq_some_iff.mp h
  exact (w.joinFirstWords_disclose agent.posture callIsRecorded line agent.languagePrimary []
    .none).mpr (w.not_losesRecording_none callIsRecorded _ _ _ _)

/-- A plain dial of an agent that does not both call and answer carries the published greeting. -/
theorem carriedFirstWords_plain (h : ¬ agent.direction = .both) :
    w.carriedFirstWords agent callIsRecorded false none =
      w.composeFirstUtterance (agent.toConfig callIsRecorded) := by
  simp [carriedFirstWords, dialFirstWords, checksName, h]

theorem openingUsed_plain_said (h : ¬ agent.direction = .both) :
    (w.openingUsed agent callIsRecorded false none).said =
      w.saidNotices agent.prompt agent.businessName false := by
  simp [openingUsed, checksName, h]

end DialWords

/-! ## A notice the gate passes and the call leaves out -/

def hindiDialWords : DialWords := { hindiWords with
  nameChecks := fun _ => none
  testCallIn := fun _ _ => none }

/-- Anjali of Sunrise, who calls leads and says in one sentence her name and that the call is
recorded. -/
def hindiCaller : AgentRow where
  name := "Anjali".toList
  direction := .outbound
  businessName := "Sunrise".toList
  languagePrimary := "hi-IN".toList
  prompt :=
    "[OPENING]\nमैं Anjali हूँ और यह कॉल रिकॉर्ड करती हूँ। क्या अभी बात हो सकती है?\n\n".toList ++
    "[NOTICES IN YOUR OPENING]\n".toList ++
    "Your opening line tells the caller the call is recorded in these words: ".toList ++
    "यह कॉल रिकॉर्ड करती हूँ".toList
  posture := hindiPosture

theorem hindiDialWords_toCallWords : hindiDialWords.toCallWords = hindiWords := rfl

/-- Its prompt is read as its opening line and the words of its recording notice. -/
theorem hindiCaller_read :
    openingLineOf hindiCaller.prompt =
        "मैं Anjali हूँ और यह कॉल रिकॉर्ड करती हूँ। क्या अभी बात हो सकती है?".toList ∧
      saidNoticesOf hindiCaller.prompt false = ⟨[], "यह कॉल रिकॉर्ड करती हूँ".toList⟩ ∧
      pronunciationsOf hindiCaller.prompt = [] := by
  refine read_woven ?_ ?_ ?_ ?_
  · rewrite [String.toList_ofList]
    decide
  · rewrite [String.toList_ofList]
    decide
  · unfold pronounceLead
    repeat rewrite [String.toList_ofList]
    decide
  · unfold hindiCaller openingHeader noticesHeader recordingLead
    rw [if_neg Bool.false_ne_true]
    repeat rewrite [String.toList_ofList]
    rfl

theorem AgentRow.toConfig_openingLine (agent : AgentRow) (callIsRecorded : Bool) :
    (agent.toConfig callIsRecorded).openingLine =
      agent.posture.composeOpeningLine callIsRecorded := rfl

theorem AgentRow.toConfig_aiNotice (agent : AgentRow) (callIsRecorded : Bool) :
    (agent.toConfig callIsRecorded).aiNotice = agent.posture.spokenAiNotice := rfl

theorem AgentRow.toConfig_systemPrompt (agent : AgentRow) (callIsRecorded : Bool) :
    (agent.toConfig callIsRecorded).systemPrompt = agent.prompt := rfl

theorem AgentRow.toConfig_business (agent : AgentRow) (callIsRecorded : Bool) :
    (agent.toConfig callIsRecorded).business = agent.businessName := rfl

theorem hindiCaller_posture : hindiCaller.posture = hindiPosture := by
  rw [hindiCaller]

/-- The sentence that says the caller's name is taken out of its opening line. -/
theorem hindiCaller_withoutIntroduction :
    hindiWords.withoutIntroduction
        (hindiWords.withoutGreeting
          "मैं Anjali हूँ और यह कॉल रिकॉर्ड करती हूँ। क्या अभी बात हो सकती है?".toList)
        [hindiCaller.name, [], hindiCaller.name, []] =
      "क्या अभी बात हो सकती है?".toList := by
  have hsentences : sentences (strip (hindiWords.withoutGreeting
      "मैं Anjali हूँ और यह कॉल रिकॉर्ड करती हूँ। क्या अभी बात हो सकती है?".toList)) =
        ["मैं Anjali हूँ और यह कॉल रिकॉर्ड करती हूँ।".toList,
          "क्या अभी बात हो सकती है?".toList] := by
    repeat rewrite [String.toList_ofList]
    decide
  unfold CallWords.withoutIntroduction
  dsimp only
  rw [hsentences]
  unfold hindiCaller
  repeat rewrite [String.toList_ofList]
  decide

theorem hindiCaller_saidNotices :
    hindiWords.saidNotices hindiCaller.prompt hindiCaller.businessName false =
      ⟨[], "यह कॉल रिकॉर्ड करती हूँ".toList⟩ := by
  refine hindiWords_saidNotices (hindiCaller_read).2.1 ?_
  rewrite [String.toList_ofList]
  exact List.cons_ne_nil _ _

theorem hindiCaller_passes : hindiDialWords.RowDiscloses hindiCaller true := by
  unfold CallWords.RowDiscloses
  rw [hindiDialWords_toCallWords, hindiCaller_saidNotices, hindiWords_saidAsTaught,
    (hindiCaller_read).1, hindiCaller_posture]
  unfold hindiCaller
  unfold hindiPosture
  repeat rewrite [String.toList_ofList]
  decide +kernel

/-- What the caller says first says nothing of the recording. -/
theorem hindiCaller_composeFirstUtterance :
    hindiWords.composeFirstUtterance (hindiCaller.toConfig true) =
      "नमस्ते जी, ".toList ++ hindiPosture.spokenAiNotice ++ " क्या अभी बात हो सकती है?".toList := by
  have hnames : [(hindiCaller.toConfig true).name,
      if (hindiCaller.toConfig true).direction = .outbound then [] else hindiCaller.businessName,
      (hindiCaller.toConfig true).name,
      if (hindiCaller.toConfig true).direction = .outbound then []
      else hindiCaller.businessName] = [hindiCaller.name, [], hindiCaller.name, []] := rfl
  have hleft : hindiWords.noticesLeft (hindiPosture.composeOpeningLine true)
      "मैं Anjali हूँ और यह कॉल रिकॉर्ड करती हूँ। क्या अभी बात हो सकती है?".toList
      hindiPosture.spokenAiNotice ⟨[], "यह कॉल रिकॉर्ड करती हूँ".toList⟩ =
        (hindiPosture.spokenAiNotice, hindiPosture.spokenAiNotice) := by
    unfold hindiPosture
    repeat rewrite [String.toList_ofList]
    decide +kernel
  rw [hindiWords_composeFirstUtterance, AgentRow.toConfig_systemPrompt, AgentRow.toConfig_business,
    hindiCaller_saidNotices, (hindiCaller_read).1, hnames, CallWords.joinFirstWords,
    AgentRow.toConfig_openingLine, AgentRow.toConfig_aiNotice, hindiCaller_posture, hleft]
  dsimp only
  rw [hindiCaller_withoutIntroduction]
  unfold AgentRow.toConfig
  unfold hindiCaller
  unfold hindiPosture
  repeat rewrite [String.toList_ofList]
  decide +kernel

end Calevate.Agents
