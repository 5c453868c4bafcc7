import Calevate.Agents.CallScript

/-!
# First words

What a caller hears first: the agent's opening line and the notices its posture switches on,
in the order the language has them. A stored sentence is left out when the opening line says
its notice by woven words; an opening behind the agent's own introduction loses its greeting
and, ahead of its last sentence, the sentences that say who is calling. What checks listen for,
what is said in each language, and how letters compare is given.
-/

namespace Calevate.Agents

open Lib.Text
open Lib.ClockText (strip isSpace)

/-! ## Texts -/

/-- The parts that are not empty, with one blank between each two. -/
def spoken (parts : List Text) : Text := unwords (parts.filter (· ≠ []))

/-- `str.removeprefix`. -/
def removeLead (lead text : Text) : Text :=
  if lead.isPrefixOf text then text.drop lead.length else text

/-- `str.split`, at each separator, after what was begun and with so many characters of one
still to pass. -/
def splitFrom (separator : Text) : Text → ℕ → Text → List Text
  | begun, _, [] => [begun]
  | begun, skip + 1, _ :: t => splitFrom separator begun skip t
  | begun, 0, c :: t =>
    if separator.isPrefixOf (c :: t) then
      begun :: splitFrom separator [] (separator.length - 1) t
    else splitFrom separator (begun ++ [c]) 0 t

/-- `str.rpartition`: before and behind the last separator. -/
def rpartition (separator text : Text) : Option (Text × Text) :=
  ((List.range (text.length + 1)).reverse.find? fun i =>
    separator.isPrefixOf (text.drop i)).map fun i =>
      (text.take i, text.drop (i + separator.length))

/-- `str.replace`, with so many characters of the old text still to pass. -/
def replaceFrom (old new : Text) : ℕ → Text → Text
  | _, [] => []
  | skip + 1, _ :: t => replaceFrom old new skip t
  | 0, c :: t =>
    if old.isPrefixOf (c :: t) then new ++ replaceFrom old new (old.length - 1) t
    else c :: replaceFrom old new 0 t

/-- The ends of a sentence. -/
def endsSentence (c : Char) : Bool := c = '.' ∨ c = '?' ∨ c = '!' ∨ c = '।'

/-- A text split at `_SENTENCE_END_SPACE`, after the sentence begun, and whether the white
space behind one is being passed. -/
def sentencesFrom : Text → Bool → Text → List Text
  | begun, _, [] => [begun]
  | begun, passing, c :: t =>
    if isSpace c then
      if passing then sentencesFrom begun true t
      else if begun.getLast?.any endsSentence then begun :: sentencesFrom [] true t
      else sentencesFrom (begun ++ [c]) false t
    else sentencesFrom (begun ++ [c]) false t

/-- The sentences of a text. -/
def sentences (text : Text) : List Text := (sentencesFrom [] false text).filter (· ≠ [])

/-! ## Notices -/

/-- `DisclosurePosture`. -/
structure DisclosurePosture where
  aiDisclosureLine : Text
  aiDisclosureEnabled : Bool
  recordingNoticeLine : Text
  recordingNoticeEnabled : Bool
  deriving DecidableEq, Repr

namespace DisclosurePosture

variable (posture : DisclosurePosture) (callIsRecorded : Bool)

/-- **`spoken_ai_notice`**. -/
def spokenAiNotice : Text :=
  if posture.aiDisclosureEnabled then strip posture.aiDisclosureLine else []

/-- The recording sentence, when its switch is on and the engine records. -/
def spokenRecordingNotice : Text :=
  if callIsRecorded ∧ posture.recordingNoticeEnabled then strip posture.recordingNoticeLine
  else []

/-- **`compose_opening_line`**. -/
def composeOpeningLine : Text :=
  spoken [posture.spokenAiNotice, posture.spokenRecordingNotice callIsRecorded]

end DisclosurePosture

/-! ## Wordings -/

/-- What is looked for and said in calls, and Python's comparison of letters. -/
structure CallWords where
  /-- `AI_WORDS` is found. -/
  saysAi : Text → Bool
  /-- Where the match of `_GREETING_HEAD` ends. -/
  greetingHead : Text → Option ℕ
  /-- `INTRODUCTION_SALUTATIONS`. -/
  salutations : Text → Option Text
  /-- `opening_in(tag, "outbound", introduced=…, with_reason=…)`. -/
  outboundIn : Text → Bool → Bool → Option Text
  /-- A line with the words of a name, as `_name_pattern` finds them, said in another form. -/
  respell : Text → Text → Text → Text
  lower : Text → Text
  casefold : Text → Text

/-- `PLACED_CALL_FALLBACK_INTRODUCED` and `PLACED_CALL_FALLBACK`. -/
def placedCallFallback (introduced : Bool) : Text :=
  if introduced then "Are you free to talk now?".toList
  else "Hi, we are calling from \x7bbusiness\x7d. Are you free to talk now?".toList

/-- **`pronunciations_of`**. -/
def pronunciationsOf (body : Text) : List Pronunciation :=
  match ((lines body).map strip).find? fun line => pronounceLead.isPrefixOf line with
  | none => []
  | some line =>
    (splitFrom "; ".toList [] 0 (removeLead pronounceLead line)).filterMap fun pair =>
      let (word, said) := (rpartition " as ".toList pair).getD (pair, [])
      if strip word = [] then none
      else some ⟨strip word, ((strip said).dropWhile (· = '"')).rdropWhile (· = '"')⟩

namespace CallWords

variable (w : CallWords)

/-- `introduction_salutation`. -/
def introductionSalutation (language : Text) : Option Text :=
  w.salutations (w.lower (strip (language.takeWhile (· ≠ '-'))))

/-- `opens_with_greeting`. -/
def opensWithGreeting (text : Text) : Bool := (w.greetingHead text).isSome

/-- `without_greeting`. -/
def withoutGreeting (text : Text) : Text :=
  strip ((strip text).drop ((w.greetingHead (strip text)).getD 0))

/-- **`introduces_itself`**. -/
def introducesItself (aiNotice language : Text) : Bool :=
  strip aiNotice ≠ [] ∧ (w.introductionSalutation language).isSome ∧
    ¬ w.opensWithGreeting (strip aiNotice)

/-- `names_used`. -/
def namesUsed (text : Text) (names : List Text) : List Text :=
  (names.filter fun name =>
    strip name ≠ [] ∧ w.casefold (strip name) <:+: w.casefold text).map strip

/-- **`_without_introduction`**. -/
def withoutIntroduction (opening : Text) (names : List Text) : Text :=
  let wanted := names.filter fun name => 1 < (strip name).length
  let sentences := sentences (strip opening)
  if sentences.length < 2 ∨ wanted = [] then strip opening
  else
    unwords ((sentences.dropLast.filter fun s => w.namesUsed s wanted = []) ++
      sentences.getLast?.toList)

/-- The AI sentence and the whole of the notices that `join_first_words` says, without those
the opening line says by woven words. -/
def noticesLeft (notices opening aiNotice : Text) (said : SaidNotices) : Text × Text :=
  let lead := strip aiNotice
  let rest := strip notices
  if lead = [] ∨ lead.isPrefixOf rest then
    let recording := strip (removeLead lead rest)
    let lead := if lead ≠ [] ∧ said.SaysAiIn opening then [] else lead
    let recording :=
      if recording ≠ [] ∧ ¬ w.saysAi recording ∧ said.SaysRecordedIn opening then []
      else recording
    (lead, spoken [lead, recording])
  else (lead, rest)

/-- **`join_first_words`**. -/
def joinFirstWords (notices opening aiNotice language : Text) (names : List Text)
    (said : SaidNotices) : Text :=
  let (lead, rest) := w.noticesLeft notices opening aiNotice said
  match w.introductionSalutation language with
  | none => spoken [strip opening, rest]
  | some salutation =>
    if w.introducesItself lead language ∧ lead.isPrefixOf rest then
      let others := strip (removeLead lead rest)
      let line := w.withoutIntroduction (w.withoutGreeting opening) names
      spoken [salutation, lead, line, others]
    else spoken [strip opening, rest]

/-- `said_as_taught`. -/
def saidAsTaught (line body business : Text) : Text :=
  let pairs := (pronunciationsOf body).filter (·.sayAs ≠ []) ++
    if strip business ≠ [] then [⟨business, flat business⟩] else []
  pairs.foldl (fun line pair => w.respell pair.word pair.sayAs line) line

/-- `introduction_names`. -/
def introductionNames (name business body : Text) : List Text :=
  [name, business, w.saidAsTaught name body [], w.saidAsTaught business body []]

/-- `said_notices`. -/
def saidNotices (body business : Text) (placed : Bool) : SaidNotices :=
  let said := saidNoticesOf body placed
  ⟨if said.ai ≠ [] then w.saidAsTaught said.ai body business else [],
    if said.recording ≠ [] then w.saidAsTaught said.recording body business else []⟩

end CallWords

/-! ## Agents -/

inductive Direction where
  | inbound
  | outbound
  | both
  deriving DecidableEq, Repr

/-- What an `AgentConfig` has for its first words. -/
structure AgentConfig where
  name : Text
  direction : Direction
  business : Text
  languagePrimary : Text
  systemPrompt : Text
  openingLine : Text
  aiNotice : Text
  deriving DecidableEq, Repr

/-- A config with its notices built by **`notice_fields`**. -/
def AgentConfig.withNoticeFields (cfg : AgentConfig) (posture : DisclosurePosture)
    (callIsRecorded : Bool) : AgentConfig :=
  { cfg with
    openingLine := posture.composeOpeningLine callIsRecorded
    aiNotice := posture.spokenAiNotice }

namespace CallWords

variable (w : CallWords)

/-- The opening line of an answered call, as it is spoken. -/
def answeredLine (cfg : AgentConfig) : Text :=
  w.saidAsTaught (openingLineOf cfg.systemPrompt) cfg.systemPrompt cfg.business

/-- The names an answered call's introduction says. -/
def answeredNames (cfg : AgentConfig) : List Text :=
  w.introductionNames cfg.name (if cfg.direction = .outbound then [] else cfg.business)
    cfg.systemPrompt

/-- **`compose_first_utterance`**. -/
def composeFirstUtterance (cfg : AgentConfig) : Text :=
  w.joinFirstWords cfg.openingLine (w.answeredLine cfg) cfg.aiNotice cfg.languagePrimary
    (w.answeredNames cfg) (w.saidNotices cfg.systemPrompt cfg.business false)

/-- `placed_call_opening`. -/
def placedCallOpening (tag business : Text) (introduced : Bool) : Text :=
  let known : Bool := strip business ≠ []
  let introduced := introduced || !known
  let template := ((w.outboundIn tag introduced known).filter (· ≠ [])).getD
    (placedCallFallback introduced)
  flat (replaceFrom "\x7bbusiness\x7d".toList business 0 template)

/-- `placed_call_line`. -/
def placedCallLine (body language business aiNotice : Text) : Text :=
  let own := outboundOpeningOf body
  let line :=
    if own ≠ [] then own
    else w.placedCallOpening language business (w.introducesItself aiNotice language)
  w.saidAsTaught line body business

/-- **`placed_call_first_words`**. -/
def placedCallFirstWords (body notices aiNotice language business agentName : Text) : Text :=
  w.joinFirstWords notices (w.placedCallLine body language business aiNotice) aiNotice language
    (w.introductionNames agentName [] body) (w.saidNotices body business true)

end CallWords

end Calevate.Agents
