import Calevate.Agents.OpeningNotices
import Mathlib.Data.List.DropRight

/-!
# Call scripts

The structured script of an agent, its compilation to the text an engine is given, in the
first and the second version, and what is read back of a compiled text: a section by its
header, the opening lines, the words of the notices, the taught names. A field of the script
may hold any text; a rule for the end of the call is one line.
-/

namespace Calevate.Agents

open Lib.Text
open Lib.ClockText (strip isSpace)

/-! ## Scripts -/

structure FaqEntry where
  question : Text
  answer : Text
  deriving DecidableEq, Repr

inductive CodeMix where
  | light
  | natural
  | heavy
  deriving DecidableEq, Repr

structure Pronunciation where
  word : Text
  sayAs : Text
  deriving DecidableEq, Repr

structure SpeakingStyle where
  tone : Text
  addressForm : Text
  codeMix : CodeMix
  samplePhrases : List Text
  pronunciations : List Pronunciation
  deriving DecidableEq, Repr

structure StageBranch where
  condition : Text
  target : Text
  deriving DecidableEq, Repr

structure ProcedureStep where
  action : Text
  waitFor : Text
  deriving DecidableEq, Repr

inductive StageMode where
  | guide
  | say
  deriving DecidableEq, Repr

structure ConversationStage where
  id : Text
  name : Text
  mode : StageMode
  instruction : Text
  soundsLike : Text
  branches : List StageBranch
  otherwise : Text
  collect : List Text
  procedure : List ProcedureStep
  deriving DecidableEq, Repr

structure Objection where
  objection : Text
  response : Text
  deriving DecidableEq, Repr

structure ScriptPolicies where
  offerCallBacks : Bool
  sharePrices : Bool
  takeBookings : Bool
  deriving DecidableEq, Repr

inductive Speaker where
  | caller
  | agent
  deriving DecidableEq, Repr

structure ExampleLine where
  speaker : Speaker
  text : Text
  deriving DecidableEq, Repr

inductive Adherence where
  | flexible
  | strict
  deriving DecidableEq, Repr

inductive SchemaVersion where
  | v1
  | v2
  deriving DecidableEq, Repr

/-- One rule a line, as `_rules_are_one_per_line` leaves it. -/
def OneRule (rule : Text) : Prop :=
  rule ≠ [] ∧ strip rule = rule ∧ ∀ c ∈ rule, isBreak c = false

/-- A structured `CallScript`. -/
structure CallScript where
  openingLine : Text
  outboundOpeningLine : Text
  openingNotices : OpeningNotices
  outboundOpeningNotices : OpeningNotices
  steps : List Text
  faqs : List FaqEntry
  faqFallback : Text
  endCallExtraRules : List Text
  schemaVersion : SchemaVersion
  businessLine : Text
  identity : Text
  goal : Text
  outboundPurpose : Text
  style : SpeakingStyle
  stages : List ConversationStage
  objections : List Objection
  policies : ScriptPolicies
  ending : Text
  exampleExchange : List ExampleLine
  adherence : Adherence
  rules : ∀ rule ∈ endCallExtraRules, OneRule rule

/-- `CollectField`. -/
structure CollectField where
  label : Text
  reason : Text
  required : Bool
  deriving DecidableEq, Repr

/-! ## Fixed texts -/

/-- `NOTICES_HEADER`. -/
def noticesHeader : Text := "[NOTICES IN YOUR OPENING]".toList

/-- `OPENING_HEADER`. -/
def openingHeader : Text := "[OPENING]".toList

/-- `OUTBOUND_OPENING_HEADER`. -/
def outboundOpeningHeader : Text := "[OPENING ON CALLS YOU PLACE]".toList

/-- `_SAID_LEADS`, for the AI notice. -/
def aiLead (placed : Bool) : Text :=
  if placed then "Your opening on calls you place says you are an AI in these words: ".toList
  else "Your opening line tells the caller you are an AI in these words: ".toList

/-- `_SAID_LEADS`, for the recording notice. -/
def recordingLead (placed : Bool) : Text :=
  if placed then
    "Your opening on calls you place says the call is recorded in these words: ".toList
  else "Your opening line tells the caller the call is recorded in these words: ".toList

/-- `BUILTIN_END_CALL_RULE`. -/
def builtinEndCallRule : Text :=
  "When the caller's need is handled or they ask to stop, end the call politely: ".toList ++
    "confirm the agreed next step, thank them by name if you have it, and hang up. ".toList ++
    "Do not keep the caller on the line to fill time.".toList

/-- `GUARDRAILS_BLOCK`. -/
def guardrailsBlock : Text :=
  "[GUARDRAILS]\n".toList ++
    "- Identify yourself as an AI assistant of the business when you are asked, in the ".toList ++
    "caller's language, and never claim to be a human being.\n".toList ++
    "- Never invent prices, availability, or medical/legal/financial facts. If you do not ".toList ++
    "know, say so and offer a callback rather than guessing.\n".toList ++
    "- If the caller asks you to stop calling, acknowledge it, add them to the do-not-call ".toList ++
    "list, and confirm — never argue.\n".toList ++
    "- Announce any transfer honestly; if a transfer fails, say so and take a callback ".toList ++
    "rather than pretending a person is coming.".toList

/-- `RETIRED_FAQ_FALLBACK`. -/
def retiredFaqFallback : Text :=
  "నాకు ఆ వివరం ఖచ్చితంగా తెలియదు — మా టీమ్ మీకు తిరిగి కాల్ చేసి చెబుతుంది.".toList

/-- `_FAQ_DONT_KNOW`. -/
def faqDontKnow : Text :=
  "say you do not know that, then do what the PLATFORM RULES say for a question you cannot ".toList ++
    "answer.".toList

/-- `CODE_MIX_SENTENCES`. -/
def codeMixSentence : CodeMix → Text
  | .light =>
    "Use mostly the caller's language, with an English word only where people ".toList ++
      "would not know another one.".toList
  | .natural =>
    "Mix in the English words people use every day (order, delivery, price, ".toList ++
      "booking, time), the way callers here talk.".toList
  | .heavy =>
    "Mix English freely into every sentence, the way young city callers talk.".toList

/-- `ADHERENCE_SENTENCES`. -/
def adherenceSentence : Adherence → Text
  | .flexible =>
    "Sections in order as a guide. Follow the caller if they jump ahead; do not ".toList ++
      "repeat a section that is done.".toList
  | .strict =>
    "Go through the sections in this order and say the quoted lines as written.".toList

/-- `PROCEDURE_HEADER`. -/
def procedureHeader : Text := "[STEP BY STEP]".toList

/-- `PROCEDURE_LEAD`. -/
def procedureLead : Text :=
  "Give one step at a time. After each, wait until the caller has done it, then give the ".toList ++
    "next. If they are stuck, help with that step before moving on.".toList

/-- The first line of `[CONVERSATION]`. -/
def conversationHeader (adherence : Adherence) : Text :=
  "[CONVERSATION] ".toList ++ adherenceSentence adherence

/-- The first line of `[STEP BY STEP]`. -/
def procedureSection : Text := procedureHeader ++ ' ' :: procedureLead

/-- `BUSINESS_HEADER`. -/
def businessHeader : Text := "[BUSINESS]".toList

def identityHeader : Text := "[IDENTITY]".toList

def goalHeader : Text := "[GOAL]".toList

/-- `STYLE_HEADER`. -/
def styleHeader : Text := "[SPEAKING STYLE]".toList

def collectSection : Text := "[WHAT TO COLLECT] Ask these.".toList

def objectionsSection : Text := "[OBJECTIONS] In this spirit, in your own words.".toList

def policiesHeader : Text := "[POLICIES]".toList

def endingHeader : Text := "[ENDING]".toList

/-- `QUICK_FACTS_LEAD`. -/
def quickFactsLead : Text := "[QUICK FACTS] These win over anything in your knowledge.".toList

def exampleSection : Text :=
  "[EXAMPLE CALL] Copy the style, never the facts or the Caller lines.".toList

def taskFlowLead : Text :=
  "[TASK FLOW] Follow these as a loose outline, one thing at a time. They are ".toList ++
    "hints, not a rigid script — adapt to what the caller actually says.\n".toList

def faqLead : Text :=
  "[FAQ] Answer these questions ONLY from the answers written here. If the caller ".toList ++
    "asks something these do not cover, do not guess: ".toList

def endCallHeader : Text := "[END CALL]\n".toList

/-- `PRONOUNCE_LEAD`. -/
def pronounceLead : Text := "Say these names exactly like this: ".toList

/-! ## Compiling -/

/-- The items, each behind its number. -/
def numbered (items : List Text) : List Text :=
  items.zipIdx.map fun (item, i) => (toString (i + 1)).toList ++ ". ".toList ++ item

/-- `_quote`. -/
def quote (text : Text) : Text :=
  '"' :: (flat text).map (fun c => if c = '"' then '\'' else c) ++ ['"']

/-- Joined with a separator. -/
def joined (separator : Text) (parts : List Text) : Text := separator.intercalate parts

/-- The parts that have more than white space, without what is around it. -/
def written (parts : List Text) : List Text := (parts.map strip).filter (· ≠ [])

/-- A section, unless it is empty. -/
def headed (header body : Text) : List Text :=
  if strip body = [] then [] else [header ++ '\n' :: strip body]

/-- `quick_fact_lines`. -/
def quickFactLines (facts : List FaqEntry) : Text :=
  unlines ((facts.filter fun fact => strip fact.answer ≠ []).map fun fact =>
    if strip fact.question ≠ [] then
      "Q: ".toList ++ strip fact.question ++ "\nA: ".toList ++ strip fact.answer
    else "- ".toList ++ strip fact.answer)

/-- `procedure_pointer`. -/
def procedurePointer (name : Text) : Text :=
  "Then go through its steps under ".toList ++ quote name ++ " in ".toList ++ procedureHeader ++
    ", one at a time.".toList

namespace ConversationStage

/-- `_stage_detail`. -/
def detail (stage : ConversationStage) : Text :=
  (match stage.mode with
    | .say => "Say: ".toList ++ quote (flat stage.instruction)
    | .guide => flat stage.instruction) ++
  (if strip stage.soundsLike ≠ [] then
    " It sounds like: ".toList ++ quote stage.soundsLike else []) ++
  (if stage.procedure ≠ [] then ' ' :: procedurePointer stage.name else [])

/-- `_target_action`, while what the account can do is not known. -/
def targetAction (target : Text) (stages : List ConversationStage) : Text :=
  if target = "end".toList then "End the call politely".toList
  else if target = "hand_over".toList then "Hand the caller to a person".toList
  else if target = "call_back".toList then "Offer a call back".toList
  else
    "Go to '".toList ++
      (((stages.find? fun stage => stage.id = target).map (·.name)).getD target) ++ ['\'']

/-- The condition of a branch, without the full stops at its end. -/
def branchCondition (text : Text) : Text :=
  strip ((strip text).rdropWhile (· = '.'))

/-- `_stage_exits`. -/
def exits (stage : ConversationStage) (stages : List ConversationStage) : List (Text × Text) :=
  (stage.branches.map fun branch =>
    (branchCondition branch.condition, targetAction branch.target stages)) ++
  (if stage.otherwise ≠ [] then
    [("Otherwise".toList, targetAction stage.otherwise stages)] else [])

/-- `_stage_line`. -/
def line (stage : ConversationStage) (stages : List ConversationStage) : Text :=
  strip stage.name ++ ": ".toList ++ stage.detail ++
  (if stage.collect ≠ [] then
    " Have in hand first: ".toList ++ joined ", ".toList stage.collect ++ ['.'] else []) ++
  (stage.exits stages).flatMap fun (condition, action) =>
    if condition = "Otherwise".toList then
      ' ' :: condition ++ ": ".toList ++ action ++ ['.']
    else " When ".toList ++ condition ++ ": ".toList ++ action ++ ['.']

/-- One block of `_procedures`. -/
def procedureBlock (stage : ConversationStage) : Text :=
  unlines ((strip stage.name ++ [':']) :: numbered (stage.procedure.map fun step =>
    step.action ++ if step.waitFor ≠ [] then " Wait for: ".toList ++ step.waitFor else []))

end ConversationStage

namespace CallScript

variable (script : CallScript)

/-- The words of the opening, of the answered call or the placed one, that say the notices. -/
def said (placed : Bool) : SaidNotices :=
  if placed then saidIn script.outboundOpeningNotices script.outboundOpeningLine
  else saidIn script.openingNotices script.openingLine

/-- The rows of `_notices_section` for one opening. -/
def noticeRows (placed : Bool) : List Text :=
  (if (script.said placed).ai ≠ [] then [aiLead placed ++ (script.said placed).ai] else []) ++
    if (script.said placed).recording ≠ [] then
      [recordingLead placed ++ (script.said placed).recording] else []

/-- **`_notices_section`**. -/
def noticesSection : List Text :=
  let rows := script.noticeRows false ++ script.noticeRows true
  if rows = [] then [] else [noticesHeader ++ '\n' :: unlines rows]

/-- The `[GOAL]` of the second version. -/
def goalText : Text :=
  let goal := strip script.goal
  let purpose := strip script.outboundPurpose
  if purpose = [] then goal
  else
    (if goal = [] then [] else goal ++ ['\n']) ++
      "On calls you place, say early why you call: ".toList ++ purpose

/-- The lines of the `[SPEAKING STYLE]`. -/
def styleLines : List Text :=
  let style := script.style
  (if strip style.tone ≠ [] then ["Tone: ".toList ++ strip style.tone] else []) ++
  (if strip style.addressForm ≠ [] then
    ["Address callers as: ".toList ++ strip style.addressForm] else []) ++
  (if style.codeMix ≠ .natural then [codeMixSentence style.codeMix] else []) ++
  (if style.samplePhrases ≠ [] then
    ["Phrases you can use, not every turn: ".toList ++
      joined " / ".toList (style.samplePhrases.map quote)] else []) ++
  (if style.pronunciations ≠ [] then
    [pronounceLead ++ joined "; ".toList (style.pronunciations.map fun p =>
      strip p.word ++ " as ".toList ++ quote p.sayAs)] else [])

/-- The stages that have an instruction. -/
def heldStages : List ConversationStage :=
  script.stages.filter fun stage => strip stage.instruction ≠ []

/-- The lines of the `[POLICIES]`. -/
def policyLines : List Text :=
  (if script.policies.offerCallBacks then [] else ["- Do not offer call backs.".toList]) ++
  (if script.policies.sharePrices then []
    else ["- Do not quote prices. Say the team will share the price with them.".toList]) ++
  (if script.policies.takeBookings then []
    else ["- Do not make a booking yourself. Note what they want and when it suits ".toList ++
      "them.".toList])

/-- A line of what to collect. -/
def collectLine (field : CollectField) : Text :=
  "- ".toList ++ strip field.label ++
  (if strip field.reason ≠ [] then " (".toList ++ strip field.reason ++ [')'] else []) ++
  if field.required then " — needed".toList else []

/-- The questions that have an answer. -/
def heldFaqs : List FaqEntry :=
  script.faqs.filter fun faq => strip faq.question ≠ [] ∧ strip faq.answer ≠ []

/-- The sections of the second version ahead of the notices. -/
def leadingSectionsV2 : List Text :=
  headed businessHeader script.businessLine ++
  headed identityHeader script.identity ++
  headed goalHeader script.goalText ++
  headed openingHeader script.openingLine ++
  headed outboundOpeningHeader script.outboundOpeningLine

/-- Those behind them. -/
def trailingSectionsV2 (collect : List CollectField) : List Text :=
  headed styleHeader (unlines script.styleLines) ++
  (if script.heldStages ≠ [] then
    headed (conversationHeader script.adherence)
      (unlines (numbered (script.heldStages.map (·.line script.heldStages)))) else []) ++
  (if script.heldStages.any (·.procedure ≠ []) then
    headed procedureSection
      (unlines ((script.heldStages.filter (·.procedure ≠ [])).map (·.procedureBlock)))
    else []) ++
  headed collectSection
    (unlines ((collect.filter fun field => strip field.label ≠ []).map collectLine)) ++
  headed objectionsSection
    (unlines ((script.objections.filter fun o => strip o.response ≠ []).map fun o =>
      "Q: ".toList ++ strip o.objection ++ "\nA: ".toList ++ strip o.response)) ++
  headed policiesHeader (unlines script.policyLines) ++
  headed endingHeader script.ending ++
  headed quickFactsLead
    (quickFactLines script.heldFaqs) ++
  headed exampleSection
    (unlines ((script.exampleExchange.filter fun line => strip line.text ≠ []).map fun line =>
      (match line.speaker with
        | .caller => "Caller".toList
        | .agent => "You".toList) ++ ": ".toList ++ strip line.text))

end CallScript

/-- A variable at the start of a text. -/
def variableAt : Text → Bool
  | '\x7b' :: '\x7b' :: rest =>
    match rest.dropWhile isSpace with
    | c :: rest =>
      (c.isAlpha || c = '_') &&
        "\x7d\x7d".toList.isPrefixOf
          ((rest.dropWhile fun c => c.isAlphanum || c = '_').dropWhile isSpace)
    | [] => false
  | _ => false

/-- `_VARIABLE_PATTERN` is found in the text. -/
def hasVariable (text : Text) : Bool := text.tails.any variableAt

/-- **`per_call_sections_last`**. -/
def perCallSectionsLast (sections : List Text) : List Text :=
  (sections.filter fun s => ¬ hasVariable s) ++ sections.filter fun s => hasVariable s

namespace CallScript

variable (script : CallScript)

/-- The sections of **`_compile_v2`**. -/
def sectionsV2 (collect : List CollectField) : List Text :=
  perCallSectionsLast
    (script.leadingSectionsV2 ++ script.noticesSection ++ script.trailingSectionsV2 collect)

/-- The numbered steps of the first version. -/
def taskFlowSection : List Text :=
  if written script.steps = [] then []
  else [taskFlowLead ++ unlines (numbered (written script.steps))]

/-- What the first version has the agent do about any other question. -/
def dontKnow : Text :=
  if strip script.faqFallback ≠ [] ∧ strip script.faqFallback ≠ retiredFaqFallback then
    "say: \"".toList ++ strip script.faqFallback ++ ['"']
  else faqDontKnow

def faqSection : List Text :=
  if script.heldFaqs = [] then []
  else
    [faqLead ++ script.dontKnow ++ '\n' :: unlines (script.heldFaqs.map fun faq =>
      "Q: ".toList ++ strip faq.question ++ "\nA: ".toList ++ strip faq.answer)]

def endCallSection : Text :=
  endCallHeader ++
    unlines ((builtinEndCallRule :: script.endCallExtraRules).map ("- ".toList ++ ·))

/-- The sections of the first version. -/
def sectionsV1 : List Text :=
  headed openingHeader script.openingLine ++
  headed outboundOpeningHeader script.outboundOpeningLine ++
  script.noticesSection ++ script.taskFlowSection ++ script.faqSection ++
  [script.endCallSection, guardrailsBlock]

/-- The sections, in the order they are compiled. -/
def sections (collect : List CollectField) : List Text :=
  match script.schemaVersion with
  | .v1 => script.sectionsV1
  | .v2 => script.sectionsV2 collect

/-- **`compile_call_script`**. -/
def compile (collect : List CollectField) : Text := paragraphs (script.sections collect)

end CallScript

/-! ## Reading back -/

/-- The lines of a section, from behind the first line that is its header up to the next line
that starts with a bracket. -/
def sectionLines (header : Text) (body : List Text) : List Text :=
  ((body.dropWhile fun line => strip line ≠ header).drop 1).takeWhile fun line =>
    ¬ ['['].isPrefixOf line

/-- **`_section_of`**. -/
def sectionOf (body header : Text) : Text := strip (unlines (sectionLines header (lines body)))

/-- The words behind a lead in the lines, if one of them has it. -/
def wordsBehind (lead : Text) (body : List Text) : Text :=
  ((body.find? fun line => (strip lead).isPrefixOf line).map fun line =>
    strip (line.drop (strip lead).length)).getD []

/-- **`said_notices_of`**. -/
def saidNoticesOf (body : Text) (placed : Bool) : SaidNotices :=
  let read := (lines (sectionOf body noticesHeader)).map strip
  ⟨wordsBehind (aiLead placed) read, wordsBehind (recordingLead placed) read⟩

/-- **`opening_line_of`**. -/
def openingLineOf (body : Text) : Text := sectionOf body openingHeader

/-- **`outbound_opening_of`**. -/
def outboundOpeningOf (body : Text) : Text := sectionOf body outboundOpeningHeader

end Calevate.Agents
