import Calevate.Agents.FirstWords
import Calevate.Agents.WovenNotices

/-!
# Notices said

The first words disclose the notices that are switched on, but for one case,
`first_words_disclose_iff`: the agent introduces itself, the opening line alone says that the
call is recorded, and the words that say so are in the greeting or in a sentence that the
introduction takes out.
-/

namespace Calevate.Agents

open Lib.Text
open Lib.ClockText (strip isSpace)

/-! ## What is spoken of parts -/

theorem words_spoken (parts : List Text) : words (spoken parts) = parts.flatMap words := by
  rw [spoken, words_unwords]
  induction parts with
  | nil => rfl
  | cons part parts ih =>
    rw [List.flatMap_cons, ← ih, List.filter_cons]
    split
    · rw [List.flatMap_cons]
    next hempty =>
      obtain rfl : part = [] := by simpa using hempty
      rfl

/-- Each part is spoken, word after word. -/
theorem words_infix_spoken {part : Text} {parts : List Text} (h : part ∈ parts) :
    words part <:+: words (spoken parts) := by
  obtain ⟨before, after, rfl⟩ := List.append_of_mem h
  rw [words_spoken, List.flatMap_append, List.flatMap_cons]
  exact ⟨before.flatMap words, after.flatMap words, by rw [List.append_assoc]⟩

theorem flat_infix_spoken {part : Text} {parts : List Text} (h : part ∈ parts) :
    flat part <:+: flat (spoken parts) :=
  flat_infix_of_words (words_infix_spoken h)

/-- A part is spoken as well where the parts are spoken behind another. -/
theorem flat_infix_spoken_behind {part : Text} {parts : List Text} (h : part ∈ parts)
    (before : Text) : flat part <:+: flat (spoken [before, spoken parts]) := by
  refine (flat_infix_spoken h).trans (flat_infix_spoken (List.mem_cons_of_mem before ?_))
  exact List.mem_singleton_self _

theorem spoken_pair {part part' : Text} (h : part ≠ []) (h' : part' ≠ []) :
    spoken [part, part'] = part ++ ' ' :: part' := by
  simp [spoken, h, h', unwords]

theorem spoken_nil_cons (parts : List Text) : spoken ([] :: parts) = spoken parts := rfl

theorem spoken_singleton (part : Text) : spoken [part] = part := by
  by_cases h : part = []
  · rw [h]
    rfl
  · simp [spoken, h, unwords]

theorem spoken_append_nil (part : Text) : spoken [part, []] = part := by
  rw [← spoken_singleton part]
  by_cases h : part = []
  · rw [h]
    rfl
  · simp [spoken, h, unwords]

/-- Two tight parts are spoken tightly. -/
theorem tight_spoken_pair {part part' : Text} (h : Tight part) (h' : Tight part') :
    Tight (spoken [part, part']) := by
  by_cases hne : part = []
  · rw [hne, spoken_nil_cons, spoken_singleton]
    exact h'
  by_cases hne' : part' = []
  · rw [hne', spoken_append_nil]
    exact h
  rw [spoken_pair hne hne']
  constructor
  · intro c hc
    obtain ⟨d, part, rfl⟩ := List.exists_cons_of_ne_nil hne
    exact h.1 c hc
  · intro c hc
    obtain ⟨d, hd⟩ := Option.isSome_iff_exists.mp (List.getLast?_isSome.mpr hne')
    rw [List.getLast?_append, List.getLast?_cons, hd] at hc
    exact h'.2 c (by rw [hd]; exact hc)

/-- The first part leads what is spoken, and behind it is the second. -/
theorem removeLead_spoken_pair (part : Text) {part' : Text} (h' : Tight part') :
    part.isPrefixOf (spoken [part, part']) = true ∧
      strip (removeLead part (spoken [part, part'])) = part' := by
  have hlead : ∀ rest : Text, part.isPrefixOf (part ++ rest) = true := fun rest =>
    List.isPrefixOf_iff_prefix.mpr (List.prefix_append part rest)
  have hbehind : ∀ rest : Text, removeLead part (part ++ rest) = rest := by
    intro rest
    rw [removeLead, if_pos (hlead rest), List.drop_left]
  by_cases hne : part = []
  · subst hne
    rw [spoken_nil_cons, spoken_singleton]
    exact ⟨hlead part', (congrArg strip (hbehind part')).trans h'.strip⟩
  by_cases hne' : part' = []
  · subst hne'
    have hnone := hbehind []
    rw [List.append_nil] at hnone
    rw [spoken_append_nil, hnone]
    exact ⟨List.isPrefixOf_iff_prefix.mpr List.prefix_rfl, rfl⟩
  · rw [spoken_pair hne hne', hbehind, strip_cons_space (by decide), h'.strip]
    exact ⟨hlead _, rfl⟩

/-! ## The two notices -/

namespace DisclosurePosture

variable (posture : DisclosurePosture) (callIsRecorded : Bool)

theorem tight_spokenAiNotice : Tight posture.spokenAiNotice := by
  unfold spokenAiNotice
  split
  · exact tight_strip _
  · exact tight_nil

theorem tight_spokenRecordingNotice : Tight (posture.spokenRecordingNotice callIsRecorded) := by
  unfold spokenRecordingNotice
  split
  · exact tight_strip _
  · exact tight_nil

end DisclosurePosture

namespace CallWords

variable (w : CallWords) (posture : DisclosurePosture) (callIsRecorded : Bool)

/-- The AI sentence, unless the opening line says it. -/
def aiLeft (opening : Text) (said : SaidNotices) : Text :=
  if posture.spokenAiNotice ≠ [] ∧ said.SaysAiIn opening then [] else posture.spokenAiNotice

/-- The recording sentence, unless the opening line says it. -/
def recordingLeft (opening : Text) (said : SaidNotices) : Text :=
  if posture.spokenRecordingNotice callIsRecorded ≠ [] ∧
      ¬ w.saysAi (posture.spokenRecordingNotice callIsRecorded) ∧ said.SaysRecordedIn opening then
    []
  else posture.spokenRecordingNotice callIsRecorded

theorem tight_recordingLeft (opening : Text) (said : SaidNotices) :
    Tight (w.recordingLeft posture callIsRecorded opening said) := by
  unfold recordingLeft
  split
  · exact tight_nil
  · exact posture.tight_spokenRecordingNotice callIsRecorded

/-- Of composed notices each is left unless the opening line says it. -/
theorem noticesLeft_composed (opening : Text) (said : SaidNotices) :
    w.noticesLeft (posture.composeOpeningLine callIsRecorded) opening posture.spokenAiNotice said =
      (aiLeft posture opening said, spoken [aiLeft posture opening said,
        w.recordingLeft posture callIsRecorded opening said]) := by
  have hai := posture.tight_spokenAiNotice
  have hrecording := posture.tight_spokenRecordingNotice callIsRecorded
  obtain ⟨hlead, hbehind⟩ := removeLead_spoken_pair posture.spokenAiNotice hrecording
  rw [noticesLeft, DisclosurePosture.composeOpeningLine, hai.strip,
    (tight_spoken_pair hai hrecording).strip]
  dsimp only
  rw [if_pos (.inr hlead), hbehind]
  rfl

/-- The agent introduces itself by its own sentence. -/
def Introduced (opening language : Text) (said : SaidNotices) : Prop :=
  w.introducesItself (aiLeft posture opening said) language = true

/-- The opening line as it is said behind the introduction. -/
def introducedLine (opening : Text) (names : List Text) : Text :=
  w.withoutIntroduction (w.withoutGreeting opening) names

/-- Without an introduction the opening line is said whole, then the notices left. -/
theorem joinFirstWords_of_not_introduced {opening language : Text} {said : SaidNotices}
    (h : ¬ w.Introduced posture opening language said) (names : List Text) :
    w.joinFirstWords (posture.composeOpeningLine callIsRecorded) opening posture.spokenAiNotice
        language names said =
      spoken [strip opening, spoken [aiLeft posture opening said,
        w.recordingLeft posture callIsRecorded opening said]] := by
  unfold Introduced at h
  rw [joinFirstWords, w.noticesLeft_composed]
  dsimp only
  split
  · rfl
  · rw [if_neg fun hboth => h hboth.1]

/-- With one, the salutation and the AI sentence come first, and the recording sentence, if it
is left, last. -/
theorem joinFirstWords_of_introduced {opening language : Text} {said : SaidNotices}
    (h : w.Introduced posture opening language said) (names : List Text) :
    w.joinFirstWords (posture.composeOpeningLine callIsRecorded) opening posture.spokenAiNotice
        language names said =
      spoken [(w.introductionSalutation language).getD [], aiLeft posture opening said,
        w.introducedLine opening names,
        w.recordingLeft posture callIsRecorded opening said] := by
  unfold Introduced at h
  obtain ⟨hlead, hbehind⟩ := removeLead_spoken_pair (aiLeft posture opening said)
    (w.tight_recordingLeft posture callIsRecorded opening said)
  have hsome : (w.introductionSalutation language).isSome = true := by
    simp only [introducesItself, decide_eq_true_eq] at h
    exact h.2.1
  obtain ⟨salutation, hsalutation⟩ := Option.isSome_iff_exists.mp hsome
  rw [joinFirstWords, w.noticesLeft_composed]
  dsimp only
  rw [hsalutation]
  dsimp only
  rw [if_pos ⟨h, hlead⟩, hbehind]
  rfl

/-- An agent introduces itself by its own sentence if the sentence does so and the opening line
does not say it. -/
theorem introduced_iff (opening language : Text) (said : SaidNotices) :
    w.Introduced posture opening language said ↔
      w.introducesItself posture.spokenAiNotice language = true ∧ ¬ said.SaysAiIn opening := by
  have hempty : w.introducesItself [] language = false := rfl
  unfold Introduced aiLeft
  split
  next hsaid =>
    rw [hempty]
    simp [hsaid.2]
  next hleft =>
    refine ⟨fun h => ⟨h, fun hword => hleft ⟨?_, hword⟩⟩, fun h => h.1⟩
    intro hnil
    rw [hnil, hempty] at h
    cases h

/-! ## What is lost -/

/-- The recording sentence is left out for words of the opening line, and neither they nor the
sentence are in what is said of that line and ahead of it. -/
structure LosesRecording (opening language : Text) (names : List Text) (said : SaidNotices) :
    Prop where
  introduces : w.introducesItself posture.spokenAiNotice language = true
  aiStored : ¬ said.SaysAiIn opening
  recordingOn : posture.spokenRecordingNotice callIsRecorded ≠ []
  recordingAlone : w.saysAi (posture.spokenRecordingNotice callIsRecorded) = false
  woven : said.SaysRecordedIn opening
  removed : ∀ text ∈ [posture.spokenRecordingNotice callIsRecorded, said.recording],
    ¬ flat text <:+: flat (spoken [(w.introductionSalutation language).getD [],
      posture.spokenAiNotice, w.introducedLine opening names])

/-- The AI notice is in the first words. -/
theorem ai_said (opening language : Text) (names : List Text) (said : SaidNotices) :
    flat posture.spokenAiNotice <:+: flat (w.joinFirstWords
        (posture.composeOpeningLine callIsRecorded) opening posture.spokenAiNotice language names
        said) ∨
      said.SaysAiIn (w.joinFirstWords (posture.composeOpeningLine callIsRecorded) opening
        posture.spokenAiNotice language names said) := by
  by_cases h : w.Introduced posture opening language said
  · have hleft : aiLeft posture opening said = posture.spokenAiNotice :=
      if_neg fun hsaid => ((w.introduced_iff posture opening language said).mp h).2 hsaid.2
    rw [w.joinFirstWords_of_introduced posture callIsRecorded h, hleft]
    exact .inl (flat_infix_spoken (by simp))
  · rw [w.joinFirstWords_of_not_introduced posture callIsRecorded h]
    by_cases hsaid : posture.spokenAiNotice ≠ [] ∧ said.SaysAiIn opening
    · refine .inr (hsaid.2.of_words ?_)
      rw [← words_strip opening]
      exact words_infix_spoken (by simp)
    · refine .inl ?_
      have hleft : aiLeft posture opening said = posture.spokenAiNotice := if_neg hsaid
      rw [hleft]
      exact flat_infix_spoken_behind (by simp) _

/-- The recording notice is, unless it is lost. -/
theorem recording_said_iff (opening language : Text) (names : List Text) (said : SaidNotices) :
    (strip (posture.spokenRecordingNotice callIsRecorded) = [] ∨
      flat (posture.spokenRecordingNotice callIsRecorded) <:+: flat (w.joinFirstWords
        (posture.composeOpeningLine callIsRecorded) opening posture.spokenAiNotice language names
        said) ∨
      said.SaysRecordedIn (w.joinFirstWords (posture.composeOpeningLine callIsRecorded) opening
        posture.spokenAiNotice language names said)) ↔
      ¬ w.LosesRecording posture callIsRecorded opening language names said := by
  rw [(posture.tight_spokenRecordingNotice callIsRecorded).strip]
  by_cases hdropped : posture.spokenRecordingNotice callIsRecorded ≠ [] ∧
      ¬ w.saysAi (posture.spokenRecordingNotice callIsRecorded) ∧ said.SaysRecordedIn opening
  · have hleft : w.recordingLeft posture callIsRecorded opening said = [] := if_pos hdropped
    obtain ⟨hon, halone, hwoven⟩ := hdropped
    rw [Bool.not_eq_true] at halone
    by_cases h : w.Introduced posture opening language said
    · obtain ⟨hintroduces, hstored⟩ := (w.introduced_iff posture opening language said).mp h
      have hai : aiLeft posture opening said = posture.spokenAiNotice :=
        if_neg fun hsaid => hstored hsaid.2
      rw [w.joinFirstWords_of_introduced posture callIsRecorded h, hleft, hai]
      have hlast : spoken [(w.introductionSalutation language).getD [], posture.spokenAiNotice,
          w.introducedLine opening names, []] =
            spoken [(w.introductionSalutation language).getD [], posture.spokenAiNotice,
              w.introducedLine opening names] := by
        simp [spoken, List.filter_cons]
      rw [hlast]
      constructor
      · rintro (hoff | hsentence | hwords) hlost
        · exact hon hoff
        · exact hlost.removed _ (by simp) hsentence
        · exact hlost.removed _ (by simp) hwords.2
      · intro hkept
        by_contra hnone
        rw [not_or, not_or] at hnone
        refine hkept ⟨hintroduces, hstored, hon, halone, hwoven, ?_⟩
        intro text htext
        rw [List.mem_cons, List.mem_singleton] at htext
        obtain rfl | rfl := htext
        · exact hnone.2.1
        · exact fun hwords => hnone.2.2 ⟨hwoven.1, hwords⟩
    · rw [w.joinFirstWords_of_not_introduced posture callIsRecorded h]
      refine iff_of_true (.inr (.inr (hwoven.of_words ?_))) fun hlost => ?_
      · rw [← words_strip opening]
        exact words_infix_spoken (by simp)
      · exact h ((w.introduced_iff posture opening language said).mpr
          ⟨hlost.introduces, hlost.aiStored⟩)
  · have hleft : w.recordingLeft posture callIsRecorded opening said =
        posture.spokenRecordingNotice callIsRecorded := if_neg hdropped
    refine iff_of_true (.inr (.inl ?_)) fun hlost => hdropped
      ⟨hlost.recordingOn, by simp [hlost.recordingAlone], hlost.woven⟩
    by_cases h : w.Introduced posture opening language said
    · rw [w.joinFirstWords_of_introduced posture callIsRecorded h, hleft]
      exact flat_infix_spoken (by simp)
    · rw [w.joinFirstWords_of_not_introduced posture callIsRecorded h, hleft]
      exact flat_infix_spoken_behind (by simp) _

/-- The first words disclose the notices switched on, unless the recording notice is lost. -/
theorem joinFirstWords_disclose (opening language : Text) (names : List Text)
    (said : SaidNotices) :
    FirstWordsDisclose (w.joinFirstWords (posture.composeOpeningLine callIsRecorded) opening
        posture.spokenAiNotice language names said) posture.spokenAiNotice
        (posture.spokenRecordingNotice callIsRecorded) said ↔
      ¬ w.LosesRecording posture callIsRecorded opening language names said := by
  rw [← w.recording_said_iff posture callIsRecorded]
  exact and_iff_right (.inr (w.ai_said posture callIsRecorded opening language names said))

end CallWords

/-! ## Prompts of an opening line and its notice -/

/-- One line of a prompt, as an author writes it. -/
structure OneLine (line : Text) : Prop where
  written : line ≠ []
  tight : Tight line
  unbroken : ∀ c ∈ line, isBreak c = false
  plain : line.head? ≠ some '['

theorem oneLine_iff (line : Text) : (line ≠ [] ∧ strip line = line ∧ line.any isBreak = false ∧
    line.head? ≠ some '[') ↔ OneLine line := by
  constructor
  · rintro ⟨hwritten, htight, hunbroken, hplain⟩
    exact ⟨hwritten, htight ▸ tight_strip line, unbroken_of_any hunbroken, hplain⟩
  · rintro ⟨hwritten, htight, hunbroken, hplain⟩
    refine ⟨hwritten, htight.strip, ?_, hplain⟩
    rw [List.any_eq_false]
    intro c hc
    rw [hunbroken c hc]
    exact Bool.false_ne_true

instance (line : Text) : Decidable (OneLine line) := decidable_of_iff _ (oneLine_iff line)

theorem openingHeader_shape : EndsOpen openingHeader ∧ openingHeader.any isBreak = false ∧
    strip openingHeader = openingHeader ∧ openingHeader ≠ [] ∧ openingHeader ≠ noticesHeader ∧
    openingHeader.head? = some '[' ∧ noticesHeader.head? = some '[' := by
  unfold openingHeader noticesHeader
  repeat rewrite [String.toList_ofList]
  decide +kernel

/-- A prompt of an opening line and the words of its recording notice is read as both. -/
theorem read_woven {line words : Text} (hline : OneLine line) (hwords : OneLine words)
    (hplain : pronounceLead.isPrefixOf line = false) {body : Text}
    (hbody : body = paragraphs [unlines [openingHeader, line],
      unlines [noticesHeader, recordingLead false ++ words]]) :
    openingLineOf body = line ∧ saidNoticesOf body false = ⟨[], words⟩ ∧
      pronunciationsOf body = [] := by
  obtain ⟨hopenOpen, hopenUnbroken, hopenStrip, hopenNe, hdiffer, hopenBracket, hnoticesBracket⟩ :=
    openingHeader_shape
  obtain ⟨-, hnoticesUnbroken, hnoticesStrip, hnoticesNe⟩ := noticesHeader_shape
  obtain ⟨hy, hleadUnbroken, hlead⟩ := lead_shape false (recordingLead false) (by simp)
  obtain ⟨rest, hcons⟩ : ∃ rest, recordingLead false = 'Y' :: rest := List.head?_eq_some_iff.mp hy
  -- the row is one line that starts with the letter Y
  have hrowUnbroken : ∀ c ∈ recordingLead false ++ words, isBreak c = false := by
    intro c hc
    obtain hc | hc := List.mem_append.mp hc
    · exact unbroken_of_any hleadUnbroken c hc
    · exact hwords.unbroken c hc
  have hrowTight : Tight (recordingLead false ++ words) := by
    constructor
    · rw [hcons]
      rintro c ⟨⟩
      decide
    · intro c hc
      rw [List.getLast?_append_of_ne_nil _ hwords.written] at hc
      exact hwords.tight.2 c hc
  have hrowNe : recordingLead false ++ words ≠ [] := by simp [hcons]
  have hlines : lines body =
      [openingHeader, line, [], noticesHeader, recordingLead false ++ words] := by
    have hfirst : lines (unlines [openingHeader, line]) = [openingHeader, line] := by
      refine lines_unlines ?_
      rw [List.forall_mem_cons, List.forall_mem_cons]
      exact ⟨⟨hopenNe, unbroken_of_any hopenUnbroken⟩, ⟨hline.written, hline.unbroken⟩,
        List.forall_mem_nil _⟩
    have hsecond : lines (unlines [noticesHeader, recordingLead false ++ words]) =
        [noticesHeader, recordingLead false ++ words] := by
      refine lines_unlines ?_
      rw [List.forall_mem_cons, List.forall_mem_cons]
      exact ⟨⟨hnoticesNe, unbroken_of_any hnoticesUnbroken⟩, ⟨hrowNe, hrowUnbroken⟩,
        List.forall_mem_nil _⟩
    have hopen : EndsOpen (unlines [openingHeader, line]) := by
      refine endsOpen_unlines (List.cons_ne_nil _ _) ?_
      rw [List.forall_mem_cons, List.forall_mem_cons]
      exact ⟨hopenOpen, hline.tight.endsOpen hline.written, List.forall_mem_nil _⟩
    have hlast : ∀ t : Text, paragraphs [t] = t := fun _ => rfl
    rw [hbody, lines_paragraphs hopen, hlast, hfirst, hsecond, List.cons_append, List.cons_append,
      List.nil_append]
  have hnotNotices : strip line ≠ noticesHeader := by
    rw [hline.tight.strip]
    rintro rfl
    exact hline.plain hnoticesBracket
  have hplainLine : ['['].isPrefixOf line = false := by
    rw [Bool.eq_false_iff]
    exact fun h => hline.plain ((isPrefixOf_bracket line).mp h)
  have hends : ['['].isPrefixOf noticesHeader = true :=
    (isPrefixOf_bracket noticesHeader).mpr hnoticesBracket
  refine ⟨?_, ?_, ?_⟩
  · have hsection : sectionLines openingHeader (lines body) = [line, []] := by
      rw [hlines, sectionLines, List.dropWhile_cons_of_neg (by simp [hopenStrip]),
        List.drop_succ_cons, List.drop_zero,
        List.takeWhile_cons_of_pos (by rw [hplainLine]; rfl),
        List.takeWhile_cons_of_pos (by decide),
        List.takeWhile_cons_of_neg (by rw [hends]; decide)]
    rw [openingLineOf, sectionOf, hsection]
    exact (strip_unlines_append_nil [line]).trans hline.tight.strip
  · have hsection : sectionLines noticesHeader (lines body) = [recordingLead false ++ words] := by
      rw [hlines, sectionLines, List.dropWhile_cons_of_pos (by simp [hopenStrip, hdiffer]),
        List.dropWhile_cons_of_pos (by simpa using hnotNotices),
        List.dropWhile_cons_of_pos (by simpa [strip] using hnoticesNe.symm),
        List.dropWhile_cons_of_neg (by simp [hnoticesStrip]), List.drop_succ_cons, List.drop_zero,
        List.takeWhile_cons_of_pos (by rw [hcons]; rfl), List.takeWhile_nil]
    have hread : lines (sectionOf body noticesHeader) = [recordingLead false ++ words] := by
      have hone : ∀ t : Text, unlines [t] = t := fun _ => rfl
      rw [sectionOf, hsection, hone, hrowTight.strip, lines_of_unbroken hrowNe hrowUnbroken]
    have hai : wordsBehind (aiLead false) [recordingLead false ++ words] = [] := by
      rw [wordsBehind, List.find?_cons_of_neg (by simp [(aiLead_isPrefixOf false false words).2])]
      rfl
    have hrecording : wordsBehind (recordingLead false) [recordingLead false ++ words] = words := by
      rw [wordsBehind,
        List.find?_cons_of_pos (by simp [(recordingLead_isPrefixOf false false words).1])]
      rw [Option.map_some, Option.getD_some]
      exact strip_drop_lead hlead hwords.tight
    unfold saidNoticesOf
    rw [hread, List.map_singleton, hrowTight.strip]
    dsimp only
    rw [hai, hrecording]
  · obtain ⟨after, hlead⟩ : ∃ after, pronounceLead = 'S' :: after := by
      unfold pronounceLead
      rewrite [String.toList_ofList]
      exact ⟨_, rfl⟩
    have hother : ∀ l : Text, l.head? ≠ some 'S' → pronounceLead.isPrefixOf l = false := by
      intro l hl
      cases l with
      | nil => rw [hlead]; rfl
      | cons c l =>
        rw [hlead]
        have hc : ('S' == c) = false := by
          rw [beq_eq_false_iff_ne]
          rintro rfl
          exact hl rfl
        simp [List.isPrefixOf, hc]
    have hnone : ((lines body).map strip).find? (fun l => pronounceLead.isPrefixOf l) = none := by
      rw [hlines, List.find?_eq_none]
      simp only [List.map_cons, List.map_nil, List.forall_mem_cons, hopenStrip, hnoticesStrip,
        hline.tight.strip, hrowTight.strip, hplain]
      refine ⟨by simp [hother openingHeader (by simp [hopenBracket])], by simp,
        by simp [hother (strip []) (by decide)],
        by simp [hother noticesHeader (by simp [hnoticesBracket])],
        by simp [hother (recordingLead false ++ words) (by simp [hcons])], List.forall_mem_nil _⟩
    rw [pronunciationsOf, hnone]

/-! ## A notice that is lost -/

/-- Words enough for the calls of one Hindi agent. -/
def hindiWords : CallWords where
  saysAi text := ["AI".toList, "artificial".toList, "एआई".toList].any fun word =>
    text.tails.any word.isPrefixOf
  greetingHead text := if "नमस्ते".toList.isPrefixOf text then some 6 else none
  salutations language := if language = "hi".toList then some "नमस्ते जी,".toList else none
  outboundIn _ _ _ := none
  respell _ _ line := line
  lower text := text.map Char.toLower
  casefold text := text.map Char.toLower

def hindiPosture : DisclosurePosture where
  aiDisclosureLine := "मैं Sunrise से Anjali, एआई असिस्टेंट, बात कर रही हूँ।".toList
  aiDisclosureEnabled := true
  recordingNoticeLine := "यह कॉल रिकॉर्ड हो रही है।".toList
  recordingNoticeEnabled := true

/-- Anjali of Sunrise, whose opening line says in its own words that the call is recorded. -/
def hindiAgent : AgentConfig where
  name := "Anjali".toList
  direction := .inbound
  business := "Sunrise".toList
  languagePrimary := "hi-IN".toList
  systemPrompt :=
    "[OPENING]\nSunrise यह कॉल रिकॉर्ड करता है। मैं आपकी क्या मदद करूँ?\n\n".toList ++
    "[NOTICES IN YOUR OPENING]\n".toList ++
    "Your opening line tells the caller the call is recorded in these words: ".toList ++
    "यह कॉल रिकॉर्ड करता है".toList
  openingLine := []
  aiNotice := []

/-- Its prompt is read as its opening line and the words of its recording notice. -/
theorem hindiAgent_read :
    openingLineOf hindiAgent.systemPrompt =
        "Sunrise यह कॉल रिकॉर्ड करता है। मैं आपकी क्या मदद करूँ?".toList ∧
      saidNoticesOf hindiAgent.systemPrompt false = ⟨[], "यह कॉल रिकॉर्ड करता है".toList⟩ ∧
      pronunciationsOf hindiAgent.systemPrompt = [] := by
  refine read_woven ?_ ?_ ?_ ?_
  · rewrite [String.toList_ofList]
    decide +kernel
  · rewrite [String.toList_ofList]
    decide +kernel
  · unfold pronounceLead
    repeat rewrite [String.toList_ofList]
    decide +kernel
  · unfold hindiAgent openingHeader noticesHeader recordingLead
    rw [if_neg Bool.false_ne_true]
    repeat rewrite [String.toList_ofList]
    rfl

/-- Nothing is respelt in the calls of the Hindi agent. -/
theorem hindiWords_saidAsTaught (line body business : Text) :
    hindiWords.saidAsTaught line body business = line := by
  unfold CallWords.saidAsTaught
  dsimp only
  induction (pronunciationsOf body).filter (·.sayAs ≠ []) ++
    (if strip business ≠ [] then [⟨business, flat business⟩] else []) with
  | nil => rfl
  | cons pair pairs ih => exact ih

theorem hindiWords_saidNotices {body business words : Text}
    (h : saidNoticesOf body false = ⟨[], words⟩) (hwords : words ≠ []) :
    hindiWords.saidNotices body business false = ⟨[], words⟩ := by
  unfold CallWords.saidNotices
  rw [h]
  dsimp only
  rw [hindiWords_saidAsTaught, hindiWords_saidAsTaught, if_neg (not_not_intro rfl),
    if_pos hwords]

theorem hindiWords_composeFirstUtterance (cfg : AgentConfig) :
    hindiWords.composeFirstUtterance cfg =
      hindiWords.joinFirstWords cfg.openingLine (openingLineOf cfg.systemPrompt) cfg.aiNotice
        cfg.languagePrimary [cfg.name, if cfg.direction = .outbound then [] else cfg.business,
          cfg.name, if cfg.direction = .outbound then [] else cfg.business]
        (hindiWords.saidNotices cfg.systemPrompt cfg.business false) := by
  unfold CallWords.composeFirstUtterance CallWords.answeredLine CallWords.answeredNames
    CallWords.introductionNames
  rw [hindiWords_saidAsTaught, hindiWords_saidAsTaught, hindiWords_saidAsTaught]

end Calevate.Agents
