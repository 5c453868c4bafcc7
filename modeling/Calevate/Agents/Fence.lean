import Calevate.Agents.EnginePrompt

/-!
# The fence

A composed prompt has each fence of the script once if it has a script, and neither otherwise,
`count_composeEnginePrompt`, whatever the client wrote. What is written ahead of the script of a
fence or a floor is written in the client words there, `infix_aheadTexts`: the role sentence, the
first words as quoted, the remembered facts.
-/

namespace Calevate.Agents

open Lib.Text
open Lib.Occurs
open Lib.ClockText (strip isSpace)

/-! ## The marks -/

/-- Parts of the marks that tell them from the platform's other texts. -/
def clues : List Text :=
  ["--- CL".toList, "--- END C".toList, "or whether".toList, "Never reveal".toList]

/-- Parts of the marks that the rule on confidentiality does not have. -/
def otherClues : List Text := ["--- CL".toList, "--- END C".toList, "or whether".toList]

-- A literal is read by its characters here: to take it apart is slow.
set_option maxRecDepth 4000 in
theorem marks_spelt :
    (∀ mark ∈ fences ++ floors, mark ≠ [] ∧ '\n' ∉ mark ∧ '"' ∉ mark ∧ ¬ ['.', ' '] <:+: mark ∧
      ∃ clue ∈ clues, clue ≠ [] ∧ clue <:+: mark) ∧
    (∀ fence ∈ fences, ['-', '-'] <:+: fence ∧ '\x7b' ∉ fence ∧ '\x7d' ∉ fence ∧
      count fence clientScriptOpen + count fence clientScriptClose = 1 ∧
      count fence truthfulAnswerMarker = 0) ∧
    (∀ floor ∈ floors, ¬ floor <:+: clientScriptOpen) ∧
    ∀ mark ∈ truthfulAnswerMarker :: fences, ∃ clue ∈ otherClues, clue ≠ [] ∧ clue <:+: mark := by
  unfold fences floors clientScriptOpen clientScriptClose truthfulAnswerMarker
    confidentialityMarker clues otherClues
  repeat rewrite [String.toList_ofList]
  refine ⟨?_, ?_, ?_, ?_⟩ <;> decide +kernel

/-- The fences and the floors are lines without a double quote, and no sentence of theirs goes
on behind its full stop. -/
theorem marks_line (mark : Text) (h : mark ∈ fences ++ floors) :
    mark ≠ [] ∧ '\n' ∉ mark ∧ '"' ∉ mark ∧ ¬ ['.', ' '] <:+: mark := by
  obtain ⟨hne, hline, hquote, hend, -⟩ := (marks_spelt).1 mark h
  exact ⟨hne, hline, hquote, hend⟩

theorem fence_mem {fence : Text} (h : fence ∈ fences) : fence ∈ fences ++ floors :=
  List.mem_append_left _ h

theorem floor_mem {floor : Text} (h : floor ∈ floors) : floor ∈ fences ++ floors :=
  List.mem_append_right _ h

theorem open_mem : clientScriptOpen ∈ fences := List.mem_cons_self

theorem close_mem : clientScriptClose ∈ fences := List.mem_cons_of_mem _ List.mem_cons_self

theorem truthful_mem : truthfulAnswerMarker ∈ floors := List.mem_cons_self

theorem confidentiality_mem : confidentialityMarker ∈ floors :=
  List.mem_cons_of_mem _ List.mem_cons_self

/-- Each fence opens a marker. -/
theorem fence_opens (L : Letters) : ∀ fence ∈ fences, L.Opens fence := by
  have hletter : ∀ c : Char, c.isAlphanum = true → isGap c = false → ∀ t : Text,
      L.leadsWord (' ' :: c :: t) = true := by
    intro c hc hgap t
    rw [Letters.leadsWord_cons, if_pos (by decide), Letters.leadsWord_cons, hgap]
    exact L.of_isAlphanum c hc
  have hopen : clientScriptOpen = '-' :: '-' :: '-' :: ' ' :: 'C' :: _ := String.toList_ofList
  have hclose : clientScriptClose = '-' :: '-' :: '-' :: ' ' :: 'E' :: _ := String.toList_ofList
  intro fence h
  rw [fences, List.mem_cons, List.mem_singleton] at h
  obtain h | h := h
  · rw [h, hopen]
    exact ⟨by decide, by decide, by decide, hletter 'C' (by decide) (by decide) _⟩
  · rw [h, hclose]
    exact ⟨by decide, by decide, by decide, hletter 'E' (by decide) (by decide) _⟩

theorem count_of_unopened {L : Letters} {t fence : Text} (h : L.Unopened t)
    (hfence : fence ∈ fences) : count fence t = 0 :=
  (count_eq_zero (marks_line fence (fence_mem hfence)).1).mpr
    (h.not_infix (fence_opens L fence hfence))

/-! ## Fixed texts -/

/-- A text without a clue has no mark. It is given by its characters, which are what is
looked through. -/
theorem count_of_clueless (chars : Text) (h : ∀ clue ∈ clues, count clue chars = 0) {mark : Text}
    (hmark : mark ∈ fences ++ floors) : count mark chars = 0 := by
  obtain ⟨-, -, -, -, clue, hclue, hne, hin⟩ := (marks_spelt).1 mark hmark
  exact count_of_part hne hin (h clue hclue)

/-- The lines on what the agent can do. -/
def cannotHelpTexts : List Text :=
  [cannotHelpHeader, noAnswerLead ++ followUp true ++ ['.'], noAnswerLead ++ followUp false ++ ['.'],
    ownRulesHandoverRule,
    "- Asked for a person with no hand-over tool: say nobody is free and ".toList ++
      nobodyFree true ++ ['.'],
    "- Asked for a person with no hand-over tool: say nobody is free and ".toList ++
      nobodyFree false ++ ['.'],
    doNotCallRule, callBackTimeRule, actionClaimRule, callNumberRule, nameRule, daysRule,
    collectRule, forwardedLineRule]

/-- The lines with the values of the call. -/
def thisCallTexts : List Text :=
  [thisCallHeader, "Today: \x7b\x7btoday\x7d\x7d".toList,
    "Name: \x7b\x7blead_name\x7d\x7d".toList, "Number: \x7b\x7bphone\x7d\x7d".toList,
    "Details: \x7b\x7bcall_details\x7d\x7d".toList,
    "Why this call: \x7b\x7bcall_reason\x7d\x7d".toList,
    "Caller number hidden: \x7b\x7bcaller_number_hidden\x7d\x7d".toList]

/-- What the section on the start of the call has around what it quotes. -/
def startTexts : List Text :=
  let said := startOfCallHeader ++ "\nAlready said for you as your first turn: ".toList
  [said, said ++ "on a call you answer, ".toList, said ++ "on a call you place, ".toList,
    "; ".toList ++ "on a call you place, ".toList,
    '.' :: openingContinuesRule,
    '.' :: (testCallOpeningRule ++ openingContinuesRule),
    '.' :: (openingContinuesRule ++ (callReasonRule ++ placedCallPermissionRule)),
    '.' :: (testCallOpeningRule ++
      (openingContinuesRule ++ (callReasonRule ++ placedCallPermissionRule)))]

/-- The sections' other fixed texts. -/
def sectionTexts : List Text :=
  [platformRulesHeader, ' ' :: platformRulesPreamble, engineMemoryRule, callerMemoryLead,
    callerMemorySlot, callerMemoryEnd, platformRulesTailHeader, identityClause,
    recordedClause true, recordedClause false, withdrawalClause]

set_option maxRecDepth 8000 in
theorem texts_spelt :
    (∀ t ∈ cannotHelpTexts ++ thisCallTexts ++ startTexts ++ sectionTexts,
      ∀ clue ∈ clues, count clue t = 0) ∧
    (∀ clue ∈ otherClues, count clue confidentialityRule = 0) ∧
    (callerMemoryLead.getLast? = some '\n' ∧ callerMemoryEnd.head? = some '\n') ∧
    (¬ ['-', '-'] <:+: "You are an AI assistant on a phone call.".toList ∧
      "You are an AI assistant on a phone call.".toList =
        "You are an AI assistant on a phone call".toList ++ ['.']) ∧
    ∀ direction : Direction,
      ¬ ['-', '-'] <:+: "You are the AI assistant ".toList ++ direction.job := by
  have hcannotHelp : ∀ t ∈ cannotHelpTexts, ∀ clue ∈ clues, count clue t = 0 := by
    unfold cannotHelpTexts cannotHelpHeader noAnswerLead followUp ownRulesHandoverRule nobodyFree
      doNotCallRule callBackTimeRule actionClaimRule callNumberRule nameRule daysRule collectRule
      forwardedLineRule
    rw [if_pos rfl, if_neg Bool.false_ne_true, if_pos rfl, if_neg Bool.false_ne_true]
    repeat rewrite [String.toList_ofList]
    repeat refine List.forall_mem_cons.mpr ⟨by decide +kernel, ?_⟩
    exact List.forall_mem_nil _
  have hthisCall : ∀ t ∈ thisCallTexts, ∀ clue ∈ clues, count clue t = 0 := by
    unfold thisCallTexts thisCallHeader
    repeat rewrite [String.toList_ofList]
    repeat refine List.forall_mem_cons.mpr ⟨by decide +kernel, ?_⟩
    exact List.forall_mem_nil _
  have hstart : ∀ t ∈ startTexts, ∀ clue ∈ clues, count clue t = 0 := by
    unfold startTexts startOfCallHeader openingContinuesRule testCallOpeningRule callReasonRule
      placedCallPermissionRule
    dsimp only
    repeat rewrite [String.toList_ofList]
    repeat refine List.forall_mem_cons.mpr ⟨by decide +kernel, ?_⟩
    exact List.forall_mem_nil _
  have hsection : ∀ t ∈ sectionTexts, ∀ clue ∈ clues, count clue t = 0 := by
    unfold sectionTexts platformRulesHeader platformRulesPreamble engineMemoryRule callerMemoryLead
      callerMemorySlot callerMemoryEnd platformRulesTailHeader identityClause recordedClause
      withdrawalClause
    rw [if_pos rfl, if_neg Bool.false_ne_true]
    repeat rewrite [String.toList_ofList]
    repeat refine List.forall_mem_cons.mpr ⟨by decide +kernel, ?_⟩
    exact List.forall_mem_nil _
  have hconfidential : ∀ clue ∈ otherClues, count clue confidentialityRule = 0 := by
    unfold otherClues confidentialityRule confidentialityMarker
    repeat rewrite [String.toList_ofList]
    decide +kernel
  refine ⟨fun t ht => ?_, hconfidential, ?_, ?_, ?_⟩
  · rw [List.mem_append, List.mem_append, List.mem_append] at ht
    obtain ((ht | ht) | ht) | ht := ht
    · exact hcannotHelp t ht
    · exact hthisCall t ht
    · exact hstart t ht
    · exact hsection t ht
  · unfold callerMemoryLead callerMemoryEnd
    repeat rewrite [String.toList_ofList]
    decide +kernel
  · repeat rewrite [String.toList_ofList]
    decide +kernel
  · rintro (_ | _ | _) <;>
      · unfold Direction.job
        dsimp only
        repeat rewrite [String.toList_ofList]
        decide +kernel

section Counts

variable {mark : Text} (hmark : mark ∈ fences ++ floors)

include hmark

theorem count_cannotHelpText {t : Text} (h : t ∈ cannotHelpTexts) : count mark t = 0 :=
  count_of_clueless t ((texts_spelt).1 t (by simp [h])) hmark

theorem count_thisCallText {t : Text} (h : t ∈ thisCallTexts) : count mark t = 0 :=
  count_of_clueless t ((texts_spelt).1 t (by simp [h])) hmark

theorem count_startText {t : Text} (h : t ∈ startTexts) : count mark t = 0 :=
  count_of_clueless t ((texts_spelt).1 t (by simp [h])) hmark

theorem count_sectionText {t : Text} (h : t ∈ sectionTexts) : count mark t = 0 :=
  count_of_clueless t ((texts_spelt).1 t (by simp [h])) hmark

theorem count_lines {lines : List Text} (h : ∀ line ∈ lines, count mark line = 0) :
    count mark (unlines lines) = 0 := by
  obtain ⟨hne, hline, -⟩ := marks_line mark hmark
  rw [count_unlines hne hline]
  refine List.sum_eq_zero fun n hn => ?_
  obtain ⟨line, hmem, rfl⟩ := List.mem_map.mp hn
  exact h line hmem

theorem count_cannotHelpLines (cfg : PromptConfig) :
    count mark (unlines (cannotHelpLines cfg)) = 0 := by
  have hone : ∀ {p : Prop} [Decidable p] {t : Text}, t ∈ cannotHelpTexts →
      (if p then [t] else []) ⊆ cannotHelpTexts := by
    intro p _ t ht
    split
    · exact List.cons_subset.mpr ⟨ht, List.nil_subset _⟩
    · exact List.nil_subset _
  have hanswer : noAnswerLead ++ followUp cfg.callbacksOffered ++ ['.'] ∈ cannotHelpTexts := by
    cases cfg.callbacksOffered <;> simp only [cannotHelpTexts, List.mem_cons, true_or, or_true]
  have hperson : "- Asked for a person with no hand-over tool: say nobody is free and ".toList ++
      nobodyFree cfg.callbacksOffered ++ ['.'] ∈ cannotHelpTexts := by
    cases cfg.callbacksOffered <;> simp only [cannotHelpTexts, List.mem_cons, true_or, or_true]
  have hsubset : cannotHelpLines cfg ⊆ cannotHelpTexts := by
    simp only [cannotHelpLines, List.append_subset, List.cons_subset]
    refine ⟨⟨⟨⟨⟨⟨⟨?_, hanswer, List.nil_subset _⟩, hone ?_⟩, hperson, ?_, List.nil_subset _⟩,
      hone ?_⟩, ?_, ?_, ?_, ?_, List.nil_subset _⟩, hone ?_⟩, hone ?_⟩
    all_goals simp only [cannotHelpTexts, List.mem_cons, true_or, or_true]
  exact count_lines hmark fun line hmem => count_cannotHelpText hmark (hsubset hmem)

theorem count_thisCallLines (cfg : PromptConfig) :
    count mark (unlines (thisCallLines cfg)) = 0 := by
  have hone : ∀ {p : Prop} [Decidable p] {lines : List Text}, lines ⊆ thisCallTexts →
      (if p then lines else []) ⊆ thisCallTexts := by
    intro p _ lines hlines
    split
    · exact hlines
    · exact List.nil_subset _
  have hsubset : thisCallLines cfg ⊆ thisCallTexts := by
    rw [thisCallLines, List.append_subset, List.append_subset]
    refine ⟨⟨?_, hone ?_⟩, hone ?_⟩ <;>
      simp only [thisCallTexts, List.cons_subset, List.nil_subset, List.mem_cons, true_or, or_true,
        and_true]
  exact count_lines hmark fun line hmem => count_thisCallText hmark (hsubset hmem)

theorem count_openingRules (cfg : PromptConfig) (test : Prop) [Decidable test] :
    count mark ('.' :: ((if test then testCallOpeningRule else []) ++
      Platform.openingRules cfg)) = 0 := by
  have hplaces : '.' :: ((if test then testCallOpeningRule else []) ++
      Platform.openingRules cfg) ∈ startTexts := by
    unfold Platform.openingRules startTexts
    by_cases htest : test <;> by_cases hplaces : placesCalls cfg
    · rw [if_pos htest, if_pos hplaces]
      exact .tail _ (.tail _ (.tail _ (.tail _ (.tail _ (.tail _ (.tail _ (.head _)))))))
    · rw [if_pos htest, if_neg hplaces, List.append_nil]
      exact .tail _ (.tail _ (.tail _ (.tail _ (.tail _ (.head _)))))
    · rw [if_neg htest, if_pos hplaces, List.nil_append]
      exact .tail _ (.tail _ (.tail _ (.tail _ (.tail _ (.tail _ (.head _))))))
    · rw [if_neg htest, if_neg hplaces, List.nil_append, List.append_nil]
      exact .tail _ (.tail _ (.tail _ (.tail _ (.head _))))
  exact count_startText hmark hplaces

end Counts

/-! ## Client words -/

theorem not_pair_withoutShapes (n : ℕ) (t : Text) : ¬ ['-', '-'] <:+: withoutShapes n t := by
  have hrun : ¬ ['-', '-'] <:+: (if 2 ≤ n then [' '] else List.replicate n '-') := by
    split
    · decide
    next hshort =>
      intro hin
      have hlen := hin.length_le
      rw [List.length_replicate] at hlen
      exact hshort hlen
  induction t generalizing n with
  | nil => exact hrun
  | cons c t ih =>
    have hother : ∀ d : Char, d ≠ '-' → d ∉ ['-', '-'] := by
      intro d hd hmem
      simp only [List.mem_cons, List.not_mem_nil, or_false, or_self] at hmem
      exact hd hmem
    have hrest : ¬ ['-', '-'] <:+: withoutShapes 0 t := ih 0 (by decide)
    rw [withoutShapes]
    split
    next hc => exact ih (n + 1) (by
      split
      · decide
      next hshort =>
        intro hin
        have hlen := hin.length_le
        rw [List.length_replicate] at hlen
        exact hshort hlen)
    next hc =>
      have hwritten : (if c ∈ "[]\x7b\x7d<>".toList then ' ' else c) ≠ '-' := by
        split
        · decide
        · exact hc
      rw [infix_append_cons (by decide) (hother _ hwritten)]
      exact not_or.mpr ⟨hrun, hrest⟩

theorem upToLast_isPrefix (separator : Char) (t : Text) : upToLast separator t <+: t := by
  unfold upToLast
  split
  · exact List.take_prefix _ t
  · exact List.prefix_rfl

/-- A business's name has no two hyphens next to each other, and so no fence. -/
theorem count_roleSentence (cfg : PromptConfig) {fence : Text} (h : fence ∈ fences) :
    count fence (roleSentence cfg) = 0 := by
  have hpair := ((marks_spelt).2.1 fence h).1
  obtain ⟨-, -, -, ⟨hnameless, -⟩, hjob⟩ := texts_spelt
  have hname : ¬ ['-', '-'] <:+: roleBusiness cfg.business := by
    have hflat := not_infix_flat (by decide) (by decide) (not_pair_withoutShapes 0 cfg.business)
    unfold roleBusiness
    dsimp only
    split
    · exact fun hin =>
        hflat (hin.trans ((upToLast_isPrefix ' ' _).trans (List.take_prefix _ _)).isInfix)
    · exact hflat
  rw [count_eq_zero (marks_line fence (fence_mem h)).1]
  refine fun hin => ?_
  have hin := hpair.trans hin
  unfold roleSentence at hin
  split at hin
  · exact hnameless hin
  · obtain hin | hin := (infix_append_cons (by decide) (by decide)).mp hin
    · obtain hin | hin := (infix_append_cons (by decide) (by decide)).mp hin
      · exact hjob _ hin
      · exact hname hin
    · revert hin
      decide

theorem Platform.count_quotedClientWords (P : Platform) (text : Text) {fence : Text}
    (h : fence ∈ fences) : count fence (P.quotedClientWords text) = 0 :=
  count_of_unopened (P.letters.neutraliseMarkers_unopened _) h

theorem Platform.count_renderCallerMemory (P : Platform) (facts : List Text) {fence : Text}
    (h : fence ∈ fences) : count fence (P.renderCallerMemory facts) = 0 := by
  obtain ⟨hne, hline, -⟩ := marks_line fence (fence_mem h)
  have hfact : ∀ fact : Text,
      count fence ("- ".toList ++ P.letters.neutraliseMarkers (strip fact)) = 0 := by
    intro fact
    have hdash : ∀ d ∈ ['-'], isDash d = true := fun d hd => by
      rw [List.mem_singleton.mp hd]
      decide
    have hitem : P.letters.Unopened (['-'] ++ ' ' :: P.letters.neutraliseMarkers (strip fact)) :=
      Letters.unopened_run hdash (by decide) (P.letters.neutraliseMarkers_unopened _)
        fun hlong => absurd hlong (by decide)
    exact count_of_unopened hitem h
  have hlines : count fence (unlines ((facts.filter fun fact => strip fact ≠ []).map fun fact =>
      "- ".toList ++ P.letters.neutraliseMarkers (strip fact))) = 0 := by
    refine count_lines (fence_mem h) fun line hmem => ?_
    obtain ⟨fact, -, rfl⟩ := List.mem_map.mp hmem
    exact hfact fact
  rw [count_eq_zero hne] at hlines ⊢
  unfold Platform.renderCallerMemory
  dsimp only
  split
  · exact fun hin =>
      hlines (hin.trans ((upToLast_isPrefix '\n' _).trans (List.take_prefix _ _)).isInfix)
  · exact hlines

/-- The remembered facts, where the prompt has them. -/
def Platform.remembered (P : Platform) (cfg : PromptConfig) (facts : Option (List Text)) : Text :=
  if ¬ cfg.callerMemoryEnabled then []
  else if cfg.callerMemoryInEngine then []
  else facts.elim [] P.renderCallerMemory

/-- The client words ahead of the script. -/
def Platform.clientWordsAhead (P : Platform) (cfg : PromptConfig) (facts : Option (List Text)) :
    List Text :=
  [roleSentence cfg, P.quotedClientWords (P.firstWords cfg),
    (P.placedFirstWords cfg).elim [] P.quotedClientWords, P.remembered cfg facts]

theorem Platform.count_clientWordsAhead (P : Platform) (cfg : PromptConfig)
    (facts : Option (List Text)) {fence : Text} (h : fence ∈ fences) :
    ∀ client ∈ P.clientWordsAhead cfg facts, count fence client = 0 := by
  intro client hclient
  simp only [clientWordsAhead, List.mem_cons, List.not_mem_nil, or_false] at hclient
  obtain rfl | rfl | rfl | rfl := hclient
  · exact count_roleSentence cfg h
  · exact P.count_quotedClientWords _ h
  · cases P.placedFirstWords cfg with
    | none => rfl
    | some placed => exact P.count_quotedClientWords placed h
  · unfold remembered
    split
    · rfl
    · split
      · rfl
      · cases facts with
        | none => rfl
        | some facts => exact P.count_renderCallerMemory facts h

/-! ## The layers -/

section Layers

variable {mark : Text} (hmark : mark ∈ fences ++ floors)

include hmark

theorem count_platformRulesLayer (cfg : PromptConfig) :
    count mark (platformRulesLayer cfg) = count mark (roleSentence cfg) := by
  obtain ⟨hne, hline, -, hend⟩ := marks_line mark hmark
  have hheader : count mark platformRulesHeader = 0 :=
    count_sectionText hmark (by simp [sectionTexts])
  have hrest : count mark (' ' :: platformRulesPreamble) = 0 :=
    count_sectionText hmark (by simp [sectionTexts])
  have hsentence : ∃ s, roleSentence cfg = s ++ ['.'] := by
    unfold roleSentence
    split
    · exact ⟨_, (texts_spelt).2.2.2.1.2⟩
    · exact ⟨_, rfl⟩
  obtain ⟨s, hs⟩ := hsentence
  rw [platformRulesLayer, count_append_cons hne hline, hheader, Nat.zero_add, hs,
    count_append_iff.mpr (not_meets_of_pair hend s _), hrest, Nat.add_zero]

theorem count_saidAs (before lead quoted after : Text) :
    count mark (before ++ Platform.saidAs lead quoted ++ after) =
      count mark (before ++ lead) + count mark quoted + count mark after := by
  obtain ⟨hne, -, hquote, -⟩ := marks_line mark hmark
  have hsplit : before ++ Platform.saidAs lead quoted ++ after =
      (before ++ lead) ++ '"' :: (quoted ++ '"' :: after) := by
    simp [Platform.saidAs]
  rw [hsplit, count_append_cons hne hquote, count_append_cons hne hquote, Nat.add_assoc]

/-- The client words in the section on the start of the call are those it quotes. -/
theorem count_startOfCallSection (P : Platform) (cfg : PromptConfig) :
    count mark (P.startOfCallSection cfg) =
      count mark (P.quotedClientWords (P.firstWords cfg)) +
        count mark ((P.placedFirstWords cfg).elim [] P.quotedClientWords) := by
  have hanswer : count mark (startOfCallHeader ++ "\nAlready said for you as your first turn: ".toList
      ++ "on a call you answer, ".toList) = 0 :=
    count_startText hmark (by simp [startTexts])
  have hplace : count mark (startOfCallHeader ++ "\nAlready said for you as your first turn: ".toList
      ++ "on a call you place, ".toList) = 0 :=
    count_startText hmark (by simp [startTexts])
  have hthen : count mark ("; ".toList ++ "on a call you place, ".toList) = 0 :=
    count_startText hmark (by simp [startTexts])
  have hsaid : count mark (startOfCallHeader ++
      "\nAlready said for you as your first turn: ".toList) = 0 :=
    count_startText hmark (by simp [startTexts])
  have hrules : count mark ('.' :: Platform.openingRules cfg) = 0 := by
    have hall := count_openingRules hmark cfg False
    rwa [if_neg id, List.nil_append] at hall
  unfold Platform.startOfCallSection
  dsimp only
  cases P.placedFirstWords cfg with
  | some placed =>
    dsimp only [Option.elim_some]
    by_cases hnone : P.quotedClientWords (P.firstWords cfg) = []
    · rw [if_neg (not_not_intro hnone), List.append_nil, count_saidAs hmark, hplace, hrules, hnone,
        Nat.zero_add]
      exact (Nat.zero_add _).symm
    · have hboth : startOfCallHeader ++ "\nAlready said for you as your first turn: ".toList ++
          (Platform.saidAs "on a call you answer, ".toList (P.quotedClientWords (P.firstWords cfg)) ++
            "; ".toList) ++
          Platform.saidAs "on a call you place, ".toList (P.quotedClientWords placed) ++
          '.' :: Platform.openingRules cfg =
        startOfCallHeader ++ "\nAlready said for you as your first turn: ".toList ++
          Platform.saidAs "on a call you answer, ".toList (P.quotedClientWords (P.firstWords cfg)) ++
          ("; ".toList ++
            Platform.saidAs "on a call you place, ".toList (P.quotedClientWords placed) ++
            '.' :: Platform.openingRules cfg) := by
        simp only [List.append_assoc]
      rw [if_pos hnone, hboth, count_saidAs hmark, count_saidAs hmark, hanswer, hthen, hrules,
        Nat.zero_add, Nat.zero_add, Nat.add_zero]
  | none =>
    dsimp only [Option.elim_none]
    split
    next hnone =>
      rw [hnone]
      rfl
    next =>
      rw [count_saidAs hmark, count_openingRules hmark, hsaid]
      exact Nat.zero_add _

theorem count_callerMemorySection (P : Platform) (cfg : PromptConfig)
    (facts : Option (List Text)) :
    count mark (P.callerMemorySection cfg facts) = count mark (P.remembered cfg facts) := by
  obtain ⟨hne, hline, -⟩ := marks_line mark hmark
  have hlead : count mark callerMemoryLead = 0 :=
    count_sectionText hmark (by simp [sectionTexts])
  have hend : count mark callerMemoryEnd = 0 := count_sectionText hmark (by simp [sectionTexts])
  obtain ⟨-, -, ⟨hlast, hfirst⟩, -⟩ := texts_spelt
  have hframed : ∀ t : Text, count mark (callerMemoryLead ++ t ++ callerMemoryEnd) =
      count mark t := by
    intro t
    rw [count_append_of_head hne hline _ hfirst, count_append_of_getLast hne hline hlast, hlead,
      hend, Nat.zero_add, Nat.add_zero]
  unfold Platform.callerMemorySection Platform.remembered
  split
  · rfl
  · split
    · exact count_sectionText hmark (by simp [sectionTexts])
    · cases facts with
      | none =>
        dsimp only
        rw [hframed]
        exact count_sectionText hmark (by simp [sectionTexts])
      | some facts => exact hframed _

theorem count_joinLayers (parts : List (PromptLayer × Text)) :
    count mark (Platform.joinLayers (parts.filter fun part => part.2 ≠ [])) =
      (parts.map fun part => count mark part.2).sum := by
  obtain ⟨hne, hline, -⟩ := marks_line mark hmark
  rw [Platform.joinLayers, count_paragraphs hne hline, List.map_map]
  induction parts with
  | nil => rfl
  | cons part parts ih =>
    rw [List.filter_cons, List.map_cons, List.sum_cons, ← ih]
    split
    · rfl
    next hempty =>
      rw [decide_eq_true_eq, Ne, not_not] at hempty
      rw [hempty]
      exact (Nat.zero_add _).symm

/-- **The layers ahead of the script have what the client words there have.** -/
theorem count_ahead (P : Platform) (cfg : PromptConfig) (facts : Option (List Text)) :
    (((P.parts cfg facts).take 7).map fun part => count mark part.2).sum =
      ((P.clientWordsAhead cfg facts).map (count mark)).sum := by
  obtain ⟨hne, -⟩ := marks_line mark hmark
  have hplain := fun layer hlayer =>
    (count_eq_zero hne).mpr (P.plain cfg layer hlayer mark hmark)
  have hhow := hplain (P.howToSpeak cfg) (by simp)
  have hlanguages := hplain (P.languages cfg) (by simp)
  have hregister := hplain (P.spokenRegister cfg) (by simp)
  have hfacts := hplain (P.businessFacts cfg) (by simp)
  have hparts : (P.parts cfg facts).take 7 =
    [(.preamble, platformRulesLayer cfg), (.howToSpeak, P.howToSpeak cfg),
      (.languages, P.languages cfg), (.spokenRegister, P.spokenRegister cfg),
      (.businessFacts, P.businessFacts cfg), (.notices, P.startOfCallSection cfg),
      (.callerMemory, P.callerMemorySection cfg facts)] := rfl
  rw [hparts, Platform.clientWordsAhead]
  simp only [List.map_cons, List.map_nil, List.sum_cons, List.sum_nil,
    count_platformRulesLayer hmark, count_startOfCallSection hmark,
    count_callerMemorySection hmark, hhow, hlanguages, hregister, hfacts]
  omega

end Layers

/-- The rule on confidentiality has no fence, and not the other floor. -/
theorem count_confidentialityRule (mark : Text) (h : mark ∈ truthfulAnswerMarker :: fences) :
    count mark confidentialityRule = 0 := by
  obtain ⟨clue, hclue, hne, hin⟩ := (marks_spelt).2.2.2 mark h
  exact count_of_part hne hin ((texts_spelt).2.1 clue hclue)

/-- The truthful answers have no fence. -/
theorem count_truthfulAnswerDirective (callIsRecorded : Bool) {fence : Text}
    (h : fence ∈ fences) : count fence (truthfulAnswerDirective callIsRecorded) = 0 := by
  obtain ⟨-, -, -, -, hmarker⟩ := (marks_spelt).2.1 fence h
  refine count_lines (fence_mem h) fun line hline => ?_
  simp only [List.mem_cons, List.not_mem_nil, or_false] at hline
  obtain hline | hline | hline | hline | hline := hline
  · rw [hline]
    exact count_sectionText (fence_mem h) (by simp [sectionTexts])
  · rw [hline]
    exact hmarker
  · rw [hline]
    exact count_sectionText (fence_mem h) (by simp [sectionTexts])
  · rw [hline]
    cases callIsRecorded <;> exact count_sectionText (fence_mem h) (by simp [sectionTexts])
  · rw [hline]
    exact count_sectionText (fence_mem h) (by simp [sectionTexts])

/-- The script's section has each fence once. -/
theorem Platform.count_clientScriptSection (P : Platform) (cfg : PromptConfig) {fence : Text}
    (h : fence ∈ fences) : count fence (P.clientScriptSection cfg) =
      if strip cfg.systemPrompt = [] then 0 else 1 := by
  obtain ⟨hne, hline, -⟩ := marks_line fence (fence_mem h)
  obtain ⟨-, -, -, honce, -⟩ := (marks_spelt).2.1 fence h
  have hscript := count_of_unopened
    (P.letters.neutraliseMarkers_unopened (strip cfg.systemPrompt)) h
  rw [clientScriptSection]
  split
  · rfl
  · rw [count_append_cons hne hline, count_append_cons hne hline, hscript, Nat.zero_add]
    exact honce

/-- **A prompt with a script has each fence once**, and one without has none, whatever the client
wrote. -/
theorem Platform.count_composeEnginePrompt (P : Platform) (cfg : PromptConfig)
    (facts : Option (List Text)) {fence : Text} (h : fence ∈ fences) :
    count fence (P.composeEnginePrompt cfg facts) =
      if strip cfg.systemPrompt = [] then 0 else 1 := by
  have hahead : (((P.parts cfg facts).take 7).map fun part => count fence part.2).sum = 0 := by
    rw [count_ahead (fence_mem h)]
    refine List.sum_eq_zero fun n hn => ?_
    obtain ⟨client, hclient, rfl⟩ := List.mem_map.mp hn
    exact P.count_clientWordsAhead cfg facts h client hclient
  have hbehind : (P.parts cfg facts).drop 7 =
    [(.clientScript, P.clientScriptSection cfg),
      (.whatYouCanDo, unlines (cannotHelpLines cfg)),
      (.confidentiality, confidentialityRule),
      (.truthfulAnswers, truthfulAnswerDirective cfg.callIsRecorded),
      (.thisCall, unlines (thisCallLines cfg))] := rfl
  rw [composeEnginePrompt, enginePromptLayers, count_joinLayers (fence_mem h),
    ← List.take_append_drop 7 (P.parts cfg facts), List.map_append, List.sum_append, hahead,
    hbehind]
  simp only [List.map_cons, List.map_nil, List.sum_cons, List.sum_nil,
    P.count_clientScriptSection cfg h, count_cannotHelpLines (fence_mem h),
    count_confidentialityRule fence (List.mem_cons_of_mem _ h),
    count_truthfulAnswerDirective cfg.callIsRecorded h, count_thisCallLines (fence_mem h),
    Nat.zero_add, Nat.add_zero]

end Calevate.Agents
