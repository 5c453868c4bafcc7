import Calevate.Agents.Fence

/-!
# The floors

The platform's text of a prompt, however much of its end is cut off, is what is ahead of the
script and what is behind it (`platformText_of_prefix`). So a floor that the platform did not
write is read back out of a prompt just if client words ahead of the script say it
(`keepsFloors_iff`): first words quoted into a rule and remembered facts are the platform's text
to `platform_text`, and neither gate they pass keeps a floor out of them.
-/

namespace Calevate.Agents

open Lib.Text
open Lib.Occurs
open Lib.ClockText (strip isSpace)

/-! ## A prompt cut off -/

theorem open_ne_nil : clientScriptOpen ≠ [] := (marks_line _ (fence_mem open_mem)).1

theorem drop_fenced (ahead opened script closed behind : Text) :
    (ahead ++ (opened ++ (script ++ (closed ++ behind)))).drop
      (ahead ++ (opened ++ (script ++ closed))).length = behind := by
  have hsplit : ahead ++ (opened ++ (script ++ (closed ++ behind))) =
      (ahead ++ (opened ++ (script ++ closed))) ++ behind := by
    simp only [List.append_assoc]
  rw [hsplit, List.drop_left]

/-- The text outside the fence of what starts as a prompt with one. -/
theorem platformText_of_prefix {ahead script behind cut : Text}
    (hopen : count clientScriptOpen
      (ahead ++ (clientScriptOpen ++ (script ++ (clientScriptClose ++ behind)))) = 1)
    (hclose : count clientScriptClose
      (ahead ++ (clientScriptOpen ++ (script ++ (clientScriptClose ++ behind)))) = 1)
    (hcut : cut <+: ahead ++ (clientScriptOpen ++ (script ++ (clientScriptClose ++ behind)))) :
    (cut <+: ahead ++ clientScriptOpen ∧ platformText cut = cut) ∨
      platformText cut = ahead ++
        cut.drop (ahead ++ (clientScriptOpen ++ (script ++ clientScriptClose))).length := by
  have hne : clientScriptOpen ≠ [] ∧ clientScriptClose ≠ [] :=
    ⟨open_ne_nil, (marks_line _ (fence_mem close_mem)).1⟩
  generalize hprompt : ahead ++ (clientScriptOpen ++ (script ++ (clientScriptClose ++ behind))) =
    prompt at hopen hclose hcut
  have hfenced : ahead ++ (clientScriptOpen ++ (script ++ clientScriptClose)) <+: prompt :=
    ⟨behind, by rw [← hprompt]; simp only [List.append_assoc]⟩
  have hopened : ahead ++ clientScriptOpen <+: prompt :=
    ⟨script ++ (clientScriptClose ++ behind), by rw [← hprompt]; simp only [List.append_assoc]⟩
  have hstart : clientScriptOpen <+: prompt.drop ahead.length := by
    rw [← hprompt, List.drop_left]
    exact List.prefix_append _ _
  have hend : clientScriptClose <+:
      prompt.drop (ahead ++ (clientScriptOpen ++ script)).length := by
    have hsplit : prompt = (ahead ++ (clientScriptOpen ++ script)) ++
        (clientScriptClose ++ behind) := by
      rw [← hprompt]
      simp only [List.append_assoc]
    rw [hsplit, List.drop_left]
    exact List.prefix_append _ _
  have hpart : ∀ {mark : Text} {i : ℕ}, mark <+: cut.drop i → mark <+: prompt.drop i :=
    fun h => h.trans (hcut.drop _)
  unfold platformText
  split
  next hnone =>
    refine .inl ⟨?_, rfl⟩
    obtain hle | hlt := Nat.le_total cut.length (ahead ++ clientScriptOpen).length
    · exact List.prefix_of_prefix_length_le hcut hopened hle
    · have hin := List.prefix_of_prefix_length_le hopened hcut hlt
      exact absurd ((List.suffix_append _ _).isInfix.trans hin.isInfix)
        ((find_eq_none hne.1).mp hnone)
  next start hfind =>
    right
    have hfrom : start = ahead.length :=
      eq_of_count_eq_one hne.1 hopen (hpart (isPrefix_of_find hfind)) hstart
    have htake : cut.take start = ahead := by
      have hlen : clientScriptOpen.length ≤ (cut.drop start).length :=
        (isPrefix_of_find hfind).length_le
      have hpos := List.length_pos_iff.mpr hne.1
      rw [List.length_drop] at hlen
      have hahead : ahead <+: cut :=
        List.prefix_of_prefix_length_le ((List.prefix_append _ _).trans hopened) hcut (by omega)
      rw [hfrom]
      exact (List.prefix_iff_eq_take.mp hahead).symm
    split
    next hnone =>
      have hshort : cut.length ≤
          (ahead ++ (clientScriptOpen ++ (script ++ clientScriptClose))).length := by
        by_contra hlong
        have hin := List.prefix_of_prefix_length_le hfenced hcut (by omega)
        refine (rfind_eq_none hne.2).mp hnone (List.IsInfix.trans ?_ hin.isInfix)
        exact ⟨ahead ++ (clientScriptOpen ++ script), [], by simp⟩
      rw [htake, List.drop_eq_nil_of_le hshort, List.append_nil]
    next close hrfind =>
      have hto : close = (ahead ++ (clientScriptOpen ++ script)).length :=
        eq_of_count_eq_one hne.2 hclose (hpart (isPrefix_of_rfind hrfind)) hend
      have hlast : close + clientScriptClose.length =
          (ahead ++ (clientScriptOpen ++ (script ++ clientScriptClose))).length := by
        rw [hto]
        simp only [List.length_append]
        omega
      rw [if_neg (by simp only [hto, hfrom, List.length_append]; omega), htake, hlast]

/-! ## The layers around the script -/

theorem floor_of_append {mark ahead t : Text} (hmark : mark ∈ fences ++ floors) :
    mark <:+: ahead ++ '\n' :: '\n' :: t ↔ mark <:+: ahead ∨ mark <:+: t := by
  obtain ⟨hne, hline, -⟩ := marks_line mark hmark
  have hinner := infix_append_cons hne hline (a := []) (b := t)
  rw [List.nil_append, List.infix_nil] at hinner
  rw [infix_append_cons hne hline, hinner, or_iff_right hne]

/-- The layers behind the script. -/
def layersBehind (cfg : PromptConfig) : List (PromptLayer × Text) :=
  [(.whatYouCanDo, unlines (cannotHelpLines cfg)), (.confidentiality, confidentialityRule),
    (.truthfulAnswers, truthfulAnswerDirective cfg.callIsRecorded),
    (.thisCall, unlines (thisCallLines cfg))]

namespace Platform

variable (P : Platform)

/-- The layers ahead of the script. -/
def layersAhead (cfg : PromptConfig) (facts : Option (List Text)) : List (PromptLayer × Text) :=
  ((P.parts cfg facts).take 7).filter fun part => part.2 ≠ []

/-- The script's layer, if there is a script. -/
def scriptLayer (cfg : PromptConfig) : List (PromptLayer × Text) :=
  if strip cfg.systemPrompt = [] then [] else [(.clientScript, P.clientScriptSection cfg)]

theorem clientScriptSection_of_script {cfg : PromptConfig} (h : strip cfg.systemPrompt ≠ []) :
    P.clientScriptSection cfg = clientScriptOpen ++
      (('\n' :: P.letters.neutraliseMarkers (strip cfg.systemPrompt) ++ ['\n']) ++
        clientScriptClose) := by
  rw [clientScriptSection, if_neg h]
  simp

theorem unlines_ne_nil {l : Text} (ls : List Text) (h : l ≠ []) : unlines (l :: ls) ≠ [] := by
  cases ls with
  | nil => exact h
  | cons k ls =>
    rw [unlines_cons_cons]
    exact List.append_ne_nil_of_left_ne_nil h _

theorem ne_nil_of_layersBehind (cfg : PromptConfig) : ∀ part ∈ layersBehind cfg, part.2 ≠ [] := by
  have hheaders : ∀ header ∈ [cannotHelpHeader, platformRulesTailHeader, thisCallHeader,
      "--- PLATFORM RULES: CONFIDENTIALITY ---\n".toList], header ≠ [] := by
    unfold cannotHelpHeader platformRulesTailHeader thisCallHeader
    repeat rewrite [String.toList_ofList]
    simp
  intro part hpart
  simp only [layersBehind, List.mem_cons, List.not_mem_nil, or_false] at hpart
  obtain h | h | h | h := hpart
  · rw [h]
    exact unlines_ne_nil _ (hheaders cannotHelpHeader (by simp))
  · rw [h]
    refine List.append_ne_nil_of_left_ne_nil (List.append_ne_nil_of_left_ne_nil ?_ _) _
    exact hheaders _ (by simp)
  · rw [h]
    exact unlines_ne_nil _ (hheaders platformRulesTailHeader (by simp))
  · rw [h]
    exact unlines_ne_nil _ (hheaders thisCallHeader (by simp))

theorem enginePromptLayers_eq (cfg : PromptConfig) (facts : Option (List Text)) :
    P.enginePromptLayers cfg facts =
      P.layersAhead cfg facts ++ (P.scriptLayer cfg ++ layersBehind cfg) := by
  have hdrop : (P.parts cfg facts).drop 7 =
      (.clientScript, P.clientScriptSection cfg) :: layersBehind cfg := rfl
  have hbehind : (layersBehind cfg).filter (fun part => part.2 ≠ []) = layersBehind cfg :=
    List.filter_eq_self.mpr fun part hpart => by simpa using ne_nil_of_layersBehind cfg part hpart
  rw [enginePromptLayers, ← List.take_append_drop 7 (P.parts cfg facts), List.filter_append, hdrop,
    List.filter_cons, hbehind, scriptLayer]
  refine congrArg (P.layersAhead cfg facts ++ ·) ?_
  by_cases h : strip cfg.systemPrompt = []
  · rw [if_pos h, if_neg (by rw [clientScriptSection, if_pos h]; simp)]
    rfl
  · have hne : P.clientScriptSection cfg ≠ [] := by
      rw [P.clientScriptSection_of_script h]
      exact List.append_ne_nil_of_left_ne_nil open_ne_nil _
    rw [if_neg h, if_pos (by simpa using hne)]
    rfl

theorem layersAhead_ne_nil (cfg : PromptConfig) (facts : Option (List Text)) :
    P.layersAhead cfg facts ≠ [] := by
  have hrules : platformRulesLayer cfg ≠ [] :=
    List.append_ne_nil_of_right_ne_nil _ (List.cons_ne_nil _ _)
  have hmem : (PromptLayer.preamble, platformRulesLayer cfg) ∈ P.layersAhead cfg facts :=
    List.mem_filter.mpr ⟨List.mem_cons_self, by simpa using hrules⟩
  exact List.ne_nil_of_mem hmem

theorem joinLayers_append {layers others : List (PromptLayer × Text)} (hlayers : layers ≠ [])
    (hothers : others ≠ []) : joinLayers (layers ++ others) =
      joinLayers layers ++ '\n' :: '\n' :: joinLayers others := by
  rw [joinLayers, List.map_append]
  exact paragraphs_append (mt List.map_eq_nil_iff.mp hlayers) (mt List.map_eq_nil_iff.mp hothers)

/-- What is ahead of the script says a floor just if client words there do. -/
theorem infix_layersAhead {mark : Text} (hmark : mark ∈ fences ++ floors) (cfg : PromptConfig)
    (facts : Option (List Text)) : mark <:+: joinLayers (P.layersAhead cfg facts) ↔
      ∃ client ∈ P.clientWordsAhead cfg facts, mark <:+: client := by
  obtain ⟨hne, -⟩ := marks_line mark hmark
  rw [← count_pos hne, layersAhead, count_joinLayers hmark, count_ahead hmark,
    List.sum_pos_iff_exists_pos_nat]
  constructor
  · rintro ⟨n, hn, hpos⟩
    obtain ⟨client, hclient, rfl⟩ := List.mem_map.mp hn
    exact ⟨client, hclient, (count_pos hne).mp hpos⟩
  · rintro ⟨client, hclient, hin⟩
    exact ⟨_, List.mem_map_of_mem hclient, (count_pos hne).mpr hin⟩

/-- What is ahead of the rules behind the script. -/
theorem joinLayers_before (cfg : PromptConfig) (facts : Option (List Text)) :
    joinLayers (P.layersAhead cfg facts ++ P.scriptLayer cfg) =
      if strip cfg.systemPrompt = [] then joinLayers (P.layersAhead cfg facts)
      else joinLayers (P.layersAhead cfg facts) ++ '\n' :: '\n' :: P.clientScriptSection cfg := by
  rw [scriptLayer]
  split
  · rw [List.append_nil]
  · exact joinLayers_append (P.layersAhead_ne_nil cfg facts) (List.cons_ne_nil _ _)

/-- A floor in the platform's text of a prompt that is cut off, from no part behind the script
that has it, is ahead of the script. -/
theorem floor_of_cut {mark : Text} (hmark : mark ∈ floors) {cfg : PromptConfig}
    {facts : Option (List Text)} (behind cut : Text)
    (hbehind : behind = [] ∨ ∃ rest, behind = '\n' :: '\n' :: rest ∧ ¬ mark <:+: rest)
    (hprompt : joinLayers (P.layersAhead cfg facts ++ P.scriptLayer cfg) ++ behind <+:
      P.composeEnginePrompt cfg facts)
    (hcut : cut <+: joinLayers (P.layersAhead cfg facts ++ P.scriptLayer cfg) ++ behind)
    (hfloor : mark <:+: platformText cut) : mark <:+: joinLayers (P.layersAhead cfg facts) := by
  have hmem := floor_mem hmark
  obtain ⟨hne, -⟩ := marks_line mark hmem
  -- Behind what is ahead of the script, after an empty line, the floor is in no part.
  have hahead : ∀ {t : Text}, ¬ mark <:+: t →
      mark <:+: joinLayers (P.layersAhead cfg facts) ++ '\n' :: '\n' :: t →
        mark <:+: joinLayers (P.layersAhead cfg facts) := fun ht hin =>
    ((floor_of_append hmem).mp hin).resolve_right ht
  have hrest : ¬ mark <:+: behind := by
    obtain rfl | ⟨rest, rfl, hrest⟩ := hbehind
    · exact fun hnil => hne (List.infix_nil.mp hnil)
    · intro hin
      have hbehind : mark <:+: [] ++ '\n' :: '\n' :: rest := hin
      exact ((floor_of_append hmem).mp hbehind).elim (fun hnil => hne (List.infix_nil.mp hnil)) hrest
  rw [P.joinLayers_before] at hprompt hcut
  split at hprompt
  next hempty =>
    rw [if_pos hempty] at hcut
    have hnone : ¬ clientScriptOpen <:+: cut := by
      have hcount := P.count_composeEnginePrompt cfg facts open_mem
      rw [if_pos hempty, count_eq_zero open_ne_nil] at hcount
      exact fun hin => hcount (hin.trans (hcut.trans hprompt).isInfix)
    have hall : platformText cut = cut := by
      unfold platformText
      rw [(find_eq_none open_ne_nil).mpr hnone]
    rw [hall] at hfloor
    have hin := hfloor.trans hcut.isInfix
    obtain rfl | ⟨rest, rfl, hnot⟩ := hbehind
    · rwa [List.append_nil] at hin
    · exact hahead hnot hin
  next hscript =>
    rw [if_neg hscript] at hcut
    obtain ⟨after, hafter⟩ := hprompt
    have hwhole : P.composeEnginePrompt cfg facts =
        (joinLayers (P.layersAhead cfg facts) ++ ['\n', '\n']) ++ (clientScriptOpen ++
          (('\n' :: P.letters.neutraliseMarkers (strip cfg.systemPrompt) ++ ['\n']) ++
            (clientScriptClose ++ (behind ++ after)))) := by
      rw [← hafter, P.clientScriptSection_of_script hscript]
      simp only [List.append_assoc, List.cons_append, List.nil_append]
    have hcounts : ∀ fence ∈ fences, count fence (P.composeEnginePrompt cfg facts) = 1 :=
      fun fence hfence => by rw [P.count_composeEnginePrompt cfg facts hfence, if_neg hscript]
    have hclosed : cut <+: ((joinLayers (P.layersAhead cfg facts) ++ ['\n', '\n']) ++
        (clientScriptOpen ++ (('\n' :: P.letters.neutraliseMarkers (strip cfg.systemPrompt) ++
          ['\n']) ++ clientScriptClose))) ++ behind := by
      rw [P.clientScriptSection_of_script hscript] at hcut
      simpa only [List.append_assoc, List.cons_append, List.nil_append] using hcut
    have hcutWhole : cut <+: P.composeEnginePrompt cfg facts :=
      hclosed.trans ⟨after, by rw [hwhole]; simp only [List.append_assoc]⟩
    rw [hwhole] at hcounts hcutWhole
    obtain ⟨hshort, hall⟩ | hparts := platformText_of_prefix (hcounts _ open_mem)
      (hcounts _ close_mem) hcutWhole
    · rw [hall] at hfloor
      refine hahead (marks_spelt.2.2.1 mark hmark) ?_
      simpa using hfloor.trans hshort.isInfix
    · rw [hparts, List.append_assoc] at hfloor
      refine hahead (fun hin => hrest ?_) hfloor
      have htail := hclosed.drop (joinLayers (P.layersAhead cfg facts) ++ ['\n', '\n'] ++
        (clientScriptOpen ++ (('\n' :: P.letters.neutraliseMarkers (strip cfg.systemPrompt) ++
          ['\n']) ++ clientScriptClose))).length
      rw [List.drop_left] at htail
      exact hin.trans htail.isInfix

end Platform

/-! ## The floors -/

/-- The platform's text of a prompt carries both floors; the truthful answers are not in that of
a prompt cut off ahead of their layer, and neither floor in that of the layers up to the script. -/
structure KeepsFloors (P : Platform) (cfg : PromptConfig) (facts : Option (List Text)) : Prop where
  carries : CarriesTruthfulAnswerFloor (P.composeEnginePrompt cfg facts) ∧
    CarriesConfidentialityRule (P.composeEnginePrompt cfg facts)
  cut : ∀ cut, cut <+: P.composeEnginePrompt cfg facts →
    cut.length + (Platform.joinLayers ((P.enginePromptLayers cfg facts).dropWhile
      fun layer => layer.1 ≠ .truthfulAnswers)).length ≤
        (P.composeEnginePrompt cfg facts).length →
    ¬ CarriesTruthfulAnswerFloor cut
  removed : ¬ CarriesTruthfulAnswerFloor (Platform.joinLayers
      ((P.enginePromptLayers cfg facts).takeWhile fun layer => layer.1 ≠ .whatYouCanDo)) ∧
    ¬ CarriesConfidentialityRule (Platform.joinLayers
      ((P.enginePromptLayers cfg facts).takeWhile fun layer => layer.1 ≠ .whatYouCanDo))

namespace Platform

variable (P : Platform)

theorem label_mem_ahead {cfg : PromptConfig} {facts : Option (List Text)}
    {layer : PromptLayer × Text} (h : layer ∈ P.layersAhead cfg facts ++ P.scriptLayer cfg) :
    layer.1 ∈ [PromptLayer.preamble, .howToSpeak, .languages, .spokenRegister, .businessFacts,
      .notices, .callerMemory, .clientScript] := by
  have hparts : layer ∈ (P.parts cfg facts).take 8 := by
    have htake : (P.parts cfg facts).take 8 =
        (P.parts cfg facts).take 7 ++ [(.clientScript, P.clientScriptSection cfg)] := rfl
    rw [htake]
    rw [List.mem_append] at h ⊢
    refine h.imp (fun hahead => (List.mem_filter.mp hahead).1) fun hscript => ?_
    rw [scriptLayer] at hscript
    split at hscript
    · cases hscript
    · exact hscript
  exact List.mem_map_of_mem (f := Prod.fst) hparts

theorem takeWhile_layers (cfg : PromptConfig) (facts : Option (List Text)) :
    (P.enginePromptLayers cfg facts).takeWhile (fun layer => layer.1 ≠ .whatYouCanDo) =
      P.layersAhead cfg facts ++ P.scriptLayer cfg := by
  have hall : ∀ layer ∈ P.layersAhead cfg facts ++ P.scriptLayer cfg,
      layer.1 ≠ PromptLayer.whatYouCanDo := by
    intro layer h heq
    have hlabel := P.label_mem_ahead h
    rw [heq] at hlabel
    revert hlabel
    decide
  rw [enginePromptLayers_eq, ← List.append_assoc, List.takeWhile_append_of_pos (by simpa using hall)]
  exact List.append_nil _

theorem dropWhile_layers (cfg : PromptConfig) (facts : Option (List Text)) :
    (P.enginePromptLayers cfg facts).dropWhile (fun layer => layer.1 ≠ .truthfulAnswers) =
      [(.truthfulAnswers, truthfulAnswerDirective cfg.callIsRecorded),
        (.thisCall, unlines (thisCallLines cfg))] := by
  have hall : ∀ layer ∈ P.layersAhead cfg facts ++ P.scriptLayer cfg,
      layer.1 ≠ PromptLayer.truthfulAnswers := by
    intro layer h heq
    have hlabel := P.label_mem_ahead h
    rw [heq] at hlabel
    revert hlabel
    decide
  rw [enginePromptLayers_eq, ← List.append_assoc, List.dropWhile_append_of_pos (by simpa using hall)]
  rfl

/-- The rules between the script and the truthful answers do not say them. -/
theorem rules_before (cfg : PromptConfig) : ∃ before,
    joinLayers (layersBehind cfg) = before ++
      joinLayers [(.truthfulAnswers, truthfulAnswerDirective cfg.callIsRecorded),
        (.thisCall, unlines (thisCallLines cfg))] ∧
    ¬ truthfulAnswerMarker <:+: before := by
  have hmem : truthfulAnswerMarker ∈ fences ++ floors := floor_mem truthful_mem
  obtain ⟨hne, -⟩ := marks_line truthfulAnswerMarker hmem
  refine ⟨unlines (cannotHelpLines cfg) ++ '\n' :: '\n' :: (confidentialityRule ++ ['\n', '\n']),
    ?_, ?_⟩
  · simp only [List.append_assoc, List.cons_append]
    rfl
  · rw [floor_of_append hmem, floor_of_append hmem, List.infix_nil, not_or, not_or,
      ← count_eq_zero hne, ← count_eq_zero hne]
    exact ⟨count_cannotHelpLines hmem cfg,
      count_confidentialityRule _ List.mem_cons_self, hne⟩

theorem composeEnginePrompt_eq (cfg : PromptConfig) (facts : Option (List Text)) :
    P.composeEnginePrompt cfg facts =
      joinLayers (P.layersAhead cfg facts ++ P.scriptLayer cfg) ++
        '\n' :: '\n' :: joinLayers (layersBehind cfg) := by
  rw [composeEnginePrompt, enginePromptLayers_eq, ← List.append_assoc]
  refine joinLayers_append (fun h => ?_) (List.cons_ne_nil _ _)
  exact P.layersAhead_ne_nil cfg facts (List.append_eq_nil_iff.mp h).1

/-- A prompt with a script is what is ahead of it, the script in its fence, what is behind it. -/
theorem composeEnginePrompt_of_script {cfg : PromptConfig} (h : strip cfg.systemPrompt ≠ [])
    (facts : Option (List Text)) : P.composeEnginePrompt cfg facts =
      (joinLayers (P.layersAhead cfg facts) ++ ['\n', '\n']) ++ (clientScriptOpen ++
        (('\n' :: P.letters.neutraliseMarkers (strip cfg.systemPrompt) ++ ['\n']) ++
          (clientScriptClose ++ ('\n' :: '\n' :: joinLayers (layersBehind cfg))))) := by
  rw [composeEnginePrompt_eq, joinLayers_before, if_neg h, P.clientScriptSection_of_script h]
  simp only [List.append_assoc, List.cons_append, List.nil_append]

/-- The platform's text of a prompt with a script is what is around the fence. -/
theorem platformText_of_script {cfg : PromptConfig} (h : strip cfg.systemPrompt ≠ [])
    (facts : Option (List Text)) : platformText (P.composeEnginePrompt cfg facts) =
      (joinLayers (P.layersAhead cfg facts) ++ ['\n', '\n']) ++
        '\n' :: '\n' :: joinLayers (layersBehind cfg) := by
  have hcounts : ∀ fence ∈ fences, count fence (P.composeEnginePrompt cfg facts) = 1 :=
    fun fence hfence => by rw [P.count_composeEnginePrompt cfg facts hfence, if_neg h]
  rw [P.composeEnginePrompt_of_script h] at hcounts ⊢
  obtain ⟨hshort, -⟩ | hparts := platformText_of_prefix (hcounts _ open_mem)
    (hcounts _ close_mem) List.prefix_rfl
  · have hlen := hshort.length_le
    simp only [List.length_append, List.length_cons] at hlen
    omega
  · rw [hparts, drop_fenced]

/-- Without a script the whole prompt is the platform's text. -/
theorem platformText_of_blank {cfg : PromptConfig} (h : strip cfg.systemPrompt = [])
    (facts : Option (List Text)) :
    platformText (P.composeEnginePrompt cfg facts) = P.composeEnginePrompt cfg facts := by
  have hnone := P.count_composeEnginePrompt cfg facts open_mem
  rw [if_pos h, count_eq_zero open_ne_nil] at hnone
  unfold platformText
  rw [(find_eq_none open_ne_nil).mpr hnone]

/-- What is behind the script is the platform's text. -/
theorem behind_infix_platformText (cfg : PromptConfig) (facts : Option (List Text)) :
    joinLayers (layersBehind cfg) <:+: platformText (P.composeEnginePrompt cfg facts) := by
  have hbehind : joinLayers (layersBehind cfg) <:+
      '\n' :: '\n' :: joinLayers (layersBehind cfg) := List.suffix_append ['\n', '\n'] _
  by_cases hscript : strip cfg.systemPrompt = []
  · rw [P.platformText_of_blank hscript, composeEnginePrompt_eq]
    exact (hbehind.trans (List.suffix_append _ _)).isInfix
  · rw [P.platformText_of_script hscript]
    exact (hbehind.trans (List.suffix_append _ _)).isInfix

/-- The prompt always carries both floors. -/
theorem carries_floors (cfg : PromptConfig) (facts : Option (List Text)) :
    CarriesTruthfulAnswerFloor (P.composeEnginePrompt cfg facts) ∧
      CarriesConfidentialityRule (P.composeEnginePrompt cfg facts) := by
  have hfloor : ∀ (mark : Text) (layer : PromptLayer × Text), mark ∈ floors →
      layer ∈ layersBehind cfg → mark <:+: layer.2 →
        mark <:+: platformText (P.composeEnginePrompt cfg facts) := by
    intro mark layer hmark hlayer hin
    obtain ⟨hne, hline, -⟩ := marks_line mark (floor_mem hmark)
    refine List.IsInfix.trans ?_ (P.behind_infix_platformText cfg facts)
    exact (infix_paragraphs hne hline).mpr ⟨layer.2, List.mem_map_of_mem hlayer, hin⟩
  refine ⟨hfloor _ (.truthfulAnswers, truthfulAnswerDirective cfg.callIsRecorded) truthful_mem
    (by simp [layersBehind]) ?_,
    hfloor _ (.confidentiality, confidentialityRule) confidentiality_mem
      (by simp [layersBehind]) ?_⟩
  · obtain ⟨hne, hline, -⟩ := marks_line truthfulAnswerMarker (floor_mem truthful_mem)
    exact (infix_unlines hne hline).mpr ⟨truthfulAnswerMarker, by simp, List.infix_rfl⟩
  · exact ⟨_, _, rfl⟩

/-- Without the rules behind the script, what is ahead of it still is the platform's text. -/
theorem ahead_infix_platformText (cfg : PromptConfig) (facts : Option (List Text)) :
    joinLayers (P.layersAhead cfg facts) <:+:
      platformText (joinLayers (P.layersAhead cfg facts ++ P.scriptLayer cfg)) := by
  have hcounts : ∀ fence ∈ fences,
      count fence (joinLayers (P.layersAhead cfg facts ++ P.scriptLayer cfg)) =
        if strip cfg.systemPrompt = [] then 0 else 1 := by
    intro fence hfence
    have hahead : count fence (joinLayers (P.layersAhead cfg facts)) = 0 := by
      rw [count_eq_zero (marks_line fence (fence_mem hfence)).1,
        P.infix_layersAhead (fence_mem hfence)]
      rintro ⟨client, hclient, hin⟩
      exact (count_eq_zero (marks_line fence (fence_mem hfence)).1).mp
        (P.count_clientWordsAhead cfg facts hfence client hclient) hin
    obtain ⟨hne, hline, -⟩ := marks_line fence (fence_mem hfence)
    rw [joinLayers_before]
    split
    · exact hahead
    next hscript =>
      rw [count_append_cons hne hline, count_newline hne hline, hahead,
        P.count_clientScriptSection cfg hfence, if_neg hscript]
  by_cases hscript : strip cfg.systemPrompt = []
  · have hnone := hcounts clientScriptOpen open_mem
    rw [if_pos hscript, count_eq_zero open_ne_nil] at hnone
    unfold platformText
    rw [(find_eq_none open_ne_nil).mpr hnone, joinLayers_before, if_pos hscript]
  · have hwhole : joinLayers (P.layersAhead cfg facts ++ P.scriptLayer cfg) =
        (joinLayers (P.layersAhead cfg facts) ++ ['\n', '\n']) ++ (clientScriptOpen ++
          (('\n' :: P.letters.neutraliseMarkers (strip cfg.systemPrompt) ++ ['\n']) ++
            (clientScriptClose ++ []))) := by
      rw [joinLayers_before, if_neg hscript, P.clientScriptSection_of_script hscript]
      simp only [List.append_assoc, List.cons_append, List.nil_append, List.append_nil]
    simp only [if_neg hscript] at hcounts
    rw [hwhole] at hcounts ⊢
    obtain ⟨hshort, -⟩ | hparts := platformText_of_prefix (hcounts _ open_mem)
      (hcounts _ close_mem) List.prefix_rfl
    · have hlen := hshort.length_le
      simp only [List.length_append, List.length_cons] at hlen
      omega
    · rw [hparts, List.append_assoc]
      exact (List.prefix_append _ _).isInfix

/-- The prompt without the rules behind the script reads back a floor just if client words
ahead of the script say it. -/
theorem client_says_iff {floor : Text} (hfloor : floor ∈ floors) (cfg : PromptConfig)
    (facts : Option (List Text)) :
    (∃ client ∈ P.clientWordsAhead cfg facts, floor <:+: client) ↔
      floor <:+: platformText (joinLayers (P.layersAhead cfg facts ++ P.scriptLayer cfg)) := by
  rw [← P.infix_layersAhead (floor_mem hfloor)]
  constructor
  · exact fun hin => hin.trans (P.ahead_infix_platformText cfg facts)
  · refine P.floor_of_cut hfloor [] _ (.inl rfl) ?_ (by rw [List.append_nil])
    rw [List.append_nil, composeEnginePrompt_eq]
    exact List.prefix_append _ _

/-- **A prompt keeps the floors just if the client words ahead of the script say neither.** -/
theorem keepsFloors_iff (cfg : PromptConfig) (facts : Option (List Text)) :
    KeepsFloors P cfg facts ↔
      ∀ floor ∈ floors, ∀ client ∈ P.clientWordsAhead cfg facts, ¬ floor <:+: client := by
  constructor
  · intro hkeeps floor hfloor client hclient hin
    have hfound := (P.client_says_iff hfloor cfg facts).mp ⟨client, hclient, hin⟩
    have hnot := hkeeps.removed
    rw [takeWhile_layers] at hnot
    simp only [floors, List.mem_cons, List.not_mem_nil, or_false] at hfloor
    obtain rfl | rfl := hfloor
    · exact hnot.1 hfound
    · exact hnot.2 hfound
  · intro hnone
    have hsilent : ∀ floor ∈ floors, ¬ floor <:+:
        platformText (joinLayers (P.layersAhead cfg facts ++ P.scriptLayer cfg)) := by
      intro floor hfloor hin
      obtain ⟨client, hclient, hclient'⟩ := (P.client_says_iff hfloor cfg facts).mpr hin
      exact hnone floor hfloor client hclient hclient'
    refine ⟨P.carries_floors cfg facts, fun cut hcut hshort hfloor => ?_, ?_⟩
    · rw [dropWhile_layers] at hshort
      obtain ⟨before, hbefore, hrules⟩ := rules_before cfg
      have hsplit : P.composeEnginePrompt cfg facts =
          (joinLayers (P.layersAhead cfg facts ++ P.scriptLayer cfg) ++ '\n' :: '\n' :: before) ++
            joinLayers [(.truthfulAnswers, truthfulAnswerDirective cfg.callIsRecorded),
              (.thisCall, unlines (thisCallLines cfg))] := by
        rw [composeEnginePrompt_eq, hbefore, List.append_assoc]
        rfl
      have hstart : cut <+: joinLayers (P.layersAhead cfg facts ++ P.scriptLayer cfg) ++
          '\n' :: '\n' :: before := by
        refine List.prefix_of_prefix_length_le hcut ⟨_, hsplit.symm⟩ ?_
        have hlen := congrArg List.length hsplit
        rw [List.length_append] at hlen
        omega
      have hahead := P.floor_of_cut truthful_mem _ cut (.inr ⟨before, rfl, hrules⟩)
        ⟨_, hsplit.symm⟩ hstart hfloor
      obtain ⟨client, hclient, hin⟩ := (P.infix_layersAhead (floor_mem truthful_mem) cfg facts).mp hahead
      exact hnone truthfulAnswerMarker truthful_mem client hclient hin
    · rw [takeWhile_layers]
      exact ⟨hsilent _ truthful_mem, hsilent _ confidentiality_mem⟩

end Platform

/-! ## An opening line that says the floor -/

/-- Words enough for the calls of one English agent. -/
def englishWords : CallWords where
  saysAi text := ["AI".toList, "artificial".toList].any fun word => text.tails.any word.isPrefixOf
  greetingHead text := if "Hello".toList.isPrefixOf text then some 5 else none
  salutations language := if language = "en".toList then some "Hello,".toList else none
  outboundIn _ _ _ := none
  respell _ _ line := line
  lower text := text.map Char.toLower
  casefold text := text.map Char.toLower

theorem isAlphanum_range {c : Char} (h : c.isAlphanum = true) :
    (0x30 ≤ c.toNat ∧ c.toNat ≤ 0x39) ∨ (0x41 ≤ c.toNat ∧ c.toNat ≤ 0x7a) := by
  have hval : c.toNat = c.val.toNat := rfl
  have hclass : (decide ('A'.val ≤ c.val ∧ c.val ≤ 'Z'.val) ||
      (decide ('a'.val ≤ c.val) && decide (c.val ≤ 'z'.val)) ||
        (decide ('0'.val ≤ c.val) && decide (c.val ≤ '9'.val))) = true := h
  simp [UInt32.le_iff_toNat_le] at hclass
  omega

theorem not_isAlphanum_of_isDash {c : Char} (h : isDash c = true) : c.isAlphanum = false := by
  have hdash : ('-' : Char).toNat = 0x2d := by decide
  rw [← Bool.not_eq_true]
  intro hword
  have hrange := isAlphanum_range hword
  simp only [isDash, decide_eq_true_eq] at h
  obtain rfl | h := h
  · omega
  · omega

theorem not_isAlphanum_of_isGap {c : Char} (h : isGap c = true) : c.isAlphanum = false := by
  rw [← Bool.not_eq_true]
  intro hword
  have hrange := isAlphanum_range hword
  simp only [isGap, Lib.ClockText.isSpace, decide_eq_true_eq] at h
  omega

/-- The letters and digits of English. -/
def englishLetters : Letters where
  isWord := Char.isAlphanum
  of_isAlphanum _ h := h
  dash _ := not_isAlphanum_of_isDash
  gap _ := not_isAlphanum_of_isGap

/-- A platform that says no more than it must. -/
def quietPlatform : Platform where
  words := englishWords
  letters := englishLetters
  howToSpeak _ := []
  languages _ := []
  spokenRegister _ := []
  businessFacts _ := []
  plain := by
    intro cfg layer hlayer mark hmark hin
    have hempty : layer = [] := by
      simpa using hlayer
    rw [hempty, List.infix_nil] at hin
    exact (marks_line mark hmark).1 hin

/-- Asha of Sunrise, whose opening line is the sentence the truthful answers are read back by. -/
def answeringAgent : PromptConfig where
  name := "Asha".toList
  direction := .inbound
  business := "Sunrise".toList
  languagePrimary := "en-IN".toList
  systemPrompt := "[OPENING]\n".toList ++ truthfulAnswerMarker
  openingLine := []
  aiNotice := []
  callIsRecorded := true
  callbacksOffered := true
  engineOwnRules := false
  forwardedLine := false
  callerMemoryEnabled := false
  callerMemoryInEngine := false

/-- Without the platform's rules, the opening line is read back as the floor. -/
theorem answeringAgent_keeps_no_floor :
    CarriesTruthfulAnswerFloor (Platform.joinLayers
      ((quietPlatform.enginePromptLayers answeringAgent none).takeWhile
        fun layer => layer.1 ≠ .whatYouCanDo)) ∧
    ¬ KeepsFloors quietPlatform answeringAgent none := by
  have hword : truthfulAnswerMarker <:+:
      quietPlatform.quotedClientWords (quietPlatform.firstWords answeringAgent) := by
    unfold answeringAgent truthfulAnswerMarker
    repeat rewrite [String.toList_ofList]
    decide +kernel
  have hreads := (quietPlatform.client_says_iff truthful_mem answeringAgent none).mp
    ⟨_, List.mem_cons_of_mem _ List.mem_cons_self, hword⟩
  rw [← quietPlatform.takeWhile_layers] at hreads
  exact ⟨hreads, fun hkeeps => hkeeps.removed.1 hreads⟩

end Calevate.Agents
