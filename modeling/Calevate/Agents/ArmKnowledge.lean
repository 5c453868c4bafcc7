import Calevate.Agents.CallScript
import Calevate.Lib.Sections

/-!
# What an arm knows

An experiment's arm speaks a frozen script, with the knowledge of its agent: the block of facts
and the quick facts of the agent's body are put in the arm's, or taken out of it where the agent
has none. What the arm reads back is what the agent's body does, a second pass changes nothing,
and every other line stays (`knowledge_carried`). Only the first section under a header is taken
out, so this is of a body with no second one where the agent has none.
-/

namespace Calevate.Agents

open Lib.Text
open Lib.Cutting (rstrip)
open Lib.Sections
open Lib.ClockText (strip isSpace)

/-! ## Splicing -/

/-- `T0_HEADER`. -/
def t0Header : Text := "[T0 FACTS]".toList

/-- `QUICK_FACTS_HEADER`. -/
def quickFactsHeader : Text := "[QUICK FACTS]".toList

/-- **`block_of`**. -/
def blockOf (body : Text) : Option Text := heldText t0Header (lines body)

/-- The quick facts, read as the block is. -/
def quickFactsOf (body : Text) : Option Text := heldText quickFactsHeader (lines body)

/-- **`without_block`**. -/
def withoutBlock (body : Text) : Text :=
  match parts t0Header (lines body) with
  | none => body
  | some p => strip (unlines (p.ahead ++ p.behind))

/-- `_INSERT_BEFORE`. -/
def insertBefore : List Text :=
  ["[TASK FLOW]".toList, "[CONVERSATION]".toList, "[TOOLS]".toList, "[GUARDRAILS]".toList,
    "[WRAP]".toList]

/-- A line no block is inserted before. -/
def unanchored (line : Text) : Bool := !insertBefore.any (·.isPrefixOf line)

/-- **`splice_t0_block`**. -/
def spliceT0Block (body block identity : Text) : Text :=
  if strip body = [] then "[IDENTITY] ".toList ++ identity ++ '\n' :: (block ++ ['\n'])
  else
    match parts t0Header (lines body) with
    | none =>
      rstrip (unlines ((lines body).takeWhile unanchored ++
        block :: (lines body).dropWhile unanchored)) ++ ['\n']
    | some p => rstrip (unlines (p.ahead ++ block :: p.behind)) ++ ['\n']

/-- The lines of the quick facts, if there are some. -/
def factsOf (source : List Text) : List Text :=
  match solidParts quickFactsHeader source with
  | none => []
  | some p => p.held

/-- **`_with_quick_facts_of`**. -/
def withQuickFactsOf (source : List Text) (body : Text) : Text :=
  let facts := factsOf source
  match solidParts quickFactsHeader (lines body) with
  | some p =>
    if p.held = facts then body
    else
      let tail := p.behind.dropWhile blank
      let gap := if facts ≠ [] ∧ tail ≠ [] then [[]] else []
      strip (unlines (p.ahead ++ (facts ++ (gap ++ tail)))) ++ ['\n']
  | none =>
    if facts = [] then body
    else
      let ahead := (lines body).takeWhile (!t0Header.isPrefixOf ·)
      let behind := (lines body).dropWhile (!t0Header.isPrefixOf ·)
      strip (unlines (ahead ++ (facts ++ ([[]] ++ behind)))) ++ ['\n']

/-- A body with the block of the source. -/
def withBlockOf (source body identity : Text) : Text :=
  if blockOf source = blockOf body then body
  else
    match blockOf source with
    | some block => spliceT0Block body block identity
    | none => withoutBlock body

/-- **`with_knowledge_of`**. -/
def withKnowledgeOf (source body identity : Text) : Text :=
  withQuickFactsOf (lines source) (withBlockOf source body identity)

/-! ## What is read back -/

/-- The lines outside the first section under either header. -/
def outside (ls : List Text) : List Text := without quickFactsHeader (without t0Header ls)

theorem bracketed_t0 : Bracketed t0Header := ⟨"T0 FACTS".toList, by decide⟩

theorem bracketed_quick : Bracketed quickFactsHeader := ⟨"QUICK FACTS".toList, by decide⟩

theorem not_quick_of_t0 (l : Text) (h : t0Header <+: l) : ¬ quickFactsHeader <+: l := by
  intro hquick
  have hpair := List.prefix_of_prefix_length_le h hquick (by decide)
  revert hpair
  decide

theorem not_t0_of_quick (l : Text) (h : quickFactsHeader <+: l) : ¬ t0Header <+: l :=
  fun ht0 => not_quick_of_t0 l ht0 h

/-- Two lists of lines read back alike: the block, the quick facts, those behind them, the other
lines. -/
structure Alike (ls ls' : List Text) : Prop where
  block : heldText t0Header ls = heldText t0Header ls'
  facts : heldText quickFactsHeader ls = heldText quickFactsHeader ls'
  second : heldText quickFactsHeader (without quickFactsHeader ls) =
    heldText quickFactsHeader (without quickFactsHeader ls')
  ink : inkText (outside ls) = inkText (outside ls')

theorem Alike.trans {a b c : List Text} (h : Alike a b) (h' : Alike b c) : Alike a c :=
  ⟨h.block.trans h'.block, h.facts.trans h'.facts, h.second.trans h'.second,
    h.ink.trans h'.ink⟩

theorem alike_trimEnd (ls : List Text) : Alike (trimEnd ls) ls where
  block := heldText_trimEnd bracketed_t0 ls
  facts := heldText_trimEnd bracketed_quick ls
  second := by
    rw [← heldText_trimEnd bracketed_quick (without _ (trimEnd ls)),
      without_trimEnd bracketed_quick, heldText_trimEnd bracketed_quick]
  ink := by
    refine inkText_congr_end ?_
    rw [outside, ← without_trimEnd bracketed_quick, without_trimEnd bracketed_t0,
      without_trimEnd bracketed_quick]
    rfl

/-- No header is indented. -/
def Unindented (ls : List Text) : Prop := Flush t0Header ls ∧ Flush quickFactsHeader ls

theorem Unindented.trimEnd {ls : List Text} (h : Unindented ls) : Unindented (trimEnd ls) :=
  ⟨h.1.trimEnd bracketed_t0, h.2.trimEnd bracketed_quick⟩

theorem Unindented.trimTop {ls : List Text} (h : Unindented ls) : Unindented (trimTop ls) :=
  ⟨h.1.trimTop, h.2.trimTop⟩

theorem Unindented.append_opening {a b : List Text} (h : Unindented a) (hb : Opening b) :
    Unindented (a ++ b) :=
  ⟨h.1.append_opening hb, h.2.append_opening hb⟩

theorem Unindented.of_append {a b : List Text} (h : Unindented (a ++ b)) : Unindented a :=
  ⟨h.1.of_append, h.2.of_append⟩

theorem alike_trimTop {ls : List Text} (h : Unindented ls) : Alike (trimTop ls) ls where
  block := heldText_trimTop bracketed_t0 h.1
  facts := heldText_trimTop bracketed_quick h.2
  second := by
    have htop : Flush quickFactsHeader (without quickFactsHeader (Lib.Sections.trimTop ls)) :=
      h.2.trimTop.without _
    rw [← heldText_trimTop bracketed_quick htop, without_trimTop bracketed_quick h.2,
      heldText_trimTop bracketed_quick (h.2.without _)]
  ink := by
    refine inkText_congr_top ?_
    have htop : Flush quickFactsHeader (without t0Header (Lib.Sections.trimTop ls)) :=
      h.2.trimTop.without _
    rw [outside, ← without_trimTop bracketed_quick htop, without_trimTop bracketed_t0 h.1,
      without_trimTop bracketed_quick (h.2.without _)]
    rfl

/-- The lines of a text that was put together of lines and stripped. -/
theorem alike_strip {ls : List Text} (hplain : Unindented ls) (hunbroken : Unbroken ls) :
    Alike (lines (strip (unlines ls) ++ ['\n'])) ls := by
  refine Alike.trans ?_ ((alike_trimEnd _).trans (alike_trimTop hplain))
  rw [strip_unlines]
  by_cases hnil : trimEnd (trimTop ls) = []
  · rw [hnil]
    exact ⟨rfl, rfl, rfl, rfl⟩
  · rw [lines_unlines_newline hnil hunbroken.trimTop.trimEnd]
    exact ⟨rfl, rfl, rfl, rfl⟩

/-! ## The block -/

/-- A block: a line under the header, then lines that are no headers, nothing to strip behind. -/
structure IsBlock (block : Text) (ls : List Text) : Prop where
  spelt : block = unlines ls
  holds : Holds t0Header ls
  unbroken : Unbroken ls
  ends : rstrip block = block

theorem isBlock_of_blockOf {body block : Text} (h : blockOf body = some block) :
    ∃ ls, IsBlock block ls := by
  obtain ⟨p, hp, rfl⟩ := Option.map_eq_some_iff.mp h
  obtain ⟨hls, -, hheld, -⟩ := parts_iff.mp hp
  refine ⟨trimEnd p.held, rstrip_unlines _, ?_, ?_, Lib.Sections.rstrip_rstrip _⟩
  · obtain ⟨h, ls, hlines, hunder, hclosed⟩ := hheld
    have hsolid : Solid t0Header (h :: ls.rdropWhile blank) :=
      ⟨⟨h, _, rfl, hunder, fun l hl => hclosed l ((List.rdropWhile_prefix blank ls).subset hl)⟩,
        List.rdropWhile_idempotent blank ls⟩
    have hsame : trimEnd p.held = trimEnd (h :: ls.rdropWhile blank) := by
      have hblank : ∀ l ∈ ls.rtakeWhile blank, blank l = true :=
        List.rtakeWhile_eq_self_iff.mp (List.rtakeWhile_idempotent blank ls)
      have hwhole : trimEnd (h :: ls.rdropWhile blank ++ ls.rtakeWhile blank) =
          trimEnd (h :: ls.rdropWhile blank) := trimEnd_append_blank hblank
      rw [hlines, ← hwhole, List.cons_append, List.rdropWhile_append_rtakeWhile]
    rw [hsame]
    exact (hsolid.trimEnd bracketed_t0).holds
  · have hbody := unbroken_lines body
    rw [hls] at hbody
    exact (hbody.of_subset fun l hl => by simp [hl]).trimEnd

/-- A body with a block between its lines reads back the block and, beside it, what it did. -/
theorem alike_spliced {a s b : List Text} (ha : Lacks t0Header a) (hs : Holds t0Header s)
    (hb : Opening b) :
    heldText t0Header (a ++ (s ++ b)) = some (rstrip (unlines s)) ∧
    heldText quickFactsHeader (a ++ (s ++ b)) = heldText quickFactsHeader (a ++ b) ∧
    heldText quickFactsHeader (without quickFactsHeader (a ++ (s ++ b))) =
      heldText quickFactsHeader (without quickFactsHeader (a ++ b)) ∧
    outside (a ++ (s ++ b)) = without quickFactsHeader (a ++ b) := by
  have hout : without t0Header (a ++ (s ++ b)) = a ++ b := without_held ha hs hb
  refine ⟨?_, ?_, ?_, by rw [outside, hout]⟩
  · rw [heldText, parts_held ha hs hb]
    rfl
  · rw [← heldText_without bracketed_quick bracketed_t0 not_quick_of_t0, hout]
  · rw [← heldText_without bracketed_quick bracketed_t0 not_quick_of_t0,
      ← without_comm bracketed_quick bracketed_t0 not_quick_of_t0, hout]

/-- What a body is after the block's step: the block as wanted, all else as it was. -/
structure BlockCarried (block : Option Text) (out body : Text) : Prop where
  block : blockOf out = block
  facts : quickFactsOf out = quickFactsOf body
  second : heldText quickFactsHeader (without quickFactsHeader (lines out)) =
    heldText quickFactsHeader (without quickFactsHeader (lines body))
  plain : Unindented (lines body) → Unindented (lines out)
  ink : strip body ≠ [] → inkText (outside (lines out)) = inkText (outside (lines body))

theorem blank_lines {t : Text} (h : strip t = []) : ∀ l ∈ lines t, blank l = true := by
  intro l hl
  have hinked := inked_lines_strip t
  rw [h, lines_nil, inked_nil] at hinked
  rw [blank_iff_strip]
  by_contra hne
  have hmem : strip l ∈ inked (lines t) :=
    List.mem_filter.mpr ⟨List.mem_map_of_mem hl, by simpa using hne⟩
  rw [← hinked] at hmem
  exact List.not_mem_nil hmem

theorem lacks_of_blank {header : Text} (hh : Bracketed header) {ls : List Text}
    (h : ∀ l ∈ ls, blank l = true) : Lacks header ls :=
  fun l hl => not_isPrefix_of_blank hh (h l hl)

/-- Lines with a block between them, put together and stripped behind. -/
theorem blockCarried_rstrip {body block : Text} {a s b : List Text}
    (hblock : IsBlock block s) (ha : Lacks t0Header a) (hb : Opening b)
    (hbody : without t0Header (lines body) = a ++ b)
    (hplain : Unindented (lines body) → Unindented a) (hunbroken : Unbroken (a ++ b)) :
    BlockCarried (some block) (rstrip (unlines (a ++ block :: b)) ++ ['\n']) body := by
  have hne : s ≠ [] := by
    obtain ⟨h, ls, rfl, -⟩ := hblock.holds
    exact List.cons_ne_nil h ls
  have hopening : Opening (s ++ b) := hblock.holds.opening bracketed_t0 b
  have hall : Unbroken (a ++ (s ++ b)) := by
    refine Unbroken.append (hunbroken.of_subset (List.subset_append_left a b)) ?_
    exact hblock.unbroken.append (hunbroken.of_subset (List.subset_append_right a b))
  have hnil : trimEnd (a ++ (s ++ b)) ≠ [] := by
    obtain ⟨h, ls, rfl, hunder, -⟩ := hblock.holds
    exact trimEnd_ne_nil (bracketed_t0.headed hunder) (by simp)
  have hlines : lines (rstrip (unlines (a ++ block :: b)) ++ ['\n']) =
      trimEnd (a ++ (s ++ b)) := by
    rw [hblock.spelt, unlines_nested hne, rstrip_unlines, lines_unlines_newline hnil hall.trimEnd]
  have halike := alike_trimEnd (a ++ (s ++ b))
  obtain ⟨hread, hfacts, hsecond, houtside⟩ := alike_spliced ha hblock.holds hb
  have hends : rstrip (unlines s) = block := by
    rw [← hblock.spelt, hblock.ends]
  refine ⟨?_, ?_, ?_, fun h => ?_, fun _ => ?_⟩
  · rw [blockOf, hlines, halike.block, hread, hends]
  · rw [quickFactsOf, hlines, halike.facts, hfacts, ← hbody]
    exact heldText_without bracketed_quick bracketed_t0 not_quick_of_t0 _
  · rw [hlines, halike.second, hsecond, ← hbody,
      without_comm bracketed_quick bracketed_t0 not_quick_of_t0]
    exact heldText_without bracketed_quick bracketed_t0 not_quick_of_t0 _
  · rw [hlines]
    exact ((hplain h).append_opening hopening).trimEnd
  · rw [hlines, halike.ink, houtside, ← hbody]
    rfl

theorem opens_of_anchored {l : Text} (h : unanchored l = false) : opens l = true := by
  have hany : insertBefore.any (·.isPrefixOf l) = true := by
    simpa [unanchored] using h
  obtain ⟨header, hheader, hprefix⟩ := List.any_eq_true.mp hany
  rw [List.isPrefixOf_iff_prefix] at hprefix
  have hbracket : ∀ header ∈ insertBefore, ['['] <+: header := by decide
  exact opens_iff.mpr ((hbracket header hheader).trans hprefix)

/-- What is left from a line on that the lines are dropped up to. -/
theorem opening_of_dropWhile {p : Text → Bool} (hp : ∀ l, p l = false → opens l = true)
    (ls : List Text) : Opening (ls.dropWhile p) := by
  intro l hl
  have hnot := List.head?_dropWhile_not p ls
  rw [Option.mem_def.mp hl] at hnot
  exact hp l (by simpa using hnot)

theorem identity_lacks (identity : Text) :
    Lacks t0Header ["[IDENTITY] ".toList ++ identity] ∧
      Lacks quickFactsHeader ["[IDENTITY] ".toList ++ identity] := by
  have hstart : ∀ header start : Text, start <+: header → start.length ≤ 11 →
      ¬ start <+: "[IDENTITY] ".toList → Lacks header ["[IDENTITY] ".toList ++ identity] := by
    intro header start hstart hlen hnot l hl hunder
    rw [List.mem_singleton.mp hl] at hunder
    exact hnot (List.prefix_of_prefix_length_le (hstart.trans hunder)
      (List.prefix_append _ identity) hlen)
  exact ⟨hstart t0Header "[T".toList (by decide) (by decide) (by decide),
    hstart quickFactsHeader "[Q".toList (by decide) (by decide) (by decide)⟩

/-- A blank body is written anew, with the block. -/
theorem identity_carried {body block identity : Text} {s : List Text}
    (hblock : IsBlock block s) (hblank : strip body = [])
    (hidentity : ∀ c ∈ identity, isBreak c = false) :
    BlockCarried (some block) ("[IDENTITY] ".toList ++ identity ++ '\n' :: (block ++ ['\n']))
      body := by
  have hne : s ≠ [] := by
    obtain ⟨h, ls, rfl, -⟩ := hblock.holds
    exact List.cons_ne_nil h ls
  have hfirst : ∀ c ∈ "[IDENTITY] ".toList ++ identity, isBreak c = false := by
    intro c hc
    obtain hc | hc := List.mem_append.mp hc
    · exact unbroken_of_any (by decide) c hc
    · exact hidentity c hc
  have hlines : lines ("[IDENTITY] ".toList ++ identity ++ '\n' :: (block ++ ['\n'])) =
      ["[IDENTITY] ".toList ++ identity] ++ (s ++ []) := by
    rw [lines_cons_newline hfirst, hblock.spelt, lines_unlines_newline hne hblock.unbroken,
      List.append_nil]
    rfl
  obtain ⟨ht0, hquick⟩ := identity_lacks identity
  have hopening : Opening (["[IDENTITY] ".toList ++ identity] ++ (s ++ [])) := by
    intro l hl
    obtain rfl : "[IDENTITY] ".toList ++ identity = l := by simpa using hl
    rfl
  have hbody : Lacks quickFactsHeader (lines body) :=
    lacks_of_blank bracketed_quick (blank_lines hblank)
  have hnone : heldText quickFactsHeader (["[IDENTITY] ".toList ++ identity] ++ []) = none :=
    heldText_eq_none.mpr hquick
  have hkept : without quickFactsHeader (["[IDENTITY] ".toList ++ identity] ++ []) =
      ["[IDENTITY] ".toList ++ identity] ++ [] := without_of_lacks hquick
  obtain ⟨hread, hfacts, hsecond, -⟩ := alike_spliced ht0 hblock.holds opening_nil
  refine ⟨?_, ?_, ?_, fun _ => ?_, fun hink => absurd hblank hink⟩
  · rw [blockOf, hlines, hread, ← hblock.spelt, hblock.ends]
  · rw [quickFactsOf, hlines, hfacts, hnone, quickFactsOf, heldText_eq_none.mpr hbody]
  · rw [hlines, hsecond, hkept, hnone, without_of_lacks hbody, heldText_eq_none.mpr hbody]
  · rw [hlines]
    exact ⟨flush_of_opening hopening, flush_of_opening hopening⟩

/-- **The splice puts the block in**, and leaves all else. -/
theorem spliceT0Block_carried {body block identity : Text} {s : List Text}
    (hblock : IsBlock block s) (hidentity : ∀ c ∈ identity, isBreak c = false) :
    BlockCarried (some block) (spliceT0Block body block identity) body := by
  unfold spliceT0Block
  split
  next hblank => exact identity_carried hblock hblank hidentity
  next =>
    split
    next hnone =>
      have hlacks := parts_eq_none.mp hnone
      have hwhole : (lines body).takeWhile unanchored ++ (lines body).dropWhile unanchored =
          lines body := List.takeWhile_append_dropWhile
      refine blockCarried_rstrip hblock (hlacks.of_subset (List.takeWhile_prefix _).subset)
        (opening_of_dropWhile (fun l hl => opens_of_anchored hl) _) ?_ ?_ ?_
      · rw [without_of_lacks hlacks, hwhole]
      · intro hplain
        rw [← hwhole] at hplain
        exact hplain.of_append
      · rw [hwhole]
        exact unbroken_lines body
    next p hp =>
      obtain ⟨hls, hahead, hheld, hbehind⟩ := parts_iff.mp hp
      have hout : without t0Header (lines body) = p.ahead ++ p.behind := by
        rw [hls, without_held hahead hheld hbehind]
      refine blockCarried_rstrip hblock hahead hbehind hout ?_ ?_
      · intro hplain
        rw [hls] at hplain
        exact hplain.of_append
      · rw [← hout]
        exact (unbroken_lines body).of_subset (without_subset _)

/-- **The removal takes the block out**, if there is no second one, and leaves all else. -/
theorem withoutBlock_carried {body : Text} (hplain : Unindented (lines body))
    (honce : (lines body).countP (t0Header.isPrefixOf ·) ≤ 1) :
    BlockCarried none (withoutBlock body) body := by
  unfold withoutBlock
  split
  next hnone =>
    exact ⟨heldText_eq_none.mpr (parts_eq_none.mp hnone), rfl, rfl, id, fun _ => rfl⟩
  next p hp =>
    obtain ⟨hls, hahead, hheld, hbehind⟩ := parts_iff.mp hp
    have hout : without t0Header (lines body) = p.ahead ++ p.behind := by
      rw [hls, without_held hahead hheld hbehind]
    have hlacks : Lacks t0Header (p.ahead ++ p.behind) := by
      rw [← hout]
      exact lacks_without honce
    have hkept : Unindented (p.ahead ++ p.behind) := by
      rw [hls] at hplain
      exact hplain.of_append.append_opening hbehind
    have hunbroken : Unbroken (p.ahead ++ p.behind) := by
      rw [← hout]
      exact (unbroken_lines body).of_subset (without_subset _)
    have hlines : lines (strip (unlines (p.ahead ++ p.behind))) =
        trimEnd (trimTop (p.ahead ++ p.behind)) := by
      rw [strip_unlines, lines_unlines_trimEnd hunbroken.trimTop]
    have halike := (alike_trimEnd (trimTop (p.ahead ++ p.behind))).trans (alike_trimTop hkept)
    refine ⟨?_, ?_, ?_, fun _ => ?_, fun _ => ?_⟩
    · rw [blockOf, hlines, halike.block, heldText_eq_none.mpr hlacks]
    · rw [quickFactsOf, hlines, halike.facts, ← hout]
      exact heldText_without bracketed_quick bracketed_t0 not_quick_of_t0 _
    · rw [hlines, halike.second, ← hout,
        without_comm bracketed_quick bracketed_t0 not_quick_of_t0]
      exact heldText_without bracketed_quick bracketed_t0 not_quick_of_t0 _
    · rw [hlines]
      exact hkept.trimTop.trimEnd
    · rw [hlines, halike.ink, outside, without_of_lacks hlacks, ← hout]
      rfl

/-! ## The quick facts -/

/-- What the arm's body is after the step of the quick facts: those of the source, all else as it
was, and nothing for a second pass to change. -/
structure FactsCarried (source : List Text) (out body : Text) : Prop where
  block : blockOf out = blockOf body
  facts : quickFactsOf out = heldText quickFactsHeader source
  ink : inkText (outside (lines out)) = inkText (outside (lines body))
  settled : withQuickFactsOf source out = out

theorem factsOf_cases (source : List Text) :
    (factsOf source = [] ∧ heldText quickFactsHeader source = none) ∨
      (Solid quickFactsHeader (factsOf source) ∧
        heldText quickFactsHeader source = some (rstrip (unlines (factsOf source))) ∧
          factsOf source ⊆ source) := by
  unfold factsOf
  cases hp : solidParts quickFactsHeader source with
  | none => exact .inl ⟨rfl, heldText_eq_none.mpr (solidParts_eq_none.mp hp)⟩
  | some p =>
    obtain ⟨blanks, b, -, rfl, hahead, hsolid, hblanks, hb⟩ := solidParts_some hp
    refine .inr ⟨hsolid, heldText_solid hahead hsolid hblanks hb, fun l hl => ?_⟩
    simp [hl]

theorem outside_quick (ls : List Text) :
    outside ls = without t0Header (without quickFactsHeader ls) :=
  without_comm bracketed_quick bracketed_t0 not_quick_of_t0 ls

/-- Lines with whole sections behind them read back the same block with a section of quick facts
between. -/
theorem heldText_between {a s b : List Text} (hs : Holds quickFactsHeader s) (hb : Opening b) :
    heldText t0Header (a ++ (s ++ b)) = heldText t0Header (a ++ b) := by
  have hnone : heldText t0Header s = none :=
    heldText_eq_none.mpr (hs.lacks bracketed_t0 not_t0_of_quick)
  rw [heldText_append (hs.opening bracketed_quick b), heldText_append hb, heldText_append hb, hnone,
    Option.none_or]

theorem withQuickFactsOf_of_solid {source : List Text} {out : Text} {a b blanks : List Text}
    (hlines : lines out = a ++ (factsOf source ++ (blanks ++ b))) (ha : Lacks quickFactsHeader a)
    (hs : Solid quickFactsHeader (factsOf source)) (hblanks : ∀ l ∈ blanks, blank l = true)
    (hb : Opening b) : withQuickFactsOf source out = out := by
  unfold withQuickFactsOf
  rw [hlines, solidParts_held ha hs hblanks hb]
  exact if_pos rfl

/-- The lines put together with the source's facts, blank lines, whole sections behind. -/
theorem factsCarried_strip {source : List Text} {body : Text} {a b blanks : List Text}
    (hsource : Unbroken source) (hs : Solid quickFactsHeader (factsOf source))
    (hread : heldText quickFactsHeader source = some (rstrip (unlines (factsOf source))))
    (hsubset : factsOf source ⊆ source) (ha : Lacks quickFactsHeader a)
    (hblanks : ∀ l ∈ blanks, blank l = true) (hunblank : Unbroken blanks) (hb : Opening b)
    (hbody : without quickFactsHeader (lines body) = a ++ b) (hplain : Unindented a) :
    FactsCarried source (strip (unlines (a ++ (factsOf source ++ (blanks ++ b)))) ++ ['\n'])
      body := by
  have hab : Unbroken (a ++ b) := by
    rw [← hbody]
    exact (unbroken_lines body).of_subset (without_subset _)
  have hunbroken : Unbroken (a ++ (factsOf source ++ (blanks ++ b))) := by
    refine (hab.of_subset (List.subset_append_left a b)).append ?_
    refine (hsource.of_subset hsubset).append (hunblank.append ?_)
    exact hab.of_subset (List.subset_append_right a b)
  have hopening : Opening (factsOf source ++ (blanks ++ b)) :=
    hs.holds.opening bracketed_quick _
  have hheld := hs.holds.append_blank hblanks
  have halike := alike_strip (hplain.append_opening hopening) hunbroken
  have hsame : heldText t0Header (a ++ (factsOf source ++ (blanks ++ b))) = blockOf body := by
    rw [← List.append_assoc (factsOf source), heldText_between hheld hb, ← hbody]
    exact heldText_without bracketed_t0 bracketed_quick not_t0_of_quick _
  refine ⟨?_, ?_, ?_, ?_⟩
  · rw [blockOf, halike.block, hsame]
  · rw [quickFactsOf, halike.facts, heldText_solid ha hs hblanks hb, hread]
  · rw [halike.ink, outside_quick, outside_quick, hbody, ← List.append_assoc (factsOf source),
      without_held ha hheld hb]
  · obtain ⟨h, ls, hfacts, hunder, -⟩ := hs.holds
    have hheaded := bracketed_quick.headed hunder
    have htop : trimTop (a ++ (factsOf source ++ (blanks ++ b))) =
        trimTop a ++ (factsOf source ++ (blanks ++ b)) := by
      rw [hfacts]
      exact trimTop_append hheaded
    have hlacks : Lacks quickFactsHeader (trimTop a) := by
      rw [← heldText_eq_none, heldText_trimTop bracketed_quick hplain.2]
      exact heldText_eq_none.mpr ha
    have hwhole : trimEnd (factsOf source ++ (blanks ++ b)) ≠ [] :=
      trimEnd_ne_nil hheaded (by simp [hfacts])
    have hlines : lines (strip (unlines (a ++ (factsOf source ++ (blanks ++ b)))) ++ ['\n']) =
        trimTop a ++ trimEnd (factsOf source ++ (blanks ++ b)) := by
      have htrim : trimEnd (trimTop a ++ (factsOf source ++ (blanks ++ b))) =
          trimTop a ++ trimEnd (factsOf source ++ (blanks ++ b)) := trimEnd_append hwhole
      rw [strip_unlines, htop, htrim, lines_unlines_newline (by simp [hwhole])]
      rw [← htrim, ← htop]
      exact hunbroken.trimTop.trimEnd
    by_cases hnil : b = []
    · -- The facts are last: what is behind their last line was stripped.
      subst hnil
      rw [List.append_nil] at hlines ⊢
      rw [trimEnd_append_blank hblanks] at hlines
      have hends := hs.trimEnd bracketed_quick
      have hparts : solidParts quickFactsHeader (trimTop a ++ (trimEnd (factsOf source) ++
          ([] ++ []))) = some ⟨trimTop a, trimEnd (factsOf source), [] ++ []⟩ :=
        solidParts_held hlacks hends (by simp) opening_nil
      rw [List.append_nil, List.append_nil] at hparts
      unfold withQuickFactsOf
      rw [hlines, hparts]
      dsimp only
      split
      · rfl
      · rw [List.dropWhile_nil, if_neg (by simp), List.append_nil, List.append_nil]
        have htwice : trimEnd (trimTop (trimTop a ++ factsOf source)) =
            trimEnd (trimTop (a ++ (factsOf source ++ blanks))) := by
          rw [List.append_nil] at htop
          rw [htop, ← List.append_assoc (trimTop a), trimEnd_append_blank hblanks, hfacts,
            trimTop_append hheaded, trimTop_trimTop]
        rw [strip_unlines, htwice, ← strip_unlines]
    · obtain ⟨l, ls', rfl⟩ := List.exists_cons_of_ne_nil hnil
      have hl := headed_of_opens (hb l rfl)
      have hrest : trimEnd (l :: ls') ≠ [] := trimEnd_ne_nil hl List.mem_cons_self
      have htrim : trimEnd (factsOf source ++ (blanks ++ l :: ls')) =
          factsOf source ++ (blanks ++ trimEnd (l :: ls')) := by
        rw [← List.append_assoc, trimEnd_append hrest, List.append_assoc]
      rw [htrim] at hlines
      refine withQuickFactsOf_of_solid hlines hlacks hs hblanks ?_
      intro k hk
      by_cases htail : trimEnd ls' = []
      · rw [trimEnd_cons_of_nil htail, not_blank_of_headed hl, if_neg (by simp)] at hk
        obtain rfl : rstrip l = k := by simpa using hk
        rw [opens_rstrip]
        exact hb l rfl
      · rw [trimEnd_cons_of_ne htail] at hk
        obtain rfl : l = k := by simpa using hk
        exact hb l rfl

theorem withQuickFactsOf_of_lacks {source : List Text} {out : Text} (hfacts : factsOf source = [])
    (hlacks : Lacks quickFactsHeader (lines out)) : withQuickFactsOf source out = out := by
  unfold withQuickFactsOf
  rw [solidParts_eq_none.mpr hlacks]
  exact if_pos hfacts

/-- The lines put together without facts, whole sections behind. -/
theorem factsRemoved_strip {source : List Text} {body : Text} {a b : List Text}
    (hfacts : factsOf source = []) (hread : heldText quickFactsHeader source = none)
    (hb : Opening b) (hbody : without quickFactsHeader (lines body) = a ++ b)
    (hlacks : Lacks quickFactsHeader (a ++ b)) (hplain : Unindented a) :
    FactsCarried source (strip (unlines (a ++ b)) ++ ['\n']) body := by
  have hunbroken : Unbroken (a ++ b) := by
    rw [← hbody]
    exact (unbroken_lines body).of_subset (without_subset _)
  have halike := alike_strip (hplain.append_opening hb) hunbroken
  refine ⟨?_, ?_, ?_, ?_⟩
  · rw [blockOf, halike.block, ← hbody]
    exact heldText_without bracketed_t0 bracketed_quick not_t0_of_quick _
  · rw [quickFactsOf, halike.facts, heldText_eq_none.mpr hlacks, hread]
  · rw [halike.ink, outside_quick, outside_quick, hbody, without_of_lacks hlacks]
  · refine withQuickFactsOf_of_lacks hfacts (heldText_eq_none.mp ?_)
    rw [halike.facts, heldText_eq_none.mpr hlacks]

/-- **The quick facts' step carries the source's**, if there are no second ones to be left, and
leaves all else. -/
theorem withQuickFactsOf_carried {source : List Text} {body : Text} (hsource : Unbroken source)
    (hplain : Unindented (lines body))
    (honce : heldText quickFactsHeader source = none →
      heldText quickFactsHeader (without quickFactsHeader (lines body)) = none) :
    FactsCarried source (withQuickFactsOf source body) body := by
  have hcases := factsOf_cases source
  cases hp : solidParts quickFactsHeader (lines body) with
  | some p =>
    obtain ⟨blanks, b, hbehind, hlines, hahead, hsolid, hblanks, hb⟩ := solidParts_some hp
    have hbody : without quickFactsHeader (lines body) = p.ahead ++ b := by
      rw [hlines, ← List.append_assoc p.held,
        without_held hahead (hsolid.holds.append_blank hblanks) hb]
    have htail : p.behind.dropWhile blank = b := by
      rw [hbehind, List.dropWhile_append_of_pos hblanks]
      cases b with
      | nil => rfl
      | cons l b =>
        have hl := not_blank_of_headed (headed_of_opens (hb l rfl))
        exact List.dropWhile_cons_of_neg (by simp [hl])
    have hkept : Unindented p.ahead := by
      rw [hlines] at hplain
      exact hplain.of_append
    by_cases hsame : p.held = factsOf source
    · have hself : withQuickFactsOf source body = body := by
        unfold withQuickFactsOf
        rw [hp]
        exact if_pos hsame
      rw [hself]
      refine ⟨rfl, ?_, rfl, hself⟩
      obtain ⟨hnil, -⟩ | ⟨-, hread, -⟩ := hcases
      · obtain ⟨h, ls, hheld, -⟩ := hsolid.holds
        rw [hheld, hnil] at hsame
        cases hsame
      · rw [quickFactsOf, hlines, heldText_solid hahead hsolid hblanks hb, hread, hsame]
    · obtain ⟨hnil, hread⟩ | ⟨hfacts, hread, hsubset⟩ := hcases
      · have hself : withQuickFactsOf source body =
            strip (unlines (p.ahead ++ b)) ++ ['\n'] := by
          unfold withQuickFactsOf
          rw [hp]
          dsimp only
          rw [if_neg hsame, htail, hnil, if_neg (by simp)]
          rfl
        rw [hself]
        refine factsRemoved_strip hnil hread hb hbody ?_ hkept
        rw [← hbody]
        exact heldText_eq_none.mp (honce hread)
      · have hne : factsOf source ≠ [] := by
          obtain ⟨h, ls, hheld, -⟩ := hfacts.holds
          rw [hheld]
          exact List.cons_ne_nil h ls
        have hself : withQuickFactsOf source body = strip (unlines (p.ahead ++ (factsOf source ++
            ((if b ≠ [] then [[]] else []) ++ b)))) ++ ['\n'] := by
          unfold withQuickFactsOf
          rw [hp]
          dsimp only
          rw [if_neg hsame, htail]
          simp only [hne, ne_eq, not_false_eq_true, true_and]
        rw [hself]
        refine factsCarried_strip hsource hfacts hread hsubset hahead ?_ ?_ hb hbody hkept
        · split
          · simp [blank]
          · simp
        · intro l hl
          split at hl
          · rw [List.mem_singleton.mp hl]
            simp
          · cases hl
  | none =>
    have hlacks := solidParts_eq_none.mp hp
    obtain ⟨hnil, hread⟩ | ⟨hfacts, hread, hsubset⟩ := hcases
    · have hself := withQuickFactsOf_of_lacks hnil hlacks
      rw [hself]
      exact ⟨rfl, by rw [quickFactsOf, heldText_eq_none.mpr hlacks, hread], rfl, hself⟩
    · have hne : factsOf source ≠ [] := by
        obtain ⟨h, ls, hheld, -⟩ := hfacts.holds
        rw [hheld]
        exact List.cons_ne_nil h ls
      have hwhole : (lines body).takeWhile (!t0Header.isPrefixOf ·) ++
          (lines body).dropWhile (!t0Header.isPrefixOf ·) = lines body :=
        List.takeWhile_append_dropWhile
      have hself : withQuickFactsOf source body =
          strip (unlines ((lines body).takeWhile (!t0Header.isPrefixOf ·) ++ (factsOf source ++
            ([[]] ++ (lines body).dropWhile (!t0Header.isPrefixOf ·))))) ++ ['\n'] := by
        unfold withQuickFactsOf
        rw [hp]
        exact if_neg hne
      rw [hself]
      refine factsCarried_strip hsource hfacts hread hsubset
        (hlacks.of_subset (List.takeWhile_prefix _).subset) (by simp [blank]) ?_ ?_ ?_ ?_
      · intro l hl
        rw [List.mem_singleton.mp hl]
        simp
      · refine opening_of_dropWhile (fun l hl => ?_) _
        have hunder : t0Header.isPrefixOf l = true := by simpa using hl
        exact bracketed_t0.opens (List.isPrefixOf_iff_prefix.mp hunder)
      · rw [without_of_lacks hlacks, hwhole]
      · rw [← hwhole] at hplain
        exact hplain.of_append

/-! ## An arm -/

/-- The arm's body has no second section where the agent has none, and its first header is not
indented. -/
structure Carriable (source body : Text) : Prop where
  block : blockOf source = none → (lines body).countP (t0Header.isPrefixOf ·) ≤ 1
  facts : quickFactsOf source = none → (lines body).countP (quickFactsHeader.isPrefixOf ·) ≤ 1
  plain : Unindented (lines body)

/-- **An arm carries its agent's knowledge**: it reads back the agent's block and quick facts, a
second pass changes nothing, and the lines outside the two sections stay, in order, but for the
white space around them; and a block put in any body is read back. -/
theorem knowledge_carried (source body identity : Text) (h : Carriable source body)
    (hidentity : ∀ c ∈ identity, isBreak c = false) :
    blockOf (withKnowledgeOf source body identity) = blockOf source ∧
    quickFactsOf (withKnowledgeOf source body identity) = quickFactsOf source ∧
    withKnowledgeOf source (withKnowledgeOf source body identity) identity =
      withKnowledgeOf source body identity ∧
    (strip body ≠ [] → inkText (outside (lines (withKnowledgeOf source body identity))) =
      inkText (outside (lines body))) ∧
    ∀ (any block : Text) (ls : List Text), IsBlock block ls →
      blockOf (spliceT0Block any block identity) = some block := by
  have hstep : BlockCarried (blockOf source) (withBlockOf source body identity) body := by
    unfold withBlockOf
    split
    next hsame => exact ⟨hsame.symm, rfl, rfl, id, fun _ => rfl⟩
    next =>
      cases hread : blockOf source with
      | some block =>
        obtain ⟨ls, hls⟩ := isBlock_of_blockOf hread
        exact spliceT0Block_carried hls hidentity
      | none => exact withoutBlock_carried h.plain (h.block hread)
  have hfacts : FactsCarried (lines source) (withKnowledgeOf source body identity)
      (withBlockOf source body identity) :=
    withQuickFactsOf_carried (unbroken_lines source) (hstep.plain h.plain) fun hread => by
      rw [hstep.second]
      exact heldText_eq_none.mpr (lacks_without (h.facts hread))
  have hsame : blockOf source = blockOf (withKnowledgeOf source body identity) := by
    rw [hfacts.block, hstep.block]
  refine ⟨hsame.symm, hfacts.facts, ?_, fun hink => hfacts.ink.trans (hstep.ink hink), ?_⟩
  · have hagain : withBlockOf source (withKnowledgeOf source body identity) identity =
        withKnowledgeOf source body identity := if_pos hsame
    rw [withKnowledgeOf, hagain]
    exact hfacts.settled
  · exact fun any block ls hls => (spliceT0Block_carried hls hidentity).block

/-- An agent with both sections. -/
def agentBody : Text :=
  "[IDENTITY] Asha.\n[QUICK FACTS] Sure.\n- Open at nine\n\n[T0 FACTS]\nParking: yes\n".toList

/-- An arm with older ones. -/
def armBody : Text :=
  "[IDENTITY] Asha.\n[T0 FACTS]\nParking: no\n[WRAP] Say bye.\n[QUICK FACTS] Sure.\n- Shut".toList

theorem armBody_unindented : Unindented (lines armBody) := by
  have hopening : Opening (lines armBody) := by
    intro l hl
    have hfirst : (lines armBody).head? = some "[IDENTITY] Asha.".toList := by decide +kernel
    rw [hfirst] at hl
    obtain rfl := Option.some.inj hl
    rfl
  exact ⟨flush_of_opening hopening, flush_of_opening hopening⟩

theorem knowledge_carried_arm :
    blockOf (withKnowledgeOf agentBody armBody "Asha.".toList) = blockOf agentBody := by
  refine (knowledge_carried agentBody armBody "Asha.".toList ⟨fun h => ?_, fun h => ?_, ?_⟩
    (unbroken_of_any (by decide))).1
  · have hsome : blockOf agentBody = some "[T0 FACTS]\nParking: yes".toList := by decide +kernel
    rw [hsome] at h
    cases h
  · have hsome : quickFactsOf agentBody = some "[QUICK FACTS] Sure.\n- Open at nine".toList := by
      decide +kernel
    rw [hsome] at h
    cases h
  · exact armBody_unindented

/-- A second block stays behind the first; blank lines behind the quick facts go; and a block that
ends with a blank is read back without it. -/
theorem knowledge_kept_partly :
    blockOf (withKnowledgeOf [] "[T0 FACTS] a\n[T0 FACTS] b".toList []) ≠ blockOf [] ∧
    lines (withKnowledgeOf "[QUICK FACTS] b".toList "[QUICK FACTS] a\n\n\n[WRAP]".toList []) =
      ["[QUICK FACTS] b".toList, [], "[WRAP]".toList] ∧
    blockOf (spliceT0Block [] "[T0 FACTS] ".toList []) ≠ some "[T0 FACTS] ".toList ∧
    ¬ ∀ source body identity : Text,
      blockOf (withKnowledgeOf source body identity) = blockOf source := by
  have htwo : blockOf (withKnowledgeOf [] "[T0 FACTS] a\n[T0 FACTS] b".toList []) ≠ blockOf [] := by
    decide +kernel
  exact ⟨htwo, by decide +kernel, by decide +kernel, fun h => htwo (h _ _ _)⟩

end Calevate.Agents
