import Calevate.Lib.Cutting
import Calevate.Lib.Occurs
import Mathlib.Data.List.TakeWhile

/-!
# Chunks

What a business knows is cut in chunks that fit a retrieval: at blank lines, at line ends, at
sentence ends and at blanks, whichever is coarse enough. No chunk is blank or too long, a short
last one rides on the one before it, and no character of the text is lost, `chunks_lossless`.
-/

namespace Calevate.Knowledge

open Lib Lib.Cutting
open Lib.ClockText (isSpace strip)

abbrev Text := List Char

/-- `MAX_CHUNK_CHARS`. -/
def maxChunkChars : ℕ := 700

/-- `MIN_CHUNK_CHARS`. -/
def minChunkChars : ℕ := 80

/-- `MAX_SECTION_TITLE_CHARS`. -/
def maxSectionTitleChars : ℕ := 120

/-- `*complete, buffer = pieces` of no pieces. -/
inductive Raised where
  | valueError
  deriving DecidableEq, Repr

/-! ## Where a text may be split -/

/-- `\n\s*\n`: the match ends with the last line break of the white space it begins with. -/
def blankLine (_ : Option Char) : Text → Option ℕ
  | '\n' :: rest => (Occurs.rfind ['\n'] (rest.takeWhile isSpace)).map (· + 2)
  | _ => none

/-- The characters a sentence ends with. -/
def sentenceEnds : List Char := ['.', '!', '?', '।', '॥', '|']

/-- `_SENTENCE_END_SPLIT`. -/
def sentenceGap (prev : Option Char) (text : Text) : Option ℕ :=
  if prev.any (· ∈ sentenceEnds) ∧ text.takeWhile isSpace ≠ [] then
    some (text.takeWhile isSpace).length
  else none

/-- A line break. -/
def lineBreak (_ : Option Char) : Text → Option ℕ
  | '\n' :: _ => some 1
  | _ => none

/-- The parts that are not blank, without the white space around them. -/
def written (parts : List Text) : List Text := (parts.map strip).filter (· ≠ [])

/-! ## Words -/

/-- `cut` of `_wrap_long_sentence`. -/
def wrapPoint (rest : Text) : ℕ :=
  match Occurs.rfind [' '] (rest.take (maxChunkChars + 1)) with
  | none => maxChunkChars
  | some cut => if cut < minChunkChars then maxChunkChars else cut

theorem rfind_lt {m t : Text} {i : ℕ} (hm : m ≠ []) (h : Occurs.rfind m t = some i) :
    i < t.length := by
  obtain ⟨tail, htail⟩ := Occurs.isPrefix_of_rfind h
  by_contra hge
  rw [List.drop_eq_nil_of_le (by omega), List.append_eq_nil_iff] at htail
  exact hm htail.1

theorem wrapPoint_le (rest : Text) : 0 < wrapPoint rest ∧ wrapPoint rest ≤ maxChunkChars := by
  unfold wrapPoint
  cases hfound : Occurs.rfind [' '] (rest.take (maxChunkChars + 1)) with
  | none => exact ⟨by decide, le_rfl⟩
  | some cut =>
    have hlt := rfind_lt (by simp) hfound
    have htake := List.length_take_le (maxChunkChars + 1) rest
    dsimp only
    split
    · exact ⟨by decide, le_rfl⟩
    · have hmin : minChunkChars = 80 := rfl
      omega

/-- `_wrap_long_sentence`: the loop ends, since each round takes some characters. -/
def wrapLongSentence (rest : Text) : List Text :=
  if maxChunkChars < rest.length then
    rstrip (rest.take (wrapPoint rest)) :: wrapLongSentence (lstrip (rest.drop (wrapPoint rest)))
  else if rest = [] then [] else [rest]
termination_by rest.length
decreasing_by
  have hcut := wrapPoint_le rest
  have hle := length_lstrip_le (rest.drop (wrapPoint rest))
  rw [List.length_drop] at hle
  omega

/-- `*complete, buffer = pieces`. -/
def unpackLast (pieces : List Text) : Except Raised (List Text × Text) :=
  match pieces.getLast? with
  | none => .error .valueError
  | some last => .ok (pieces.dropLast, last)

/-! ## Sentences, lines and paragraphs -/

/-- The loop of `_split_sentences`. -/
def packSentences : Text → List Text → Except Raised (List Text)
  | buffer, [] => return flushed buffer
  | buffer, sentence :: rest =>
    if buffer.length + sentence.length + 1 ≤ maxChunkChars then
      packSentences (strip (buffer ++ ' ' :: sentence)) rest
    else if sentence.length ≤ maxChunkChars then do
      let out ← packSentences sentence rest
      return flushed buffer ++ out
    else do
      let (complete, last) ← unpackLast (wrapLongSentence sentence)
      let out ← packSentences last rest
      return flushed buffer ++ complete ++ out

/-- `_split_sentences`. -/
def splitSentences (paragraph : Text) : Except Raised (List Text) :=
  packSentences [] (split sentenceGap paragraph)

/-- The buffer with another part behind a joiner. -/
def joined (joiner buffer part : Text) : Text :=
  if buffer = [] then part else buffer ++ joiner ++ part

/-- The loop of `_split_lines`. -/
def packLines : Text → List Text → Except Raised (List Text)
  | buffer, [] => return flushed buffer
  | buffer, line :: rest =>
    if maxChunkChars < line.length then do
      let pieces ← splitSentences line
      let (complete, last) ← unpackLast pieces
      let out ← packLines last rest
      return flushed buffer ++ complete ++ out
    else if (joined ['\n'] buffer line).length ≤ maxChunkChars then
      packLines (joined ['\n'] buffer line) rest
    else do
      let out ← packLines line rest
      return flushed buffer ++ out

/-- `_split_lines`. -/
def splitLines (paragraph : Text) : Except Raised (List Text) :=
  packLines [] (written (split lineBreak paragraph))

/-- The loop of `chunk_text`. -/
def packParagraphs : Text → List Text → Except Raised (List Text)
  | buffer, [] => return flushed buffer
  | buffer, paragraph :: rest =>
    if maxChunkChars < paragraph.length then do
      let pieces ← splitLines paragraph
      let out ← packParagraphs [] rest
      return flushed buffer ++ pieces ++ out
    else if (joined ['\n', '\n'] buffer paragraph).length ≤ maxChunkChars then
      packParagraphs (joined ['\n', '\n'] buffer paragraph) rest
    else do
      let out ← packParagraphs paragraph rest
      return flushed buffer ++ out

/-- A stub at the end goes to the chunk before it. -/
def foldStub (chunks : List Text) : List Text :=
  match chunks.reverse with
  | last :: previous :: before =>
    if last.length < minChunkChars then
      ((previous ++ ['\n', '\n'] ++ last) :: before).reverse
    else chunks
  | _ => chunks

/-- **`chunk_text`**. -/
def chunkText (body : Text) : Except Raised (List Text) := do
  let chunks ← packParagraphs [] (written (split blankLine body))
  return foldStub chunks

/-! ## The splits -/

theorem solid_take_takeWhile {t : Text} {n : ℕ} (h : n ≤ (t.takeWhile isSpace).length) :
    solid (t.take n) = [] := by
  have hbegins : t.take n <+: t.takeWhile isSpace := by
    refine List.prefix_of_prefix_length_le (List.take_prefix n t) (List.takeWhile_prefix _) ?_
    exact (List.length_take_le n t).trans h
  rw [solid_eq_nil]
  intro c hc
  exact List.mem_takeWhile_imp (hbegins.subset hc)

theorem onSpace_blankLine : OnSpace blankLine := by
  intro prev t n h
  unfold blankLine at h
  split at h
  case h_1 rest =>
    obtain ⟨i, hi, rfl⟩ := Option.map_eq_some_iff.mp h
    refine ⟨by omega, ?_⟩
    have hlt := rfind_lt (by simp) hi
    rw [show i + 2 = (i + 1) + 1 from rfl, List.take_succ_cons, solid_cons_space (by decide)]
    exact solid_take_takeWhile hlt
  case h_2 => cases h

theorem onSpace_sentenceGap : OnSpace sentenceGap := by
  intro prev t n h
  unfold sentenceGap at h
  split at h
  case isTrue hgap =>
    obtain rfl := Option.some.inj h
    exact ⟨List.length_pos_iff.mpr hgap.2, solid_take_takeWhile le_rfl⟩
  case isFalse => cases h

theorem onSpace_lineBreak : OnSpace lineBreak := by
  intro prev t n h
  unfold lineBreak at h
  split at h
  case h_1 rest =>
    obtain rfl := Option.some.inj h
    exact ⟨le_rfl, by rw [List.take_succ_cons, List.take_zero]; rfl⟩
  case h_2 => cases h

/-- **No sentence is blank**, or begins with white space, of a text without white space at its
ends. -/
theorem headed_splitFrom {skip : ℕ} {begun t : Text} (hbegun : begun = [] ∨ Headed begun)
    (hstart : begun = [] → Headed (t.drop skip)) (hlast : ∀ c ∈ t.getLast?, isSpace c = false) :
    ∀ p ∈ splitFrom sentenceGap skip begun t, Headed p := by
  induction t generalizing skip begun with
  | nil =>
    intro p hp
    have hp' : p = begun := List.mem_singleton.mp hp
    rw [hp']
    refine hbegun.resolve_left fun hempty => ?_
    obtain ⟨c, rest, hnil, -⟩ := hstart hempty
    rw [List.drop_nil] at hnil
    cases hnil
  | cons c t ih =>
    have hlast' : ∀ d ∈ t.getLast?, isSpace d = false := by
      intro d hd
      refine hlast d ?_
      rw [Option.mem_def] at hd ⊢
      rw [List.getLast?_cons, hd]
      rfl
    cases skip with
    | succ skip => exact ih hbegun hstart hlast'
    | zero =>
      unfold splitFrom
      cases hmatch : sentenceGap begun.getLast? (c :: t) with
      | some n =>
        unfold sentenceGap at hmatch
        split at hmatch
        case isFalse => cases hmatch
        case isTrue hgap =>
          obtain rfl := Option.some.inj hmatch
          refine List.forall_mem_cons.mpr ⟨?_, ih (.inl rfl) (fun _ => ?_) hlast'⟩
          · refine hbegun.resolve_left ?_
            rintro rfl
            exact absurd hgap.1 (by simp)
          · have hpos := List.length_pos_iff.mpr hgap.2
            obtain ⟨m, hm⟩ : ∃ m, ((c :: t).takeWhile isSpace).length = m + 1 :=
              ⟨_, (Nat.succ_pred_eq_of_pos hpos).symm⟩
            have hrest : t.drop m = lstrip (c :: t) := by
              have hsplit : (c :: t).takeWhile isSpace ++ lstrip (c :: t) = c :: t :=
                List.takeWhile_append_dropWhile
              have hdrop := congrArg (List.drop (m + 1)) hsplit
              rw [← hm, List.drop_left, hm] at hdrop
              exact hdrop.symm
            rw [hm, Nat.add_sub_cancel, hrest]
            refine lstrip_headed fun hempty => ?_
            have hblank : solid (c :: t) = [] := by
              rw [← solid_lstrip, hempty]
              rfl
            obtain ⟨d, hd⟩ : ∃ d, (c :: t).getLast? = some d :=
              ⟨_, List.getLast?_eq_some_getLast (List.cons_ne_nil c t)⟩
            have hspace := solid_eq_nil.mp hblank d (List.mem_of_getLast? hd)
            rw [hlast d hd] at hspace
            cases hspace
      | none =>
        dsimp only
        refine ih (.inr ?_) (fun hempty => ?_) hlast'
        · rcases hbegun with rfl | hbegun
          · obtain ⟨d, rest, hsame, hd⟩ := hstart rfl
            obtain ⟨rfl, -⟩ := List.cons.inj hsame
            exact ⟨c, [], rfl, hd⟩
          · exact hbegun.append [c]
        · exact absurd hempty (by simp)

theorem headed_sentences {t : Text} (hne : t ≠ []) (htight : Text.Tight t) :
    ∀ p ∈ split sentenceGap t, Headed p := by
  refine headed_splitFrom (.inl rfl) (fun _ => ?_) fun c hc => htight.2 c hc
  cases t with
  | nil => exact absurd rfl hne
  | cons c t => exact ⟨c, t, rfl, htight.1 c rfl⟩

theorem written_spec (parts : List Text) :
    (∀ p ∈ written parts, p ≠ [] ∧ Text.Tight p) ∧
      solid (written parts).flatten = solid parts.flatten := by
  constructor
  · intro p hp
    obtain ⟨hmem, hne⟩ := List.mem_filter.mp hp
    obtain ⟨q, -, rfl⟩ := List.mem_map.mp hmem
    exact ⟨of_decide_eq_true hne, Text.tight_strip q⟩
  · induction parts with
    | nil => rfl
    | cons q parts ih =>
      have hq := solid_strip q
      unfold written at ih ⊢
      rw [List.map_cons, List.flatten_cons, solid_append, ← ih, ← hq]
      by_cases hempty : strip q = []
      · rw [List.filter_cons_of_neg (by simpa using hempty), hempty]
        rfl
      · rw [List.filter_cons_of_pos (by simpa using hempty), List.flatten_cons, solid_append]

theorem inked_of_tight {t : Text} (hne : t ≠ []) (htight : Text.Tight t) : Inked t := by
  cases t with
  | nil => exact absurd rfl hne
  | cons c t => exact Headed.inked ⟨c, t, rfl, htight.1 c rfl⟩

/-! ## The packers -/

/-- **A long sentence is cut without loss.** -/
theorem cut_wrapLongSentence (rest : Text) (h : rest = [] ∨ Headed rest) :
    Cut maxChunkChars rest (wrapLongSentence rest) := by
  induction rest using wrapLongSentence.induct with
  | case1 rest hlong ih =>
    have hne : rest ≠ [] := by
      rintro rfl
      exact absurd hlong (Nat.not_lt_zero _)
    have hhead := h.resolve_left hne
    obtain ⟨hpos, hle⟩ := wrapPoint_le rest
    have htake := hhead.take hpos
    have hpiece : Cut maxChunkChars (rest.take (wrapPoint rest))
        [rstrip (rest.take (wrapPoint rest))] := by
      refine (Cut.single ?_ ?_).congr (solid_rstrip _)
      · exact ((length_rstrip_le _).trans (List.length_take_le _ _)).trans hle
      · unfold Inked
        rw [solid_rstrip]
        exact htake.inked
    have htail : lstrip (rest.drop (wrapPoint rest)) = [] ∨
        Headed (lstrip (rest.drop (wrapPoint rest))) := by
      by_cases hempty : lstrip (rest.drop (wrapPoint rest)) = []
      · exact .inl hempty
      · exact .inr (lstrip_headed hempty)
    rw [wrapLongSentence, if_pos hlong]
    have hboth := hpiece.append ((ih htail).congr (solid_lstrip _))
    rwa [List.take_append_drop] at hboth
  | case2 hshort =>
    rw [wrapLongSentence, if_neg hshort, if_pos rfl]
    exact Cut.nil
  | case3 rest hshort hne =>
    rw [wrapLongSentence, if_neg hshort, if_neg hne]
    exact Cut.single (Nat.not_lt.mp hshort) (h.resolve_left hne).inked

/-- The pieces of a text that is not blank have a last one. -/
theorem unpackLast_ok {t : Text} {pieces : List Text} (h : Cut maxChunkChars t pieces)
    (hinked : Inked t) :
    ∃ complete last, unpackLast pieces = .ok (complete, last) ∧
      Cut maxChunkChars complete.flatten complete ∧ Holds maxChunkChars last ∧
      solid t = solid complete.flatten ++ solid last := by
  have hne := h.ne_nil hinked
  have hlast := List.dropLast_append_getLast hne
  rw [← hlast] at h
  obtain ⟨hcomplete, hholds, hsolid⟩ := h.unpack
  refine ⟨pieces.dropLast, pieces.getLast hne, ?_, hcomplete, hholds, hsolid⟩
  unfold unpackLast
  rw [List.getLast?_eq_some_getLast hne]

/-- **Sentences are packed without loss.** -/
theorem packSentences_ok {sentences : List Text} (hheaded : ∀ s ∈ sentences, Headed s) :
    ∀ {buffer : Text}, Holds maxChunkChars buffer →
      ∃ out, packSentences buffer sentences = .ok out ∧
        Cut maxChunkChars (buffer ++ sentences.flatten) out := by
  induction sentences with
  | nil =>
    intro buffer hbuffer
    refine ⟨flushed buffer, rfl, ?_⟩
    rw [List.flatten_nil, List.append_nil]
    exact Cut.flushed hbuffer
  | cons sentence rest ih =>
    intro buffer hbuffer
    obtain ⟨hsentence, hrest⟩ := List.forall_mem_cons.mp hheaded
    unfold packSentences
    split
    case isTrue hfits =>
      have hink : solid (strip (buffer ++ ' ' :: sentence)) = solid (buffer ++ sentence) := by
        rw [solid_strip, solid_append, solid_cons_space (by decide), ← solid_append]
      have hholds : Holds maxChunkChars (strip (buffer ++ ' ' :: sentence)) := by
        refine .inr ⟨(length_strip_le _).trans ?_, ?_⟩
        · rw [List.length_append, List.length_cons]
          omega
        · unfold Inked
          rw [hink, solid_append]
          exact fun hempty => hsentence.inked (List.append_eq_nil_iff.mp hempty).2
      obtain ⟨out, hout, hcut⟩ := ih hrest hholds
      refine ⟨out, hout, hcut.congr ?_⟩
      rw [solid_append, hink, List.flatten_cons, ← solid_append, List.append_assoc]
    case isFalse =>
      split
      case isTrue hshort =>
        obtain ⟨out, hout, hcut⟩ := ih hrest (.inr ⟨hshort, hsentence.inked⟩)
        refine ⟨flushed buffer ++ out, ?_, ?_⟩
        · rw [hout]
          rfl
        · rw [List.flatten_cons]
          exact (Cut.flushed hbuffer).append hcut
      case isFalse =>
        have hwrapped := cut_wrapLongSentence sentence (.inr hsentence)
        obtain ⟨complete, last, hunpack, hcomplete, hlast, hink⟩ :=
          unpackLast_ok hwrapped hsentence.inked
        obtain ⟨out, hout, hcut⟩ := ih hrest hlast
        refine ⟨flushed buffer ++ complete ++ out, ?_, ?_⟩
        · rw [hunpack]
          dsimp only [bind, Except.bind]
          rw [hout]
          rfl
        · refine (((Cut.flushed hbuffer).append hcomplete).append hcut).congr ?_
          simp only [List.flatten_cons, solid_append, hink, List.append_assoc]

/-- The sentences of a long line are cut without loss. -/
theorem splitSentences_ok {t : Text} (hne : t ≠ []) (htight : Text.Tight t) :
    ∃ out, splitSentences t = .ok out ∧ Cut maxChunkChars t out := by
  obtain ⟨out, hout, hcut⟩ := packSentences_ok (headed_sentences hne htight) (.inl rfl)
  refine ⟨out, hout, hcut.congr ?_⟩
  rw [List.nil_append, solid_split onSpace_sentenceGap]

theorem solid_joined {joiner : Text} (hjoiner : solid joiner = []) (buffer part : Text) :
    solid (joined joiner buffer part) = solid (buffer ++ part) := by
  unfold joined
  split
  case isTrue hempty => rw [hempty, List.nil_append]
  case isFalse => rw [solid_append, solid_append, hjoiner, List.append_nil, solid_append]

/-- A part that fits behind a joiner is held with the others. -/
theorem holds_joined {joiner buffer part : Text} (hjoiner : solid joiner = [])
    (hfits : (joined joiner buffer part).length ≤ maxChunkChars) (hpart : Inked part) :
    Holds maxChunkChars (joined joiner buffer part) := by
  refine .inr ⟨hfits, ?_⟩
  unfold Inked
  rw [solid_joined hjoiner, solid_append]
  exact fun hempty => hpart (List.append_eq_nil_iff.mp hempty).2

/-- **Lines are packed without loss.** -/
theorem packLines_ok {lines : List Text} (htight : ∀ l ∈ lines, l ≠ [] ∧ Text.Tight l) :
    ∀ {buffer : Text}, Holds maxChunkChars buffer →
      ∃ out, packLines buffer lines = .ok out ∧
        Cut maxChunkChars (buffer ++ lines.flatten) out := by
  induction lines with
  | nil =>
    intro buffer hbuffer
    refine ⟨flushed buffer, rfl, ?_⟩
    rw [List.flatten_nil, List.append_nil]
    exact Cut.flushed hbuffer
  | cons line rest ih =>
    intro buffer hbuffer
    obtain ⟨⟨hne, hline⟩, hrest⟩ := List.forall_mem_cons.mp htight
    have hinked := inked_of_tight hne hline
    unfold packLines
    split
    case isTrue =>
      obtain ⟨pieces, hpieces, hwhole⟩ := splitSentences_ok hne hline
      obtain ⟨complete, last, hunpack, hcomplete, hlast, hink⟩ := unpackLast_ok hwhole hinked
      obtain ⟨out, hout, hcut⟩ := ih hrest hlast
      refine ⟨flushed buffer ++ complete ++ out, ?_, ?_⟩
      · rw [hpieces]
        dsimp only [bind, Except.bind]
        rw [hunpack]
        dsimp only
        rw [hout]
        rfl
      · refine (((Cut.flushed hbuffer).append hcomplete).append hcut).congr ?_
        simp only [List.flatten_cons, solid_append, hink, List.append_assoc]
    case isFalse hshort =>
      split
      case isTrue hfits =>
        obtain ⟨out, hout, hcut⟩ := ih hrest (holds_joined (by decide) hfits hinked)
        refine ⟨out, hout, hcut.congr ?_⟩
        rw [solid_append, solid_joined (by decide), List.flatten_cons, ← solid_append,
          List.append_assoc]
      case isFalse =>
        obtain ⟨out, hout, hcut⟩ := ih hrest (.inr ⟨Nat.not_lt.mp hshort, hinked⟩)
        refine ⟨flushed buffer ++ out, ?_, ?_⟩
        · rw [hout]
          rfl
        · rw [List.flatten_cons]
          exact (Cut.flushed hbuffer).append hcut

theorem splitLines_ok (t : Text) : ∃ out, splitLines t = .ok out ∧ Cut maxChunkChars t out := by
  obtain ⟨htight, hink⟩ := written_spec (split lineBreak t)
  obtain ⟨out, hout, hcut⟩ := packLines_ok htight (.inl rfl)
  refine ⟨out, hout, hcut.congr ?_⟩
  rw [List.nil_append, hink, solid_split onSpace_lineBreak]

/-- **Paragraphs are packed without loss.** -/
theorem packParagraphs_ok {paragraphs : List Text}
    (htight : ∀ p ∈ paragraphs, p ≠ [] ∧ Text.Tight p) :
    ∀ {buffer : Text}, Holds maxChunkChars buffer →
      ∃ out, packParagraphs buffer paragraphs = .ok out ∧
        Cut maxChunkChars (buffer ++ paragraphs.flatten) out := by
  induction paragraphs with
  | nil =>
    intro buffer hbuffer
    refine ⟨flushed buffer, rfl, ?_⟩
    rw [List.flatten_nil, List.append_nil]
    exact Cut.flushed hbuffer
  | cons paragraph rest ih =>
    intro buffer hbuffer
    obtain ⟨⟨hne, hparagraph⟩, hrest⟩ := List.forall_mem_cons.mp htight
    have hinked := inked_of_tight hne hparagraph
    unfold packParagraphs
    split
    case isTrue =>
      obtain ⟨pieces, hpieces, hwhole⟩ := splitLines_ok paragraph
      obtain ⟨out, hout, hcut⟩ := ih hrest (.inl rfl)
      refine ⟨flushed buffer ++ pieces ++ out, ?_, ?_⟩
      · rw [hpieces]
        dsimp only [bind, Except.bind]
        rw [hout]
        rfl
      · rw [List.flatten_cons, ← List.append_assoc]
        exact ((Cut.flushed hbuffer).append hwhole).append hcut
    case isFalse hshort =>
      split
      case isTrue hfits =>
        obtain ⟨out, hout, hcut⟩ := ih hrest (holds_joined (by decide) hfits hinked)
        refine ⟨out, hout, hcut.congr ?_⟩
        rw [solid_append, solid_joined (by decide), List.flatten_cons, ← solid_append,
          List.append_assoc]
      case isFalse =>
        obtain ⟨out, hout, hcut⟩ := ih hrest (.inr ⟨Nat.not_lt.mp hshort, hinked⟩)
        refine ⟨flushed buffer ++ out, ?_, ?_⟩
        · rw [hout]
          rfl
        · rw [List.flatten_cons]
          exact (Cut.flushed hbuffer).append hcut

/-! ## Chunks of a text -/

/-- What the chunks of a text have to be. -/
structure Lossless (body : Text) (chunks : List Text) : Prop where
  inked : ∀ c ∈ chunks, Inked c
  whole : solid chunks.flatten = solid body
  bounded : ∀ c ∈ chunks.dropLast, c.length ≤ maxChunkChars
  lastBounded : ∀ c ∈ chunks.getLast?, c.length ≤ maxChunkChars + (minChunkChars + 1)

/-- Riding on the chunk before it, a stub loses nothing. -/
theorem lossless_foldStub {body : Text} {chunks : List Text} (h : Cut maxChunkChars body chunks) :
    Lossless body (foldStub chunks) := by
  have hplain : Lossless body chunks := {
    inked := h.inked
    whole := h.whole
    bounded := fun c hc => h.bounded c (List.dropLast_subset _ hc)
    lastBounded := fun c hc =>
      (h.bounded c (List.mem_of_getLast? hc)).trans (Nat.le_add_right _ _) }
  unfold foldStub
  split
  case h_1 last previous before hreverse =>
    split
    case isFalse => exact hplain
    case isTrue hstub =>
      have hchunks : chunks = before.reverse ++ [previous] ++ [last] := by
        rw [← List.reverse_reverse chunks, hreverse]
        simp
      subst hchunks
      have hprevious : previous ∈ before.reverse ++ [previous] ++ [last] := by simp
      rw [List.reverse_cons]
      exact {
        inked := by
          intro c hc
          rcases List.mem_append.mp hc with hc | hc
          · exact h.inked c (by simp [List.mem_reverse.mp hc])
          · rw [List.mem_singleton.mp hc]
            unfold Inked
            rw [solid_append, solid_append]
            intro hempty
            exact h.inked previous hprevious
              (List.append_eq_nil_iff.mp (List.append_eq_nil_iff.mp hempty).1).1
        whole := by
          rw [← h.whole]
          simp only [List.flatten_append, List.flatten_singleton, solid_append]
          rw [show solid ['\n', '\n'] = [] from rfl, List.append_nil, List.append_assoc]
        bounded := by
          intro c hc
          rw [List.dropLast_concat] at hc
          exact h.bounded c (by simp [List.mem_reverse.mp hc])
        lastBounded := by
          intro c hc
          rw [List.getLast?_concat] at hc
          obtain rfl := Option.some.inj hc
          have hlen := h.bounded previous hprevious
          rw [List.length_append, List.length_append]
          simp only [List.length_cons, List.length_nil]
          omega }
  case h_2 => exact hplain

/-! ## Chunks of a section -/

/-- Consecutive lines under one heading. -/
structure Group where
  title : Option Text
  lines : List Text

/-- A title as a chunk repeats it. -/
def Title := { t : Text // t.length ≤ maxSectionTitleChars }

structure SectionChunk where
  title : Option Title
  content : Text

/-- The heading of a title, with its line break. -/
def titleLine (title : Text) : Text :=
  if title.getLast?.any (· ∈ [':', '?', '.', '!']) then title ++ ['\n'] else title ++ [':', '\n']

/-- What stands over the lines; nothing does without a title. -/
def heading : Option Title → Text
  | none => []
  | some title => if title.val = [] then [] else titleLine title.val

/-- `"\n".join`. -/
def joinLines (lines : List Text) : Text := List.intercalate ['\n'] lines

/-- `with_title`. -/
def withTitle (title : Option Title) (lines : List Text) : Text := heading title ++ joinLines lines

/-- `(group.section or "")[:MAX_SECTION_TITLE_CHARS].strip() or None`. -/
def Group.titleOf (group : Group) : Option Title :=
  let title := (group.title.getD []).take maxSectionTitleChars
  if strip title = [] then none
  else some ⟨strip title, (length_strip_le _).trans (List.length_take_le _ _)⟩

/-- The characters left for the lines of a piece. -/
structure Room where
  size : ℕ
  pos : 0 < size

/-- `cut` of `_fit`. -/
def fitPoint (room : Room) (sentence : Text) : ℕ :=
  match Occurs.rfind [' '] (sentence.take (room.size + 1)) with
  | none => room.size
  | some cut => if room.size / 4 < cut then cut else room.size

theorem fitPoint_le (room : Room) (sentence : Text) :
    0 < fitPoint room sentence ∧ fitPoint room sentence ≤ room.size := by
  have hpos := room.pos
  unfold fitPoint
  cases hfound : Occurs.rfind [' '] (sentence.take (room.size + 1)) with
  | none => exact ⟨hpos, le_rfl⟩
  | some cut =>
    have hlt := rfind_lt (by simp) hfound
    have htake := List.length_take_le (room.size + 1) sentence
    dsimp only
    split <;> omega

/-- The inner loop of `_fit`: what it writes of a sentence, and the rest that fits. -/
def cutSentence (room : Room) (sentence : Text) : List Text × Text :=
  if room.size < sentence.length then
    let rest := cutSentence room (lstrip (sentence.drop (fitPoint room sentence)))
    (rstrip (sentence.take (fitPoint room sentence)) :: rest.1, rest.2)
  else ([], sentence)
termination_by sentence.length
decreasing_by
  have hcut := fitPoint_le room sentence
  have hle := length_lstrip_le (sentence.drop (fitPoint room sentence))
  rw [List.length_drop] at hle
  omega

/-- The loop of `_fit`. The buffer is written before a sentence that is cut. -/
def fitSentences (room : Room) : Text → List Text → List Text
  | buffer, [] => flushed buffer
  | buffer, sentence :: rest =>
    let (cuts, left) := cutSentence room sentence
    let (written, buffer) := if cuts = [] then ([], buffer) else (flushed buffer ++ cuts, [])
    if (strip (buffer ++ ' ' :: left)).length ≤ room.size then
      written ++ fitSentences room (strip (buffer ++ ' ' :: left)) rest
    else written ++ buffer :: fitSentences room left rest

/-- `_fit`. -/
def fit (room : Room) (line : Text) : List Text :=
  if line.length ≤ room.size then [line]
  else (fitSentences room [] (split sentenceGap line)).filter (· ≠ [])

/-- What a part adds to a piece, its line break included. -/
def added (current : List Text) (part : Text) : ℕ := part.length + if current = [] then 0 else 1

/-- The loops of `_pack_lines`, over the parts of all lines. -/
def packParts (room : Room) : List Text → ℕ → List Text → List (List Text)
  | current, _, [] => if current = [] then [] else [current]
  | current, size, part :: rest =>
    if current ≠ [] ∧ room.size < size + added current part then
      current :: packParts room [part] part.length rest
    else packParts room (current ++ [part]) (size + added current part) rest

/-- `_pack_lines`. -/
def packGroup (room : Room) (lines : List Text) : List (List Text) :=
  packParts room [] 0 (lines.flatMap (fit room))

theorem length_heading_le (title : Option Title) :
    (heading title).length ≤ maxSectionTitleChars + 2 := by
  cases title with
  | none => exact Nat.zero_le _
  | some title =>
    have htitle := title.property
    unfold heading titleLine
    dsimp only
    split
    · exact Nat.zero_le _
    · split
      · rw [List.length_append, List.length_singleton]
        omega
      · rw [List.length_append]
        simp only [List.length_cons, List.length_nil]
        omega

/-- The room under a heading. -/
def roomUnder (title : Option Title) : Room where
  size := maxChunkChars - (withTitle title [[]]).length
  pos := by
    have hlen := length_heading_le title
    have hsame : (withTitle title [[]]).length = (heading title).length := by
      rw [withTitle, List.length_append]
      rfl
    rw [hsame]
    unfold maxSectionTitleChars at hlen
    unfold maxChunkChars
    omega

/-- One round of `chunk_groups`. -/
def chunkGroup (group : Group) : List SectionChunk :=
  let title := group.titleOf
  if (withTitle title group.lines).length ≤ maxChunkChars then
    [⟨title, withTitle title group.lines⟩]
  else
    (packGroup (roomUnder title) group.lines).map fun piece => ⟨title, withTitle title piece⟩

/-- **`chunk_groups`**. -/
def chunkGroups (groups : List Group) : List SectionChunk := groups.flatMap chunkGroup

/-! ## The pieces of a section -/

variable {room : Room}

/-- A sentence is cut to what fits, without loss. -/
theorem cutSentence_spec (room : Room) (sentence : Text) :
    (∀ p ∈ (cutSentence room sentence).1, p.length ≤ room.size) ∧
      (cutSentence room sentence).2.length ≤ room.size ∧
      solid (cutSentence room sentence).1.flatten ++ solid (cutSentence room sentence).2 =
        solid sentence := by
  induction sentence using cutSentence.induct room with
  | case1 sentence hlong ih =>
    obtain ⟨hcuts, hleft, hink⟩ := ih
    have hpoint := (fitPoint_le room sentence).2
    rw [cutSentence, if_pos hlong]
    refine ⟨List.forall_mem_cons.mpr ⟨?_, hcuts⟩, hleft, ?_⟩
    · exact ((length_rstrip_le _).trans (List.length_take_le _ _)).trans hpoint
    · have hsplit := List.take_append_drop (fitPoint room sentence) sentence
      rw [List.flatten_cons, solid_append, List.append_assoc, hink, solid_rstrip, solid_lstrip,
        ← solid_append, hsplit]
  | case2 sentence hshort =>
    rw [cutSentence, if_neg hshort]
    exact ⟨by simp, Nat.not_lt.mp hshort, rfl⟩

theorem solid_flushed (buffer : Text) : solid (flushed buffer).flatten = solid buffer := by
  unfold flushed
  split
  case isTrue hempty => rw [hempty]; rfl
  case isFalse => rw [List.flatten_singleton]

theorem length_flushed {buffer : Text} {n : ℕ} (h : buffer.length ≤ n) :
    ∀ p ∈ flushed buffer, p.length ≤ n := by
  unfold flushed
  split
  case isTrue => simp
  case isFalse => simpa using h

/-- **The sentences of a line are fitted without loss.** -/
theorem fitSentences_spec (room : Room) (sentences : List Text) :
    ∀ buffer : Text, buffer.length ≤ room.size →
      (∀ p ∈ fitSentences room buffer sentences, p.length ≤ room.size) ∧
        solid (fitSentences room buffer sentences).flatten =
          solid buffer ++ solid sentences.flatten := by
  induction sentences with
  | nil =>
    intro buffer hbuffer
    refine ⟨length_flushed hbuffer, ?_⟩
    rw [List.flatten_nil, solid_nil, List.append_nil]
    exact solid_flushed buffer
  | cons sentence rest ih =>
    intro buffer hbuffer
    obtain ⟨hcuts, hleft, hink⟩ := cutSentence_spec room sentence
    unfold fitSentences
    generalize cutSentence room sentence = cut at hcuts hleft hink
    obtain ⟨cuts, left⟩ := cut
    dsimp only at hcuts hleft hink ⊢
    -- what is written by now, and the buffer left behind it
    obtain ⟨written, held, hheld, hsame⟩ : ∃ written held,
        (if cuts = [] then (([] : List Text), buffer) else (flushed buffer ++ cuts, [])) =
          (written, held) ∧
        (∀ p ∈ written, p.length ≤ room.size) ∧ held.length ≤ room.size ∧
          solid written.flatten ++ solid held = solid buffer ++ solid cuts.flatten := by
      by_cases hnone : cuts = []
      · exact ⟨[], buffer, if_pos hnone, by simp, hbuffer, by simp [hnone]⟩
      · refine ⟨flushed buffer ++ cuts, [], if_neg hnone, ?_, Nat.zero_le _, ?_⟩
        · intro p hp
          rcases List.mem_append.mp hp with hp | hp
          · exact length_flushed hbuffer p hp
          · exact hcuts p hp
        · rw [List.flatten_append, solid_append, solid_flushed, solid_nil, List.append_nil]
    obtain ⟨hwritten, hlen, hsolid⟩ := hsame
    rw [hheld]
    dsimp only
    have hjoin : solid (strip (held ++ ' ' :: left)) = solid held ++ solid left := by
      rw [solid_strip, solid_append, solid_cons_space (by decide)]
    split
    case isTrue hfits =>
      obtain ⟨hbounded, hwhole⟩ := ih _ hfits
      refine ⟨?_, ?_⟩
      · intro p hp
        rcases List.mem_append.mp hp with hp | hp
        · exact hwritten p hp
        · exact hbounded p hp
      · rw [List.flatten_append, solid_append, hwhole, hjoin, List.flatten_cons, solid_append,
          ← hink]
        simp only [← List.append_assoc]
        rw [hsolid]
    case isFalse =>
      obtain ⟨hbounded, hwhole⟩ := ih left hleft
      refine ⟨?_, ?_⟩
      · intro p hp
        rcases List.mem_append.mp hp with hp | hp
        · exact hwritten p hp
        · rcases List.mem_cons.mp hp with rfl | hp
          · exact hlen
          · exact hbounded p hp
      · rw [List.flatten_append, solid_append, List.flatten_cons, solid_append, hwhole,
          List.flatten_cons, solid_append, ← hink]
        simp only [← List.append_assoc]
        rw [hsolid]

theorem solid_filter_ne_nil (parts : List Text) :
    solid (parts.filter (· ≠ [])).flatten = solid parts.flatten := by
  induction parts with
  | nil => rfl
  | cons p parts ih =>
    by_cases hempty : p = []
    · rw [List.filter_cons_of_neg (by simpa using hempty), ih, hempty]
      rfl
    · rw [List.filter_cons_of_pos (by simpa using hempty), List.flatten_cons, solid_append, ih,
        List.flatten_cons, solid_append]

theorem fit_spec (room : Room) (line : Text) :
    (∀ p ∈ fit room line, p.length ≤ room.size) ∧ solid (fit room line).flatten = solid line := by
  unfold fit
  split
  case isTrue hshort => exact ⟨by simpa using hshort, by rw [List.flatten_singleton]⟩
  case isFalse =>
    obtain ⟨hbounded, hwhole⟩ := fitSentences_spec room (split sentenceGap line) [] (Nat.zero_le _)
    refine ⟨fun p hp => hbounded p (List.mem_filter.mp hp).1, ?_⟩
    rw [solid_filter_ne_nil, hwhole, solid_nil, List.nil_append, solid_split onSpace_sentenceGap]

theorem joinLines_append (current : List Text) (part : Text) :
    joinLines (current ++ [part]) =
      if current = [] then part else joinLines current ++ '\n' :: part := by
  induction current with
  | nil => simp [joinLines, List.intercalate]
  | cons first current ih =>
    rw [if_neg (List.cons_ne_nil _ _)]
    cases current with
    | nil => simp [joinLines, List.intercalate]
    | cons second current =>
      rw [if_neg (List.cons_ne_nil _ _)] at ih
      unfold joinLines List.intercalate at ih ⊢
      simp only [List.cons_append, List.intersperse_cons_cons, List.flatten_cons] at ih ⊢
      rw [ih]
      simp

theorem solid_joinLines (lines : List Text) : solid (joinLines lines) = solid lines.flatten := by
  induction lines using List.reverseRecOn with
  | nil => rfl
  | append_singleton lines part ih =>
    rw [joinLines_append, List.flatten_append, solid_append, ← ih, List.flatten_singleton]
    split
    case isTrue hempty =>
      rw [hempty]
      rfl
    case isFalse => rw [solid_append, solid_cons_space (by decide)]

/-- **Parts are packed under the room, in their order.** -/
theorem packParts_spec (room : Room) {parts : List Text}
    (hparts : ∀ p ∈ parts, p.length ≤ room.size) :
    ∀ {current : List Text} {size : ℕ}, size = (joinLines current).length → size ≤ room.size →
      (∀ piece ∈ packParts room current size parts, (joinLines piece).length ≤ room.size) ∧
        (packParts room current size parts).flatten = current ++ parts := by
  induction parts with
  | nil =>
    intro current size hsize hle
    unfold packParts
    split
    case isTrue hempty => exact ⟨by simp, by rw [hempty]; rfl⟩
    case isFalse =>
      refine ⟨?_, by simp⟩
      intro piece hpiece
      rw [List.mem_singleton.mp hpiece, ← hsize]
      exact hle
  | cons part rest ih =>
    intro current size hsize hle
    obtain ⟨hpart, hrest⟩ := List.forall_mem_cons.mp hparts
    unfold packParts
    split
    case isTrue hfull =>
      have hone : part.length = (joinLines [part]).length := by simp [joinLines, List.intercalate]
      obtain ⟨hbounded, hwhole⟩ := ih hrest hone hpart
      refine ⟨List.forall_mem_cons.mpr ⟨hsize ▸ hle, hbounded⟩, ?_⟩
      rw [List.flatten_cons, hwhole]
      rfl
    case isFalse hfits =>
      have hgrown : size + added current part = (joinLines (current ++ [part])).length := by
        rw [joinLines_append, hsize, added]
        split
        case isTrue hempty =>
          rw [hempty]
          simp [joinLines]
        case isFalse =>
          rw [List.length_append, List.length_cons]
      have hbound : size + added current part ≤ room.size := by
        by_cases hempty : current = []
        · rw [hsize, hempty]
          simpa [joinLines, added] using hpart
        · by_contra hgt
          exact hfits ⟨hempty, Nat.not_le.mp hgt⟩
      obtain ⟨hbounded, hwhole⟩ := ih hrest hgrown hbound
      refine ⟨hbounded, ?_⟩
      rw [hwhole, List.append_assoc]
      rfl

theorem solid_flatMap_fit (room : Room) (lines : List Text) :
    (∀ p ∈ lines.flatMap (fit room), p.length ≤ room.size) ∧
      solid (lines.flatMap (fit room)).flatten = solid lines.flatten := by
  constructor
  · intro p hp
    obtain ⟨line, -, hp⟩ := List.mem_flatMap.mp hp
    exact (fit_spec room line).1 p hp
  · induction lines with
    | nil => rfl
    | cons line lines ih =>
      rw [List.flatMap_cons, List.flatten_append, solid_append, ih, (fit_spec room line).2,
        List.flatten_cons, solid_append]

/-- **A section is cut under its heading, without loss.** -/
theorem chunkGroup_spec (group : Group) : ∃ bodies : List Text,
    chunkGroup group =
      bodies.map (fun body => ⟨group.titleOf, heading group.titleOf ++ body⟩) ∧
    (∀ body ∈ bodies, (heading group.titleOf ++ body).length ≤ maxChunkChars) ∧
    solid bodies.flatten = solid group.lines.flatten := by
  unfold chunkGroup
  dsimp only
  split
  case isTrue hshort =>
    refine ⟨[joinLines group.lines], rfl, by simpa [withTitle] using hshort, ?_⟩
    rw [List.flatten_singleton, solid_joinLines]
  case isFalse =>
    obtain ⟨hparts, hink⟩ := solid_flatMap_fit (roomUnder group.titleOf) group.lines
    have hempty : 0 = (joinLines []).length := rfl
    obtain ⟨hbounded, hwhole⟩ :=
      packParts_spec (roomUnder group.titleOf) hparts hempty (Nat.zero_le _)
    refine ⟨(packGroup (roomUnder group.titleOf) group.lines).map joinLines, ?_, ?_, ?_⟩
    · rw [List.map_map]
      rfl
    · intro body hbody
      obtain ⟨piece, hpiece, rfl⟩ := List.mem_map.mp hbody
      have hlen : (joinLines piece).length ≤ (roomUnder group.titleOf).size :=
        hbounded piece hpiece
      have hheading := length_heading_le group.titleOf
      have hroom : (roomUnder group.titleOf).size =
          maxChunkChars - (heading group.titleOf).length := by
        change maxChunkChars - (withTitle group.titleOf [[]]).length = _
        rw [withTitle, List.length_append]
        rfl
      rw [List.length_append]
      unfold maxSectionTitleChars at hheading
      unfold maxChunkChars at hroom ⊢
      omega
    · have hpieces : (packGroup (roomUnder group.titleOf) group.lines).flatten =
          group.lines.flatMap (fit (roomUnder group.titleOf)) := hwhole
      rw [← hink, ← hpieces]
      generalize packGroup (roomUnder group.titleOf) group.lines = pieces
      induction pieces with
      | nil => rfl
      | cons piece pieces ih =>
        rw [List.map_cons, List.flatten_cons, solid_append, ih, solid_joinLines,
          List.flatten_cons, List.flatten_append, solid_append]

/-- **Chunking is lossless and bounded.** A text is cut in chunks of which none is blank or too
long, but for a last one that a stub rides on, and a section in pieces under its heading; the
characters that are not white space are all kept, in order. -/
theorem chunks_lossless :
    (∀ body, ∃ chunks, chunkText body = .ok chunks ∧ Lossless body chunks) ∧
    ∀ groups, ∃ bodies : Group → List Text,
      chunkGroups groups = groups.flatMap (fun group => (bodies group).map fun body =>
        ⟨group.titleOf, heading group.titleOf ++ body⟩) ∧
      ∀ group ∈ groups,
        (∀ body ∈ bodies group, (heading group.titleOf ++ body).length ≤ maxChunkChars) ∧
        solid (bodies group).flatten = solid group.lines.flatten := by
  constructor
  · intro body
    obtain ⟨htight, hink⟩ := written_spec (split blankLine body)
    obtain ⟨out, hout, hcut⟩ := packParagraphs_ok htight (.inl rfl)
    refine ⟨foldStub out, ?_, lossless_foldStub (hcut.congr ?_)⟩
    · unfold chunkText
      rw [hout]
      rfl
    · rw [List.nil_append, hink, solid_split onSpace_blankLine]
  · intro groups
    choose bodies hbodies hbounded hwhole using chunkGroup_spec
    refine ⟨bodies, ?_, fun group _ => ⟨hbounded group, hwhole group⟩⟩
    unfold chunkGroups
    exact congrArg (fun f => groups.flatMap f) (funext hbodies)

end Calevate.Knowledge
