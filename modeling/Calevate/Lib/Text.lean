import Calevate.Lib.ClockText
import Mathlib.Data.List.Infix

/-!
# Texts

Words, lines and containment of texts, as a tolerant reader of them has it: words are what
stands between white space, a text is flattened by writing its words with one blank between
them, and lines end at any line break of Unicode. Flattening loses nothing that a containment
of words can see (`flat_infix_of_words`), and what is written with one blank between its parts
has the words of the parts (`words_unwords`). Texts put together with an empty line between
them read back as their lines (`lines_paragraphs`).
-/

namespace Lib

namespace Text

open ClockText (isSpace strip)

/-! ## Words -/

/-- The words of a text, after one begun. -/
def wordsFrom : List Char → List Char → List (List Char)
  | begun, [] => if begun = [] then [] else [begun]
  | begun, c :: t =>
    if isSpace c then
      if begun = [] then wordsFrom [] t else begun :: wordsFrom [] t
    else wordsFrom (begun ++ [c]) t

/-- The words of a text. -/
def words (t : List Char) : List (List Char) := wordsFrom [] t

/-- The parts with one blank between each two. -/
def unwords : List (List Char) → List Char
  | [] => []
  | [w] => w
  | w :: ws => w ++ ' ' :: unwords ws

/-- The words of a text with one blank between each two. -/
def flat (t : List Char) : List Char := unwords (words t)

theorem wordsFrom_append_space {c : Char} (hc : isSpace c = true) (s t begun : List Char) :
    wordsFrom begun (s ++ c :: t) = wordsFrom begun s ++ wordsFrom [] t := by
  induction s generalizing begun with
  | nil =>
    simp only [List.nil_append, wordsFrom, hc, if_true]
    split <;> rfl
  | cons d s ih =>
    rw [List.cons_append, wordsFrom, wordsFrom]
    split
    · split
      · exact ih []
      · rw [ih, List.cons_append]
    · exact ih (begun ++ [d])

theorem words_append_space {c : Char} (hc : isSpace c = true) (s t : List Char) :
    words (s ++ c :: t) = words s ++ words t :=
  wordsFrom_append_space hc s t []

@[simp]
theorem words_nil : words [] = [] := rfl

theorem words_cons_space {c : Char} (hc : isSpace c = true) (t : List Char) :
    words (c :: t) = words t :=
  words_append_space hc [] t

theorem words_append_singleton {c : Char} (hc : isSpace c = true) (s : List Char) :
    words (s ++ [c]) = words s := by
  rw [words_append_space hc, words_nil, List.append_nil]

/-- What white space at either end does not change, white space around a text does not. -/
theorem strip_invariant {β : Type*} {f : List Char → β}
    (hfront : ∀ c t, isSpace c = true → f (c :: t) = f t)
    (hback : ∀ t c, isSpace c = true → f (t ++ [c]) = f t) (t : List Char) :
    f (strip t) = f t := by
  have hdrop : ∀ t : List Char, f (t.dropWhile isSpace) = f t := by
    intro t
    induction t with
    | nil => rfl
    | cons c t ih =>
      by_cases hc : isSpace c = true
      · rw [List.dropWhile_cons_of_pos hc, ih, hfront c t hc]
      · rw [List.dropWhile_cons_of_neg hc]
  have hrdrop : ∀ t : List Char, f (t.reverse.dropWhile isSpace).reverse = f t := by
    intro t
    induction t using List.reverseRecOn with
    | nil => rfl
    | append_singleton t c ih =>
      rw [List.reverse_append, List.reverse_singleton, List.singleton_append]
      by_cases hc : isSpace c = true
      · rw [List.dropWhile_cons_of_pos hc, ih, hback t c hc]
      · rw [List.dropWhile_cons_of_neg hc, List.reverse_cons, List.reverse_reverse]
  rw [strip, hrdrop, hdrop]

/-- White space around a text is none of its words. -/
@[simp]
theorem words_strip (t : List Char) : words (strip t) = words t :=
  strip_invariant (fun _ t hc => words_cons_space hc t) (fun t _ hc => words_append_singleton hc t) t

@[simp]
theorem flat_strip (t : List Char) : flat (strip t) = flat t := by
  rw [flat, words_strip, flat]

/-- Each word is something, and has no white space. -/
theorem words_solid {t w : List Char} (h : w ∈ words t) :
    w ≠ [] ∧ ∀ c ∈ w, isSpace c = false := by
  have hfrom : ∀ begun : List Char, (∀ c ∈ begun, isSpace c = false) →
      ∀ w ∈ wordsFrom begun t, w ≠ [] ∧ ∀ c ∈ w, isSpace c = false := by
    clear h
    induction t with
    | nil =>
      intro begun hbegun w hw
      rw [wordsFrom] at hw
      split at hw
      · cases hw
      next hne =>
        obtain rfl := List.mem_singleton.mp hw
        exact ⟨hne, hbegun⟩
    | cons d t ih =>
      intro begun hbegun w hw
      rw [wordsFrom] at hw
      split at hw
      · split at hw
        · exact ih [] (by simp) w hw
        next hne =>
          rw [List.mem_cons] at hw
          obtain rfl | hw := hw
          · exact ⟨hne, hbegun⟩
          · exact ih [] (by simp) w hw
      next hd =>
        refine ih (begun ++ [d]) (fun c hc => ?_) w hw
        rw [List.mem_append, List.mem_singleton] at hc
        obtain hc | rfl := hc
        · exact hbegun c hc
        · simpa using hd
  exact hfrom [] (by simp) w h

theorem unwords_cons_cons (w v : List Char) (ws : List (List Char)) :
    unwords (w :: v :: ws) = w ++ ' ' :: unwords (v :: ws) := rfl

/-- What is written of parts has the words of the parts. -/
theorem words_unwords (parts : List (List Char)) :
    words (unwords parts) = parts.flatMap words := by
  induction parts with
  | nil => rfl
  | cons w ws ih =>
    cases ws with
    | nil => simp [unwords]
    | cons v ws =>
      rw [unwords_cons_cons, words_append_space (by decide), ih, ← List.flatMap_cons]

/-- Each word is in the text. -/
theorem infix_of_mem_words {t w : List Char} (h : w ∈ words t) : w <:+: t := by
  have hfrom : ∀ begun : List Char, ∀ w ∈ wordsFrom begun t, w <:+: begun ++ t := by
    clear h
    induction t with
    | nil =>
      intro begun w hw
      rw [wordsFrom] at hw
      split at hw
      · cases hw
      · rw [List.mem_singleton.mp hw, List.append_nil]
    | cons c t ih =>
      intro begun w hw
      rw [wordsFrom] at hw
      have hrest : ∀ w ∈ wordsFrom [] t, w <:+: begun ++ c :: t := fun w hw =>
        (ih [] w hw).trans ⟨begun ++ [c], [], by simp⟩
      split at hw
      · split at hw
        · exact hrest w hw
        · rw [List.mem_cons] at hw
          obtain rfl | hw := hw
          · exact (List.prefix_append w _).isInfix
          · exact hrest w hw
      · have hlonger := ih (begun ++ [c]) w hw
        rwa [List.append_assoc] at hlonger
  exact hfrom [] w h

/-! ## Tight texts -/

/-- No white space stands at either end. -/
def Tight (t : List Char) : Prop :=
  (∀ c, t.head? = some c → isSpace c = false) ∧ ∀ c, t.getLast? = some c → isSpace c = false

theorem Tight.strip {t : List Char} (h : Tight t) : strip t = t := by
  have hfront : t.dropWhile isSpace = t := by
    cases t with
    | nil => rfl
    | cons c t => exact List.dropWhile_cons_of_neg (by simp [h.1 c rfl])
  have hback : t.reverse.dropWhile isSpace = t.reverse := by
    cases hrev : t.reverse with
    | nil => rfl
    | cons c rest =>
      have hlast : t.getLast? = some c := by
        rw [← List.head?_reverse, hrev]
        rfl
      exact List.dropWhile_cons_of_neg (by simp [h.2 c hlast])
  rw [ClockText.strip, hfront, hback, List.reverse_reverse]

@[simp]
theorem tight_nil : Tight [] := ⟨nofun, nofun⟩

/-- Nothing is left at either end of a stripped text. -/
theorem tight_strip (t : List Char) : Tight (strip t) := by
  have hfront : ∀ (s : List Char) (c : Char),
      (s.dropWhile isSpace).head? = some c → isSpace c = false := by
    intro s c hc
    have hnot := List.head?_dropWhile_not isSpace s
    rw [hc] at hnot
    simpa using hnot
  constructor
  · intro c hc
    have hback : strip t <+: t.dropWhile isSpace := by
      rw [ClockText.strip, ← List.reverse_suffix, List.reverse_reverse]
      exact List.dropWhile_suffix _
    obtain ⟨rest, hrest⟩ := hback
    refine hfront t c ?_
    rw [← hrest, List.head?_append, hc]
    rfl
  · intro c hc
    refine hfront (t.dropWhile isSpace).reverse c ?_
    rw [← hc, ClockText.strip, List.getLast?_reverse]

/-- A blank put behind a text is stripped. -/
theorem strip_append_space {c : Char} (hc : isSpace c = true) (t : List Char) :
    strip (t ++ [c]) = strip t := by
  unfold ClockText.strip
  rw [List.dropWhile_append]
  split
  next hempty =>
    rw [List.isEmpty_iff.mp hempty]
    simp [hc]
  next => rw [List.reverse_append, List.reverse_singleton, List.singleton_append,
      List.dropWhile_cons_of_pos hc]

/-- A blank put before a text is stripped. -/
theorem strip_cons_space {c : Char} (hc : isSpace c = true) (t : List Char) :
    strip (c :: t) = strip t := by
  unfold ClockText.strip
  rw [List.dropWhile_cons_of_pos hc]

/-- What is written of words is tight. -/
theorem tight_unwords {ws : List (List Char)}
    (h : ∀ w ∈ ws, w ≠ [] ∧ ∀ c ∈ w, isSpace c = false) : Tight (unwords ws) := by
  constructor
  · intro c hc
    cases ws with
    | nil => cases hc
    | cons w ws =>
      obtain ⟨hne, hsolid⟩ := h w List.mem_cons_self
      obtain ⟨d, w, rfl⟩ := List.exists_cons_of_ne_nil hne
      have hd : c = d := by
        cases ws with
        | nil => exact (Option.some.inj hc).symm
        | cons v ws => exact (Option.some.inj hc).symm
      exact hd ▸ hsolid d List.mem_cons_self
  · intro c hc
    induction ws with
    | nil => cases hc
    | cons w ws ih =>
      cases ws with
      | nil => exact (h w List.mem_cons_self).2 c (List.mem_of_getLast? hc)
      | cons v ws =>
        refine ih (fun u hu => h u (List.mem_cons_of_mem w hu)) ?_
        rw [unwords_cons_cons, List.getLast?_append] at hc
        obtain ⟨hne, -⟩ := h v (List.mem_cons_of_mem w List.mem_cons_self)
        have hrest : unwords (v :: ws) ≠ [] := by
          cases ws with
          | nil => exact hne
          | cons u ws => simp [unwords_cons_cons]
        obtain ⟨d, hd⟩ := List.getLast?_isSome.mpr hrest |> Option.isSome_iff_exists.mp
        rw [List.getLast?_cons, hd] at hc
        rw [hd]
        exact hc

theorem tight_flat (t : List Char) : Tight (flat t) :=
  tight_unwords fun _ hw => words_solid hw

/-! ## Containment -/

theorem unwords_prefix (ws suffix : List (List Char)) :
    unwords ws <+: unwords (ws ++ suffix) := by
  induction ws with
  | nil => exact List.nil_prefix
  | cons w ws ih =>
    cases ws with
    | nil =>
      cases suffix with
      | nil => exact List.prefix_rfl
      | cons v suffix => exact List.prefix_append _ _
    | cons v ws =>
      rw [List.cons_append, List.cons_append, unwords_cons_cons, unwords_cons_cons]
      exact (List.prefix_append_right_inj w).mpr (List.cons_prefix_cons.mpr ⟨rfl, ih⟩)

theorem unwords_suffix (before ws : List (List Char)) :
    unwords ws <:+ unwords (before ++ ws) := by
  induction before with
  | nil => exact List.suffix_rfl
  | cons w before ih =>
    refine ih.trans ?_
    rw [List.cons_append]
    cases before ++ ws with
    | nil => exact List.nil_suffix
    | cons v rest =>
      rw [unwords_cons_cons]
      exact (List.suffix_cons _ _).trans (List.suffix_append _ _)

/-- Words that follow each other in a text are contained in it. -/
theorem unwords_infix {ws ws' : List (List Char)} (h : ws <:+: ws') :
    unwords ws <:+: unwords ws' := by
  obtain ⟨before, suffix, rfl⟩ := h
  have hfront := unwords_prefix (before ++ ws) suffix
  exact (unwords_suffix before ws).isInfix.trans hfront.isInfix

theorem flat_infix_of_words {s t : List Char} (h : words s <:+: words t) : flat s <:+: flat t :=
  unwords_infix h

/-- The letters of the words are the letters of the text. -/
theorem flatten_wordsFrom (begun t : List Char) :
    (wordsFrom begun t).flatten = begun ++ t.filter (isSpace · = false) := by
  induction t generalizing begun with
  | nil =>
    rw [wordsFrom]
    split
    next hbegun => rw [hbegun]; rfl
    next => simp
  | cons c t ih =>
    rw [wordsFrom]
    split
    next hc =>
      rw [List.filter_cons_of_neg (by simp [hc])]
      split
      next hbegun => rw [ih, hbegun]
      next => rw [List.flatten_cons, ih, List.nil_append]
    next hc =>
      rw [ih, List.filter_cons_of_pos (by simpa using hc), List.append_assoc,
        List.singleton_append]

theorem flatten_words (t : List Char) : (words t).flatten = t.filter (isSpace · = false) :=
  flatten_wordsFrom [] t

/-- A cut ahead of a letter loses a word or a part of one. -/
theorem words_take_ne {t : List Char} {c : Char} {n : ℕ} (hlast : t.getLast? = some c)
    (hc : isSpace c = false) (hn : n < t.length) : words (t.take n) ≠ words t := by
  intro hwords
  have hletters : (t.take n).filter (isSpace · = false) = t.filter (isSpace · = false) := by
    rw [← flatten_words, ← flatten_words, hwords]
  have hnone : (t.drop n).filter (isSpace · = false) = [] := by
    have hboth := congrArg (List.filter (isSpace · = false)) (List.take_append_drop n t)
    rw [List.filter_append, hletters] at hboth
    exact List.append_right_eq_self.mp hboth
  have hmem : c ∈ t.drop n := by
    refine List.mem_of_getLast? ?_
    rw [List.getLast?_drop, if_neg (by omega), hlast]
  exact absurd (List.filter_eq_nil_iff.mp hnone c hmem) (by simp [hc])

/-- Parts one blank apart end as the last of them does. -/
theorem getLast?_unwords (parts : List (List Char)) {last : List Char} (hne : last ≠ []) :
    (unwords (parts ++ [last])).getLast? = last.getLast? := by
  obtain ⟨before, hbefore⟩ := unwords_suffix parts [last]
  rw [← hbefore, List.getLast?_append]
  cases hlast : (unwords [last]).getLast? with
  | none => exact absurd (List.getLast?_eq_none_iff.mp hlast) hne
  | some c => exact hlast.symm ▸ rfl

/-! ## Lines -/

/-- A line break. -/
def isBreak (c : Char) : Bool :=
  (10 ≤ c.toNat ∧ c.toNat ≤ 13) ∨ (0x1c ≤ c.toNat ∧ c.toNat ≤ 0x1e) ∨ c.toNat = 0x85 ∨
    c.toNat = 0x2028 ∨ c.toNat = 0x2029

/-- A line break is white space. -/
theorem isSpace_of_isBreak {c : Char} (h : isBreak c = true) : isSpace c = true := by
  simp only [isBreak, isSpace, decide_eq_true_eq] at h ⊢
  omega

/-- The lines of a text, after one begun and whether a carriage return came just before: a
line feed after it ends no other line. -/
def linesFrom : List Char → Bool → List Char → List (List Char)
  | begun, _, [] => if begun = [] then [] else [begun]
  | begun, returned, c :: t =>
    if isBreak c then
      if c = '\n' ∧ returned then linesFrom [] false t
      else begun :: linesFrom [] (c = '\r') t
    else linesFrom (begun ++ [c]) false t

/-- The lines of a text. -/
def lines (t : List Char) : List (List Char) := linesFrom [] false t

/-- The text ends within a line. -/
def EndsOpen (t : List Char) : Prop := ∃ c, t.getLast? = some c ∧ isBreak c = false

instance (t : List Char) : Decidable (EndsOpen t) :=
  match h : t.getLast? with
  | none => isFalse fun ⟨_, hc, _⟩ => by rw [h] at hc; cases hc
  | some c =>
    if hc : isBreak c = false then isTrue ⟨c, h, hc⟩
    else isFalse fun ⟨_, hd, hopen⟩ => by rw [h] at hd; cases hd; exact hc hopen

theorem EndsOpen.append {s t : List Char} (h : EndsOpen t) : EndsOpen (s ++ t) := by
  obtain ⟨c, hlast, hc⟩ := h
  exact ⟨c, by rw [List.getLast?_append, hlast]; rfl, hc⟩

/-- Without the white space around it a text ends within a line, if anything is left. -/
theorem endsOpen_strip {t : List Char} (h : strip t ≠ []) : EndsOpen (strip t) := by
  unfold strip at h ⊢
  cases hrest : (t.dropWhile isSpace).reverse.dropWhile isSpace with
  | nil => rw [hrest] at h; exact absurd rfl h
  | cons c rest =>
    refine ⟨c, by rw [List.reverse_cons, List.getLast?_concat], ?_⟩
    have hc : isSpace c = false := by
      have hnot := List.head_dropWhile_not isSpace
        (l := (t.dropWhile isSpace).reverse) (by rw [hrest]; simp)
      simpa [hrest] using hnot
    cases hbreak : isBreak c with
    | false => rfl
    | true => rw [isSpace_of_isBreak hbreak] at hc; cases hc

theorem linesFrom_append_newline (begun : List Char) (returned : Bool) (s t : List Char)
    (hreturned : returned = true → begun = []) (hopen : EndsOpen (begun ++ s)) :
    linesFrom begun returned (s ++ '\n' :: t) = linesFrom begun returned s ++ lines t := by
  induction s generalizing begun returned with
  | nil =>
    have hbegun : begun ≠ [] := by
      rintro rfl
      obtain ⟨c, hlast, -⟩ := hopen
      cases hlast
    have hfalse : returned = false := by
      cases returned with
      | false => rfl
      | true => exact absurd (hreturned rfl) hbegun
    subst hfalse
    simp [linesFrom, hbegun, lines, show isBreak '\n' = true by decide]
  | cons d s ih =>
    rw [List.cons_append, linesFrom, linesFrom]
    split
    next hd =>
      have hopen' : EndsOpen ([] ++ s) := by
        obtain ⟨c, hlast, hc⟩ := hopen
        cases s with
        | nil =>
          obtain rfl : d = c := by simpa using hlast
          rw [hd] at hc
          cases hc
        | cons e s => exact ⟨c, by simpa using hlast, hc⟩
      split
      · exact ih [] false (fun _ => rfl) hopen'
      · rw [ih [] _ (fun _ => rfl) hopen', List.cons_append]
    next =>
      refine ih (begun ++ [d]) false nofun ?_
      rw [List.append_assoc]
      exact hopen

/-- A text that ends within a line, and a line feed. -/
theorem lines_append_newline {s : List Char} (h : EndsOpen s) (t : List Char) :
    lines (s ++ '\n' :: t) = lines s ++ lines t :=
  linesFrom_append_newline [] false s t nofun h

@[simp]
theorem lines_nil : lines [] = [] := rfl

theorem lines_newline (t : List Char) : lines ('\n' :: t) = [] :: lines t := by
  simp [lines, linesFrom, show isBreak '\n' = true by decide]

/-- A flat text has no line break. -/
theorem unbroken_flat (t : List Char) : ∀ c ∈ flat t, isBreak c = false := by
  have hwords : ∀ ws : List (List Char), (∀ w ∈ ws, ∀ c ∈ w, isSpace c = false) →
      ∀ c ∈ unwords ws, isBreak c = false := by
    intro ws hws c hc
    induction ws with
    | nil => cases hc
    | cons w ws ih =>
      have hw : ∀ d ∈ w, isBreak d = false := fun d hd => by
        cases hbreak : isBreak d with
        | false => rfl
        | true => exact absurd (isSpace_of_isBreak hbreak) (by simp [hws w List.mem_cons_self d hd])
      cases ws with
      | nil => exact hw c hc
      | cons v ws =>
        rw [unwords_cons_cons, List.mem_append, List.mem_cons] at hc
        obtain hc | rfl | hc := hc
        · exact hw c hc
        · decide
        · exact ih (fun u hu => hws u (List.mem_cons_of_mem w hu)) hc
  exact hwords _ fun w hw => (words_solid hw).2

theorem Tight.endsOpen {t : List Char} (h : Tight t) (hne : t ≠ []) : EndsOpen t := by
  rw [← h.strip] at hne ⊢
  exact endsOpen_strip hne

/-- A text of one line. -/
theorem unbroken_of_any {s : List Char} (h : s.any isBreak = false) :
    ∀ c ∈ s, isBreak c = false := by
  simpa using h

theorem lines_of_unbroken {s : List Char} (hne : s ≠ []) (h : ∀ c ∈ s, isBreak c = false) :
    lines s = [s] := by
  have hfrom : ∀ begun : List Char, begun ++ s ≠ [] →
      linesFrom begun false s = [begun ++ s] := by
    clear hne
    induction s with
    | nil =>
      intro begun hne
      rw [List.append_nil] at hne
      simp [linesFrom, hne]
    | cons c s ih =>
      intro begun hne
      have hs := ih (fun d hd => h d (List.mem_cons_of_mem c hd)) (begun ++ [c]) (by simp)
      rw [linesFrom, if_neg (by simp [h c List.mem_cons_self]), hs, List.append_assoc]
      rfl
  exact hfrom [] hne

/-- No line holds a line break. -/
theorem lines_unbroken {t l : List Char} (h : l ∈ lines t) : ∀ c ∈ l, isBreak c = false := by
  have hfrom : ∀ (begun : List Char) (returned : Bool), (∀ c ∈ begun, isBreak c = false) →
      ∀ l ∈ linesFrom begun returned t, ∀ c ∈ l, isBreak c = false := by
    clear h
    induction t with
    | nil =>
      intro begun returned hbegun l hl
      rw [linesFrom] at hl
      split at hl
      · cases hl
      · obtain rfl := List.mem_singleton.mp hl
        exact hbegun
    | cons d t ih =>
      intro begun returned hbegun l hl
      rw [linesFrom] at hl
      split at hl
      · split at hl
        · exact ih [] false (by simp) l hl
        · rw [List.mem_cons] at hl
          obtain rfl | hl := hl
          · exact hbegun
          · exact ih [] _ (by simp) l hl
      next hd =>
        refine ih (begun ++ [d]) false (fun c hc => ?_) l hl
        rw [List.mem_append, List.mem_singleton] at hc
        obtain hc | rfl := hc
        · exact hbegun c hc
        · simpa using hd
  exact hfrom [] false (by simp) l h

/-! ## Lines with something on them -/

/-- The lines that have more than white space, without what is around it. -/
def inked (ls : List (List Char)) : List (List Char) := (ls.map strip).filter (· ≠ [])

@[simp]
theorem inked_nil : inked [] = [] := rfl

theorem inked_cons (l : List Char) (ls : List (List Char)) :
    inked (l :: ls) = inked [l] ++ inked ls := by
  rw [inked, List.map_cons, List.filter_cons]
  unfold inked
  rw [List.map_singleton, List.filter_cons]
  split <;> rfl

theorem inked_cons_nil (ls : List (List Char)) : inked ([] :: ls) = inked ls := by
  rw [inked_cons]
  rfl

theorem inked_linesFrom_cons_space {c : Char} (hc : isSpace c = true) (begun : List Char)
    (returned : Bool) (t : List Char) :
    inked (linesFrom (c :: begun) returned t) = inked (linesFrom begun returned t) := by
  have hone : inked [c :: begun] = inked [begun] := by
    simp only [inked, List.map_singleton, strip_cons_space hc]
  induction t generalizing begun returned with
  | nil =>
    rw [linesFrom, linesFrom, if_neg (by simp), hone]
    split
    next hempty => rw [hempty]; rfl
    next => rfl
  | cons d t ih =>
    rw [linesFrom, linesFrom]
    split
    · split
      · rfl
      · rw [inked_cons, hone, ← inked_cons]
    · exact ih (begun ++ [d]) false (by simp only [inked, List.map_singleton, strip_cons_space hc])

/-- A line feed that ends no other line has nothing on it. -/
theorem inked_linesFrom_returned (t : List Char) :
    inked (linesFrom [] true t) = inked (lines t) := by
  unfold lines
  cases t with
  | nil => rfl
  | cons d t =>
    rw [linesFrom, linesFrom]
    split
    · by_cases hd : d = '\n'
      · rw [if_pos ⟨hd, rfl⟩, if_neg (by simp), inked_cons_nil]
        subst hd
        rfl
      · rw [if_neg (by simp [hd]), if_neg (by simp)]
    · rfl

theorem inked_lines_cons_space {c : Char} (hc : isSpace c = true) (t : List Char) :
    inked (lines (c :: t)) = inked (lines t) := by
  rw [lines, linesFrom]
  split
  · rw [if_neg (by simp), inked_cons_nil]
    cases hreturn : decide (c = '\r') with
    | true => exact inked_linesFrom_returned t
    | false => rfl
  · exact inked_linesFrom_cons_space hc [] false t

theorem inked_lines_append_space {c : Char} (hc : isSpace c = true) (t : List Char) :
    inked (lines (t ++ [c])) = inked (lines t) := by
  have hfrom : ∀ (begun : List Char) (returned : Bool), (returned = true → begun = []) →
      inked (linesFrom begun returned (t ++ [c])) = inked (linesFrom begun returned t) := by
    induction t with
    | nil =>
      intro begun returned hreturned
      have hone : inked (linesFrom begun returned []) = inked [begun] := by
        rw [linesFrom]
        split
        next hempty => rw [hempty]; rfl
        next => rfl
      rw [hone, List.nil_append, linesFrom]
      split
      · split
        next hfeed => rw [hreturned hfeed.2]; rfl
        next =>
          rw [inked_cons]
          exact List.append_nil _
      · rw [linesFrom, if_neg (by simp), inked, List.map_singleton, strip_append_space hc]
        rfl
    | cons d t ih =>
      intro begun returned hreturned
      rw [List.cons_append, linesFrom, linesFrom]
      split
      · split
        · exact ih [] false nofun
        · rw [inked_cons, ih [] _ (fun _ => rfl), ← inked_cons]
      · exact ih (begun ++ [d]) false nofun
  exact hfrom [] false nofun

/-- White space around a text is on none of its lines. -/
theorem inked_lines_strip (t : List Char) : inked (lines (strip t)) = inked (lines t) :=
  strip_invariant (f := fun t => inked (lines t)) (fun _ t hc => inked_lines_cons_space hc t)
    (fun t _ hc => inked_lines_append_space hc t) t

/-- The first line starts with what was begun. -/
theorem linesFrom_head {begun : List Char} (h : begun ≠ []) (t : List Char) :
    ∃ l ls, linesFrom begun false t = (begun ++ l) :: ls := by
  induction t generalizing begun with
  | nil => exact ⟨[], [], by simp [linesFrom, h]⟩
  | cons c t ih =>
    rw [linesFrom]
    split
    · rw [if_neg (by simp)]
      exact ⟨[], _, by rw [List.append_nil]⟩
    · have hlonger : begun ++ [c] ≠ [] := by simp
      obtain ⟨l, ls, hlines⟩ := ih hlonger
      exact ⟨c :: l, ls, by rw [hlines, List.append_assoc]; rfl⟩

/-- The texts with an empty line between each two. -/
def paragraphs : List (List Char) → List Char
  | [] => []
  | [p] => p
  | p :: ps => p ++ '\n' :: '\n' :: paragraphs ps

/-- They read back as their lines, with an empty one between each two. -/
theorem lines_paragraphs {p : List Char} (hp : EndsOpen p) (q : List Char)
    (ps : List (List Char)) :
    lines (paragraphs (p :: q :: ps)) = lines p ++ [] :: lines (paragraphs (q :: ps)) := by
  rw [paragraphs, lines_append_newline hp, lines_newline]
  simp

/-- Texts behind texts, with an empty line between. -/
theorem paragraphs_append {ps qs : List (List Char)} (hps : ps ≠ []) (hqs : qs ≠ []) :
    paragraphs (ps ++ qs) = paragraphs ps ++ '\n' :: '\n' :: paragraphs qs := by
  induction ps with
  | nil => exact absurd rfl hps
  | cons p ps ih =>
    cases ps with
    | nil =>
      obtain ⟨q, qs, rfl⟩ := List.exists_cons_of_ne_nil hqs
      rfl
    | cons p' ps =>
      have hcons : ∀ rest : List (List Char), paragraphs (p :: p' :: rest) =
          p ++ '\n' :: '\n' :: paragraphs (p' :: rest) := fun _ => rfl
      have hrest := ih (by simp)
      rw [List.cons_append] at hrest
      rw [List.cons_append, List.cons_append, hcons, hrest, hcons, List.append_assoc,
        List.cons_append, List.cons_append]

/-- The lines with a line feed between each two. -/
def unlines : List (List Char) → List Char
  | [] => []
  | [l] => l
  | l :: ls => l ++ '\n' :: unlines ls

/-- Lines that end within themselves, with line feeds between. -/
theorem endsOpen_unlines {ls : List (List Char)} (hne : ls ≠ []) (h : ∀ l ∈ ls, EndsOpen l) :
    EndsOpen (unlines ls) := by
  induction ls with
  | nil => exact absurd rfl hne
  | cons l ls ih =>
    cases ls with
    | nil => exact h l List.mem_cons_self
    | cons m ls =>
      have hrest := ih (by simp) fun k hk => h k (List.mem_cons_of_mem l hk)
      exact (hrest.append (s := ['\n'])).append

theorem unlines_cons_cons (l m : List Char) (ls : List (List Char)) :
    unlines (l :: m :: ls) = l ++ '\n' :: unlines (m :: ls) := rfl

/-- Tight lines, with line feeds between, are tight. -/
theorem tight_unlines {ls : List (List Char)} (h : ∀ l ∈ ls, l ≠ [] ∧ Tight l) :
    Tight (unlines ls) := by
  induction ls with
  | nil => exact ⟨by simp [unlines], by simp [unlines]⟩
  | cons l ls ih =>
    obtain ⟨hne, htight⟩ := h l List.mem_cons_self
    have hrest := ih fun m hm => h m (List.mem_cons_of_mem l hm)
    cases ls with
    | nil => exact htight
    | cons m ls =>
      rw [unlines_cons_cons]
      constructor
      · intro c hc
        obtain ⟨d, l, rfl⟩ := List.exists_cons_of_ne_nil hne
        exact htight.1 c hc
      · intro c hc
        have hm : unlines (m :: ls) ≠ [] := by
          obtain ⟨hm, -⟩ := h m (List.mem_cons_of_mem l List.mem_cons_self)
          cases ls with
          | nil => exact hm
          | cons k ls => simp [unlines_cons_cons]
        obtain ⟨d, hd⟩ := Option.isSome_iff_exists.mp (List.getLast?_isSome.mpr hm)
        rw [List.getLast?_append, List.getLast?_cons, hd] at hc
        exact hrest.2 c (by rw [hd]; exact hc)

/-- Lines of their own read back. -/
theorem lines_unlines {ls : List (List Char)} (h : ∀ l ∈ ls, l ≠ [] ∧ ∀ c ∈ l, isBreak c = false) :
    lines (unlines ls) = ls := by
  induction ls with
  | nil => rfl
  | cons l ls ih =>
    obtain ⟨hne, hunbroken⟩ := h l List.mem_cons_self
    have hrest := ih fun m hm => h m (List.mem_cons_of_mem l hm)
    cases ls with
    | nil => exact lines_of_unbroken hne hunbroken
    | cons m ls =>
      have hopen : EndsOpen l := by
        obtain ⟨c, hc⟩ := Option.isSome_iff_exists.mp (List.getLast?_isSome.mpr hne)
        exact ⟨c, hc, hunbroken c (List.mem_of_getLast? hc)⟩
      rw [unlines_cons_cons, lines_append_newline hopen, lines_of_unbroken hne hunbroken, hrest]
      rfl

/-- Lines read back as what is on them. -/
theorem inked_lines_unlines {ls : List (List Char)} (h : ∀ l ∈ ls, ∀ c ∈ l, isBreak c = false) :
    inked (lines (unlines ls)) = inked ls := by
  have hone : ∀ l : List Char, (∀ c ∈ l, isBreak c = false) → inked (lines l) = inked [l] := by
    intro l hl
    by_cases hne : l = []
    · rw [hne]
      rfl
    · rw [lines_of_unbroken hne hl]
  induction ls with
  | nil => rfl
  | cons l ls ih =>
    have hl := h l List.mem_cons_self
    cases ls with
    | nil => exact hone l hl
    | cons m ls =>
      have hrest := ih fun k hk => h k (List.mem_cons_of_mem l hk)
      rw [unlines_cons_cons, inked_cons, ← hrest, ← hone l hl]
      by_cases hne : l = []
      · rw [hne, List.nil_append, lines_newline, inked_cons_nil]
        rfl
      · obtain ⟨c, hc⟩ := Option.isSome_iff_exists.mp (List.getLast?_isSome.mpr hne)
        have hopen : EndsOpen l := ⟨c, hc, hl c (List.mem_of_getLast? hc)⟩
        rw [lines_append_newline hopen, inked, List.map_append, List.filter_append]
        rfl

/-- An empty line at the end is stripped. -/
theorem strip_unlines_append_nil (ls : List (List Char)) :
    strip (unlines (ls ++ [[]])) = strip (unlines ls) := by
  have hunlines : ∀ ls : List (List Char), ls ≠ [] → unlines (ls ++ [[]]) = unlines ls ++ ['\n'] := by
    intro ls hne
    induction ls with
    | nil => exact absurd rfl hne
    | cons l ls ih =>
      cases ls with
      | nil => rfl
      | cons m ls =>
        rw [List.cons_append, List.cons_append, unlines_cons_cons, ← List.cons_append,
          ih (by simp), unlines_cons_cons, List.append_assoc, List.cons_append]
  cases ls with
  | nil => rfl
  | cons l ls => rw [hunlines (l :: ls) (by simp), strip_append_space (by decide)]

end Text

end Lib
