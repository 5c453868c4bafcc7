import Calevate.Lib.Cutting
import Mathlib.Data.List.DropRight
import Mathlib.Data.List.TakeWhile

/-!
# Sections

A text in sections: a section begins with a line that starts with a bracket, its header, and
runs up to the next such line. The first section under a header splits the lines in what is ahead
of it, the section, and what is behind it (`Parts`, `parts_iff`), and what is put behind whole
lines of sections does not change that (`parts_append`). White space around a text is blank lines
and the ends of two lines (`strip_unlines`); to read a section, to take it out and to keep the
lines with something on them, it matters only where a header is indented (`Flush`).
-/

namespace Lib

namespace Sections

open ClockText (isSpace strip)
open Text
open Cutting

/-! ## White space around lines -/

/-- Nothing is on the line. -/
def blank (l : List Char) : Bool := l.all isSpace

/-- The lines without the blank ones at the top, the first one not indented. -/
def trimTop : List (List Char) → List (List Char)
  | [] => []
  | l :: ls => if blank l then trimTop ls else lstrip l :: ls

/-- The lines without the blank ones at the end, the last one without the white space behind. -/
def trimEnd : List (List Char) → List (List Char)
  | [] => []
  | l :: ls =>
    match trimEnd ls with
    | [] => if blank l then [] else [rstrip l]
    | rest => l :: rest

section Ends

variable {l s t : List Char} {ls ls' : List (List Char)}

theorem rstrip_append_space {c : Char} (hc : isSpace c = true) (t : List Char) :
    rstrip (t ++ [c]) = rstrip t := by
  unfold rstrip
  rw [List.reverse_append, List.reverse_singleton, List.singleton_append,
    List.dropWhile_cons_of_pos hc]

theorem rstrip_append_ink {c : Char} (hc : isSpace c = false) (t : List Char) :
    rstrip (t ++ [c]) = t ++ [c] := by
  unfold rstrip
  rw [List.reverse_append, List.reverse_singleton, List.singleton_append,
    List.dropWhile_cons_of_neg (by simp [hc]), List.reverse_cons, List.reverse_reverse]

theorem rstrip_eq_nil : rstrip t = [] ↔ ∀ c ∈ t, isSpace c = true := by
  unfold rstrip
  rw [List.reverse_eq_nil_iff, List.dropWhile_eq_nil_iff]
  simp

theorem rstrip_append (s t : List Char) :
    rstrip (s ++ t) = if rstrip t = [] then rstrip s else s ++ rstrip t := by
  induction t using List.reverseRecOn with
  | nil =>
    rw [List.append_nil]
    exact (if_pos rfl).symm
  | append_singleton t c ih =>
    rw [← List.append_assoc]
    by_cases hc : isSpace c = true
    · rw [rstrip_append_space hc, rstrip_append_space hc, ih]
    · rw [Bool.not_eq_true] at hc
      rw [rstrip_append_ink hc, rstrip_append_ink hc, if_neg (by simp), List.append_assoc]

theorem rstrip_isPrefix (t : List Char) : rstrip t <+: t := by
  unfold rstrip
  conv_rhs => rw [← List.reverse_reverse t]
  exact List.reverse_prefix.mpr (List.dropWhile_suffix _)

theorem rstrip_rstrip (t : List Char) : rstrip (rstrip t) = rstrip t := by
  induction t using List.reverseRecOn with
  | nil => rfl
  | append_singleton t c ih =>
    by_cases hc : isSpace c = true
    · rw [rstrip_append_space hc, ih]
    · rw [Bool.not_eq_true] at hc
      rw [rstrip_append_ink hc, rstrip_append_ink hc]

theorem lstrip_append (s t : List Char) :
    lstrip (s ++ t) = if blank s then lstrip t else lstrip s ++ t := by
  induction s with
  | nil => rfl
  | cons c s ih =>
    unfold lstrip blank at ih ⊢
    rw [List.cons_append]
    by_cases hc : isSpace c = true
    · rw [List.dropWhile_cons_of_pos hc, List.dropWhile_cons_of_pos hc, ih]
      simp [hc]
    · rw [List.dropWhile_cons_of_neg hc, List.dropWhile_cons_of_neg hc, if_neg (by simp [hc])]
      rfl

theorem lstrip_of_headed (h : Headed t) : lstrip t = t := by
  obtain ⟨c, rest, rfl, hc⟩ := h
  exact List.dropWhile_cons_of_neg (by simp [hc])

theorem blank_iff : blank l = true ↔ ∀ c ∈ l, isSpace c = true := by
  simp [blank]

theorem blank_rstrip : blank (rstrip l) = blank l := by
  rw [Bool.eq_iff_iff, blank_iff, blank_iff, ← solid_eq_nil, solid_rstrip, solid_eq_nil]

theorem blank_lstrip : blank (lstrip l) = blank l := by
  rw [Bool.eq_iff_iff, blank_iff, blank_iff, ← solid_eq_nil, solid_lstrip, solid_eq_nil]

theorem blank_iff_strip : blank l = true ↔ strip l = [] := by
  rw [blank_iff, ← solid_eq_nil]
  constructor
  · intro h
    by_contra hne
    exact (strip_headed hne).inked (by rw [solid_strip, h])
  · intro h
    rw [← solid_strip, h, solid_nil]

theorem headed_lstrip (h : ¬ blank l = true) : Headed (lstrip l) := by
  refine lstrip_headed fun hnil => h ?_
  rw [← blank_lstrip, hnil]
  rfl

theorem not_blank_of_headed (h : Headed l) : blank l = false := by
  rw [Bool.eq_false_iff, ne_eq, blank_iff_strip]
  exact strip_ne_nil h.inked

theorem trimEnd_cons_of_nil (h : trimEnd ls = []) :
    trimEnd (l :: ls) = if blank l then [] else [rstrip l] := by
  rw [trimEnd, h]

theorem trimEnd_cons_of_ne (h : trimEnd ls ≠ []) : trimEnd (l :: ls) = l :: trimEnd ls := by
  rw [trimEnd]
  split
  next hnil => exact absurd hnil h
  next => rfl

theorem trimEnd_cons_congr (h : trimEnd ls = trimEnd ls') :
    trimEnd (l :: ls) = trimEnd (l :: ls') := by
  rw [trimEnd, trimEnd, h]

theorem trimEnd_eq_nil : trimEnd ls = [] ↔ ∀ l ∈ ls, blank l = true := by
  induction ls with
  | nil => simp [trimEnd]
  | cons l ls ih =>
    rw [List.forall_mem_cons, ← ih]
    by_cases hrest : trimEnd ls = []
    · rw [trimEnd_cons_of_nil hrest]
      split <;> simp_all
    · rw [trimEnd_cons_of_ne hrest]
      simp [hrest]

theorem trimEnd_ne_nil (h : Headed l) (hmem : l ∈ ls) : trimEnd ls ≠ [] := by
  intro hempty
  have hblank := (trimEnd_eq_nil).mp hempty l hmem
  rw [not_blank_of_headed h] at hblank
  cases hblank

theorem trimEnd_append (h : trimEnd ls' ≠ []) : trimEnd (ls ++ ls') = ls ++ trimEnd ls' := by
  induction ls with
  | nil => rfl
  | cons l ls ih =>
    have hrest : trimEnd (ls ++ ls') ≠ [] := by
      rw [ih]
      simp [h]
    rw [List.cons_append, trimEnd_cons_of_ne hrest, ih, List.cons_append]

theorem trimEnd_append_blank (h : ∀ l ∈ ls', blank l = true) :
    trimEnd (ls ++ ls') = trimEnd ls := by
  induction ls with
  | nil => exact (trimEnd_eq_nil).mpr h
  | cons l ls ih => exact trimEnd_cons_congr ih

theorem trimEnd_trimEnd (ls : List (List Char)) : trimEnd (trimEnd ls) = trimEnd ls := by
  induction ls with
  | nil => rfl
  | cons l ls ih =>
    by_cases hrest : trimEnd ls = []
    · rw [trimEnd_cons_of_nil hrest]
      split
      · rfl
      next hl => rw [trimEnd_cons_of_nil rfl, blank_rstrip, if_neg hl, rstrip_rstrip]
    · rw [trimEnd_cons_of_ne hrest, trimEnd_cons_of_ne (by rwa [ih]), ih]

theorem trimTop_trimTop (ls : List (List Char)) : trimTop (trimTop ls) = trimTop ls := by
  induction ls with
  | nil => rfl
  | cons l ls ih =>
    rw [trimTop]
    split
    · exact ih
    next hl =>
      rw [trimTop, blank_lstrip, if_neg hl, lstrip_of_headed (headed_lstrip hl)]

theorem trimTop_append (h : Headed l) : trimTop (ls ++ l :: ls') = trimTop ls ++ l :: ls' := by
  have hblank : ¬ blank l = true := by
    rw [blank_iff_strip]
    exact strip_ne_nil h.inked
  induction ls with
  | nil =>
    have hfirst : trimTop (l :: ls') = l :: ls' := by
      rw [trimTop, if_neg hblank, lstrip_of_headed h]
    exact hfirst
  | cons k ls ih =>
    rw [List.cons_append, trimTop, trimTop, ih]
    split <;> rfl

/-- What is trimmed at the end is so whether or not the top is. -/
theorem trimEnd_trimTop (ls : List (List Char)) :
    trimEnd (trimTop (trimEnd ls)) = trimEnd (trimTop ls) := by
  induction ls with
  | nil => rfl
  | cons l ls ih =>
    by_cases hrest : trimEnd ls = []
    · have hblank := (trimEnd_eq_nil).mp hrest
      rw [trimEnd_cons_of_nil hrest, trimTop]
      by_cases hl : blank l = true
      · rw [if_pos hl, if_pos hl, ← ih, hrest]
      · rw [if_neg hl, if_neg hl, trimTop, blank_rstrip, if_neg hl, trimEnd_cons_of_nil rfl,
          trimEnd_cons_of_nil hrest, blank_lstrip, blank_lstrip, blank_rstrip, if_neg hl, if_neg hl]
        have hends : rstrip (lstrip (rstrip l)) = rstrip (lstrip l) := by
          obtain ⟨behind, hbehind⟩ := rstrip_isPrefix l
          have hspace : rstrip behind = [] := by
            by_contra hne
            have happend := rstrip_append (rstrip l) behind
            rw [hbehind, if_neg hne] at happend
            have hlen := congrArg List.length happend
            rw [List.length_append] at hlen
            have hpos := List.length_pos_iff.mpr hne
            omega
          conv_rhs => rw [← hbehind, lstrip_append, blank_rstrip, if_neg hl, rstrip_append,
            if_pos hspace]
        rw [hends]
    · rw [trimEnd_cons_of_ne hrest, trimTop, trimTop]
      split
      · exact ih
      · rw [trimEnd_cons_of_ne (by rwa [trimEnd_trimEnd]), trimEnd_cons_of_ne hrest,
          trimEnd_trimEnd]

/-! ## Texts of lines -/

theorem rstrip_unlines (ls : List (List Char)) : rstrip (unlines ls) = unlines (trimEnd ls) := by
  have hblank : ∀ ls : List (List Char), rstrip (unlines ls) = [] ↔ trimEnd ls = [] := by
    intro ls
    rw [rstrip_eq_nil, trimEnd_eq_nil]
    induction ls with
    | nil => simp [unlines]
    | cons l ls ih =>
      cases ls with
      | nil => simp [unlines, blank_iff]
      | cons m ls =>
        have hfeed : isSpace '\n' = true := by decide
        rw [unlines_cons_cons, List.forall_mem_cons, ← ih, blank_iff]
        simp [or_imp, forall_and, hfeed]
  induction ls with
  | nil => rfl
  | cons l ls ih =>
    cases ls with
    | nil =>
      rw [trimEnd_cons_of_nil rfl, unlines]
      split
      next hl => exact (rstrip_eq_nil).mpr ((blank_iff).mp hl)
      next => rfl
    | cons m ls =>
      rw [unlines_cons_cons, rstrip_append]
      by_cases hrest : trimEnd (m :: ls) = []
      · have hnone : rstrip ('\n' :: unlines (m :: ls)) = [] := by
          have hspace := (rstrip_eq_nil).mp ((hblank _).mpr hrest)
          refine (rstrip_eq_nil).mpr fun c hc => ?_
          obtain rfl | hc := List.mem_cons.mp hc
          · decide
          · exact hspace c hc
        rw [if_pos hnone, trimEnd_cons_of_nil hrest]
        split
        next hl => exact (rstrip_eq_nil).mpr ((blank_iff).mp hl)
        next => rfl
      · have hsome : rstrip (unlines (m :: ls)) ≠ [] := fun h => hrest ((hblank _).mp h)
        have hfeed : rstrip ('\n' :: unlines (m :: ls)) = '\n' :: unlines (trimEnd (m :: ls)) := by
          have happend := rstrip_append ['\n'] (unlines (m :: ls))
          rw [if_neg hsome, ih] at happend
          exact happend
        obtain ⟨k, ks, hks⟩ := List.exists_cons_of_ne_nil hrest
        rw [hfeed, if_neg (List.cons_ne_nil _ _), trimEnd_cons_of_ne hrest, hks, unlines_cons_cons]

theorem lstrip_unlines (ls : List (List Char)) : lstrip (unlines ls) = unlines (trimTop ls) := by
  induction ls with
  | nil => rfl
  | cons l ls ih =>
    cases ls with
    | nil =>
      rw [trimTop, unlines]
      split
      next hl => exact List.dropWhile_eq_nil_iff.mpr ((blank_iff).mp hl)
      next => rfl
    | cons m ls =>
      rw [unlines_cons_cons, lstrip_append, trimTop]
      split
      · rw [← ih]
        exact List.dropWhile_cons_of_pos (by decide)
      · rw [unlines_cons_cons]

/-- White space around a text of lines. -/
theorem strip_unlines (ls : List (List Char)) :
    strip (unlines ls) = unlines (trimEnd (trimTop ls)) := by
  rw [← rstrip_unlines, ← lstrip_unlines]
  rfl

/-- Lines within a line. -/
theorem unlines_nested {ks : List (List Char)} (hne : ks ≠ []) (ls ls' : List (List Char)) :
    unlines (ls ++ unlines ks :: ls') = unlines (ls ++ (ks ++ ls')) := by
  have hfirst : ∀ ks : List (List Char), ks ≠ [] →
      unlines (unlines ks :: ls') = unlines (ks ++ ls') := by
    intro ks hne
    induction ks with
    | nil => exact absurd rfl hne
    | cons k ks ih =>
      cases ks with
      | nil => rfl
      | cons m ks =>
        have hrest := ih (List.cons_ne_nil m ks)
        rw [List.cons_append, List.cons_append, unlines_cons_cons, unlines_cons_cons,
          ← List.cons_append, ← hrest]
        cases ls' with
        | nil => rfl
        | cons l ls' => rw [unlines_cons_cons, unlines_cons_cons, List.append_assoc]; rfl
  have hcons : ∀ (l : List Char) {as bs : List (List Char)}, as ≠ [] → bs ≠ [] →
      unlines as = unlines bs → unlines (l :: as) = unlines (l :: bs) := by
    intro l as bs has hbs h
    obtain ⟨a, as, rfl⟩ := List.exists_cons_of_ne_nil has
    obtain ⟨b, bs, rfl⟩ := List.exists_cons_of_ne_nil hbs
    rw [unlines_cons_cons, unlines_cons_cons, h]
  induction ls with
  | nil => exact hfirst ks hne
  | cons l ls ih => exact hcons l (by simp) (by simp [hne]) ih

/-- No line holds a line break. -/
def Unbroken (ls : List (List Char)) : Prop := ∀ l ∈ ls, ∀ c ∈ l, isBreak c = false

theorem unbroken_lines (t : List Char) : Unbroken (lines t) := fun _ hl => lines_unbroken hl

theorem Unbroken.append (h : Unbroken ls) (h' : Unbroken ls') : Unbroken (ls ++ ls') := by
  intro l hl
  obtain hl | hl := List.mem_append.mp hl
  · exact h l hl
  · exact h' l hl

theorem Unbroken.of_subset (h : Unbroken ls) (hs : ls' ⊆ ls) : Unbroken ls' :=
  fun l hl => h l (hs hl)

theorem Unbroken.trimEnd (h : Unbroken ls) : Unbroken (trimEnd ls) := by
  induction ls with
  | nil => exact h
  | cons l ls ih =>
    have hl := h l List.mem_cons_self
    have hrest := ih fun m hm => h m (List.mem_cons_of_mem l hm)
    by_cases hnil : Sections.trimEnd ls = []
    · rw [trimEnd_cons_of_nil hnil]
      split
      · exact fun _ hm => absurd hm List.not_mem_nil
      · intro m hm
        rw [List.mem_singleton.mp hm]
        exact fun c hc => hl c ((rstrip_isPrefix l).subset hc)
    · rw [trimEnd_cons_of_ne hnil]
      intro m hm
      obtain rfl | hm := List.mem_cons.mp hm
      · exact hl
      · exact hrest m hm

theorem Unbroken.trimTop (h : Unbroken ls) : Unbroken (trimTop ls) := by
  induction ls with
  | nil => exact h
  | cons l ls ih =>
    rw [Sections.trimTop]
    split
    · exact ih fun m hm => h m (List.mem_cons_of_mem l hm)
    · intro m hm
      obtain rfl | hm := List.mem_cons.mp hm
      · exact fun c hc => h l List.mem_cons_self c ((List.dropWhile_suffix _).subset hc)
      · exact h m (List.mem_cons_of_mem l hm)

theorem lines_cons_newline (h : ∀ c ∈ l, isBreak c = false) (t : List Char) :
    lines (l ++ '\n' :: t) = l :: lines t := by
  by_cases hne : l = []
  · rw [hne]
    exact lines_newline t
  · obtain ⟨c, hc⟩ := Option.isSome_iff_exists.mp (List.getLast?_isSome.mpr hne)
    rw [lines_append_newline ⟨c, hc, h c (List.mem_of_getLast? hc)⟩, lines_of_unbroken hne h]
    rfl

/-- Lines, with a line feed behind each, read back. -/
theorem lines_unlines_newline (hne : ls ≠ []) (h : Unbroken ls) :
    lines (unlines ls ++ ['\n']) = ls := by
  induction ls with
  | nil => exact absurd rfl hne
  | cons l ls ih =>
    have hl := h l List.mem_cons_self
    cases ls with
    | nil => exact lines_cons_newline hl []
    | cons m ls =>
      have hrest := ih (List.cons_ne_nil m ls) fun k hk => h k (List.mem_cons_of_mem l hk)
      rw [unlines_cons_cons, List.append_assoc, List.cons_append, lines_cons_newline hl, hrest]

/-- Without the line feed behind the last they do once they are trimmed. -/
theorem lines_unlines_trimEnd (h : Unbroken ls) : lines (unlines (trimEnd ls)) = trimEnd ls := by
  induction ls with
  | nil => rfl
  | cons l ls ih =>
    have hl := h l List.mem_cons_self
    have hrest := ih fun k hk => h k (List.mem_cons_of_mem l hk)
    by_cases hnil : trimEnd ls = []
    · rw [trimEnd_cons_of_nil hnil]
      split
      · rfl
      next hblank =>
        refine lines_of_unbroken (fun hempty => hblank ?_)
          fun c hc => hl c ((rstrip_isPrefix l).subset hc)
        have hnone : rstrip l = [] := hempty
        rw [← blank_rstrip, hnone]
        rfl
    · rw [trimEnd_cons_of_ne hnil]
      obtain ⟨m, ms, hms⟩ := List.exists_cons_of_ne_nil hnil
      rw [hms] at hrest ⊢
      rw [unlines_cons_cons, lines_cons_newline hl, hrest]

end Ends

/-! ## Parts -/

/-- A header's line. -/
def opens : List Char → Bool
  | '[' :: _ => true
  | _ => false

/-- The lines ahead of a section, its own, those behind it. -/
structure Parts where
  ahead : List (List Char)
  held : List (List Char)
  behind : List (List Char)
  deriving DecidableEq

/-- The first section under the header. -/
def parts (header : List Char) : List (List Char) → Option Parts
  | [] => none
  | l :: ls =>
    if header.isPrefixOf l then
      some ⟨[], l :: ls.takeWhile (!opens ·), ls.dropWhile (!opens ·)⟩
    else (parts header ls).map fun p => { p with ahead := l :: p.ahead }

/-- The lines without the first section under the header. -/
def without (header : List Char) (ls : List (List Char)) : List (List Char) :=
  match parts header ls with
  | none => ls
  | some p => p.ahead ++ p.behind

/-- The text of the first section under the header, without the white space behind it. -/
def heldText (header : List Char) (ls : List (List Char)) : Option (List Char) :=
  (parts header ls).map fun p => rstrip (unlines p.held)

/-- The lines begin with a header, or there are none. -/
def Opening (ls : List (List Char)) : Prop := ∀ l ∈ ls.head?, opens l = true

/-- A line under the header, then lines that are no headers. -/
def Holds (header : List Char) (ls : List (List Char)) : Prop :=
  ∃ h body, ls = h :: body ∧ header <+: h ∧ ∀ l ∈ body, opens l = false

/-- No line is under the header. -/
def Lacks (header : List Char) (ls : List (List Char)) : Prop := ∀ l ∈ ls, ¬ header <+: l

/-- A header in brackets. -/
def Bracketed (header : List Char) : Prop := ∃ name, header = '[' :: name ++ [']']

/-- No indented line with nothing but blank ones before it is under the header. -/
def Flush (header : List Char) : List (List Char) → Prop
  | [] => True
  | l :: ls => if blank l then Flush header ls else header <+: lstrip l → header <+: l

section Splitting

variable {header other : List Char} {l : List Char} {ls a b s : List (List Char)}

theorem opening_nil : Opening [] := by
  intro l hl
  cases hl

theorem opening_dropWhile (ls : List (List Char)) : Opening (ls.dropWhile (!opens ·)) := by
  intro l hl
  have hnot := List.head?_dropWhile_not (!opens ·) ls
  rw [Option.mem_def.mp hl] at hnot
  simpa using hnot

theorem takeWhile_closed (ls : List (List Char)) :
    ∀ l ∈ ls.takeWhile (!opens ·), opens l = false := by
  intro l hl
  simpa using List.mem_takeWhile_imp hl

theorem takeWhile_append_opening (hs : ∀ l ∈ s, opens l = false) (hb : Opening b) :
    (s ++ b).takeWhile (!opens ·) = s ∧ (s ++ b).dropWhile (!opens ·) = b := by
  induction s with
  | nil =>
    cases b with
    | nil => exact ⟨rfl, rfl⟩
    | cons l b =>
      have hl : opens l = true := hb l rfl
      exact ⟨List.takeWhile_cons_of_neg (by simp [hl]), List.dropWhile_cons_of_neg (by simp [hl])⟩
  | cons l s ih =>
    have hl := hs l List.mem_cons_self
    obtain ⟨htake, hdrop⟩ := ih fun m hm => hs m (List.mem_cons_of_mem l hm)
    rw [List.cons_append, List.takeWhile_cons_of_pos (by simp [hl]),
      List.dropWhile_cons_of_pos (by simp [hl]), htake, hdrop]
    exact ⟨rfl, rfl⟩

theorem Bracketed.opens (hh : Bracketed header) (h : header <+: l) : opens l = true := by
  obtain ⟨name, rfl⟩ := hh
  obtain ⟨rest, rfl⟩ := h
  rfl

theorem Bracketed.headed (hh : Bracketed header) (h : header <+: l) : Headed l := by
  obtain ⟨name, rfl⟩ := hh
  obtain ⟨rest, rfl⟩ := h
  exact ⟨'[', _, rfl, by decide⟩

theorem headed_of_opens (h : opens l = true) : Headed l := by
  unfold opens at h
  split at h
  next t => exact ⟨'[', t, rfl, by decide⟩
  next => cases h

theorem opens_of_blank (h : blank l = true) : opens l = false := by
  rw [Bool.eq_false_iff]
  intro hopens
  rw [not_blank_of_headed (headed_of_opens hopens)] at h
  cases h

/-- What the parts of a split are. -/
theorem parts_iff {p : Parts} : parts header ls = some p ↔
    ls = p.ahead ++ (p.held ++ p.behind) ∧ Lacks header p.ahead ∧ Holds header p.held ∧
      Opening p.behind := by
  induction ls generalizing p with
  | nil =>
    constructor
    · intro h
      cases h
    · rintro ⟨hls, -, ⟨h, body, hheld, -⟩, -⟩
      rw [hheld] at hls
      simp at hls
  | cons l ls ih =>
    rw [parts]
    split
    next hl =>
      rw [List.isPrefixOf_iff_prefix] at hl
      constructor
      · intro h
        obtain rfl := Option.some.inj h
        refine ⟨?_, fun m hm => absurd hm List.not_mem_nil, ⟨l, _, rfl, hl, takeWhile_closed ls⟩,
          opening_dropWhile ls⟩
        rw [List.nil_append, List.cons_append, List.takeWhile_append_dropWhile]
      · rintro ⟨hls, hahead, ⟨h, body, hheld, -, hbody⟩, hbehind⟩
        obtain ⟨ahead, held, behind⟩ := p
        dsimp only at hls hahead hheld hbehind
        cases ahead with
        | cons m ahead =>
          obtain ⟨rfl, -⟩ := List.cons.inj hls
          exact absurd hl (hahead l List.mem_cons_self)
        | nil =>
          rw [hheld, List.nil_append, List.cons_append] at hls
          obtain ⟨rfl, rfl⟩ := List.cons.inj hls
          obtain ⟨htake, hdrop⟩ := takeWhile_append_opening hbody hbehind
          rw [htake, hdrop, hheld]
    next hl =>
      rw [List.isPrefixOf_iff_prefix] at hl
      rw [Option.map_eq_some_iff]
      constructor
      · rintro ⟨q, hq, rfl⟩
        obtain ⟨hls, hahead, hheld, hbehind⟩ := ih.mp hq
        refine ⟨by rw [hls]; rfl, ?_, hheld, hbehind⟩
        intro m hm
        obtain rfl | hm := List.mem_cons.mp hm
        · exact hl
        · exact hahead m hm
      · rintro ⟨hls, hahead, hheld, hbehind⟩
        obtain ⟨ahead, held, behind⟩ := p
        dsimp only at hls hahead hheld hbehind
        cases ahead with
        | nil =>
          obtain ⟨h, body, rfl, hunder, -⟩ := hheld
          obtain ⟨rfl, -⟩ := List.cons.inj hls
          exact absurd hunder hl
        | cons m ahead =>
          rw [List.cons_append] at hls
          obtain ⟨rfl, htail⟩ := List.cons.inj hls
          have hrest : Lacks header ahead := fun k hk => hahead k (List.mem_cons_of_mem l hk)
          exact ⟨⟨ahead, held, behind⟩, ih.mpr ⟨htail, hrest, hheld, hbehind⟩, rfl⟩

theorem parts_eq_none : parts header ls = none ↔ Lacks header ls := by
  induction ls with
  | nil => exact ⟨fun _ l hl => absurd hl List.not_mem_nil, fun _ => rfl⟩
  | cons l ls ih =>
    rw [parts, Lacks, List.forall_mem_cons]
    split
    next hl => simp [List.isPrefixOf_iff_prefix.mp hl]
    next hl =>
      rw [List.isPrefixOf_iff_prefix] at hl
      rw [Option.map_eq_none_iff, ih]
      exact ⟨fun h => ⟨hl, h⟩, fun h => h.2⟩

theorem parts_held (ha : Lacks header a) (hs : Holds header s) (hb : Opening b) :
    parts header (a ++ (s ++ b)) = some ⟨a, s, b⟩ := (parts_iff).mpr ⟨rfl, ha, hs, hb⟩

theorem Lacks.append (ha : Lacks header a) (hb : Lacks header b) : Lacks header (a ++ b) := by
  intro l hl
  obtain hl | hl := List.mem_append.mp hl
  · exact ha l hl
  · exact hb l hl

theorem Lacks.of_subset (h : Lacks header b) (hs : a ⊆ b) : Lacks header a :=
  fun l hl => h l (hs hl)

/-- A section under one header has none under the other. -/
theorem Holds.lacks (hh : Bracketed header) (hdisjoint : ∀ l, other <+: l → ¬ header <+: l)
    (hs : Holds other s) : Lacks header s := by
  obtain ⟨h, body, rfl, hunder, hbody⟩ := hs
  intro l hl hl'
  obtain rfl | hl := List.mem_cons.mp hl
  · exact hdisjoint l hunder hl'
  · have hopens := hh.opens hl'
    rw [hbody l hl] at hopens
    cases hopens

theorem Holds.opening (hh : Bracketed header) (hs : Holds header s) (b : List (List Char)) :
    Opening (s ++ b) := by
  obtain ⟨h, body, rfl, hunder, -⟩ := hs
  intro l hl
  obtain rfl : h = l := by simpa using hl
  exact hh.opens hunder

/-- Whole sections behind the lines leave the first one in them as it is. -/
theorem parts_append (hb : Opening b) : parts header (a ++ b) =
    match parts header a with
    | some p => some { p with behind := p.behind ++ b }
    | none => (parts header b).map fun p => { p with ahead := a ++ p.ahead } := by
  cases ha : parts header a with
  | some p =>
    obtain ⟨rfl, hahead, hheld, hbehind⟩ := (parts_iff).mp ha
    refine (parts_iff).mpr ⟨by simp only [List.append_assoc], hahead, hheld, ?_⟩
    intro l hl
    cases hp : p.behind with
    | nil => exact hb l (by simpa [hp] using hl)
    | cons k ks => exact hbehind l (by simpa [hp] using hl)
  | none =>
    have hlacks := (parts_eq_none).mp ha
    cases hpb : parts header b with
    | none => exact (parts_eq_none).mpr (hlacks.append ((parts_eq_none).mp hpb))
    | some p =>
      obtain ⟨rfl, hahead, hheld, hbehind⟩ := (parts_iff).mp hpb
      exact (parts_iff).mpr ⟨by simp only [List.append_assoc], hlacks.append hahead, hheld, hbehind⟩

theorem heldText_append (hb : Opening b) :
    heldText header (a ++ b) = (heldText header a).or (heldText header b) := by
  unfold heldText
  rw [parts_append hb]
  cases parts header a with
  | some p => rfl
  | none =>
    cases parts header b with
    | none => rfl
    | some p => rfl

theorem heldText_eq_none : heldText header ls = none ↔ Lacks header ls := by
  rw [heldText, Option.map_eq_none_iff, parts_eq_none]

theorem without_of_lacks (h : Lacks header ls) : without header ls = ls := by
  rw [without, (parts_eq_none).mpr h]

theorem without_held (ha : Lacks header a) (hs : Holds header s) (hb : Opening b) :
    without header (a ++ (s ++ b)) = a ++ b := by
  rw [without, parts_held ha hs hb]

theorem without_append_lacks (ha : Lacks header a) (hb : Opening b) :
    without header (a ++ b) = a ++ without header b := by
  rw [without, parts_append hb, (parts_eq_none).mpr ha, without]
  cases parts header b with
  | none => rfl
  | some p => exact List.append_assoc ..

theorem without_append_held (ha : ¬ Lacks header a) (hb : Opening b) :
    without header (a ++ b) = without header a ++ b := by
  rw [without, parts_append hb, without]
  cases hp : parts header a with
  | none => exact absurd ((parts_eq_none).mp hp) ha
  | some p => exact (List.append_assoc ..).symm

theorem without_subset (ls : List (List Char)) : without header ls ⊆ ls := by
  unfold without
  cases hp : parts header ls with
  | none => exact fun _ h => h
  | some p =>
    obtain ⟨rfl, -⟩ := (parts_iff).mp hp
    intro l hl
    simp only [List.mem_append] at hl ⊢
    tauto

theorem without_opening (h : Opening ls) : Opening (without header ls) := by
  unfold without
  cases hp : parts header ls with
  | none => exact h
  | some p =>
    obtain ⟨rfl, hahead, hheld, hbehind⟩ := (parts_iff).mp hp
    intro l hl
    cases hahead : p.ahead with
    | nil => exact hbehind l (by simpa [hahead] using hl)
    | cons k ks => exact h l (by simpa [hahead] using hl)

/-- Two sections are taken out in any order. -/
theorem without_comm (hh : Bracketed header) (ho : Bracketed other)
    (hdisjoint : ∀ l, other <+: l → ¬ header <+: l) (ls : List (List Char)) :
    without header (without other ls) = without other (without header ls) := by
  cases hp : parts header ls with
  | none =>
    have hlacks := (parts_eq_none).mp hp
    rw [without_of_lacks hlacks, without_of_lacks (hlacks.of_subset (without_subset ls))]
  | some p =>
    obtain ⟨rfl, hahead, hheld, hbehind⟩ := (parts_iff).mp hp
    have hopening : Opening (p.held ++ p.behind) := hheld.opening hh _
    have hlacks : Lacks other p.held := hheld.lacks ho fun l h h' => hdisjoint l h' h
    rw [without_held hahead hheld hbehind]
    by_cases hother : Lacks other p.ahead
    · rw [without_append_lacks hother hopening, without_append_lacks hother hbehind,
        without_append_lacks hlacks hbehind,
        without_held hahead hheld (without_opening hbehind)]
    · rw [without_append_held hother hopening, without_append_held hother hbehind,
        without_held (hahead.of_subset (without_subset _)) hheld hbehind]

/-- A section is read the same without one under the other header. -/
theorem heldText_without (hh : Bracketed header) (ho : Bracketed other)
    (hdisjoint : ∀ l, other <+: l → ¬ header <+: l) (ls : List (List Char)) :
    heldText header (without other ls) = heldText header ls := by
  unfold without
  cases hp : parts other ls with
  | none => rfl
  | some p =>
    obtain ⟨rfl, hahead, hheld, hbehind⟩ := (parts_iff).mp hp
    have hlacks : heldText header p.held = none :=
      (heldText_eq_none).mpr (hheld.lacks hh hdisjoint)
    rw [heldText_append hbehind, heldText_append (hheld.opening ho _), heldText_append hbehind,
      hlacks, Option.none_or]

/-- A header that is on at most one line is on none once its section is out. -/
theorem lacks_without (h : (ls.countP (header.isPrefixOf ·)) ≤ 1) :
    Lacks header (without header ls) := by
  unfold without
  cases hp : parts header ls with
  | none => exact (parts_eq_none).mp hp
  | some p =>
    obtain ⟨rfl, hahead, ⟨l, body, hheld, hunder, -⟩, -⟩ := (parts_iff).mp hp
    rw [hheld, List.countP_append, List.countP_append, List.countP_cons,
      if_pos (List.isPrefixOf_iff_prefix.mpr hunder)] at h
    have hnone : p.behind.countP (header.isPrefixOf ·) = 0 := by omega
    rw [List.countP_eq_zero] at hnone
    exact hahead.append fun m hm hunder => hnone m hm (List.isPrefixOf_iff_prefix.mpr hunder)

end Splitting

/-! ## Trimmed lines -/

section Trimming

variable {header : List Char} {l : List Char} {ls ls' : List (List Char)}

theorem isPrefix_rstrip (hh : Bracketed header) : header <+: rstrip l ↔ header <+: l := by
  constructor
  · exact fun h => h.trans (rstrip_isPrefix l)
  · rintro ⟨rest, rfl⟩
    obtain ⟨name, rfl⟩ := hh
    rw [rstrip_append]
    split
    · rw [rstrip_append_ink (by decide)]
    · exact List.prefix_append _ _

theorem opens_iff : opens l = true ↔ ['['] <+: l := by
  unfold opens
  split
  next t => exact ⟨fun _ => ⟨t, rfl⟩, fun _ => rfl⟩
  next hne =>
    refine ⟨fun h => Bool.noConfusion h, ?_⟩
    rintro ⟨t, rfl⟩
    exact absurd rfl (hne t)

theorem opens_rstrip : opens (rstrip l) = opens l := by
  rw [Bool.eq_iff_iff, opens_iff, opens_iff]
  constructor
  · exact fun h => h.trans (rstrip_isPrefix l)
  · rintro ⟨rest, rfl⟩
    rw [rstrip_append]
    split
    · rw [show rstrip ['['] = ['['] by decide]
    · exact List.prefix_append _ _

/-- What is behind the first lines without a header is trimmed as the lines are. -/
theorem dropWhile_trimEnd (ls : List (List Char)) :
    (trimEnd ls).dropWhile (!opens ·) = trimEnd (ls.dropWhile (!opens ·)) := by
  induction ls with
  | nil => rfl
  | cons l ls ih =>
    by_cases hrest : trimEnd ls = []
    · rw [hrest] at ih
      rw [trimEnd_cons_of_nil hrest]
      by_cases hl : opens l = true
      · have hblank := not_blank_of_headed (headed_of_opens hl)
        rw [hblank, if_neg (by simp), List.dropWhile_cons_of_neg (by simp [opens_rstrip, hl]),
          List.dropWhile_cons_of_neg (by simp [hl]), trimEnd_cons_of_nil hrest, hblank,
          if_neg (by simp)]
      · rw [List.dropWhile_cons_of_pos (by simp [hl]), ← ih]
        split
        · rfl
        · rw [List.dropWhile_cons_of_pos (by simp [opens_rstrip, hl])]
    · rw [trimEnd_cons_of_ne hrest]
      by_cases hl : opens l = true
      · rw [List.dropWhile_cons_of_neg (by simp [hl]), List.dropWhile_cons_of_neg (by simp [hl]),
          trimEnd_cons_of_ne hrest]
      · rw [List.dropWhile_cons_of_pos (by simp [hl]), List.dropWhile_cons_of_pos (by simp [hl]),
          ih]

theorem takeWhile_trimEnd (ls : List (List Char)) :
    trimEnd ((trimEnd ls).takeWhile (!opens ·)) = trimEnd (ls.takeWhile (!opens ·)) := by
  induction ls with
  | nil => rfl
  | cons l ls ih =>
    by_cases hrest : trimEnd ls = []
    · rw [hrest, List.takeWhile_nil] at ih
      rw [trimEnd_cons_of_nil hrest]
      by_cases hl : opens l = true
      · have hblank := not_blank_of_headed (headed_of_opens hl)
        rw [hblank, if_neg (by simp), List.takeWhile_cons_of_neg (by simp [opens_rstrip, hl]),
          List.takeWhile_cons_of_neg (by simp [hl])]
      · rw [List.takeWhile_cons_of_pos (by simp [hl]), trimEnd_cons_of_nil ih.symm]
        split
        · rfl
        next hblank =>
          rw [List.takeWhile_cons_of_pos (by simp [opens_rstrip, hl]), List.takeWhile_nil,
            trimEnd_cons_of_nil rfl, blank_rstrip, if_neg hblank, rstrip_rstrip]
    · rw [trimEnd_cons_of_ne hrest]
      by_cases hl : opens l = true
      · rw [List.takeWhile_cons_of_neg (by simp [hl]), List.takeWhile_cons_of_neg (by simp [hl])]
      · rw [List.takeWhile_cons_of_pos (by simp [hl]), List.takeWhile_cons_of_pos (by simp [hl])]
        exact trimEnd_cons_congr ih

/-- A section is read the same from trimmed lines. -/
theorem heldText_trimEnd (hh : Bracketed header) (ls : List (List Char)) :
    heldText header (trimEnd ls) = heldText header ls := by
  unfold heldText
  induction ls with
  | nil => rfl
  | cons l ls ih =>
    by_cases hl : header <+: l
    · have hblank := not_blank_of_headed (hh.headed hl)
      have hparts : ∀ {k : List Char} (ks : List (List Char)), header <+: k →
          parts header (k :: ks) =
            some ⟨[], k :: ks.takeWhile (!opens ·), ks.dropWhile (!opens ·)⟩ := by
        intro k ks hk
        rw [parts, if_pos (List.isPrefixOf_iff_prefix.mpr hk)]
      by_cases hrest : trimEnd ls = []
      · have htake := takeWhile_trimEnd ls
        rw [hrest, List.takeWhile_nil] at htake
        rw [trimEnd_cons_of_nil hrest, hblank, if_neg (by simp),
          hparts _ ((isPrefix_rstrip hh).mpr hl), hparts _ hl, Option.map_some, Option.map_some,
          rstrip_unlines, rstrip_unlines, List.takeWhile_nil, trimEnd_cons_of_nil rfl,
          trimEnd_cons_of_nil htake.symm, blank_rstrip, rstrip_rstrip]
      · rw [trimEnd_cons_of_ne hrest, hparts _ hl, hparts _ hl, Option.map_some, Option.map_some,
          rstrip_unlines, rstrip_unlines, trimEnd_cons_congr (takeWhile_trimEnd ls)]
    · have hparts : ∀ {k : List Char} (ks : List (List Char)), ¬ header <+: k →
          (parts header (k :: ks)).map (fun p => rstrip (unlines p.held)) =
            (parts header ks).map fun p => rstrip (unlines p.held) := by
        intro k ks hk
        rw [parts, if_neg (fun h => hk (List.isPrefixOf_iff_prefix.mp h)), Option.map_map]
        rfl
      rw [hparts _ hl, ← ih]
      by_cases hrest : trimEnd ls = []
      · rw [trimEnd_cons_of_nil hrest, hrest]
        split
        · rfl
        · exact hparts _ (mt (isPrefix_rstrip hh).mp hl)
      · rw [trimEnd_cons_of_ne hrest, hparts _ hl]

theorem without_cons_of_not (hl : ¬ header <+: l) (ls : List (List Char)) :
    without header (l :: ls) = l :: without header ls := by
  unfold without
  rw [parts, if_neg (fun h => hl (List.isPrefixOf_iff_prefix.mp h))]
  cases parts header ls <;> rfl

theorem without_cons_of_under (hl : header <+: l) (ls : List (List Char)) :
    without header (l :: ls) = ls.dropWhile (!opens ·) := by
  unfold without
  rw [parts, if_pos (List.isPrefixOf_iff_prefix.mpr hl)]
  rfl

/-- A section is taken out of trimmed lines as it is out of the lines. -/
theorem without_trimEnd (hh : Bracketed header) (ls : List (List Char)) :
    trimEnd (without header (trimEnd ls)) = trimEnd (without header ls) := by
  induction ls with
  | nil => rfl
  | cons l ls ih =>
    by_cases hl : header <+: l
    · have hblank := not_blank_of_headed (hh.headed hl)
      rw [without_cons_of_under hl]
      by_cases hrest : trimEnd ls = []
      · have hdrop := dropWhile_trimEnd ls
        rw [hrest] at hdrop
        rw [trimEnd_cons_of_nil hrest, hblank, if_neg (by simp),
          without_cons_of_under ((isPrefix_rstrip hh).mpr hl), ← hdrop]
        rfl
      · rw [trimEnd_cons_of_ne hrest, without_cons_of_under hl, dropWhile_trimEnd, trimEnd_trimEnd]
    · rw [without_cons_of_not hl]
      by_cases hrest : trimEnd ls = []
      · have hnone : trimEnd (without header ls) = [] := by
          rw [← ih, hrest]
          rfl
        rw [trimEnd_cons_of_nil hrest, trimEnd_cons_of_nil hnone]
        split
        · rfl
        next hblank =>
          rw [without_cons_of_not (mt (isPrefix_rstrip hh).mp hl)]
          have hnil : without header [] = [] := rfl
          rw [hnil, trimEnd_cons_of_nil rfl, blank_rstrip, if_neg hblank, rstrip_rstrip]
      · rw [trimEnd_cons_of_ne hrest, without_cons_of_not hl]
        exact trimEnd_cons_congr ih

theorem Flush.isPrefix_lstrip (hh : Bracketed header) (h : Flush header (l :: ls))
    (hblank : ¬ blank l = true) : header <+: lstrip l ↔ header <+: l := by
  rw [Flush, if_neg hblank] at h
  refine ⟨h, fun hl => ?_⟩
  rwa [lstrip_of_headed (hh.headed hl)]

theorem not_isPrefix_of_blank (hh : Bracketed header) (h : blank l = true) : ¬ header <+: l := by
  intro hl
  rw [not_blank_of_headed (hh.headed hl)] at h
  cases h

/-- A section is read the same without white space before the lines, if no header is indented. -/
theorem heldText_trimTop (hh : Bracketed header) (h : Flush header ls) :
    heldText header (trimTop ls) = heldText header ls := by
  induction ls with
  | nil => rfl
  | cons l ls ih =>
    by_cases hblank : blank l = true
    · rw [Flush, if_pos hblank] at h
      rw [trimTop, if_pos hblank, ih h]
      unfold heldText
      have hnot := not_isPrefix_of_blank hh hblank
      rw [parts, if_neg fun hl => hnot (List.isPrefixOf_iff_prefix.mp hl), Option.map_map]
      rfl
    · have hsame := h.isPrefix_lstrip hh hblank
      rw [trimTop, if_neg hblank]
      by_cases hl : header <+: l
      · rw [lstrip_of_headed (hh.headed hl)]
      · unfold heldText
        rw [parts, if_neg fun hk => hl (hsame.mp (List.isPrefixOf_iff_prefix.mp hk)), parts,
          if_neg fun hk => hl (List.isPrefixOf_iff_prefix.mp hk), Option.map_map, Option.map_map]
        rfl

/-- A section is taken out the same, too. -/
theorem without_trimTop (hh : Bracketed header) (h : Flush header ls) :
    trimTop (without header (trimTop ls)) = trimTop (without header ls) := by
  induction ls with
  | nil => rfl
  | cons l ls ih =>
    by_cases hblank : blank l = true
    · rw [Flush, if_pos hblank] at h
      rw [without_cons_of_not (not_isPrefix_of_blank hh hblank), trimTop, if_pos hblank, ih h,
        trimTop, if_pos hblank]
    · have hsame := h.isPrefix_lstrip hh hblank
      rw [trimTop, if_neg hblank]
      by_cases hl : header <+: l
      · rw [lstrip_of_headed (hh.headed hl)]
      · rw [without_cons_of_not hl, without_cons_of_not (mt hsame.mp hl), trimTop, trimTop,
          blank_lstrip, if_neg hblank, if_neg hblank, lstrip_of_headed (headed_lstrip hblank)]

theorem flush_of_opening (h : Opening ls) : Flush header ls := by
  cases ls with
  | nil => trivial
  | cons l ls =>
    have hheaded := headed_of_opens (h l rfl)
    rw [Flush, if_neg (by simp [not_blank_of_headed hheaded]), lstrip_of_headed hheaded]
    exact id

/-- Without a section no header is indented that was not. -/
theorem Flush.without (h : Flush header ls) (other : List Char) :
    Flush header (without other ls) := by
  induction ls with
  | nil => exact h
  | cons l ls ih =>
    by_cases hl : other <+: l
    · rw [without_cons_of_under hl]
      exact flush_of_opening (opening_dropWhile ls)
    · rw [without_cons_of_not hl, Flush]
      rw [Flush] at h
      split at h
      next hblank =>
        rw [if_pos hblank]
        exact ih h
      next hblank =>
        rw [if_neg hblank]
        exact h

theorem Flush.append_opening (h : Flush header ls) (hopening : Opening ls') :
    Flush header (ls ++ ls') := by
  induction ls with
  | nil => exact flush_of_opening hopening
  | cons k ls ih =>
    rw [List.cons_append, Flush]
    rw [Flush] at h
    split at h
    next hblank =>
      rw [if_pos hblank]
      exact ih h
    next hblank =>
      rw [if_neg hblank]
      exact h

theorem Flush.of_append (h : Flush header (ls ++ ls')) : Flush header ls := by
  induction ls with
  | nil => trivial
  | cons k ls ih =>
    rw [List.cons_append, Flush] at h
    rw [Flush]
    split at h
    next hblank =>
      rw [if_pos hblank]
      exact ih h
    next hblank =>
      rw [if_neg hblank]
      exact h

theorem Flush.trimEnd (hh : Bracketed header) (h : Flush header ls) :
    Flush header (trimEnd ls) := by
  induction ls with
  | nil => exact h
  | cons l ls ih =>
    rw [Flush] at h
    by_cases hrest : Sections.trimEnd ls = []
    · rw [trimEnd_cons_of_nil hrest]
      split
      · trivial
      next hblank =>
        rw [if_neg hblank] at h
        rw [Flush, blank_rstrip, if_neg hblank, isPrefix_rstrip hh]
        intro hl
        refine h (hl.trans ?_)
        obtain ⟨rest, hrest⟩ := rstrip_isPrefix l
        conv_rhs => rw [← hrest, lstrip_append, blank_rstrip, if_neg hblank]
        exact List.prefix_append _ _
    · rw [trimEnd_cons_of_ne hrest, Flush]
      split at h
      next hblank =>
        rw [if_pos hblank]
        exact ih h
      next hblank =>
        rw [if_neg hblank]
        exact h

theorem Flush.trimTop (h : Flush header ls) : Flush header (trimTop ls) := by
  induction ls with
  | nil => exact h
  | cons l ls ih =>
    rw [Flush] at h
    rw [Sections.trimTop]
    split at h
    next hblank =>
      rw [if_pos hblank]
      exact ih h
    next hblank =>
      rw [if_neg hblank, Flush, blank_lstrip, if_neg hblank,
        lstrip_of_headed (headed_lstrip hblank)]
      exact id

/-! ## Lines with something on them -/

/-- The lines that are not blank, in order, without the white space around their text. -/
def inkText (ls : List (List Char)) : List Char := strip (unlines (ls.filter (!blank ·)))

theorem filter_trimEnd (ls : List (List Char)) :
    Sections.trimEnd ((Sections.trimEnd ls).filter (!blank ·)) =
      Sections.trimEnd (ls.filter (!blank ·)) := by
  induction ls with
  | nil => rfl
  | cons l ls ih =>
    by_cases hrest : Sections.trimEnd ls = []
    · rw [hrest] at ih
      have hnone : Sections.trimEnd (ls.filter (!blank ·)) = [] := ih.symm
      rw [trimEnd_cons_of_nil hrest]
      by_cases hblank : blank l = true
      · rw [if_pos hblank, List.filter_cons_of_neg (by simp [hblank]), hnone]
        rfl
      · rw [if_neg hblank, List.filter_cons_of_pos (by rw [blank_rstrip]; simp [hblank]),
          List.filter_cons_of_pos (by simp [hblank]), List.filter_nil,
          trimEnd_cons_of_nil rfl, trimEnd_cons_of_nil hnone, blank_rstrip, rstrip_rstrip]
    · rw [trimEnd_cons_of_ne hrest, List.filter_cons, List.filter_cons]
      split
      · exact trimEnd_cons_congr ih
      · exact ih

theorem filter_trimTop (ls : List (List Char)) :
    Sections.trimTop ((Sections.trimTop ls).filter (!blank ·)) =
      Sections.trimTop (ls.filter (!blank ·)) := by
  induction ls with
  | nil => rfl
  | cons l ls ih =>
    rw [Sections.trimTop]
    by_cases hblank : blank l = true
    · rw [if_pos hblank, List.filter_cons_of_neg (by simp [hblank]), ih]
    · rw [if_neg hblank, List.filter_cons_of_pos (by simp [blank_lstrip, hblank]),
        List.filter_cons_of_pos (by simp [hblank]), Sections.trimTop, Sections.trimTop,
        blank_lstrip, if_neg hblank, if_neg hblank, lstrip_of_headed (headed_lstrip hblank)]

/-- White space around lines is not written on them. -/
theorem inkText_congr_end (h : Sections.trimEnd ls = Sections.trimEnd ls') :
    inkText ls = inkText ls' := by
  have hfilter : Sections.trimEnd (ls.filter (!blank ·)) =
      Sections.trimEnd (ls'.filter (!blank ·)) := by
    rw [← filter_trimEnd ls, ← filter_trimEnd ls', h]
  rw [inkText, inkText, strip_unlines, strip_unlines, ← trimEnd_trimTop, hfilter, trimEnd_trimTop]

theorem inkText_congr_top (h : Sections.trimTop ls = Sections.trimTop ls') :
    inkText ls = inkText ls' := by
  have hfilter : Sections.trimTop (ls.filter (!blank ·)) =
      Sections.trimTop (ls'.filter (!blank ·)) := by
    rw [← filter_trimTop ls, ← filter_trimTop ls', h]
  rw [inkText, inkText, strip_unlines, strip_unlines, hfilter]

end Trimming

/-! ## Sections without blank lines at their end -/

section Solid

variable {header : List Char} {a b blanks body s : List (List Char)} {h : List Char}

/-- The first section under the header, the blank lines at its end counted behind it. -/
def solidParts (header : List Char) (ls : List (List Char)) : Option Parts :=
  (parts header ls).map fun p =>
    match p.held with
    | [] => p
    | h :: body => ⟨p.ahead, h :: body.rdropWhile blank, body.rtakeWhile blank ++ p.behind⟩

/-- A section that ends with something on a line, if it has more than its header. -/
structure Solid (header : List Char) (s : List (List Char)) : Prop where
  holds : Holds header s
  ends : s.tail.rdropWhile blank = s.tail

theorem rdropWhile_append_blank (hbody : body.rdropWhile blank = body)
    (hblanks : ∀ l ∈ blanks, blank l = true) :
    (body ++ blanks).rdropWhile blank = body ∧ (body ++ blanks).rtakeWhile blank = blanks := by
  induction blanks using List.reverseRecOn with
  | nil =>
    rw [List.append_nil]
    refine ⟨hbody, List.rtakeWhile_eq_nil_iff.mpr ?_⟩
    exact List.rdropWhile_eq_self_iff.mp hbody
  | append_singleton blanks l ih =>
    obtain ⟨hdrop, htake⟩ := ih fun m hm => hblanks m (List.mem_append_left _ hm)
    have hl := hblanks l (by simp)
    rw [← List.append_assoc, List.rdropWhile_concat_pos blank (body ++ blanks) l hl,
      List.rtakeWhile_concat_pos blank (body ++ blanks) l hl, hdrop, htake]
    exact ⟨rfl, rfl⟩

/-- Blank lines behind a section belong to it. -/
theorem Holds.append_blank (hs : Holds header s) (hblanks : ∀ l ∈ blanks, blank l = true) :
    Holds header (s ++ blanks) := by
  obtain ⟨h, body, rfl, hunder, hbody⟩ := hs
  refine ⟨h, body ++ blanks, rfl, hunder, fun l hl => ?_⟩
  obtain hl | hl := List.mem_append.mp hl
  · exact hbody l hl
  · exact opens_of_blank (hblanks l hl)

theorem solidParts_held (ha : Lacks header a) (hs : Solid header s)
    (hblanks : ∀ l ∈ blanks, blank l = true) (hb : Opening b) :
    solidParts header (a ++ (s ++ (blanks ++ b))) = some ⟨a, s, blanks ++ b⟩ := by
  obtain ⟨hdrop, htake⟩ := rdropWhile_append_blank hs.ends hblanks
  rw [← List.append_assoc s, solidParts, parts_held ha (hs.holds.append_blank hblanks) hb,
    Option.map_some]
  obtain ⟨⟨h, body, rfl, -⟩, -⟩ := hs
  rw [List.tail_cons] at hdrop htake
  dsimp only [List.cons_append]
  rw [hdrop, htake]

theorem solidParts_some {ls : List (List Char)} {p : Parts} (hp : solidParts header ls = some p) :
    ∃ blanks b, p.behind = blanks ++ b ∧ ls = p.ahead ++ (p.held ++ (blanks ++ b)) ∧
      Lacks header p.ahead ∧ Solid header p.held ∧ (∀ l ∈ blanks, blank l = true) ∧ Opening b := by
  obtain ⟨q, hq, rfl⟩ := Option.map_eq_some_iff.mp hp
  obtain ⟨hls, hahead, ⟨h, body, hheld, hunder, hbody⟩, hbehind⟩ := (parts_iff).mp hq
  rw [hheld]
  refine ⟨body.rtakeWhile blank, q.behind, rfl, ?_, hahead, ⟨⟨h, _, rfl, hunder, ?_⟩, ?_⟩, ?_,
    hbehind⟩
  · rw [hls, hheld, List.cons_append, List.cons_append, ← List.append_assoc,
      List.rdropWhile_append_rtakeWhile]
  · exact fun l hl => hbody l ((List.rdropWhile_prefix blank body).subset hl)
  · exact List.rdropWhile_idempotent blank body
  · intro l hl
    have hself : (body.rtakeWhile blank).rtakeWhile blank = body.rtakeWhile blank :=
      List.rtakeWhile_idempotent blank body
    exact List.rtakeWhile_eq_self_iff.mp hself l hl

theorem solidParts_eq_none {ls : List (List Char)} :
    solidParts header ls = none ↔ Lacks header ls := by
  rw [solidParts, Option.map_eq_none_iff, parts_eq_none]

theorem heldText_solid (ha : Lacks header a) (hs : Solid header s)
    (hblanks : ∀ l ∈ blanks, blank l = true) (hb : Opening b) :
    heldText header (a ++ (s ++ (blanks ++ b))) = some (rstrip (unlines s)) := by
  rw [← List.append_assoc s, heldText, parts_held ha (hs.holds.append_blank hblanks) hb,
    Option.map_some]
  dsimp only
  rw [rstrip_unlines, rstrip_unlines, trimEnd_append_blank hblanks]

theorem rdropWhile_trimEnd (ls : List (List Char)) :
    (trimEnd ls).rdropWhile blank = trimEnd ls := by
  refine List.rdropWhile_eq_self_iff.mpr fun hne => ?_
  induction ls with
  | nil => exact absurd rfl hne
  | cons l ls ih =>
    by_cases hrest : trimEnd ls = []
    · have hl := trimEnd_cons_of_nil (l := l) hrest
      by_cases hblank : blank l = true
      · rw [if_pos hblank] at hl
        exact absurd hl hne
      · rw [if_neg hblank] at hl
        simp only [hl, List.getLast_singleton, blank_rstrip]
        exact hblank
    · have hl := trimEnd_cons_of_ne (l := l) hrest
      simp only [hl, List.getLast_cons hrest]
      exact ih hrest

/-- A section that is trimmed at the end. -/
theorem Solid.trimEnd (hh : Bracketed header) (hs : Solid header s) :
    Solid header (trimEnd s) := by
  obtain ⟨⟨h, body, rfl, hunder, hbody⟩, -⟩ := hs
  have hblank := not_blank_of_headed (hh.headed hunder)
  by_cases hrest : Sections.trimEnd body = []
  · rw [trimEnd_cons_of_nil hrest, hblank, if_neg (by simp)]
    exact ⟨⟨rstrip h, [], rfl, (isPrefix_rstrip hh).mpr hunder, by simp⟩, rfl⟩
  · rw [trimEnd_cons_of_ne hrest]
    refine ⟨⟨h, _, rfl, hunder, ?_⟩, rdropWhile_trimEnd body⟩
    have htake : (Sections.trimEnd body).dropWhile (!opens ·) = [] := by
      rw [dropWhile_trimEnd, List.dropWhile_eq_nil_iff.mpr fun l hl => by simp [hbody l hl]]
      rfl
    intro l hl
    simpa using List.dropWhile_eq_nil_iff.mp htake l hl

end Solid

end Sections

end Lib
