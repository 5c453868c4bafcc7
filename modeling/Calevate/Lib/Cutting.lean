import Calevate.Lib.Text

/-!
# Cut texts

What is not white space of a text is its ink, and a text cut in pieces keeps its ink where the
pieces have it, in order, and none is blank (`Cut`). A text is split at the matches of a pattern;
a pattern that matches white space only loses no ink (`solid_split`).
-/

namespace Lib

namespace Cutting

open ClockText (isSpace strip)
open Text

/-! ## Ink -/

/-- The characters that are not white space. -/
def solid (t : List Char) : List Char := t.filter fun c => !isSpace c

/-- A text that is not blank. -/
def Inked (t : List Char) : Prop := solid t ≠ []

/-- A text that begins with ink. -/
def Headed (t : List Char) : Prop := ∃ c rest, t = c :: rest ∧ isSpace c = false

/-- `lstrip`. -/
def lstrip (t : List Char) : List Char := t.dropWhile isSpace

/-- `rstrip`. -/
def rstrip (t : List Char) : List Char := (t.reverse.dropWhile isSpace).reverse

variable {s t : List Char} {c : Char}

@[simp]
theorem solid_nil : solid [] = [] := rfl

theorem solid_append (s t : List Char) : solid (s ++ t) = solid s ++ solid t :=
  List.filter_append ..

theorem solid_cons_space (hc : isSpace c = true) (t : List Char) : solid (c :: t) = solid t :=
  List.filter_cons_of_neg (by simp [hc])

theorem solid_append_space (hc : isSpace c = true) (t : List Char) : solid (t ++ [c]) = solid t := by
  rw [solid_append, solid_cons_space hc, solid_nil, List.append_nil]

@[simp]
theorem solid_strip (t : List Char) : solid (strip t) = solid t :=
  strip_invariant (fun _ t hc => solid_cons_space hc t) (fun t _ hc => solid_append_space hc t) t

theorem solid_eq_nil : solid t = [] ↔ ∀ c ∈ t, isSpace c = true := by
  simp [solid]

@[simp]
theorem solid_lstrip (t : List Char) : solid (lstrip t) = solid t := by
  induction t with
  | nil => rfl
  | cons c t ih =>
    unfold lstrip
    by_cases hc : isSpace c = true
    · rw [List.dropWhile_cons_of_pos hc, solid_cons_space hc]
      exact ih
    · rw [List.dropWhile_cons_of_neg hc]

@[simp]
theorem solid_rstrip (t : List Char) : solid (rstrip t) = solid t := by
  induction t using List.reverseRecOn with
  | nil => rfl
  | append_singleton t c ih =>
    unfold rstrip
    rw [List.reverse_append, List.reverse_singleton, List.singleton_append]
    by_cases hc : isSpace c = true
    · rw [List.dropWhile_cons_of_pos hc, solid_append_space hc]
      exact ih
    · rw [List.dropWhile_cons_of_neg hc, List.reverse_cons, List.reverse_reverse]

theorem Headed.inked (h : Headed t) : Inked t := by
  obtain ⟨c, rest, rfl, hc⟩ := h
  intro hblank
  have hspace := (solid_eq_nil).mp hblank c List.mem_cons_self
  rw [hc] at hspace
  cases hspace

theorem Headed.take (h : Headed t) {n : ℕ} (hn : 0 < n) : Headed (t.take n) := by
  obtain ⟨c, rest, rfl, hc⟩ := h
  cases n with
  | zero => cases hn
  | succ n => exact ⟨c, rest.take n, rfl, hc⟩

theorem Headed.append (h : Headed s) (t : List Char) : Headed (s ++ t) := by
  obtain ⟨c, rest, rfl, hc⟩ := h
  exact ⟨c, rest ++ t, rfl, hc⟩

/-- Behind the white space a text begins with ink, or is over. -/
theorem lstrip_headed (h : lstrip t ≠ []) : Headed (lstrip t) := by
  have hnot := List.head?_dropWhile_not isSpace t
  cases hrest : lstrip t with
  | nil => exact absurd hrest h
  | cons c rest =>
    have hrest' : t.dropWhile isSpace = c :: rest := hrest
    rw [hrest'] at hnot
    exact ⟨c, rest, rfl, by simpa using hnot⟩

theorem strip_headed (h : strip t ≠ []) : Headed (strip t) := by
  cases hrest : strip t with
  | nil => exact absurd hrest h
  | cons c rest =>
    have htight := (tight_strip t).1 c (by rw [hrest]; rfl)
    exact ⟨c, rest, rfl, htight⟩

theorem strip_ne_nil (h : Inked t) : strip t ≠ [] := by
  intro hempty
  have hsolid := solid_strip t
  rw [hempty] at hsolid
  exact h hsolid.symm

theorem length_lstrip_le (t : List Char) : (lstrip t).length ≤ t.length :=
  (List.dropWhile_suffix _).length_le

theorem length_rstrip_le (t : List Char) : (rstrip t).length ≤ t.length := by
  unfold rstrip
  rw [List.length_reverse]
  exact (List.dropWhile_suffix _).length_le.trans_eq List.length_reverse

theorem length_strip_le (t : List Char) : (strip t).length ≤ t.length :=
  (length_rstrip_le (lstrip t)).trans (length_lstrip_le t)

/-! ## Splitting -/

/-- `re.split`, behind a piece begun and within a match: `sep` tells how long a match is that
begins here, of what stands before it and the text from here on. -/
def splitFrom (sep : Option Char → List Char → Option ℕ) :
    ℕ → List Char → List Char → List (List Char)
  | _, begun, [] => [begun]
  | skip + 1, begun, _ :: t => splitFrom sep skip begun t
  | 0, begun, c :: t =>
    match sep begun.getLast? (c :: t) with
    | some n => begun :: splitFrom sep (n - 1) [] t
    | none => splitFrom sep 0 (begun ++ [c]) t

/-- `re.split`. -/
def split (sep : Option Char → List Char → Option ℕ) (t : List Char) : List (List Char) :=
  splitFrom sep 0 [] t

/-- A match is white space, of at least one character. -/
def OnSpace (sep : Option Char → List Char → Option ℕ) : Prop :=
  ∀ prev t n, sep prev t = some n → 1 ≤ n ∧ solid (t.take n) = []

variable {sep : Option Char → List Char → Option ℕ}

theorem solid_splitFrom (hsep : OnSpace sep) (skip : ℕ) (begun t : List Char) :
    solid (splitFrom sep skip begun t).flatten = solid begun ++ solid (t.drop skip) := by
  induction t generalizing skip begun with
  | nil => simp [splitFrom]
  | cons c t ih =>
    cases skip with
    | succ skip => exact ih skip begun
    | zero =>
      unfold splitFrom
      cases hmatch : sep begun.getLast? (c :: t) with
      | none =>
        dsimp only
        rw [ih, List.drop_zero, List.drop_zero, ← solid_append, ← solid_append, List.append_assoc]
        rfl
      | some n =>
        obtain ⟨hpos, hblank⟩ := hsep _ _ _ hmatch
        obtain ⟨m, rfl⟩ : ∃ m, n = m + 1 := ⟨n - 1, by omega⟩
        have hrest : solid (c :: t) = solid (t.drop m) := by
          have hsplit := List.take_append_drop (m + 1) (c :: t)
          rw [← hsplit, solid_append, hblank]
          rfl
        dsimp only
        rw [List.flatten_cons, solid_append, ih, solid_nil, List.nil_append, List.drop_zero, hrest]
        rfl

/-- **Splitting at white space loses no ink.** -/
theorem solid_split (hsep : OnSpace sep) (t : List Char) : solid (split sep t).flatten = solid t := by
  rw [split, solid_splitFrom hsep, solid_nil, List.nil_append, List.drop_zero]

/-! ## Cuts -/

/-- A text cut in pieces: none too long, none blank, and all of the ink in order. -/
structure Cut (cap : ℕ) (text : List Char) (pieces : List (List Char)) : Prop where
  bounded : ∀ p ∈ pieces, p.length ≤ cap
  inked : ∀ p ∈ pieces, Inked p
  whole : solid pieces.flatten = solid text

/-- What a packer holds back: nothing, or what can be a piece. -/
def Holds (cap : ℕ) (buffer : List Char) : Prop :=
  buffer = [] ∨ (buffer.length ≤ cap ∧ Inked buffer)

/-- `if buffer: out.append(buffer)`. -/
def flushed (buffer : List Char) : List (List Char) := if buffer = [] then [] else [buffer]

namespace Cut

variable {cap : ℕ} {buffer : List Char} {ps qs : List (List Char)}

theorem nil : Cut cap [] [] := ⟨by simp, by simp, rfl⟩

theorem single (hlen : t.length ≤ cap) (hinked : Inked t) : Cut cap t [t] :=
  ⟨by simpa using hlen, by simpa using hinked, by simp⟩

theorem flushed (h : Holds cap buffer) : Cut cap buffer (flushed buffer) := by
  unfold Cutting.flushed
  split
  case isTrue hempty =>
    rw [hempty]
    exact nil
  case isFalse hne =>
    obtain ⟨hlen, hinked⟩ := h.resolve_left hne
    exact single hlen hinked

theorem append (hs : Cut cap s ps) (ht : Cut cap t qs) : Cut cap (s ++ t) (ps ++ qs) where
  bounded := by
    intro p hp
    rcases List.mem_append.mp hp with hp | hp
    · exact hs.bounded p hp
    · exact ht.bounded p hp
  inked := by
    intro p hp
    rcases List.mem_append.mp hp with hp | hp
    · exact hs.inked p hp
    · exact ht.inked p hp
  whole := by rw [List.flatten_append, solid_append, hs.whole, ht.whole, solid_append]

/-- Only the ink of the text counts. -/
theorem congr (h : Cut cap s ps) (hsame : solid s = solid t) : Cut cap t ps :=
  ⟨h.bounded, h.inked, h.whole.trans hsame⟩

/-- The pieces of a text that is not blank are some. -/
theorem ne_nil (h : Cut cap t ps) (hinked : Inked t) : ps ≠ [] := by
  rintro rfl
  exact hinked h.whole.symm

/-- The last piece can be held back. -/
theorem unpack (h : Cut cap t (ps ++ [s])) : Cut cap ps.flatten ps ∧ Holds cap s ∧
    solid t = solid ps.flatten ++ solid s := by
  have hlast : s ∈ ps ++ [s] := List.mem_append_right _ (List.mem_singleton_self s)
  refine ⟨⟨fun p hp => h.bounded p (List.mem_append_left _ hp),
    fun p hp => h.inked p (List.mem_append_left _ hp), rfl⟩, .inr ⟨h.bounded s hlast,
    h.inked s hlast⟩, ?_⟩
  rw [← h.whole, List.flatten_append, solid_append, List.flatten_singleton]

end Cut

end Cutting

end Lib
