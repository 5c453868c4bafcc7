import Calevate.Lib.Text
import Mathlib.Data.List.MinMax

/-!
# Spoken opt-outs

What a transcript's caller turns say of being called again. `detect_opt_out` runs every
pattern once over a turn: the match it looks at is the one furthest to the left, and where
that one asks for another time only, the next pattern is tried, not the next match. So the
first turn that asks is reported just if one of the patterns has its leftmost match in the
asking (`noneSkipped_iff`); a caller who says "not now" and then "never" with the same words
is not heard (`notNowThenNever_skipped`).
-/

namespace Calevate.Compliance

open Lib Text

abbrev Text := List Char

/-! ## Patterns -/

/-- A match of a pattern in a text. -/
structure Span where
  start : ℕ
  stop : ℕ
  deriving DecidableEq

/-- An entry of `_COMPILED`: a rule, its language and where its pattern matches a text. -/
structure OptOutPattern where
  rule : Text
  language : Text
  spans : Text → List Span

/-- `pattern.search`. -/
def OptOutPattern.search (pattern : OptOutPattern) (text : Text) : Option Span :=
  (pattern.spans text).argmin Span.start

/-- `_NOT_NOW_WINDOW`. -/
def notNowWindow : ℕ := 25

/-- `_EVIDENCE_CHARS`. -/
def evidenceChars : ℕ := 80

/-- What the detector is given: the compiled patterns, the text functions it calls, and
whether `_NOT_NOW` matches between two positions of a text. -/
structure OptOutWords where
  compiled : List OptOutPattern
  notNow : Text → ℕ → ℕ → Bool
  lower : Text → Text
  isKept : Char → Bool
  redact : Text → Text

/-- `SpokenTurn`. -/
structure SpokenTurn where
  speaker : Text
  text : Text
  deriving DecidableEq

def SpokenTurn.isCaller (turn : SpokenTurn) : Bool := turn.speaker = "caller".toList

/-- `OptOutSignal`. -/
structure OptOutSignal where
  rule : Text
  language : Text
  turnIdx : Option ℕ
  matched : Text
  deriving DecidableEq

/-- `_APOSTROPHES`. -/
def apostrophes : List Char := ['\'', '’', '`']

namespace OptOutWords

variable (w : OptOutWords)

/-- `normalize_utterance`. -/
def normalizeUtterance (value : Text) : Text :=
  let folded := w.lower (value.filter fun c => c ∉ apostrophes)
  unwords (words (folded.map fun c => if w.isKept c then c else ' '))

/-- The words just before the match ask for another time. -/
def deferred (pattern : OptOutPattern) (normalized : Text) (found : Span) : Bool :=
  pattern.language ≠ "en".toList ∧
    w.notNow normalized (found.start - notNowWindow) found.start

/-- What one pattern finds in an utterance. -/
def signalOf (idx : ℕ) (normalized : Text) (pattern : OptOutPattern) : Option OptOutSignal :=
  match pattern.search normalized with
  | none => none
  | some found =>
    if w.deferred pattern normalized found then none
    else some
      { rule := pattern.rule
        language := pattern.language
        turnIdx := some idx
        matched := (w.redact ((normalized.drop found.start).take
          (found.stop - found.start))).take evidenceChars }

/-- One turn of the transcript. -/
def readTurn (idx : ℕ) (turn : SpokenTurn) : Option OptOutSignal :=
  if turn.isCaller then
    let normalized := w.normalizeUtterance turn.text
    if normalized = [] then none
    else w.compiled.findSome? (w.signalOf idx normalized)
  else none

/-- The turns from an index on. -/
def detectFrom : ℕ → List SpokenTurn → Option OptOutSignal
  | _, [] => none
  | idx, turn :: turns =>
    match w.readTurn idx turn with
    | some signal => some signal
    | none => detectFrom (idx + 1) turns

/-- **`detect_opt_out`**. -/
def detectOptOut (turns : List SpokenTurn) : Option OptOutSignal := w.detectFrom 0 turns

/-! ## What is said and what is found -/

/-- The turn is the caller's and asks not to be called: some pattern matches in it where
nothing before the match asks for another time only. -/
def Asks (turn : SpokenTurn) : Prop :=
  turn.isCaller = true ∧ ∃ pattern ∈ w.compiled,
    ∃ span ∈ pattern.spans (w.normalizeUtterance turn.text),
      w.deferred pattern (w.normalizeUtterance turn.text) span = false

/-- It does so with the leftmost match of a pattern. -/
def AsksLeftmost (turn : SpokenTurn) : Prop :=
  turn.isCaller = true ∧ w.normalizeUtterance turn.text ≠ [] ∧ ∃ pattern ∈ w.compiled,
    ∃ span, pattern.search (w.normalizeUtterance turn.text) = some span ∧
      w.deferred pattern (w.normalizeUtterance turn.text) span = false

/-- A turn of the transcript is the first with a property. -/
def FirstAt (P : SpokenTurn → Prop) (turns : List SpokenTurn) (i : ℕ) : Prop :=
  (∃ turn, turns[i]? = some turn ∧ P turn) ∧
    ∀ j < i, ∀ turn, turns[j]? = some turn → ¬ P turn

/-- Two transcripts with the same caller turns at the same places. -/
def SameCaller : List SpokenTurn → List SpokenTurn → Prop :=
  List.Forall₂ fun turn turn' =>
    turn = turn' ∨ turn.isCaller = false ∧ turn'.isCaller = false

/-- **No spoken opt-out is skipped**: there is a signal just if some turn asks, it names the
first that does, and the other turns have no part in it. -/
structure NoneSkipped (turns : List SpokenTurn) : Prop where
  found : (w.detectOptOut turns).isSome = true ↔ ∃ turn ∈ turns, w.Asks turn
  first : ∀ signal, w.detectOptOut turns = some signal →
    ∃ i, signal.turnIdx = some i ∧ FirstAt w.Asks turns i
  caller : ∀ turns', SameCaller turns turns' → w.detectOptOut turns' = w.detectOptOut turns

variable {w}

/-! ## One turn -/

theorem AsksLeftmost.asks {turn : SpokenTurn} (h : w.AsksLeftmost turn) : w.Asks turn := by
  obtain ⟨hcaller, -, pattern, hpattern, span, hsearch, hdeferred⟩ := h
  exact ⟨hcaller, pattern, hpattern, span, List.argmin_mem hsearch, hdeferred⟩

theorem signalOf_eq_none {idx : ℕ} {normalized : Text} {pattern : OptOutPattern} :
    w.signalOf idx normalized pattern = none ↔
      ∀ span, pattern.search normalized = some span →
        w.deferred pattern normalized span = true := by
  unfold signalOf
  cases pattern.search normalized with
  | none => simp
  | some found => simp

theorem signalOf_turnIdx {idx : ℕ} {normalized : Text} {pattern : OptOutPattern}
    {signal : OptOutSignal} (h : w.signalOf idx normalized pattern = some signal) :
    signal.turnIdx = some idx := by
  unfold signalOf at h
  split at h
  · cases h
  · split at h
    · cases h
    · cases h
      rfl

/-- A turn is passed over just if it does not ask with a leftmost match. -/
theorem readTurn_eq_none {idx : ℕ} {turn : SpokenTurn} :
    w.readTurn idx turn = none ↔ ¬ w.AsksLeftmost turn := by
  unfold readTurn AsksLeftmost
  by_cases hcaller : turn.isCaller = true
  · by_cases hempty : w.normalizeUtterance turn.text = []
    · simp [hcaller, hempty]
    · simp only [hcaller, hempty, if_true, if_false, List.findSome?_eq_none_iff, signalOf_eq_none]
      constructor
      · rintro h ⟨-, -, pattern, hpattern, span, hsearch, hdeferred⟩
        rw [h pattern hpattern span hsearch] at hdeferred
        cases hdeferred
      · intro h pattern hpattern span hsearch
        rw [← Bool.not_eq_false]
        exact fun hdeferred => h ⟨trivial, hempty, pattern, hpattern, span, hsearch, hdeferred⟩
  · simp [hcaller]

theorem readTurn_turnIdx {idx : ℕ} {turn : SpokenTurn} {signal : OptOutSignal}
    (h : w.readTurn idx turn = some signal) : signal.turnIdx = some idx := by
  unfold readTurn at h
  split at h
  · dsimp only at h
    split at h
    · cases h
    · obtain ⟨pattern, -, hpattern⟩ := List.exists_of_findSome?_eq_some h
      exact signalOf_turnIdx hpattern
  · cases h

theorem readTurn_congr {turn turn' : SpokenTurn}
    (h : turn = turn' ∨ turn.isCaller = false ∧ turn'.isCaller = false) (idx : ℕ) :
    w.readTurn idx turn' = w.readTurn idx turn := by
  obtain rfl | ⟨hturn, hturn'⟩ := h
  · rfl
  · simp [readTurn, hturn, hturn']

/-! ## The transcript -/

theorem firstAt_cons_succ {P : SpokenTurn → Prop} {turn : SpokenTurn} {turns : List SpokenTurn}
    {i : ℕ} (hturn : ¬ P turn) (h : FirstAt P turns i) : FirstAt P (turn :: turns) (i + 1) := by
  obtain ⟨⟨found, hfound, hP⟩, hbefore⟩ := h
  refine ⟨⟨found, by simpa using hfound, hP⟩, fun j hj other hother => ?_⟩
  cases j with
  | zero =>
    cases hother
    exact hturn
  | succ j => exact hbefore j (by omega) other (by simpa using hother)

/-- A property that some turn has, some turn has first. -/
theorem exists_firstAt {P : SpokenTurn → Prop} :
    ∀ {turns : List SpokenTurn}, (∃ turn ∈ turns, P turn) → ∃ i, FirstAt P turns i
  | [], h => by simp at h
  | turn :: turns, h => by
    by_cases hturn : P turn
    · exact ⟨0, ⟨turn, rfl, hturn⟩, fun j hj => absurd hj (Nat.not_lt_zero j)⟩
    · obtain ⟨found, hmem, hP⟩ := h
      obtain rfl | hmem := List.mem_cons.mp hmem
      · exact absurd hP hturn
      · obtain ⟨i, hi⟩ := exists_firstAt ⟨found, hmem, hP⟩
        exact ⟨i + 1, firstAt_cons_succ hturn hi⟩

theorem FirstAt.unique {P : SpokenTurn → Prop} {turns : List SpokenTurn} {i j : ℕ}
    (hi : FirstAt P turns i) (hj : FirstAt P turns j) : i = j := by
  obtain ⟨⟨turn, hturn, hP⟩, hbefore⟩ := hi
  obtain ⟨⟨turn', hturn', hP'⟩, hbefore'⟩ := hj
  rcases Nat.lt_trichotomy i j with h | h | h
  · exact absurd hP (hbefore' i h turn hturn)
  · exact h
  · exact absurd hP' (hbefore j h turn' hturn')

/-- **The signal is of the first turn that asks with a leftmost match.** -/
theorem detectFrom_some {turns : List SpokenTurn} {idx : ℕ} {signal : OptOutSignal}
    (h : w.detectFrom idx turns = some signal) :
    ∃ i, signal.turnIdx = some (idx + i) ∧ FirstAt w.AsksLeftmost turns i := by
  induction turns generalizing idx with
  | nil => cases h
  | cons turn turns ih =>
    rw [detectFrom] at h
    split at h
    next found hread =>
      cases h
      have hasks : w.AsksLeftmost turn := by
        by_contra hnot
        rw [(readTurn_eq_none).mpr hnot] at hread
        cases hread
      exact ⟨0, readTurn_turnIdx hread, ⟨turn, rfl, hasks⟩,
        fun j hj => absurd hj (Nat.not_lt_zero j)⟩
    next hread =>
      obtain ⟨i, hidx, hfirst⟩ := ih h
      refine ⟨i + 1, ?_, firstAt_cons_succ ((readTurn_eq_none).mp hread) hfirst⟩
      rw [hidx]
      congr 1
      omega

/-- There is none just if no turn does. -/
theorem detectFrom_eq_none {turns : List SpokenTurn} {idx : ℕ} :
    w.detectFrom idx turns = none ↔ ∀ turn ∈ turns, ¬ w.AsksLeftmost turn := by
  induction turns generalizing idx with
  | nil => simp [detectFrom]
  | cons turn turns ih =>
    rw [detectFrom, List.forall_mem_cons, ← @ih (idx + 1), ← @readTurn_eq_none w idx turn]
    cases w.readTurn idx turn <;> simp

/-- The turns of others change nothing. -/
theorem detectFrom_congr {turns turns' : List SpokenTurn} (h : SameCaller turns turns')
    (idx : ℕ) : w.detectFrom idx turns' = w.detectFrom idx turns := by
  induction h generalizing idx with
  | nil => rfl
  | cons hturn hturns ih => rw [detectFrom, detectFrom, readTurn_congr hturn, ih]

/-- **When none is skipped**: the first turn that asks does so with the leftmost match of
some pattern. -/
theorem noneSkipped_iff (w : OptOutWords) (turns : List SpokenTurn) :
    w.NoneSkipped turns ↔ ∀ i turn, FirstAt w.Asks turns i → turns[i]? = some turn →
      w.AsksLeftmost turn := by
  constructor
  · intro h i turn hfirst hturn
    -- the turn that is reported is the first that asks, and asks with a leftmost match
    obtain ⟨asking, hasking, hasks⟩ := hfirst.1
    have hsome := h.found.mpr ⟨asking, List.mem_of_getElem? hasking, hasks⟩
    obtain ⟨signal, hsignal⟩ := Option.isSome_iff_exists.mp hsome
    obtain ⟨k, hk, hfirst'⟩ := h.first signal hsignal
    obtain ⟨l, hl, ⟨found, hfound, hleftmost⟩, -⟩ := detectFrom_some hsignal
    have hkl : k = l := by
      rw [hk, Nat.zero_add] at hl
      exact Option.some.inj hl
    rw [hfirst.unique hfirst', hkl, hfound] at hturn
    cases hturn
    exact hleftmost
  · intro h
    refine ⟨⟨fun hsome => ?_, fun hasked => ?_⟩, fun signal hsignal => ?_,
      fun turns' hsame => detectFrom_congr hsame 0⟩
    · obtain ⟨signal, hsignal⟩ := Option.isSome_iff_exists.mp hsome
      obtain ⟨i, -, ⟨turn, hturn, hleftmost⟩, -⟩ := detectFrom_some hsignal
      exact ⟨turn, List.mem_of_getElem? hturn, hleftmost.asks⟩
    · obtain ⟨i, hfirst⟩ := exists_firstAt hasked
      obtain ⟨turn, hturn, -⟩ := hfirst.1
      rw [Option.isSome_iff_ne_none]
      exact fun hnone => (detectFrom_eq_none).mp hnone turn (List.mem_of_getElem? hturn)
        (h i turn hfirst hturn)
    · -- no turn before the reported one asks: the first that did would have been reported
      obtain ⟨i, hi, ⟨turn, hturn, hleftmost⟩, hbefore⟩ := detectFrom_some hsignal
      refine ⟨i, by rw [hi, Nat.zero_add], ⟨turn, hturn, hleftmost.asks⟩, ?_⟩
      intro j hj other hother hasks
      obtain ⟨k, hfirst⟩ := exists_firstAt ⟨other, List.mem_of_getElem? hother, hasks⟩
      have hk : k ≤ j := by
        by_contra hlt
        exact hfirst.2 j (by omega) other hother hasks
      obtain ⟨asking, hasking, -⟩ := hfirst.1
      exact hbefore k (by omega) asking hasking (h k asking hfirst hasking)

end OptOutWords

/-! ## One breath -/

/-- The places of a text at which a phrase stands. -/
def phraseSpans (phrase text : Text) : List Span :=
  ((List.range text.length).filter fun i => phrase.isPrefixOf (text.drop i)).map fun i =>
    ⟨i, i + phrase.length⟩

/-- Romanised Telugu: "do not call", and "now". -/
def teluguWords : OptOutWords where
  compiled := [⟨"call_cheyakandi".toList, "te".toList, phraseSpans "call cheyakandi".toList⟩]
  notNow text lo hi :=
    (phraseSpans "ippudu".toList text).any fun span => lo ≤ span.start ∧ span.stop ≤ hi
  lower text := text.map Char.toLower
  isKept c := c.isAlphanum
  redact text := text

/-- "Do not call now. Tomorrow, and ever: do not call." -/
def notNowThenNever : SpokenTurn :=
  ⟨"caller".toList, "Ippudu call cheyakandi. Repu kuda, inka eppudu kuda call cheyakandi.".toList⟩

/-- The turn as the patterns see it. -/
theorem notNowThenNever_normalized : teluguWords.normalizeUtterance notNowThenNever.text =
    "ippudu call cheyakandi repu kuda inka eppudu kuda call cheyakandi".toList := by
  unfold notNowThenNever
  repeat rewrite [String.toList_ofList]
  decide +kernel

theorem notNowThenNever_asks : teluguWords.Asks notNowThenNever := by
  refine ⟨rfl, ⟨"call_cheyakandi".toList, "te".toList, phraseSpans "call cheyakandi".toList⟩,
    List.mem_singleton_self _, ⟨50, 65⟩, ?_, ?_⟩
  · rw [notNowThenNever_normalized]
    repeat rewrite [String.toList_ofList]
    decide +kernel
  · rw [notNowThenNever_normalized]
    unfold OptOutWords.deferred
    repeat rewrite [String.toList_ofList]
    decide +kernel

/-- A caller who says both is not heard. -/
theorem notNowThenNever_skipped : teluguWords.detectOptOut [notNowThenNever] = none ∧
    teluguWords.Asks notNowThenNever ∧ ¬ teluguWords.NoneSkipped [notNowThenNever] := by
  have hnone : teluguWords.detectOptOut [notNowThenNever] = none := by
    rw [OptOutWords.detectOptOut, OptOutWords.detectFrom_eq_none]
    rintro turn hturn ⟨-, -, pattern, hpattern, span, hsearch, hdeferred⟩
    rw [List.mem_singleton.mp hturn, notNowThenNever_normalized] at hsearch hdeferred
    rw [List.mem_singleton.mp hpattern] at hsearch hdeferred
    -- the leftmost match is the first one, behind "now"
    have hfirst : (phraseSpans "call cheyakandi".toList
        "ippudu call cheyakandi repu kuda inka eppudu kuda call cheyakandi".toList).argmin
          Span.start = some ⟨7, 22⟩ := by
      repeat rewrite [String.toList_ofList]
      decide +kernel
    rw [OptOutPattern.search, hfirst] at hsearch
    cases hsearch
    revert hdeferred
    unfold OptOutWords.deferred
    repeat rewrite [String.toList_ofList]
    decide +kernel
  refine ⟨hnone, notNowThenNever_asks, fun h => ?_⟩
  have hsome := h.found.mpr ⟨notNowThenNever, List.mem_singleton_self _, notNowThenNever_asks⟩
  rw [hnone] at hsome
  cases hsome

end Calevate.Compliance
