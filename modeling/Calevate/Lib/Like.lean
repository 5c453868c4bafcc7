import Mathlib.Data.List.Forall2
import Mathlib.Data.List.Infix

/-!
# Patterns of `LIKE`

A pattern as the database reads it: an underscore stands for any one character, a percent
sign for any number of them, a backslash takes the next character as it is. What a pattern
without these at its start ahead of a last percent sign matches are the texts that begin with
what the start stands for (`like_start`): an underscore at the start matches more than itself.
-/

namespace Lib

namespace Like

/-- What one place of a pattern asks for. -/
inductive Token where
  | exactly (c : Char)
  | one
  | many
  deriving DecidableEq

/-- A pattern's tokens; a pattern that ends in the escape is an error. -/
def read : List Char → Option (List Token)
  | [] => some []
  | ['\\'] => none
  | '\\' :: c :: pattern => (read pattern).map (.exactly c :: ·)
  | '_' :: pattern => (read pattern).map (.one :: ·)
  | '%' :: pattern => (read pattern).map (.many :: ·)
  | c :: pattern => (read pattern).map (.exactly c :: ·)

/-- The tokens ask for the text. -/
def accepts : List Token → List Char → Bool
  | [], text => text.isEmpty
  | .exactly c :: tokens, text =>
    match text with
    | [] => false
    | d :: text => c == d && accepts tokens text
  | .one :: tokens, text =>
    match text with
    | [] => false
    | _ :: text => accepts tokens text
  | .many :: tokens, text => text.tails.any (accepts tokens)

/-- `text LIKE pattern`. -/
def like (text pattern : List Char) : Bool :=
  match read pattern with
  | none => false
  | some tokens => accepts tokens text

/-- The start of a pattern stands for the start of a text: an underscore for any character,
every other character for itself. -/
def StandsFor : List Char → List Char → Prop :=
  List.Forall₂ fun p c => p = '_' ∨ p = c

theorem standsFor_refl (p : List Char) : StandsFor p p := by
  induction p with
  | nil => exact .nil
  | cons c p ih => exact .cons (.inr rfl) ih

/-- Without an underscore it stands for itself only. -/
theorem StandsFor.eq {p t : List Char} (h : StandsFor p t) (hp : '_' ∉ p) : t = p := by
  induction h with
  | nil => rfl
  | cons hc _ ih =>
    rw [List.mem_cons, not_or] at hp
    obtain rfl | rfl := hc
    · exact absurd rfl hp.1
    · rw [ih hp.2]

theorem standsFor_append {p q t : List Char} : StandsFor (p ++ q) t ↔
    ∃ s r, t = s ++ r ∧ StandsFor p s ∧ StandsFor q r := by
  constructor
  · intro h
    obtain ⟨hp, hq⟩ : StandsFor p (t.take p.length) ∧ StandsFor q (t.drop p.length) := by
      induction p generalizing t with
      | nil => exact ⟨.nil, h⟩
      | cons c p ih =>
        cases h with
        | cons hc h =>
          obtain ⟨hs, hr⟩ := ih h
          exact ⟨.cons hc hs, hr⟩
    exact ⟨_, _, (List.take_append_drop _ t).symm, hp, hq⟩
  · rintro ⟨s, r, rfl, hp, hq⟩
    induction hp with
    | nil => exact hq
    | cons hc _ ih => exact .cons hc ih

/-- The token of one character that is no escape. -/
def tokenOf (c : Char) : Token :=
  if c = '_' then .one else .exactly c

theorem read_append_many {start : List Char} (h : ∀ c ∈ start, c ≠ '%' ∧ c ≠ '\\') :
    read (start ++ ['%']) = some (start.map tokenOf ++ [.many]) := by
  induction start with
  | nil => rfl
  | cons c start ih =>
    obtain ⟨hpercent, hescape⟩ := h c (List.mem_cons_self ..)
    have hrest := ih fun c hc => h c (List.mem_cons_of_mem _ hc)
    by_cases hone : c = '_'
    · subst hone
      rw [List.cons_append, read, hrest]
      rfl
    · have hread : read (c :: (start ++ ['%'])) =
          (read (start ++ ['%'])).map (.exactly c :: ·) := by
        rw [read.eq_def]
        split <;> simp_all
      rw [List.cons_append, hread, hrest]
      simp [tokenOf, hone]

theorem accepts_many (text : List Char) : accepts [.many] text = true := by
  rw [accepts, List.any_eq_true]
  exact ⟨[], (List.mem_tails _ _).mpr (List.nil_suffix), rfl⟩

theorem accepts_start {start text : List Char} :
    accepts (start.map tokenOf ++ [.many]) text = true ↔
      ∃ head rest, text = head ++ rest ∧ StandsFor start head := by
  induction start generalizing text with
  | nil => exact iff_of_true (accepts_many text) ⟨[], text, rfl, .nil⟩
  | cons p start ih =>
    cases text with
    | nil =>
      refine iff_of_false ?_ ?_
      · by_cases hone : p = '_' <;> simp [tokenOf, hone, accepts]
      · rintro ⟨head, rest, htext, hhead⟩
        cases hhead
        cases htext
    | cons c text =>
      have hstep : accepts ((p :: start).map tokenOf ++ [.many]) (c :: text) = true ↔
          (p = '_' ∨ p = c) ∧ accepts (start.map tokenOf ++ [.many]) text = true := by
        by_cases hone : p = '_' <;> simp [tokenOf, hone, accepts]
      rw [hstep, ih]
      constructor
      · rintro ⟨hc, head, rest, rfl, hhead⟩
        exact ⟨c :: head, rest, rfl, .cons hc hhead⟩
      · rintro ⟨head, rest, htext, hhead⟩
        cases hhead with
        | cons hc hhead =>
          obtain ⟨rfl, rfl⟩ := List.cons_eq_cons.mp htext
          exact ⟨hc, _, rest, rfl, hhead⟩

/-- **A pattern that ends in its only percent sign** matches the texts that begin with what
its start stands for. -/
theorem like_start {start text : List Char} (h : ∀ c ∈ start, c ≠ '%' ∧ c ≠ '\\') :
    like text (start ++ ['%']) = true ↔
      ∃ head rest, text = head ++ rest ∧ StandsFor start head := by
  rw [like, read_append_many h]
  exact accepts_start

end Like

end Lib
