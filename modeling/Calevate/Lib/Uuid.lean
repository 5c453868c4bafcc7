import Calevate.Lib.Digits

/-!
# UUIDs

A UUID as its thirty-two hexadecimal digits, its text in five groups, and the tolerant reading
of a text as one: a urn's lead, braces and hyphens are passed over. A UUID's own text is read
back as the UUID (`parse?_text`), and holds hexadecimal digits and hyphens only.
-/

namespace Lib

open ClockText (decimal? decimal?_lt)
open Digits

/-- A UUID. -/
structure Uuid where
  digits : List (Fin 16)
  length_eq : digits.length = 32
  deriving DecidableEq

namespace Uuid

def hexChar (d : Fin 16) : Char := Nat.digitChar d

/-- A hexadecimal digit, of either case; a decimal digit of any script is one. -/
def hexValue? (c : Char) : Option (Fin 16) :=
  match decimal? c with
  | some d => some (Fin.ofNat 16 d)
  | none =>
    if 'a' ≤ c ∧ c ≤ 'f' then some (Fin.ofNat 16 (c.toNat - 'a'.toNat + 10))
    else if 'A' ≤ c ∧ c ≤ 'F' then some (Fin.ofNat 16 (c.toNat - 'A'.toNat + 10))
    else none

/-- A text with a hyphen behind each group of these sizes. -/
def grouped : List ℕ → List Char → List Char
  | [], t => t
  | n :: sizes, t => t.take n ++ '-' :: grouped sizes (t.drop n)

/-- `str(UUID)`. -/
def text (u : Uuid) : List Char := grouped [8, 4, 4, 4] (u.digits.map hexChar)

/-- `t.replace(needle, "")`, with the number of characters of a needle still to be passed
over. -/
def removed (needle : List Char) : ℕ → List Char → List Char
  | _, [] => []
  | n + 1, _ :: t => removed needle n t
  | 0, c :: t =>
    if needle.isPrefixOf (c :: t) then removed needle (needle.length - 1) t
    else c :: removed needle 0 t

def isBrace (c : Char) : Bool := c = '\x7b' || c = '\x7d'

/-- `UUID(hex)`, or the `ValueError` it raises. -/
def parse? (t : List Char) : Option Uuid :=
  let bare := removed "uuid:".toList 0 (removed "urn:".toList 0 t)
  let stripped := ((bare.dropWhile isBrace).reverse.dropWhile isBrace).reverse
  match (stripped.filter (· ≠ '-')).mapM hexValue? with
  | none => none
  | some digits => if h : digits.length = 32 then some ⟨digits, h⟩ else none

theorem mem_grouped {sizes : List ℕ} {t : List Char} {c : Char} (h : c ∈ grouped sizes t) :
    c = '-' ∨ c ∈ t := by
  induction sizes generalizing t with
  | nil => exact .inr h
  | cons n sizes ih =>
    rw [grouped, List.mem_append, List.mem_cons] at h
    obtain h | rfl | h := h
    · exact .inr (List.mem_of_mem_take h)
    · exact .inl rfl
    · exact (ih h).imp_right List.mem_of_mem_drop

theorem length_grouped (sizes : List ℕ) (t : List Char) :
    (grouped sizes t).length = t.length + sizes.length := by
  induction sizes generalizing t with
  | nil => rfl
  | cons n sizes ih =>
    rw [grouped, List.length_append, List.length_cons, ih, List.length_take, List.length_drop,
      List.length_cons]
    omega

theorem filter_grouped {sizes : List ℕ} {t : List Char} (h : '-' ∉ t) :
    (grouped sizes t).filter (· ≠ '-') = t := by
  have hself : ∀ s : List Char, '-' ∉ s → s.filter (· ≠ '-') = s := fun s hs =>
    List.filter_eq_self.mpr fun c hc => decide_eq_true fun he => hs (he ▸ hc)
  induction sizes generalizing t with
  | nil => exact hself t h
  | cons n sizes ih =>
    have htake : '-' ∉ t.take n := fun hc => h (List.mem_of_mem_take hc)
    have hdrop : '-' ∉ t.drop n := fun hc => h (List.mem_of_mem_drop hc)
    rw [grouped, List.filter_append, hself _ htake, List.filter_cons_of_neg (by decide), ih hdrop,
      List.take_append_drop]

/-- What a UUID's text is written with. -/
theorem mem_text {u : Uuid} {c : Char} (h : c ∈ u.text) : c = '-' ∨ ∃ d, c = hexChar d := by
  obtain rfl | h := mem_grouped h
  · exact .inl rfl
  · obtain ⟨d, -, rfl⟩ := List.mem_map.mp h
    exact .inr ⟨d, rfl⟩

theorem length_text (u : Uuid) : u.text.length = 36 := by
  rw [text, length_grouped, List.length_map, u.length_eq]
  rfl

/-- A character other than hyphens and hexadecimal digits is not in a UUID's text. -/
theorem notMem_text {c : Char} (hc : c ≠ '-' ∧ ∀ d, c ≠ hexChar d) (u : Uuid) : c ∉ u.text := by
  intro h
  obtain h | ⟨d, h⟩ := mem_text h
  · exact hc.1 h
  · exact hc.2 d h

theorem removed_of_notMem {c : Char} {needle t : List Char} (h : c ∉ t) :
    removed (c :: needle) 0 t = t := by
  induction t with
  | nil => rfl
  | cons d t ih =>
    rw [List.mem_cons, not_or] at h
    rw [removed, if_neg (by simp [h.1]), ih h.2]

theorem dropWhile_of_none {p : Char → Bool} {t : List Char} (h : ∀ c ∈ t, p c = false) :
    t.dropWhile p = t := by
  cases t with
  | nil => rfl
  | cons c t => exact List.dropWhile_cons_of_neg (by simp [h c (List.mem_cons_self ..)])

theorem hexValue?_hexChar (d : Fin 16) : hexValue? (hexChar d) = some d := by
  revert d
  decide

theorem mapM_hexValue? (digits : List (Fin 16)) :
    (digits.map hexChar).mapM hexValue? = some digits := by
  induction digits with
  | nil => rfl
  | cons d digits ih =>
    rw [List.map_cons, List.mapM_cons, hexValue?_hexChar, ih]
    rfl

/-- **A UUID is read back from its text.** -/
theorem parse?_text (u : Uuid) : parse? u.text = some u := by
  have hu : 'u' ∉ u.text := notMem_text (by decide) u
  have hbrace : ∀ c ∈ u.text, isBrace c = false := by
    intro c hc
    obtain rfl | ⟨d, rfl⟩ := mem_text hc
    · rfl
    · clear hc
      revert d
      decide
  have hhyphen : '-' ∉ u.digits.map hexChar := by
    intro h
    obtain ⟨d, -, hd⟩ := List.mem_map.mp h
    revert hd
    revert d
    decide
  have hstripped : ((u.text.dropWhile isBrace).reverse.dropWhile isBrace).reverse = u.text := by
    rw [dropWhile_of_none hbrace, dropWhile_of_none, List.reverse_reverse]
    exact fun c hc => hbrace c (List.mem_reverse.mp hc)
  unfold parse?
  rw [show "urn:".toList = 'u' :: "rn:".toList from rfl,
    show "uuid:".toList = 'u' :: "uid:".toList from rfl, removed_of_notMem hu,
    removed_of_notMem hu]
  dsimp only
  rw [hstripped, text, filter_grouped hhyphen, mapM_hexValue?]
  simp only [u.length_eq, dite_true]

theorem text_inj {u v : Uuid} (h : u.text = v.text) : u = v := by
  have hparse := parse?_text u
  rw [h, parse?_text v] at hparse
  exact (Option.some.inj hparse).symm

end Uuid

end Lib
