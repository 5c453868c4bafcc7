import Calevate.Lib.ClockText

/-!
# Digits of every script

The decimal digits of Unicode 15.0 as `unicodedata.decimal` and `str.isdecimal` know them: each
script's ten stand in a row behind its zero (`ClockText.decimalZeros`). `str.isdigit` knows some
further characters, superscripts and numbers in circles, that are no decimals. What is left of a
text when its decimal digits are written in ASCII is left as it is a second time
(`asciiDigits_asciiDigits`).
-/

namespace Lib

namespace Digits

open ClockText (decimalZeros decimal? decimal?_lt)

/-- `str.isdecimal`, of a character. -/
def isDecimal (c : Char) : Bool := (decimal? c).isSome

/-- The further characters `str.isdigit` takes for digits, by their first and last. -/
def otherDigits : List (ℕ × ℕ) :=
  [(0xb2, 0xb3), (0xb9, 0xb9), (0x1369, 0x1371), (0x19da, 0x19da), (0x2070, 0x2070),
    (0x2074, 0x2079), (0x2080, 0x2089), (0x2460, 0x2468), (0x2474, 0x247c), (0x2488, 0x2490),
    (0x24ea, 0x24ea), (0x24f5, 0x24fd), (0x24ff, 0x24ff), (0x2776, 0x277e), (0x2780, 0x2788),
    (0x278a, 0x2792), (0x10a40, 0x10a43), (0x10e60, 0x10e68), (0x11052, 0x1105a),
    (0x1f100, 0x1f10a)]

/-- `str.isdigit`, of a character. -/
def isDigit (c : Char) : Bool :=
  isDecimal c || otherDigits.any fun range => range.1 ≤ c.toNat && c.toNat ≤ range.2

/-- Every decimal digit of a text, written in ASCII, and nothing else of it. -/
def asciiDigits (t : List Char) : List Char := t.filterMap fun c => (decimal? c).map Nat.digitChar

/-- The number that a text of decimal digits spells, in any script. -/
def number? (t : List Char) : Option ℕ :=
  if t = [] then none
  else (t.mapM decimal?).map fun digits => digits.foldl (fun n d => 10 * n + d) 0

theorem decimal?_digitChar {d : ℕ} (h : d < 10) : decimal? d.digitChar = some d := by
  have hall : ∀ d < 10, decimal? d.digitChar = some d := by decide
  exact hall d h

/-- A character that comes out of digits is an ASCII digit. -/
theorem digitChar_of_mem {t : List Char} {c : Char} (h : c ∈ asciiDigits t) :
    ∃ d < 10, c = d.digitChar := by
  obtain ⟨c', -, hc⟩ := List.mem_filterMap.mp h
  obtain ⟨d, hd, rfl⟩ := Option.map_eq_some_iff.mp hc
  exact ⟨d, decimal?_lt hd, rfl⟩

theorem isDigit_digitChar {d : ℕ} (h : d < 10) : d.digitChar.isDigit = true := by
  have hall : ∀ d < 10, (Nat.digitChar d).isDigit = true := by decide
  exact hall d h

/-- The ASCII digits are the ten. -/
theorem exists_digitChar {c : Char} (h : c.isDigit = true) : ∃ d < 10, c = Nat.digitChar d := by
  have hrange : 48 ≤ c.toNat ∧ c.toNat < 58 := by
    simp only [Char.isDigit, Bool.and_eq_true, decide_eq_true_eq, ge_iff_le] at h
    exact ⟨h.1, Nat.lt_succ_of_le h.2⟩
  refine ⟨c.toNat - 48, by omega, Char.toNat_inj.mp ?_⟩
  rw [Nat.toNat_digitChar_of_lt_ten (by omega)]
  omega

theorem asciiDigits_nil : asciiDigits [] = [] := rfl

theorem asciiDigits_append (s t : List Char) :
    asciiDigits (s ++ t) = asciiDigits s ++ asciiDigits t := List.filterMap_append

/-- ASCII digits stay what they are. -/
theorem asciiDigits_of_digits {t : List Char} (h : ∀ c ∈ t, ∃ d < 10, c = Nat.digitChar d) :
    asciiDigits t = t := by
  induction t with
  | nil => rfl
  | cons c t ih =>
    obtain ⟨d, hd, rfl⟩ := h c (List.mem_cons_self ..)
    have htail := ih fun c hc => h c (List.mem_cons_of_mem _ hc)
    rw [asciiDigits] at htail ⊢
    rw [List.filterMap_cons, decimal?_digitChar hd, htail]
    rfl

theorem asciiDigits_asciiDigits (t : List Char) : asciiDigits (asciiDigits t) = asciiDigits t :=
  asciiDigits_of_digits fun _ h => digitChar_of_mem h

/-- An ASCII digit is read as its number. -/
theorem decimal?_of_isDigit {c : Char} (h : c.isDigit = true) :
    decimal? c = some (c.toNat - '0'.toNat) := by
  have hrange : 48 ≤ c.toNat ∧ c.toNat < 58 := by
    simp only [Char.isDigit, Bool.and_eq_true, decide_eq_true_eq, ge_iff_le] at h
    exact ⟨h.1, Nat.lt_succ_of_le h.2⟩
  rw [decimal?, decimalZeros, List.find?_cons_of_pos (by simp; omega)]
  rfl

theorem mapM_decimal? {t : List Char} (h : ∀ c ∈ t, c.isDigit = true) :
    t.mapM decimal? = some (t.map fun c => c.toNat - '0'.toNat) := by
  induction t with
  | nil => rfl
  | cons c t ih =>
    rw [List.mapM_cons, decimal?_of_isDigit (h c (List.mem_cons_self ..)),
      ih fun c hc => h c (List.mem_cons_of_mem _ hc)]
    rfl

/-- **A number in decimal is read back.** -/
theorem number?_toDigits (n : ℕ) : number? (Nat.toDigits 10 n) = some n := by
  have hdigits : ∀ c ∈ Nat.toDigits 10 n, c.isDigit = true := fun c hc =>
    Nat.isDigit_of_mem_toDigits (by decide) (by decide) hc
  rw [number?, if_neg Nat.toDigits_ne_nil, mapM_decimal? hdigits, Option.map_some,
    List.foldl_map, ← Nat.ofDigitChars_eq_foldl, Nat.ofDigitChars_ten_toDigits]

theorem isDigit_of_isDigit {c : Char} (h : c.isDigit = true) : isDigit c = true := by
  rw [isDigit, isDecimal, decimal?_of_isDigit h]
  rfl

end Digits

end Lib
