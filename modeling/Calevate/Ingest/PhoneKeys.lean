import Calevate.Lib.Digits
import Calevate.Lib.Sections

/-!
# Phone keys

One person has one key, the mobile number in its international form. `normalizePhone` drops what
stands between the digits, writes the digits of any script in ASCII, and finds the form by the
number of digits and what they start with. The trunk prefix has no place in the key, and goes away
where a bare number has it; behind an explicit `+91` it is kept. What a spelling of a mobile number
comes to is settled by its signs (`normalizePhone_of_spells`), and every key is a key of its own
(`normalizePhone_key`).
-/

namespace Calevate

namespace Ingest

open Lib Digits
open ClockText (isSpace strip decimal? decimal?_lt)
open Cutting (lstrip rstrip)

/-! ## The key -/

/-- `_E164` -/
def e164 : List Char → Bool
  | '+' :: c :: rest =>
    (c.isDigit && c != '0') && (decide (7 ≤ rest.length) && decide (rest.length ≤ 14)) &&
      rest.all Char.isDigit
  | _ => false

/-- A digit that a mobile number starts with. -/
def startsMobile (c : Char) : Bool := "6789".toList.contains c

/-- The `candidate` of the digits. -/
def candidate (signed : Bool) (digits : List Char) : Option (List Char) :=
  if signed then
    if 10 ≤ digits.length ∧ digits.length ≤ 15 then some ('+' :: digits) else none
  else if digits.length = 10 ∧ digits[0]?.any startsMobile then some ("+91".toList ++ digits)
  else if digits.length = 11 ∧ digits[0]? = some '0' ∧ digits[1]?.any startsMobile then
    some ("+91".toList ++ digits.drop 1)
  else if digits.length = 12 ∧ "91".toList <+: digits then some ('+' :: digits)
  else none

/-- `normalize_phone` -/
def normalizePhone (raw : List Char) : Option (List Char) :=
  let text := strip raw
  if 1 < text.count '+' ∨ ('+' ∈ text ∧ text.head? ≠ some '+') then none
  else (candidate (text.head? == some '+') (asciiDigits text)).filter e164

/-- `_party_e164`: a spelling without a key stays what the vendor said. -/
def partyE164 (raw : Option (List Char)) : Option (List Char) :=
  raw.map fun spelling => (normalizePhone spelling).getD spelling

/-! ## Spellings -/

/-- The signs of a text: its plus signs, and its digits in ASCII. -/
def signs (t : List Char) : List Char :=
  t.filterMap fun c => if c = '+' then some '+' else (decimal? c).map Nat.digitChar

/-- A ten-digit Indian mobile number. -/
structure Mobile where
  digits : List ℕ
  length_eq : digits.length = 10
  lt_ten : ∀ d ∈ digits, d < 10
  first : ∀ d ∈ digits.head?, 6 ≤ d

/-- The number in ASCII. -/
def Mobile.text (m : Mobile) : List Char := m.digits.map Nat.digitChar

/-- The one key of the number. -/
def Mobile.key (m : Mobile) : List Char := "+91".toList ++ m.text

/-- What a number is written behind. -/
inductive Form where
  | bare
  | trunk
  | code
  | plusCode
  | plusCodeTrunk
  deriving DecidableEq

def Form.lead : Form → List Char
  | .bare => []
  | .trunk => "0".toList
  | .code => "91".toList
  | .plusCode => "+91".toList
  | .plusCodeTrunk => "+910".toList

/-- The text spells the number, with anything between its signs and around them. -/
def Spells (form : Form) (m : Mobile) (raw : List Char) : Prop := signs raw = form.lead ++ m.text

/-- A plus sign, where there is one, has only white space ahead of it. -/
def PlusInFront (raw : List Char) : Prop :=
  '+' ∈ raw → ∃ blank behind, raw = blank ++ '+' :: behind ∧ ∀ c ∈ blank, isSpace c = true

/-! ## Signs -/

theorem decimal?_plus : decimal? '+' = none := by decide

theorem digitChar_ne_plus {d : ℕ} (h : d < 10) : d.digitChar ≠ '+' := fun heq => by
  have hread := decimal?_digitChar h
  rw [heq, decimal?_plus] at hread
  exact absurd hread nofun

theorem decimal?_of_isSpace {c : Char} (h : isSpace c = true) : decimal? c = none := by
  have hgap : ∀ z ∈ ClockText.decimalZeros, z = 0x30 ∨ (0xa1 ≤ z ∧ z + 10 ≤ 0x1680) ∨
      (0x1681 ≤ z ∧ z + 10 ≤ 0x2000) ∨ 0x3001 ≤ z := by decide
  rw [decimal?, Option.map_eq_none_iff, List.find?_eq_none]
  intro z hz
  have := hgap z hz
  simp only [isSpace, Bool.decide_or, Bool.decide_and, Bool.or_eq_true, Bool.and_eq_true,
    decide_eq_true_eq] at h ⊢
  omega

theorem asciiDigits_eq_signs (t : List Char) : asciiDigits t = (signs t).filter (· ≠ '+') := by
  induction t with
  | nil => rfl
  | cons c t ih =>
    rw [asciiDigits, signs] at ih ⊢
    by_cases hc : c = '+'
    · subst hc
      rw [List.filterMap_cons, List.filterMap_cons, decimal?_plus, if_pos rfl, ih]
      rfl
    · rw [List.filterMap_cons, List.filterMap_cons, if_neg hc, ih]
      cases hd : decimal? c with
      | none => rfl
      | some d =>
        have hne := digitChar_ne_plus (decimal?_lt hd)
        dsimp only [Option.map_some]
        rw [List.filter_cons_of_pos (by exact decide_eq_true hne)]

theorem count_signs (t : List Char) : (signs t).count '+' = t.count '+' := by
  induction t with
  | nil => rfl
  | cons c t ih =>
    rw [signs] at ih ⊢
    by_cases hc : c = '+'
    · subst hc
      rw [List.filterMap_cons, if_pos rfl, List.count_cons_self, List.count_cons_self, ih]
    · rw [List.filterMap_cons, if_neg hc, List.count_cons_of_ne hc]
      cases hd : decimal? c with
      | none => exact ih
      | some d =>
        rw [Option.map_some, List.count_cons_of_ne (digitChar_ne_plus (decimal?_lt hd)), ih]

theorem signs_append (s t : List Char) : signs (s ++ t) = signs s ++ signs t :=
  List.filterMap_append

theorem signs_space {c : Char} (h : isSpace c = true) : signs [c] = [] := by
  have hc : c ≠ '+' := fun heq => by
    rw [heq] at h
    exact absurd h (by decide)
  rw [signs, List.filterMap_cons, if_neg hc, decimal?_of_isSpace h]
  rfl

/-- White space around a text is none of its signs. -/
theorem signs_strip (t : List Char) : signs (strip t) = signs t := by
  refine Text.strip_invariant (fun c t hc => ?_) (fun t c hc => ?_) t
  · rw [← List.singleton_append, signs_append, signs_space hc, List.nil_append]
  · rw [signs_append, signs_space hc, List.append_nil]

theorem mem_signs {t : List Char} : '+' ∈ signs t ↔ '+' ∈ t := by
  rw [← List.count_pos_iff, ← List.count_pos_iff, count_signs]

theorem head?_strip_iff {raw : List Char} (h : '+' ∈ raw) :
    (strip raw).head? = some '+' ↔ PlusInFront raw := by
  have hparts : strip raw = rstrip (lstrip raw) := rfl
  constructor
  · intro hhead _
    obtain ⟨rest, hrest⟩ := List.head?_eq_some_iff.mp hhead
    obtain ⟨behind, hbehind⟩ := Sections.rstrip_isPrefix (lstrip raw)
    rw [← hparts, hrest, List.cons_append] at hbehind
    refine ⟨raw.takeWhile isSpace, rest ++ behind, ?_, fun c hc => List.mem_takeWhile_imp hc⟩
    rw [hbehind]
    exact (List.takeWhile_append_dropWhile).symm
  · intro hfront
    obtain ⟨blank, behind, rfl, hblank⟩ := hfront h
    have hlstrip : lstrip (blank ++ '+' :: behind) = '+' :: behind := by
      rw [Sections.lstrip_append, if_pos (Sections.blank_iff.mpr hblank)]
      rfl
    rw [hparts, hlstrip, ← List.singleton_append, Sections.rstrip_append]
    split_ifs <;> rfl

/-! ## Keys -/

theorem isDigit_text {m : Mobile} {c : Char} (h : c ∈ m.text) : c.isDigit = true := by
  obtain ⟨d, hd, rfl⟩ := List.mem_map.mp h
  exact isDigit_digitChar (m.lt_ten d hd)

theorem length_text (m : Mobile) : m.text.length = 10 := by
  rw [Mobile.text, List.length_map, m.length_eq]

/-- A number starts with one of the four digits. -/
theorem head_text (m : Mobile) : ∃ c rest, m.text = c :: rest ∧ startsMobile c = true := by
  obtain ⟨digits, length_eq, lt_ten, first⟩ := m
  cases digits with
  | nil => exact absurd length_eq (by decide)
  | cons d digits =>
    have hall : ∀ d < 10, 6 ≤ d → startsMobile (Nat.digitChar d) = true := by decide
    exact ⟨_, _, rfl, hall d (lt_ten d (List.mem_cons_self ..)) (first d rfl)⟩

theorem text_inj {m m' : Mobile} (h : m.text = m'.text) : m = m' := by
  obtain ⟨digits, length_eq, lt_ten, first⟩ := m
  obtain ⟨digits', length_eq', lt_ten', first'⟩ := m'
  have hread : ∀ {ds : List ℕ}, (∀ d ∈ ds, d < 10) →
      (ds.map Nat.digitChar).filterMap decimal? = ds := fun hds => by
    rw [List.filterMap_map]
    exact (List.filterMap_congr fun d hd => decimal?_digitChar (hds d hd)).trans
      List.filterMap_some
  have heq : digits = digits' := by
    rw [← hread lt_ten, ← hread lt_ten']
    exact congrArg _ h
  subst heq
  rfl

/-- What a spelling is kept as. -/
def Form.kept (form : Form) (m : Mobile) : List Char :=
  if form = .plusCodeTrunk then "+910".toList ++ m.text else m.key

/-- A number of India has the shape of an international one. -/
theorem e164_india {rest : List Char} (hdigits : ∀ d ∈ rest, d.isDigit = true)
    (hlo : 7 ≤ rest.length) (hhi : rest.length ≤ 14) : e164 ('+' :: '9' :: rest) = true := by
  rw [e164, List.all_eq_true.mpr hdigits, decide_eq_true hlo, decide_eq_true hhi]
  rfl

/-- **The form is found by the number of digits and what they start with.** -/
theorem candidate_form (form : Form) (m : Mobile) :
    candidate (decide ('+' ∈ form.lead)) (form.lead.filter (· ≠ '+') ++ m.text) =
      some (form.kept m) := by
  obtain ⟨c, rest, htext, hstarts⟩ := head_text m
  have hlength : rest.length = 9 := by
    have := length_text m
    rw [htext, List.length_cons] at this
    exact Nat.succ.inj this
  have hkey : m.key = "+91".toList ++ c :: rest := by rw [Mobile.key, htext]
  rw [Form.kept, hkey, htext, candidate]
  cases form with
  | bare => simp [Form.lead, hlength, hstarts]
  | trunk => simp [Form.lead, hlength, hstarts]
  | code => simp [Form.lead, hlength]
  | plusCode => simp [Form.lead, hlength]
  | plusCodeTrunk => simp [Form.lead, hlength]

theorem e164_kept (form : Form) (m : Mobile) : e164 (form.kept m) = true := by
  have hlength := length_text m
  have hdigits : ∀ d ∈ m.text, d.isDigit = true := fun d hd => isDigit_text hd
  rw [Form.kept]
  split_ifs
  · exact @e164_india ('1' :: '0' :: m.text) (by simpa using hdigits)
      (by simp [hlength]) (by simp [hlength])
  · exact @e164_india ('1' :: m.text) (by simpa using hdigits)
      (by simp [hlength]) (by simp [hlength])

/-- A spelling has a plus sign just if its form has. -/
theorem Spells.mem_plus {form : Form} {m : Mobile} {raw : List Char} (h : Spells form m raw) :
    '+' ∈ raw ↔ '+' ∈ form.lead := by
  rw [← mem_signs, h, List.mem_append, or_iff_left fun hin => absurd (isDigit_text hin) (by decide)]

theorem Spells.asciiDigits {form : Form} {m : Mobile} {raw : List Char} (h : Spells form m raw) :
    asciiDigits (strip raw) = form.lead.filter (· ≠ '+') ++ m.text := by
  rw [asciiDigits_eq_signs, signs_strip, h, List.filter_append]
  congr 1
  rw [List.filter_eq_self]
  refine fun c hc => decide_eq_true fun heq => ?_
  rw [heq] at hc
  exact absurd (isDigit_text hc) (by decide)

/-- **What a spelling of a mobile number comes to.** -/
theorem normalizePhone_of_spells {form : Form} {m : Mobile} {raw : List Char}
    (h : Spells form m raw) (hfront : PlusInFront raw) :
    normalizePhone raw = some (form.kept m) := by
  have hcount : (strip raw).count '+' ≤ 1 := by
    have hone : form.lead.count '+' ≤ 1 := by cases form <;> decide
    have hnone : m.text.count '+' = 0 := List.count_eq_zero.mpr fun hin =>
      absurd (isDigit_text hin) (by decide)
    rw [← count_signs, signs_strip, h, List.count_append, hnone]
    exact hone
  have hmem : '+' ∈ strip raw ↔ '+' ∈ raw := by rw [← mem_signs, signs_strip, mem_signs]
  have hhead : (strip raw).head? = some '+' ↔ '+' ∈ raw := by
    constructor
    · exact fun hhead => hmem.mp (List.mem_of_mem_head? hhead)
    · exact fun hin => (head?_strip_iff hin).mpr hfront
  have hsigned : ((strip raw).head? == some '+') = decide ('+' ∈ form.lead) := by
    rw [Bool.eq_iff_iff, beq_iff_eq, decide_eq_true_iff, hhead, h.mem_plus]
  rw [normalizePhone, if_neg, hsigned, h.asciiDigits, candidate_form,
    Option.filter_some, if_pos (e164_kept form m)]
  rintro (htwo | ⟨hin, hnot⟩)
  · omega
  · exact hnot (hhead.mpr (hmem.mp hin))

/-- A sign with anything ahead of it is refused. -/
theorem normalizePhone_of_behind {raw : List Char} (h : ¬ PlusInFront raw) :
    normalizePhone raw = none := by
  have hin : '+' ∈ raw := by
    by_contra hnot
    exact h fun hin => absurd hin hnot
  have hmem : '+' ∈ strip raw := by rw [← mem_signs, signs_strip, mem_signs]; exact hin
  rw [normalizePhone, if_pos (.inr ⟨hmem, fun hhead => h ((head?_strip_iff hin).mp hhead)⟩)]

/-! ## Results -/

/-- A plus sign and eight to fifteen ASCII digits, the first of them no zero. -/
def International (key : List Char) : Prop :=
  ∃ c rest, key = '+' :: c :: rest ∧ c ≠ '0' ∧ 7 ≤ rest.length ∧ rest.length ≤ 14 ∧
    ∀ d ∈ c :: rest, d.isDigit = true

theorem international_of_e164 {key : List Char} (h : e164 key = true) : International key := by
  revert h
  fun_cases e164 key with
  | case1 c rest =>
    intro h
    simp only [Bool.and_eq_true, bne_iff_ne, ne_eq, decide_eq_true_eq, List.all_eq_true] at h
    obtain ⟨⟨⟨hc, hzero⟩, hlo, hhi⟩, hrest⟩ := h
    exact ⟨c, rest, rfl, hzero, hlo, hhi, List.forall_mem_cons.mpr ⟨hc, hrest⟩⟩
  | case2 => exact nofun

/-- What a candidate is, whatever arm it comes from. -/
theorem exists_candidate {signed : Bool} {digits key : List Char}
    (hdigits : ∀ c ∈ digits, c.isDigit = true) (h : candidate signed digits = some key) :
    ∃ rest, key = '+' :: rest ∧ 10 ≤ rest.length ∧ rest.length ≤ 15 ∧
      ∀ c ∈ rest, c.isDigit = true := by
  have hindia : ∀ rest : List Char, (∀ c ∈ rest, c.isDigit = true) → rest.length = 10 →
      some ("+91".toList ++ rest) = some key →
      ∃ rest, key = '+' :: rest ∧ 10 ≤ rest.length ∧ rest.length ≤ 15 ∧
        ∀ c ∈ rest, c.isDigit = true := fun rest hrest hlength heq =>
    ⟨'9' :: '1' :: rest, (Option.some.inj heq).symm, by simp [hlength], by simp [hlength],
      by simpa using hrest⟩
  rw [candidate] at h
  split_ifs at h with hsigned hlength hten heleven htwelve
  · exact ⟨digits, (Option.some.inj h).symm, hlength.1, hlength.2, hdigits⟩
  · exact hindia digits hdigits hten.1 h
  · exact hindia (digits.drop 1) (fun c hc => hdigits c (List.mem_of_mem_drop hc))
      (by rw [List.length_drop]; omega) h
  · exact ⟨digits, (Option.some.inj h).symm, by omega, by omega, hdigits⟩

theorem isDigit_asciiDigits {t : List Char} {c : Char} (h : c ∈ asciiDigits t) :
    c.isDigit = true := by
  obtain ⟨d, hd, rfl⟩ := digitChar_of_mem h
  exact isDigit_digitChar hd

/-- A text of one sign and digits is taken as it is. -/
theorem normalizePhone_signed {rest : List Char} (hdigits : ∀ c ∈ rest, c.isDigit = true)
    (hlo : 10 ≤ rest.length) (hhi : rest.length ≤ 15) (hshape : e164 ('+' :: rest) = true) :
    normalizePhone ('+' :: rest) = some ('+' :: rest) := by
  have hspace : ∀ c : Char, c.isDigit = true → isSpace c = false := fun c hc => by
    by_contra hspace
    have hread := decimal?_of_isDigit hc
    rw [decimal?_of_isSpace (Bool.not_eq_false _ ▸ hspace)] at hread
    exact absurd hread nofun
  have htight : Text.Tight ('+' :: rest) := by
    refine ⟨fun c hc => ?_, fun c hc => ?_⟩
    · obtain rfl := Option.some.inj hc
      decide
    · rcases List.mem_cons.mp (List.mem_of_mem_getLast? hc) with rfl | hin
      · decide
      · exact hspace c (hdigits c hin)
  have hcount : ('+' :: rest).count '+' = 1 := by
    rw [List.count_cons_self, List.count_eq_zero.mpr fun hin => absurd (hdigits _ hin) (by decide)]
  have hread : asciiDigits ('+' :: rest) = rest := by
    have hnone : asciiDigits ['+'] = [] := by decide
    rw [← List.singleton_append, asciiDigits_append, hnone, List.nil_append]
    refine asciiDigits_of_digits fun c hc => ?_
    exact exists_digitChar (hdigits c hc)
  rw [normalizePhone, htight.strip, hcount, hread, if_neg (by simp)]
  simp [candidate, hlo, hhi, hshape]

/-- **A key is its own key.** -/
theorem normalizePhone_key {raw key : List Char} (h : normalizePhone raw = some key) :
    International key ∧ normalizePhone key = some key := by
  rw [normalizePhone] at h
  split_ifs at h
  obtain ⟨hcandidate, hshape⟩ := Option.filter_eq_some_iff.mp h
  obtain ⟨rest, rfl, hlo, hhi, hdigits⟩ :=
    exists_candidate (fun c hc => isDigit_asciiDigits hc) hcandidate
  exact ⟨international_of_e164 hshape, normalizePhone_signed hdigits hlo hhi hshape⟩

theorem length_key (m : Mobile) : m.key.length = 13 := by
  rw [Mobile.key, List.length_append, length_text]
  rfl

/-- A spelling's key tells the number. -/
theorem kept_inj {form form' : Form} {m m' : Mobile} (h : form.kept m = form'.kept m') :
    m = m' := by
  have hlong : ∀ m : Mobile, ("+910".toList ++ m.text).length = 14 := fun m => by
    rw [List.length_append, length_text]
    rfl
  have hlength := congrArg List.length h
  rw [Form.kept, Form.kept] at h hlength
  split_ifs at h hlength
  · exact text_inj (List.append_cancel_left h)
  · rw [hlong, length_key] at hlength
    exact absurd hlength (by decide)
  · rw [hlong, length_key] at hlength
    exact absurd hlength (by decide)
  · exact text_inj (List.append_cancel_left h)

theorem kept_eq_key_iff {form : Form} {m : Mobile} :
    form.kept m = m.key ↔ form ≠ .plusCodeTrunk := by
  rw [Form.kept]
  split_ifs with hform
  · refine iff_of_false (fun heq => ?_) (not_not.mpr hform)
    have hlength := congrArg List.length heq
    rw [length_key, List.length_append, length_text] at hlength
    exact absurd hlength (by decide)
  · exact iff_of_true rfl hform

/-- **One phone key**: every key is international and its own key, a spelling of a mobile number
comes to the number's key just if it has no trunk prefix behind `+91` and nothing but white space
ahead of a plus sign, and spellings of two numbers share no key. -/
theorem onePhoneKey (raw : List Char) :
    (∀ key, normalizePhone raw = some key →
      International key ∧ normalizePhone key = some key) ∧
    (∀ form m, Spells form m raw →
      (normalizePhone raw = some m.key ↔ form ≠ .plusCodeTrunk ∧ PlusInFront raw)) ∧
    ∀ form form' m m' other key, Spells form m raw → Spells form' m' other →
      normalizePhone raw = some key → normalizePhone other = some key → m = m' := by
  have hfront : ∀ {text key : List Char}, normalizePhone text = some key → PlusInFront text :=
    fun hsome => by
      by_contra hnot
      rw [normalizePhone_of_behind hnot] at hsome
      exact absurd hsome nofun
  refine ⟨fun key h => normalizePhone_key h, fun form m hspells => ?_, ?_⟩
  · constructor
    · intro hkey
      have hplus := hfront hkey
      rw [normalizePhone_of_spells hspells hplus, Option.some_inj] at hkey
      exact ⟨kept_eq_key_iff.mp hkey, hplus⟩
    · rintro ⟨hform, hplus⟩
      rw [normalizePhone_of_spells hspells hplus, kept_eq_key_iff.mpr hform]
  · intro form form' m m' other key hspells hspells' hkey hkey'
    have hplus := hfront hkey
    have hplus' := hfront hkey'
    rw [normalizePhone_of_spells hspells hplus] at hkey
    rw [normalizePhone_of_spells hspells' hplus'] at hkey'
    exact kept_inj (Option.some.inj (hkey.trans hkey'.symm))

def exampleMobile : Mobile where
  digits := [9, 8, 7, 6, 5, 4, 3, 2, 1, 0]
  length_eq := rfl
  lt_ten := by decide
  first := by decide

/-- With the trunk prefix behind the country code, the same number has another key. -/
theorem trunkBehindCode_kept : ¬ ∀ form m raw, Spells form m raw →
    normalizePhone raw = some m.key := by
  intro hall
  have hspells : Spells .plusCodeTrunk exampleMobile "+91 0 98765 43210".toList := by
    rw [Spells]
    decide
  exact absurd (hall _ _ _ hspells) (by decide)

end Ingest

end Calevate
