import Calevate.Agents.Fence
import Calevate.Lib.Run

/-!
# Values of a call

What a dial sends for the slots of a published prompt: the platform's own values, the client's
caller lookup, the columns of the contact's row. Each text of the client passes the markers' gate
on its way (`unopened_dialVariables`). The engine puts the values in the slots, and drops a slot
nothing is sent for.
-/

namespace Calevate.Agents

open Lib.Text
open Lib.Occurs
open Lib.ClockText (strip isSpace)

/-! ## Dictionaries -/

/-- Names with a value each, in the order they came in. -/
abbrev Values := List (Text × Text)

namespace Values

def names (d : Values) : List Text := d.map (·.1)

/-- The value of a name. -/
def get (d : Values) (name : Text) : Option Text := (d.find? fun pair => pair.1 = name).map (·.2)

/-- A value is put behind the others, or in the place of the name's former one. -/
def put (d : Values) (name value : Text) : Values :=
  if name ∈ d.names then d.map fun pair => if pair.1 = name then (name, value) else pair
  else d ++ [(name, value)]

/-- The values of both, the second's where both have one. -/
def update (d others : Values) : Values := others.foldl (fun d pair => d.put pair.1 pair.2) d

theorem mem_of_get {d : Values} {name value : Text} (h : d.get name = some value) :
    (name, value) ∈ d := by
  obtain ⟨pair, hpair, rfl⟩ := Option.map_eq_some_iff.mp h
  have hname := List.find?_some hpair
  rw [decide_eq_true_eq] at hname
  rw [← hname]
  exact List.mem_of_find?_eq_some hpair

theorem mem_put {d : Values} {name value : Text} {pair : Text × Text}
    (h : pair ∈ d.put name value) : pair ∈ d ∨ pair = (name, value) := by
  unfold put at h
  split at h
  · obtain ⟨former, hformer, rfl⟩ := List.mem_map.mp h
    split
    · exact .inr rfl
    · exact .inl hformer
  · rw [List.mem_append, List.mem_singleton] at h
    exact h

theorem mem_update {d others : Values} {pair : Text × Text} (h : pair ∈ d.update others) :
    pair ∈ d ∨ pair ∈ others := by
  induction others generalizing d with
  | nil => exact .inl h
  | cons other others ih =>
    obtain h | h := ih h
    · obtain h | rfl := mem_put h
      · exact .inl h
      · exact .inr List.mem_cons_self
    · exact .inr (List.mem_cons_of_mem _ h)

end Values

/-! ## Values -/

/-- `CALL_VARIABLE_VALUE_MAX`. -/
def callVariableValueMax : ℕ := 150

/-- `_LABEL_MAX`. -/
def labelMax : ℕ := 40

/-- `CALL_VARIABLES_MAX`. -/
def callVariablesMax : ℕ := 20

/-- `PLATFORM_CALL_VARIABLES`. -/
def platformCallVariables : List Text :=
  ["today".toList, "lead_name".toList, "phone".toList, "call_details".toList,
    "call_reason".toList, "caller_number_hidden".toList, "caller_memory".toList]

/-- `_clip`. -/
def clip (value : Text) (limit : ℕ) : Text :=
  if value.length ≤ limit then value
  else
    let cut := value.take limit
    (match rfind [' '] cut with
    | some space => if limit / 2 < space then cut.take space else cut
    | none => cut).rdropWhile (· ∈ " ,;:".toList)

/-- The runs of characters that are no small letters and no digits, written as `_` each. -/
def foldedFrom : Bool → Text → Text
  | _, [] => []
  | run, c :: t =>
    if ('a' ≤ c ∧ c ≤ 'z') ∨ ('0' ≤ c ∧ c ≤ '9') then c :: foldedFrom false t
    else if run then foldedFrom true t else '_' :: foldedFrom true t

/-- **`call_variable_key`**, with how a header is written in small letters. -/
def callVariableKey (lower : Text → Text) (header : Text) : Option Text :=
  let key := ((foldedFrom false (lower (strip header))).dropWhile (· = '_')).rdropWhile (· = '_')
  if key.head?.any (fun c => 'a' ≤ c ∧ c ≤ 'z') ∧ key.length ≤ 64 then some key else none

/-- `phone_value`. -/
def phoneValue (e164 : Text) : Text :=
  let digits := e164.filter Char.isDigit
  if "+91".toList <+: e164 ∧ digits.length = 12 then digits.drop 2 else digits

namespace Platform

variable (P : Platform)

/-- `_one_line`. -/
def oneLine (value : Text) : Text := P.letters.neutraliseMarkers (flat value)

/-- **`call_variable_value`**. -/
def callVariableValue (value : Text) : Text := clip (P.oneLine value) callVariableValueMax

/-- **`contact_call_variables`**. -/
def contactCallVariables (custom : Values) : Values :=
  custom.foldl (fun out column =>
    match callVariableKey P.words.lower column.1 with
    | none => out
    | some key =>
      if key ∈ platformCallVariables ∨ key ∈ out.names ∨ P.oneLine column.2 = [] then out
      else out ++ [(key, P.callVariableValue column.2)]) []

/-- The columns as items, as long as they fit, behind those there are. -/
def detailItems : List Text → ℕ → Values → List Text
  | items, _, [] => items
  | items, used, (header, raw) :: custom =>
    let label := clip (P.oneLine header) labelMax
    let value := P.oneLine raw
    if label = [] ∨ value = [] then detailItems items used custom
    else
      let item := clip (label ++ ": ".toList ++ value) callVariableValueMax
      let cost := item.length + if items = [] then 0 else 2
      if callVariableValueMax < used + cost then items
      else detailItems (items ++ [item]) (used + cost) custom

/-- **`call_details_value`**. -/
def callDetailsValue (custom : Values) : Text :=
  ((P.detailItems [] 0 custom).intersperse "; ".toList).flatten

/-- `call_reason_value`. -/
def callReasonValue (note : Text) : Text := if note = [] then [] else P.callVariableValue note

end Platform

/-- What a dial has for the slots: a `CallContext`, the number, the day's text. -/
structure Dial where
  number : Text
  leadName : Text
  contextNote : Text
  fields : Values
  contactDetails : Values
  /-- `today_value`. -/
  today : Text
  today_dashless : ∀ c ∈ today, isDash c = false

namespace Platform

variable (P : Platform)

/-- The platform's own values of a dial. -/
def ownValues (dial : Dial) : Values :=
  [("phone".toList, phoneValue dial.number),
    ("call_details".toList, P.callDetailsValue dial.contactDetails),
    ("call_reason".toList, P.callReasonValue dial.contextNote),
    ("lead_name".toList, dial.leadName)].filter fun pair => pair.2 ≠ []

/-- **`_dial_variables`**; none where the dial is refused. -/
def dialVariables (dial : Dial) : Option Values :=
  let passed : Values := (dial.fields.update (P.ownValues dial)).map fun pair =>
    (pair.1, P.callVariableValue pair.2)
  let named := passed.put "today".toList dial.today
  if callVariablesMax < named.length then none
  else
    let extra : Values := ((P.contactCallVariables dial.contactDetails).filter fun pair =>
      pair.1 ∉ named.names).take (callVariablesMax - named.length)
    some (extra.update named)

end Platform

/-! ## Filling -/

/-- A character of a slot's name. -/
def isNameChar (c : Char) : Bool := c.isAlphanum ∨ c = '_'

/-- The name of the slot the text starts with, and the slot's length. -/
def slotAt : Text → Option (Text × ℕ)
  | '\x7b' :: '\x7b' :: t =>
    let inner := t.takeWhile fun c => isNameChar c ∨ c = ' '
    if strip inner ≠ [] ∧ ' ' ∉ strip inner ∧ ['\x7d', '\x7d'] <+: t.drop inner.length then
      some (strip inner, inner.length + 4)
    else none
  | _ => none

/-- What a published prompt is made of, to the engine that fills it. -/
inductive Piece where
  | text (t : Text)
  | slot (name : Text)
  deriving DecidableEq, Repr

/-- The pieces, behind a text that is begun and so many characters of a slot yet to come. -/
def piecesFrom : Text → ℕ → Text → List Piece
  | begun, _, [] => [.text begun]
  | begun, skip + 1, _ :: t => piecesFrom begun skip t
  | begun, 0, c :: t =>
    match slotAt (c :: t) with
    | some (name, length) => .text begun :: .slot name :: piecesFrom [] (length - 1) t
    | none => piecesFrom (begun ++ [c]) 0 t

/-- A piece with the values put in. -/
def Piece.filled (values : Values) : Piece → Text
  | .text t => t
  | .slot name => (values.get name).getD []

/-- The pieces of a prompt with the values put in. -/
def filledPieces (values : Values) (prompt : Text) : List Text :=
  (piecesFrom [] 0 prompt).map (Piece.filled values)

/-- The prompt as the engine fills it. -/
def filledPrompt (values : Values) (prompt : Text) : Text := (filledPieces values prompt).flatten

/-! ## The gate -/

theorem clip_isPrefix (value : Text) (limit : ℕ) : clip value limit <+: value := by
  unfold clip
  dsimp only
  split
  · exact List.prefix_rfl
  · refine (List.rdropWhile_prefix _ _).trans ?_
    split
    · split
      · exact (List.take_prefix _ _).trans (List.take_prefix _ _)
      · exact List.take_prefix _ _
    · exact List.take_prefix _ _

/-- A text without dashes opens no marker. -/
theorem unopened_of_dashless {L : Letters} {t : Text} (h : ∀ c ∈ t, isDash c = false) :
    L.Unopened t := by
  induction t with
  | nil => exact Letters.unopened_nil
  | cons c t ih =>
    exact Letters.unopened_cons.mpr ⟨Letters.not_opens_of_not_dash (h c List.mem_cons_self) t,
      ih fun d hd => h d (List.mem_cons_of_mem c hd)⟩

/-- No value opens a marker. -/
def Values.Unopened (L : Letters) (d : Values) : Prop := ∀ pair ∈ d, L.Unopened pair.2

namespace Platform

variable {P : Platform}

theorem unopened_callVariableValue (value : Text) : P.letters.Unopened (P.callVariableValue value) :=
  (P.letters.neutraliseMarkers_unopened (flat value)).of_part (clip_isPrefix _ _).isInfix

theorem unopened_contactCallVariables (custom : Values) :
    (P.contactCallVariables custom).Unopened P.letters := by
  refine Lib.Run.foldl_inv (fun out column hout => ?_) (fun _ h => absurd h List.not_mem_nil) custom
  intro pair hpair
  split at hpair
  · exact hout pair hpair
  · split at hpair
    · exact hout pair hpair
    · rw [List.mem_append, List.mem_singleton] at hpair
      obtain hpair | rfl := hpair
      · exact hout pair hpair
      · exact unopened_callVariableValue _

/-- **No value a dial sends opens a marker.** -/
theorem unopened_dialVariables {dial : Dial} {values : Values}
    (h : P.dialVariables dial = some values) : values.Unopened P.letters := by
  intro pair hpair
  unfold dialVariables at h
  dsimp only at h
  split at h
  · cases h
  · rw [← Option.some.inj h] at hpair
    obtain hextra | hnamed := Values.mem_update hpair
    · exact unopened_contactCallVariables _ pair (List.mem_filter.mp (List.mem_of_mem_take hextra)).1
    · obtain hpassed | rfl := Values.mem_put hnamed
      · obtain ⟨field, -, rfl⟩ := List.mem_map.mp hpassed
        exact unopened_callVariableValue _
      · exact unopened_of_dashless dial.today_dashless

end Platform

end Calevate.Agents
