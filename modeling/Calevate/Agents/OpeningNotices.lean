import Calevate.Lib.Text

/-!
# Opening notices

The AI and recording notices said in an agent's own opening line: the record of the writer
that wove them in, the words of a line that say each notice, and whether first words disclose
the notices switched on. A line says a notice only by the words the record names.
-/

namespace Calevate.Agents

open Lib.Text
open Lib.ClockText (strip)

abbrev Text := List Char

instance : LawfulBEq Text := inferInstance

/-- `OpeningNotices`. -/
structure OpeningNotices where
  line : Text
  ai : Text
  recording : Text
  deriving DecidableEq, Repr

/-- `SaidNotices`: the words of one opening line that say each notice. -/
structure SaidNotices where
  ai : Text
  recording : Text
  deriving DecidableEq, Repr

namespace SaidNotices

/-- `NONE_SAID`. -/
def none : SaidNotices := ⟨[], []⟩

/-- The line holds the words. -/
def Holds (words line : Text) : Prop := strip words ≠ [] ∧ flat words <:+: flat line

instance (words line : Text) : Decidable (Holds words line) :=
  inferInstanceAs (Decidable (_ ∧ _))

/-- **`says_ai_in`**. -/
def SaysAiIn (said : SaidNotices) (line : Text) : Prop := Holds said.ai line

instance (said : SaidNotices) (line : Text) : Decidable (said.SaysAiIn line) :=
  inferInstanceAs (Decidable (Holds _ _))

/-- **`says_recorded_in`**. -/
def SaysRecordedIn (said : SaidNotices) (line : Text) : Prop := Holds said.recording line

instance (said : SaidNotices) (line : Text) : Decidable (said.SaysRecordedIn line) :=
  inferInstanceAs (Decidable (Holds _ _))

/-- A longer line holds what its part does. -/
theorem Holds.of_words {words line line' : Text} (h : Holds words line)
    (hline : Lib.Text.words line <:+: Lib.Text.words line') : Holds words line' :=
  ⟨h.1, h.2.trans (flat_infix_of_words hline)⟩

end SaidNotices

/-- **`said_in`**: the notices the line says by the words woven into it. -/
def saidIn (notices : OpeningNotices) (line : Text) : SaidNotices :=
  if strip line = [] ∨ flat notices.line ≠ flat line then .none
  else
    let said : SaidNotices := ⟨flat notices.ai, flat notices.recording⟩
    ⟨if said.SaysAiIn line then said.ai else [],
      if said.SaysRecordedIn line then said.recording else []⟩

/-- **`first_words_disclose`**. -/
def FirstWordsDisclose (firstWords aiNotice recordingNotice : Text) (said : SaidNotices) : Prop :=
  (strip aiNotice = [] ∨ flat aiNotice <:+: flat firstWords ∨ said.SaysAiIn firstWords) ∧
    (strip recordingNotice = [] ∨ flat recordingNotice <:+: flat firstWords ∨
      said.SaysRecordedIn firstWords)

instance (firstWords aiNotice recordingNotice : Text) (said : SaidNotices) :
    Decidable (FirstWordsDisclose firstWords aiNotice recordingNotice said) :=
  inferInstanceAs (Decidable (_ ∧ _))

end Calevate.Agents
