import Mathlib.Data.List.Nodup
import Mathlib.Data.Set.Finite.Lemmas
import Mathlib.Order.Defs.LinearOrder

/-!
# What arrives late

Things with a time of their own arrive in any order, and again. One that arrives before any
later one is *in time*. A register that lets an arrival no earlier than all before it overrule
what it holds, and any other only fill a gap, ends with what the standing arrival says: the
latest of those that say something and came in time, or the first to come where none did
(`kept_of_stands`). It is what the latest of them says only where the two agree.
-/

namespace Lib

namespace Arrivals

variable {α τ V : Type*} [LinearOrder τ] {time : α → τ} {answer : α → Option V}
variable {order seen : List α} {x y : α}

/-- It arrived before any later one. -/
def InTime (time : α → τ) (order : List α) (x : α) : Prop :=
  ∃ before after, order = before ++ x :: after ∧ ∀ y ∈ before, time y < time x

/-- No other is later. -/
def Newest (time : α → τ) (order : List α) (x : α) : Prop :=
  x ∈ order ∧ ∀ y ∈ order, time y ≤ time x

/-- No other is earlier. -/
def Oldest (time : α → τ) (order : List α) (x : α) : Prop :=
  x ∈ order ∧ ∀ y ∈ order, time x ≤ time y

/-- No other that says something is later. -/
def LastWord (time : α → τ) (answer : α → Option V) (order : List α) (x : α) : Prop :=
  x ∈ order ∧ answer x ≠ none ∧ ∀ y ∈ order, answer y ≠ none → time y ≤ time x

/-- The arrival a register ends with: the latest in time that says something, or the first
that does where none in time did. -/
def Stands (time : α → τ) (answer : α → Option V) (order : List α) (x : α) : Prop :=
  answer x ≠ none ∧
    ((InTime time order x ∧ ∀ y, InTime time order y → answer y ≠ none → time y ≤ time x) ∨
      ((∀ y, InTime time order y → answer y = none) ∧
        ∃ before after, order = before ++ x :: after ∧ ∀ y ∈ before, answer y = none))

/-- No two of them have one time. -/
def Distinct (time : α → τ) (order : List α) : Prop :=
  ∀ x ∈ order, ∀ y ∈ order, time x = time y → x = y

omit [LinearOrder τ] in
theorem Distinct.of_append {more : List α} (h : Distinct time (seen ++ more)) :
    Distinct time seen :=
  fun x hx y hy => h x (List.mem_append_left _ hx) y (List.mem_append_left _ hy)

theorem InTime.mem (h : InTime time order x) : x ∈ order := by
  obtain ⟨before, after, rfl, -⟩ := h
  simp

/-- What was in time stays so. -/
theorem InTime.append (h : InTime time seen x) (more : List α) :
    InTime time (seen ++ more) x := by
  obtain ⟨before, after, rfl, hlate⟩ := h
  exact ⟨before, after ++ more, by simp, hlate⟩

/-- A place in a list with one more at its end. -/
theorem split_concat {before after : List α} (h : seen ++ [x] = before ++ y :: after) :
    (before = seen ∧ y = x) ∨ ∃ between, seen = before ++ y :: between := by
  rcases List.eq_nil_or_concat after with rfl | ⟨between, last, rfl⟩
  · obtain ⟨hseen, hxy⟩ := List.append_inj' h rfl
    exact .inl ⟨hseen.symm, by simpa using hxy.symm⟩
  · rw [List.concat_eq_append, ← List.cons_append, ← List.append_assoc] at h
    exact .inr ⟨between, (List.append_inj' h rfl).1⟩

/-- One more arrival is in time where it is later than all before it, and makes no other so. -/
theorem inTime_concat :
    InTime time (seen ++ [x]) y ↔
      InTime time seen y ∨ (y = x ∧ ∀ z ∈ seen, time z < time x) := by
  constructor
  · rintro ⟨before, after, hsplit, hlate⟩
    rcases split_concat hsplit with ⟨rfl, rfl⟩ | ⟨between, rfl⟩
    · exact .inr ⟨rfl, hlate⟩
    · exact .inl ⟨before, between, rfl, hlate⟩
  · rintro (h | ⟨rfl, hlate⟩)
    · exact h.append [x]
    · exact ⟨seen, [], rfl, hlate⟩

/-- The newest of them was in time. -/
theorem Newest.inTime (hdistinct : Distinct time order) (h : Newest time order x) :
    InTime time order x := by
  obtain ⟨before, after, rfl, hfirst⟩ := List.eq_append_cons_of_mem h.1
  refine ⟨before, after, rfl, fun y hy => lt_of_le_of_ne ?_ fun heq => ?_⟩
  · exact h.2 y (List.mem_append_left _ hy)
  · rw [hdistinct y (List.mem_append_left _ hy) x h.1 heq] at hy
    exact hfirst hy

/-- The newest of a list with one more at its end. -/
theorem newest_concat :
    Newest time (seen ++ [x]) y ↔
      (Newest time seen y ∧ time x ≤ time y) ∨ (y = x ∧ ∀ z ∈ seen, time z ≤ time x) := by
  simp only [Newest, List.mem_append, List.mem_singleton]
  constructor
  · rintro ⟨hmem | rfl, hall⟩
    · exact .inl ⟨⟨hmem, fun z hz => hall z (.inl hz)⟩, hall x (.inr rfl)⟩
    · exact .inr ⟨rfl, fun z hz => hall z (.inl hz)⟩
  · rintro (⟨⟨hmem, hall⟩, hle⟩ | ⟨rfl, hall⟩)
    · refine ⟨.inl hmem, ?_⟩
      rintro z (hz | rfl)
      · exact hall z hz
      · exact hle
    · refine ⟨.inr rfl, ?_⟩
      rintro z (hz | rfl)
      · exact hall z hz
      · exact le_rfl

/-! ## A register that overrules and fills -/

/-- What the register holds behind the arrivals, the last of them first. -/
def keptFrom (time : α → τ) (answer : α → Option V) : List α → Option V
  | [] => none
  | x :: seen =>
    if ∀ y ∈ seen, time y ≤ time x then (answer x).or (keptFrom time answer seen)
    else (keptFrom time answer seen).or (answer x)

/-- What the register holds behind the arrivals. -/
def kept (time : α → τ) (answer : α → Option V) (order : List α) : Option V :=
  keptFrom time answer order.reverse

theorem kept_concat :
    kept time answer (seen ++ [x]) =
      if ∀ y ∈ seen, time y ≤ time x then (answer x).or (kept time answer seen)
      else (kept time answer seen).or (answer x) := by
  simp [kept, keptFrom]

theorem kept_none (h : ∀ y ∈ order, answer y = none) : kept time answer order = none := by
  induction order using List.reverseRecOn with
  | nil => rfl
  | append_singleton seen x ih =>
    have hseen := ih fun y hy => h y (List.mem_append_left _ hy)
    rw [kept_concat, hseen, h x (by simp)]
    simp

/-- Who stands, where one more came that could not change it. -/
theorem Stands.of_concat {s : α} (h : Stands time answer (seen ++ [x]) s)
    (hlast : s = x → (∃ y ∈ seen, answer y ≠ none) ∧ ¬ ∀ y ∈ seen, time y ≤ time x) :
    Stands time answer seen s := by
  obtain ⟨hword, ⟨hin, hmax⟩ | ⟨hnone, before, after, hsplit, hfirst⟩⟩ := h
  · refine ⟨hword, .inl ⟨?_, fun y hy => hmax y (hy.append [x])⟩⟩
    rcases (inTime_concat).mp hin with hin | ⟨heq, hlate⟩
    · exact hin
    · exact absurd (fun y hy => le_of_lt (hlate y hy)) (hlast heq).2
  · refine ⟨hword, .inr ⟨fun y hy => hnone y (hy.append [x]), ?_⟩⟩
    rcases split_concat hsplit with ⟨rfl, heq⟩ | ⟨between, hseen⟩
    · obtain ⟨y, hy, hyes⟩ := (hlast heq).1
      exact absurd (hfirst y hy) hyes
    · exact ⟨before, between, hseen, hfirst⟩

theorem Stands.mem {s : α} (h : Stands time answer order s) : s ∈ order := by
  obtain ⟨-, ⟨hin, -⟩ | ⟨-, before, after, rfl, -⟩⟩ := h
  · exact hin.mem
  · simp

/-- **The register holds what the standing arrival answer.** -/
theorem kept_of_stands {s : α} (hdistinct : Distinct time order)
    (h : Stands time answer order s) : kept time answer order = answer s := by
  induction order using List.reverseRecOn with
  | nil => exact absurd h.mem List.not_mem_nil
  | append_singleton seen x ih =>
    rw [kept_concat]
    by_cases hquiet : answer x = none
    · have hseen := ih hdistinct.of_append (h.of_concat fun heq => absurd (heq ▸ hquiet) h.1)
      simp [hquiet, hseen]
    by_cases hlate : ∀ y ∈ seen, time y ≤ time x
    · -- The newest says something, so it stands.
      have hnewest : Newest time (seen ++ [x]) x := (newest_concat).mpr (.inr ⟨rfl, hlate⟩)
      have hin := hnewest.inTime hdistinct
      have hmem := h.mem
      have hsx : s = x := by
        obtain ⟨-, ⟨-, hmax⟩ | ⟨hnone, -⟩⟩ := h
        · exact hdistinct s hmem x hnewest.1
            (le_antisymm (hnewest.2 s hmem) (hmax x hin hquiet))
        · exact absurd (hnone x hin) hquiet
      rw [if_pos hlate, hsx, Option.or_of_isSome (Option.isSome_iff_ne_none.mpr hquiet)]
    · rw [if_neg hlate]
      by_cases hany : ∃ y ∈ seen, answer y ≠ none
      · have hseen := ih hdistinct.of_append (h.of_concat fun _ => ⟨hany, hlate⟩)
        rw [hseen, Option.or_of_isSome (Option.isSome_iff_ne_none.mpr h.1)]
      · have hsilent : ∀ y ∈ seen, answer y = none := fun y hy =>
          not_not.mp fun hyes => hany ⟨y, hy, hyes⟩
        have hsx : s = x := by
          rcases List.mem_append.mp h.mem with hs | hs
          · exact absurd (hsilent s hs) h.1
          · exact List.mem_singleton.mp hs
        rw [kept_none hsilent, Option.none_or, hsx]

/-- Where one of them says something, one stands. -/
theorem exists_stands (h : ∃ y ∈ order, answer y ≠ none) : ∃ s, Stands time answer order s := by
  by_cases hin : ∃ y, InTime time order y ∧ answer y ≠ none
  · have hfinite : {y | InTime time order y ∧ answer y ≠ none}.Finite :=
      (List.finite_toSet order).subset fun y hy => hy.1.mem
    obtain ⟨s, hs, hmax⟩ := Set.exists_max_image _ time hfinite hin
    exact ⟨s, hs.2, .inl ⟨hs.1, fun y hy hyes => hmax y ⟨hy, hyes⟩⟩⟩
  · obtain ⟨y, hy, hyes⟩ := h
    have hfound : (order.find? fun z => (answer z).isSome).isSome :=
      List.find?_isSome.mpr ⟨y, hy, Option.isSome_iff_ne_none.mpr hyes⟩
    obtain ⟨s, hs⟩ := Option.isSome_iff_exists.mp hfound
    obtain ⟨hword, before, after, hsplit, hfirst⟩ := List.find?_eq_some_iff_append.mp hs
    refine ⟨s, Option.isSome_iff_ne_none.mp hword, .inr ⟨fun z hz => ?_, before, after, hsplit,
      fun z hz => by simpa using hfirst z hz⟩⟩
    exact not_not.mp fun hyes => hin ⟨z, hz, hyes⟩

/-- **The register ends with the last word just where the standing arrival says the same.** -/
theorem kept_lastWord_iff (hdistinct : Distinct time order) :
    (∀ w, LastWord time answer order w → kept time answer order = answer w) ↔
      ∀ s w, Stands time answer order s → LastWord time answer order w → answer s = answer w := by
  constructor
  · intro h s w hs hw
    rw [← kept_of_stands hdistinct hs, h w hw]
  · intro h w hw
    obtain ⟨s, hs⟩ : ∃ s, Stands time answer order s := exists_stands ⟨w, hw.1, hw.2.1⟩
    rw [kept_of_stands hdistinct hs, h s w hs hw]

end Arrivals

end Lib
