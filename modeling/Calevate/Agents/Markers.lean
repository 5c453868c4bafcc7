import Calevate.Agents.OpeningNotices
import Mathlib.Data.List.Infix

/-!
# Markers

The platform's sections in a prompt start with a marker: three dashes, a gap, a word. Text the
platform did not write passes one gate, `neutraliseMarkers`, which turns the runs of dashes
around a word into one dash: what passes it opens no marker (`neutraliseMarkers_unopened`), and
neither does any part of it. Which characters are of a word is given.
-/

namespace Calevate.Agents

open Lib.ClockText (isSpace)

/-- `_DASH`. -/
def isDash (c : Char) : Bool :=
  c = '-' ∨ (0x2010 ≤ c.toNat ∧ c.toNat ≤ 0x2015) ∨ c.toNat = 0x2212 ∨ c.toNat = 0xfe58 ∨
    c.toNat = 0xfe63 ∨ c.toNat = 0xff0d

/-- A character of `_MARKER_GAP`. -/
def isGap (c : Char) : Bool :=
  (isSpace c ∧ c ≠ '\r' ∧ c ≠ '\n') ∨ c.toNat = 0x200b ∨ c.toNat = 0x200c ∨ c.toNat = 0x200d ∨
    c.toNat = 0x2060 ∨ c.toNat = 0xfeff

theorem isGap_of_isDash {c : Char} (h : isDash c = true) : isGap c = false := by
  have hdash : ('-' : Char).toNat = 0x2d := by decide
  simp only [isDash, isGap, isSpace, decide_eq_true_eq, decide_eq_false_iff_not] at h ⊢
  obtain rfl | h := h
  · omega
  · omega

/-- The characters of a word, `\w`: letters and digits are, dashes and gaps are not. -/
structure Letters where
  isWord : Char → Bool
  of_isAlphanum : ∀ c : Char, c.isAlphanum = true → isWord c = true
  dash : ∀ c, isDash c = true → isWord c = false
  gap : ∀ c, isGap c = true → isWord c = false

namespace Letters

variable (L : Letters)

/-- A word comes behind a gap. -/
def leadsWord (t : Text) : Bool := (t.dropWhile isGap).head?.any L.isWord

/-- `_MARKER_OPENING.sub`, behind a run of dashes: a run of three or more before a word is
written as one dash. -/
def openFrom : Text → Text → Text
  | run, [] => run
  | run, c :: t =>
    if isDash c then openFrom (run ++ [c]) t
    else (if 3 ≤ run.length ∧ L.leadsWord (c :: t) then ['—'] else run) ++ c :: openFrom [] t

/-- A run of dashes as `_MARKER_CLOSING.sub` leaves it, behind a word or not. -/
def settle (after : Bool) (run : Text) : Text := if after ∧ 3 ≤ run.length then ['—'] else run

/-- `_MARKER_CLOSING.sub`, behind a run of dashes and, before it, a word or not. -/
def closeFrom : Bool → Text → Text → Text
  | after, run, [] => settle after run
  | after, run, c :: t =>
    if isDash c then closeFrom after (run ++ [c]) t
    else settle after run ++ c :: closeFrom (L.isWord c || (isGap c && after && run = [])) [] t

/-- **`neutralise_markers`**. -/
def neutraliseMarkers (text : Text) : Text := L.closeFrom false [] (L.openFrom [] text)

/-! ## Opening a marker -/

/-- The text starts with three dashes before a word. -/
def Opens : Text → Prop
  | a :: b :: c :: t => isDash a ∧ isDash b ∧ isDash c ∧ L.leadsWord t
  | _ => False

/-- Nowhere do three dashes stand before a word. -/
def Unopened (t : Text) : Prop := ∀ s, s <:+ t → ¬ L.Opens s

variable {L}

theorem leadsWord_cons {c : Char} {t : Text} :
    L.leadsWord (c :: t) = if isGap c then L.leadsWord t else L.isWord c := by
  unfold leadsWord
  rw [List.dropWhile_cons]
  split <;> rfl

theorem leadsWord_dash {c : Char} (h : isDash c = true) (t : Text) :
    L.leadsWord (c :: t) = false := by
  rw [leadsWord_cons, isGap_of_isDash h, L.dash c h]
  rfl

theorem leadsWord_append {s : Text} (h : L.leadsWord s = true) (t : Text) :
    L.leadsWord (s ++ t) = true := by
  induction s with
  | nil => cases h
  | cons d s ih =>
    rw [leadsWord_cons] at h
    rw [List.cons_append, leadsWord_cons]
    split at h
    · rw [if_pos (by assumption)]
      exact ih h
    · rw [if_neg (by assumption)]
      exact h

theorem Opens.append {s : Text} (h : L.Opens s) (t : Text) : L.Opens (s ++ t) := by
  match s, h with
  | a :: b :: c :: s, ⟨ha, hb, hc, hword⟩ => exact ⟨ha, hb, hc, leadsWord_append hword t⟩

/-- What opens no marker contains none. -/
theorem Unopened.not_infix {t m : Text} (h : L.Unopened t) (hm : L.Opens m) : ¬ m <:+: t := by
  rintro ⟨before, after, rfl⟩
  refine h (m ++ after) ?_ (hm.append after)
  exact ⟨before, by rw [List.append_assoc]⟩

theorem Unopened.of_part {s t : Text} (h : L.Unopened t) (hs : s <:+: t) : L.Unopened s := by
  obtain ⟨before, after, rfl⟩ := hs
  intro u hu hopens
  obtain ⟨rest, rfl⟩ := hu
  refine h (u ++ after) ?_ (hopens.append after)
  exact ⟨before ++ rest, by simp only [List.append_assoc]⟩

theorem unopened_nil : L.Unopened [] := by
  intro s hs
  rw [List.suffix_nil.mp hs]
  exact id

theorem unopened_cons {c : Char} {t : Text} :
    L.Unopened (c :: t) ↔ ¬ L.Opens (c :: t) ∧ L.Unopened t := by
  constructor
  · exact fun h => ⟨h _ List.suffix_rfl, fun s hs => h s (hs.trans (List.suffix_cons c t))⟩
  · rintro ⟨hfirst, hrest⟩ s hs
    obtain rfl | hs := List.suffix_cons_iff.mp hs
    · exact hfirst
    · exact hrest s hs

theorem not_opens_of_not_dash {c : Char} (h : isDash c = false) (t : Text) :
    ¬ L.Opens (c :: t) := by
  match t with
  | [] => exact id
  | [_] => exact id
  | b :: d :: t =>
    rintro ⟨hc, -⟩
    rw [h] at hc
    cases hc

/-- A run of dashes before what is no dash opens no marker, if it is short or no word comes
behind it. -/
theorem unopened_run {run : Text} {c : Char} {t : Text} (hrun : ∀ d ∈ run, isDash d = true)
    (hc : isDash c = false) (ht : L.Unopened t)
    (hword : 3 ≤ run.length → L.leadsWord (c :: t) = false) :
    L.Unopened (run ++ c :: t) := by
  induction run with
  | nil => exact (unopened_cons).mpr ⟨not_opens_of_not_dash hc t, ht⟩
  | cons d run ih =>
    have hrest : L.Unopened (run ++ c :: t) :=
      ih (fun e he => hrun e (List.mem_cons_of_mem d he)) fun hlong =>
        hword (hlong.trans (Nat.le_succ _))
    refine (unopened_cons).mpr ⟨?_, hrest⟩
    match run with
    | [] =>
      intro hopens
      cases t with
      | nil => exact hopens
      | cons b t =>
        have hdash := hopens.2.1
        rw [hc] at hdash
        cases hdash
    | [e] =>
      intro hopens
      have hdash := hopens.2.2.1
      rw [hc] at hdash
      cases hdash
    | e :: f :: run =>
      intro hopens
      have hlead : L.leadsWord (run ++ c :: t) = true := hopens.2.2.2
      cases run with
      | nil =>
        rw [List.nil_append, hword (by simp)] at hlead
        cases hlead
      | cons g run =>
        rw [List.cons_append, leadsWord_dash (hrun g (by simp))] at hlead
        cases hlead

theorem unopened_dashes {run : Text} (hrun : ∀ d ∈ run, isDash d = true) : L.Unopened run := by
  have hnone : L.leadsWord [' '] = false := by
    rw [leadsWord_cons, if_pos (by decide)]
    rfl
  have hlonger : L.Unopened (run ++ [' ']) :=
    unopened_run hrun (by decide) unopened_nil fun _ => hnone
  exact hlonger.of_part (List.prefix_append run _).isInfix

/-! ## What the gate leaves -/

theorem dash_append {run : Text} {c : Char} (hrun : ∀ d ∈ run, isDash d = true)
    (hc : isDash c = true) : ∀ d ∈ run ++ [c], isDash d = true := by
  intro d hd
  rw [List.mem_append, List.mem_singleton] at hd
  obtain hd | rfl := hd
  · exact hrun d hd
  · exact hc

theorem dash_em : ∀ d ∈ ['—'], isDash d = true := by
  intro d hd
  rw [List.mem_singleton.mp hd]
  decide

/-- Behind a run of dashes what is left starts with one. -/
theorem openFrom_dash {run : Text} (hne : run ≠ []) (hrun : ∀ d ∈ run, isDash d = true)
    (t : Text) : ∃ d rest, L.openFrom run t = d :: rest ∧ isDash d = true := by
  have hhead : ∀ run : Text, run ≠ [] → (∀ d ∈ run, isDash d = true) → ∀ t : Text,
      ∃ d rest, run ++ t = d :: rest ∧ isDash d = true := by
    intro run hne hrun t
    obtain ⟨d, run, rfl⟩ := List.exists_cons_of_ne_nil hne
    exact ⟨d, run ++ t, rfl, hrun d List.mem_cons_self⟩
  induction t generalizing run with
  | nil =>
    have hnil := hhead run hne hrun []
    rwa [List.append_nil] at hnil
  | cons c t ih =>
    rw [openFrom]
    split
    next hc => exact ih (by simp) (dash_append hrun hc)
    next =>
      split
      · exact hhead _ (by simp) dash_em _
      · exact hhead run hne hrun _

theorem leadsWord_openFrom (t : Text) : L.leadsWord (L.openFrom [] t) = L.leadsWord t := by
  induction t with
  | nil => rfl
  | cons c t ih =>
    rw [openFrom]
    split
    next hc =>
      have hrun : ∀ d ∈ [c], isDash d = true := fun d hd => by rw [List.mem_singleton.mp hd, hc]
      obtain ⟨d, rest, hd, hdash⟩ := L.openFrom_dash (List.cons_ne_nil c []) hrun t
      rw [List.nil_append]
      rw [hd, leadsWord_dash hdash, leadsWord_dash hc]
    next =>
      rw [if_neg (by simp), List.nil_append, leadsWord_cons, leadsWord_cons, ih]

theorem unopened_openFrom {run : Text} (hrun : ∀ d ∈ run, isDash d = true) (t : Text) :
    L.Unopened (L.openFrom run t) := by
  induction t generalizing run with
  | nil => exact unopened_dashes hrun
  | cons c t ih =>
    rw [openFrom]
    split
    next hc => exact ih (dash_append hrun hc)
    next hc =>
      rw [Bool.not_eq_true] at hc
      have hrest : L.Unopened (L.openFrom [] t) := ih (by simp)
      split
      · exact unopened_run dash_em hc hrest (by simp)
      next hleft =>
        refine unopened_run hrun hc hrest fun hlong => ?_
        rw [leadsWord_cons, leadsWord_openFrom, ← leadsWord_cons, ← Bool.not_eq_true]
        exact fun hlead => hleft ⟨hlong, hlead⟩

theorem settle_dash (after : Bool) {run : Text} (hne : run ≠ [])
    (hrun : ∀ d ∈ run, isDash d = true) :
    settle after run ≠ [] ∧ ∀ d ∈ settle after run, isDash d = true := by
  unfold settle
  split
  · exact ⟨by simp, dash_em⟩
  · exact ⟨hne, hrun⟩

theorem closeFrom_dash {run : Text} (hne : run ≠ []) (hrun : ∀ d ∈ run, isDash d = true)
    (after : Bool) (t : Text) :
    ∃ d rest, L.closeFrom after run t = d :: rest ∧ isDash d = true := by
  induction t generalizing run with
  | nil =>
    obtain ⟨hne', hdash⟩ := settle_dash after hne hrun
    obtain ⟨d, rest, hrest⟩ := List.exists_cons_of_ne_nil hne'
    exact ⟨d, rest, hrest, hdash d (by rw [hrest]; exact List.mem_cons_self)⟩
  | cons c t ih =>
    rw [closeFrom]
    split
    next hc => exact ih (by simp) (dash_append hrun hc)
    next =>
      obtain ⟨hne', hdash⟩ := settle_dash after hne hrun
      obtain ⟨d, rest, hrest⟩ := List.exists_cons_of_ne_nil hne'
      refine ⟨d, _, by rw [hrest]; rfl, hdash d (by rw [hrest]; exact List.mem_cons_self)⟩

theorem leadsWord_closeFrom (after : Bool) (t : Text) :
    L.leadsWord (L.closeFrom after [] t) = L.leadsWord t := by
  induction t generalizing after with
  | nil =>
    cases after <;> rfl
  | cons c t ih =>
    rw [closeFrom]
    split
    next hc =>
      have hrun : ∀ d ∈ [c], isDash d = true := fun d hd => by rw [List.mem_singleton.mp hd, hc]
      obtain ⟨d, rest, hd, hdash⟩ := L.closeFrom_dash (List.cons_ne_nil c []) hrun after t
      rw [List.nil_append]
      rw [hd, leadsWord_dash hdash, leadsWord_dash hc]
    next =>
      have hsettle : settle after [] = [] := if_neg (by simp)
      rw [hsettle, List.nil_append, leadsWord_cons, leadsWord_cons, ih]

/-- A run of three dashes or more in what opens no marker stands before no word. -/
theorem Unopened.leadsWord_of_run {run t : Text} (h : L.Unopened (run ++ t))
    (hrun : ∀ d ∈ run, isDash d = true) (hlong : 3 ≤ run.length) : L.leadsWord t = false := by
  induction run with
  | nil => simp at hlong
  | cons d run ih =>
    obtain ⟨hfirst, hrest⟩ := (unopened_cons).mp h
    obtain heq | hlt := Nat.eq_or_lt_of_le hlong
    · match run with
      | [e, f] =>
        rw [← Bool.not_eq_true]
        exact fun hlead => hfirst ⟨hrun d (by simp), hrun e (by simp), hrun f (by simp), hlead⟩
      | [] => simp at heq
      | [_] => simp at heq
      | _ :: _ :: _ :: _ => simp at heq
    · refine ih hrest (fun e he => hrun e (List.mem_cons_of_mem d he)) ?_
      rw [List.length_cons] at hlt
      omega

theorem unopened_closeFrom {run : Text} (hrun : ∀ d ∈ run, isDash d = true) (after : Bool)
    {t : Text} (h : L.Unopened (run ++ t)) : L.Unopened (L.closeFrom after run t) := by
  induction t generalizing run after with
  | nil =>
    rw [closeFrom, settle]
    split
    · exact unopened_dashes dash_em
    · exact unopened_dashes hrun
  | cons c t ih =>
    rw [closeFrom]
    split
    next hc =>
      refine ih (dash_append hrun hc) after ?_
      rw [List.append_assoc]
      exact h
    next hc =>
      rw [Bool.not_eq_true] at hc
      have htail : L.Unopened ([] ++ t) := h.of_part ⟨run ++ [c], [], by simp⟩
      have hrest := ih (fun d hd => absurd hd List.not_mem_nil)
        (L.isWord c || (isGap c && after && run = [])) htail
      unfold settle
      split
      · exact unopened_run dash_em hc hrest (by simp)
      · refine unopened_run hrun hc hrest fun hlong => ?_
        rw [leadsWord_cons, leadsWord_closeFrom, ← leadsWord_cons]
        exact h.leadsWord_of_run hrun hlong

/-- **What passes the gate opens no marker.** -/
theorem neutraliseMarkers_unopened (text : Text) : L.Unopened (L.neutraliseMarkers text) :=
  unopened_closeFrom (by simp) false (unopened_openFrom (by simp) text)

end Letters

end Calevate.Agents
