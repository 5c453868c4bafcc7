import Calevate.Agents.Floors
import Calevate.Agents.CallValues

/-!
# Marker-free texts

A text is free of markers if no run of three dashes or more touches a word, before it or behind
it, across gaps. The gate leaves such a text, leaves such a text alone, and no part of one has a
marker: the values a call puts into a prompt are cut and joined behind the gate, and stay free of
markers (`unforgeable`). The platform's text of a prompt is then the prompt without the one
fenced script.
-/

namespace Calevate.Agents

open Lib.Text
open Lib.Occurs
open Lib.ClockText (strip isSpace)

namespace Letters

variable (L : Letters)

/-- No run of three dashes or more has a word before it or behind it. -/
def MarkerFree (t : Text) : Prop :=
  ∀ before run after, t = before ++ (run ++ after) → (∀ d ∈ run, isDash d = true) →
    3 ≤ run.length → L.leadsWord before.reverse = false ∧ L.leadsWord after = false

/-- A line's end, a colon and a semicolon are of no word. -/
def Punctuates : Prop := ∀ c ∈ ['\n', ':', ';'], L.isWord c = false

variable {L}

theorem mem_reverse_dash {run : Text} (h : ∀ d ∈ run, isDash d = true) :
    ∀ d ∈ run.reverse, isDash d = true := fun d hd => h d (List.mem_reverse.mp hd)

/-- No marker is opened, read from either end. -/
theorem markerFree_iff {t : Text} : L.MarkerFree t ↔ L.Unopened t ∧ L.Unopened t.reverse := by
  have hends : ∀ {t : Text}, L.MarkerFree t → L.Unopened t := by
    rintro t h s ⟨before, rfl⟩ hopens
    match s, hopens with
    | a :: b :: c :: s, ⟨ha, hb, hc, hlead⟩ =>
      have hfree := h before [a, b, c] s rfl (by simp [ha, hb, hc]) (by simp)
      rw [hfree.2] at hlead
      cases hlead
  have hreverse : ∀ {t : Text}, L.MarkerFree t → L.MarkerFree t.reverse := by
    intro t h before run after ht hrun hlong
    have hflip : t = after.reverse ++ (run.reverse ++ before.reverse) := by
      rw [← List.reverse_reverse t, ht]
      simp only [List.reverse_append, List.append_assoc]
    obtain ⟨hafter, hbefore⟩ := h _ _ _ hflip (mem_reverse_dash hrun) (by simpa using hlong)
    rw [List.reverse_reverse] at hafter
    exact ⟨hbefore, hafter⟩
  constructor
  · exact fun h => ⟨hends h, hends (hreverse h)⟩
  · rintro ⟨hopen, hclose⟩ before run after rfl hrun hlong
    have hflip : (before ++ (run ++ after)).reverse =
        after.reverse ++ (run.reverse ++ before.reverse) := by
      simp only [List.reverse_append, List.append_assoc]
    rw [hflip] at hclose
    refine ⟨Unopened.leadsWord_of_run (hclose.of_part (List.suffix_append _ _).isInfix)
      (mem_reverse_dash hrun) (by simpa using hlong), ?_⟩
    exact Unopened.leadsWord_of_run (hopen.of_part (List.suffix_append _ _).isInfix) hrun hlong

theorem MarkerFree.of_part {s t : Text} (h : L.MarkerFree t) (hs : s <:+: t) : L.MarkerFree s := by
  obtain ⟨hopen, hclose⟩ := (markerFree_iff).mp h
  exact (markerFree_iff).mpr ⟨hopen.of_part hs, hclose.of_part (List.reverse_infix.mpr hs)⟩

theorem markerFree_nil : L.MarkerFree [] := (markerFree_iff).mpr ⟨unopened_nil, unopened_nil⟩

/-! ## What the gate leaves, read from its end -/

/-- A run of dashes before what starts with none opens no marker, if it is short or no word comes
behind it. -/
theorem unopened_run_append {run back : Text} (hrun : ∀ d ∈ run, isDash d = true)
    (hback : L.Unopened back) (hhead : back.head?.all (!isDash ·) = true)
    (hword : 3 ≤ run.length → L.leadsWord back = false) : L.Unopened (run ++ back) := by
  cases back with
  | nil =>
    rw [List.append_nil]
    exact unopened_dashes hrun
  | cons c back =>
    have hc : isDash c = false := by simpa using hhead
    exact unopened_run hrun hc (unopened_cons.mp hback).2 hword

theorem settle_short {after : Bool} {run : Text} (h : 3 ≤ (settle after run).length) :
    after = false := by
  unfold settle at h
  split at h
  · simp at h
  next hleft =>
    rw [Bool.eq_false_iff]
    exact fun hafter => hleft ⟨hafter, h⟩

theorem settle_dashes (after : Bool) {run : Text} (hrun : ∀ d ∈ run, isDash d = true) :
    ∀ d ∈ settle after run, isDash d = true := by
  unfold settle
  split
  · exact dash_em
  · exact hrun

/-- A word that ends at `c`, behind a run of dashes and, before it, a word or not. -/
theorem leadsWord_settle (after : Bool) {run : Text} (hrun : ∀ d ∈ run, isDash d = true)
    {c : Char} {back : Text} (hafter : L.leadsWord back = after) :
    L.leadsWord (c :: ((settle after run).reverse ++ back)) =
      (L.isWord c || (isGap c && after && run = [])) := by
  rw [leadsWord_cons]
  split
  next hgap =>
    rw [L.gap c hgap, hgap, Bool.false_or, Bool.true_and]
    cases run with
    | nil =>
      have hsettle : settle after [] = [] := if_neg (by simp)
      rw [hsettle, List.reverse_nil, List.nil_append, hafter]
      simp
    | cons d run =>
      obtain ⟨hne, hdash⟩ := settle_dash after (List.cons_ne_nil d run) hrun
      obtain ⟨e, rest, hrest⟩ := List.exists_cons_of_ne_nil (mt List.reverse_eq_nil_iff.mp hne)
      have he : isDash e = true := by
        refine mem_reverse_dash hdash e ?_
        rw [hrest]
        exact List.mem_cons_self
      rw [hrest, List.cons_append, leadsWord_dash he]
      simp
  next hgap =>
    rw [Bool.not_eq_true] at hgap
    rw [hgap, Bool.false_and, Bool.false_and, Bool.or_false]

/-- What is written behind `out`, read from its end, opens no marker either. -/
theorem unclosed_closeFrom (run : Text) (hrun : ∀ d ∈ run, isDash d = true) (out : Text)
    (hout : L.Unopened out.reverse) (hhead : out.reverse.head?.all (!isDash ·) = true)
    {after : Bool} (hafter : L.leadsWord out.reverse = after) (t : Text) :
    L.Unopened (out ++ L.closeFrom after run t).reverse := by
  -- A run is settled once what comes behind it is known to be no dash.
  have hsettled : ∀ {run : Text}, (∀ d ∈ run, isDash d = true) → ∀ {out : Text} {after : Bool},
      L.Unopened out.reverse → out.reverse.head?.all (!isDash ·) = true →
      L.leadsWord out.reverse = after →
        L.Unopened ((settle after run).reverse ++ out.reverse) := by
    intro run hrun out after hout hhead hafter
    have hdashes := mem_reverse_dash (settle_dashes after hrun)
    refine unopened_run_append hdashes hout hhead fun hlong => ?_
    rw [List.length_reverse] at hlong
    rw [hafter, settle_short hlong]
  induction t generalizing out run after with
  | nil =>
    rw [closeFrom, List.reverse_append]
    exact hsettled hrun hout hhead hafter
  | cons c t ih =>
    rw [closeFrom]
    split
    next hc => exact ih _ (dash_append hrun hc) out hout hhead hafter
    next hc =>
      rw [Bool.not_eq_true] at hc
      have hnext : (out ++ (settle after run ++ [c])).reverse =
          c :: ((settle after run).reverse ++ out.reverse) := by
        simp
      have hrest := ih [] (fun d hd => absurd hd List.not_mem_nil)
        (out ++ (settle after run ++ [c]))
        (by
          rw [hnext]
          exact unopened_cons.mpr
            ⟨not_opens_of_not_dash hc _, hsettled hrun hout hhead hafter⟩)
        (by rw [hnext]; simp [hc])
        (by rw [hnext, leadsWord_settle after hrun hafter])
      simpa only [List.append_assoc, List.singleton_append] using hrest

/-- **What passes the gate is free of markers.** -/
theorem markerFree_neutraliseMarkers (t : Text) : L.MarkerFree (L.neutraliseMarkers t) := by
  refine (markerFree_iff).mpr ⟨neutraliseMarkers_unopened t, ?_⟩
  exact unclosed_closeFrom [] (by simp) [] unopened_nil rfl rfl (L.openFrom [] t)

/-! ## What the gate leaves alone -/

theorem openFrom_of_unopened {run t : Text} (hrun : ∀ d ∈ run, isDash d = true)
    (h : L.Unopened (run ++ t)) : L.openFrom run t = run ++ t := by
  induction t generalizing run with
  | nil => rw [openFrom, List.append_nil]
  | cons c t ih =>
    have hrest : L.openFrom [] t = t := ih (by simp) (h.of_part ⟨run ++ [c], [], by simp⟩)
    rw [openFrom]
    split
    next hc =>
      rw [ih (dash_append hrun hc) (by rwa [List.append_assoc]), List.append_assoc]
      rfl
    next =>
      have hkept : ¬ (3 ≤ run.length ∧ L.leadsWord (c :: t) = true) := by
        rintro ⟨hlong, hlead⟩
        rw [h.leadsWord_of_run hrun hlong] at hlead
        cases hlead
      rw [if_neg hkept, hrest]

theorem closeFrom_of_unopened (run : Text) (hrun : ∀ d ∈ run, isDash d = true) (out : Text)
    {t : Text} (h : L.Unopened (out ++ (run ++ t)).reverse) (after : Bool)
    (hafter : L.leadsWord out.reverse = after) : L.closeFrom after run t = run ++ t := by
  -- A long run has no word before it.
  have hsettled : ∀ {run out t : Text}, (∀ d ∈ run, isDash d = true) →
      L.Unopened (out ++ (run ++ t)).reverse → ∀ {after : Bool},
        L.leadsWord out.reverse = after → settle after run = run := by
    intro run out t hrun h after hafter
    refine if_neg fun hlong => ?_
    have hpart : L.Unopened (run.reverse ++ out.reverse) :=
      h.of_part ⟨t.reverse, [], by simp⟩
    have hnone := hpart.leadsWord_of_run (mem_reverse_dash hrun) (by simpa using hlong.2)
    rw [hafter, hlong.1] at hnone
    cases hnone
  induction t generalizing out run after with
  | nil => rw [closeFrom, hsettled hrun h hafter, List.append_nil]
  | cons c t ih =>
    rw [closeFrom]
    split
    next hc =>
      rw [ih _ (dash_append hrun hc) out (by rwa [List.append_assoc]) after hafter,
        List.append_assoc]
      rfl
    next hc =>
      have hkept : settle after run = run := hsettled hrun h hafter
      have hlead := leadsWord_settle after hrun (c := c) hafter
      rw [hkept] at hlead
      have hrest := ih [] (fun d hd => absurd hd List.not_mem_nil) (out ++ (run ++ [c]))
        (by simpa only [List.append_assoc, List.nil_append, List.singleton_append] using h)
        (L.isWord c || (isGap c && after && run = []))
        (by
          rw [← hlead]
          simp)
      rw [hkept, hrest, List.nil_append]

/-- **A text free of markers passes the gate as it is.** -/
theorem neutraliseMarkers_of_markerFree {t : Text} (h : L.MarkerFree t) :
    L.neutraliseMarkers t = t := by
  obtain ⟨hopen, hclose⟩ := (markerFree_iff).mp h
  have hopened : L.openFrom [] t = t := openFrom_of_unopened (by simp) hopen
  rw [neutraliseMarkers, hopened]
  exact closeFrom_of_unopened [] (by simp) [] hclose false rfl

end Letters

/-! ## Joined texts -/

namespace Letters

variable {L : Letters}

theorem leadsWord_of_append {s t : Text} (h : L.leadsWord (s ++ t) = true) :
    L.leadsWord s = true ∨ L.leadsWord t = true := by
  induction s with
  | nil => exact .inr h
  | cons c s ih =>
    rw [List.cons_append, leadsWord_cons] at h
    rw [leadsWord_cons]
    split at h
    · rw [if_pos (by assumption)]
      exact ih h
    · rw [if_neg (by assumption)]
      exact .inl h

/-- A marker that starts ahead of what is neither dash nor word ends there. -/
theorem unopened_append_cons {a b : Text} {c : Char} (hc : isDash c = false)
    (hlead : L.leadsWord (c :: b) = false) (ha : L.Unopened a) (hb : L.Unopened b) :
    L.Unopened (a ++ c :: b) := by
  induction a with
  | nil => exact unopened_cons.mpr ⟨not_opens_of_not_dash hc b, hb⟩
  | cons d a ih =>
    obtain ⟨hfirst, hrest⟩ := unopened_cons.mp ha
    refine unopened_cons.mpr ⟨fun hopens => ?_, ih hrest⟩
    match a with
    | [] =>
      cases b with
      | nil => exact hopens
      | cons e b =>
        have hdash := hopens.2.1
        rw [hc] at hdash
        cases hdash
    | [e] =>
      have hdash := hopens.2.2.1
      rw [hc] at hdash
      cases hdash
    | e :: f :: a =>
      obtain ⟨hd, he, hf, hword⟩ := hopens
      obtain hword | hword := leadsWord_of_append hword
      · exact hfirst ⟨hd, he, hf, hword⟩
      · rw [hlead] at hword
        cases hword

/-- Two texts free of markers stay so around what is no dash, no gap and of no word. -/
theorem MarkerFree.append_cons {a b : Text} (ha : L.MarkerFree a) (hb : L.MarkerFree b) {c : Char}
    (hdash : isDash c = false) (hgap : isGap c = false) (hword : L.isWord c = false) :
    L.MarkerFree (a ++ c :: b) := by
  have hlead : ∀ t, L.leadsWord (c :: t) = false := by
    intro t
    rw [leadsWord_cons, hgap]
    exact hword
  obtain ⟨haopen, haclose⟩ := (markerFree_iff).mp ha
  obtain ⟨hbopen, hbclose⟩ := (markerFree_iff).mp hb
  refine (markerFree_iff).mpr ⟨unopened_append_cons hdash (hlead _) haopen hbopen, ?_⟩
  have hflip : (a ++ c :: b).reverse = b.reverse ++ c :: a.reverse := by
    simp
  rw [hflip]
  exact unopened_append_cons hdash (hlead _) hbclose haclose

theorem MarkerFree.cons_blank {t : Text} (h : L.MarkerFree t) : L.MarkerFree (' ' :: t) := by
  have hlead : L.leadsWord [' '] = false := by
    rw [leadsWord_cons, if_pos (by decide)]
    rfl
  obtain ⟨hopen, hclose⟩ := (markerFree_iff).mp h
  refine (markerFree_iff).mpr
    ⟨unopened_cons.mpr ⟨not_opens_of_not_dash (by decide) t, hopen⟩, ?_⟩
  rw [List.reverse_cons]
  exact unopened_append_cons (by decide) hlead hclose unopened_nil

/-- A dash of a list stands alone. -/
theorem MarkerFree.cons_bullet {t : Text} (h : L.MarkerFree t) :
    L.MarkerFree ('-' :: ' ' :: t) := by
  have hlead : L.leadsWord [' ', '-'] = false := by
    rw [leadsWord_cons, if_pos (by decide)]
    exact leadsWord_dash (by decide) []
  have hsingle : L.Unopened ['-'] := unopened_dashes (by simp [isDash])
  obtain ⟨hopen, -⟩ := (markerFree_iff).mp h.cons_blank
  obtain ⟨-, hclose⟩ := (markerFree_iff).mp h
  refine (markerFree_iff).mpr ⟨unopened_cons.mpr ⟨?_, hopen⟩, ?_⟩
  · intro hopens
    cases t with
    | nil => exact hopens
    | cons c t =>
      have hdash := hopens.2.1
      revert hdash
      decide
  · have hflip : ('-' :: ' ' :: t).reverse = t.reverse ++ ' ' :: ['-'] := by
      simp
    rw [hflip]
    exact unopened_append_cons (by decide) hlead hclose hsingle

theorem markerFree_unlines (hL : L.Punctuates) {ls : List Text} (h : ∀ l ∈ ls, L.MarkerFree l) :
    L.MarkerFree (unlines ls) := by
  induction ls with
  | nil => exact markerFree_nil
  | cons l ls ih =>
    cases ls with
    | nil => exact h l List.mem_cons_self
    | cons m ls =>
      rw [unlines_cons_cons]
      exact (h l List.mem_cons_self).append_cons
        (ih fun k hk => h k (List.mem_cons_of_mem l hk)) (by decide) (by decide)
        (hL '\n' (by simp))

/-- Items free of markers stay so behind each other. -/
theorem markerFree_items (hL : L.Punctuates) {items : List Text}
    (h : ∀ item ∈ items, L.MarkerFree item) :
    L.MarkerFree (items.intersperse "; ".toList).flatten := by
  induction items with
  | nil => exact markerFree_nil
  | cons item items ih =>
    cases items with
    | nil => simpa using h item List.mem_cons_self
    | cons next items =>
      have hrest := ih fun k hk => h k (List.mem_cons_of_mem item hk)
      rw [List.intersperse_cons_cons, List.flatten_cons, List.flatten_cons]
      exact (h item List.mem_cons_self).append_cons hrest.cons_blank (by decide) (by decide)
        (hL ';' (by simp))

end Letters

/-! ## Values within their bounds -/

/-- A value free of markers, of no more characters than the limit. -/
structure Passed (L : Letters) (limit : ℕ) (value : Text) : Prop where
  free : L.MarkerFree value
  short : value.length ≤ limit

/-- Every value is. -/
def Values.AllPassed (L : Letters) (limit : ℕ) (d : Values) : Prop :=
  ∀ pair ∈ d, Passed L limit pair.2

theorem length_clip_le (value : Text) (limit : ℕ) : (clip value limit).length ≤ limit := by
  unfold clip
  dsimp only
  split
  · assumption
  · refine (List.rdropWhile_prefix _ _).length_le.trans ?_
    split
    · split
      · exact (List.take_prefix _ _).length_le.trans (List.length_take_le _ _)
      · exact List.length_take_le _ _
    · exact List.length_take_le _ _

theorem passed_clip {L : Letters} {value : Text} (h : L.MarkerFree value) (limit : ℕ) :
    Passed L limit (clip value limit) :=
  ⟨h.of_part (clip_isPrefix value limit).isInfix, length_clip_le value limit⟩

namespace Platform

variable {P : Platform}

theorem passed_callVariableValue (value : Text) :
    Passed P.letters callVariableValueMax (P.callVariableValue value) :=
  passed_clip (Letters.markerFree_neutraliseMarkers _) _

theorem passed_callReasonValue (note : Text) :
    Passed P.letters callVariableValueMax (P.callReasonValue note) := by
  unfold callReasonValue
  split
  · exact ⟨Letters.markerFree_nil, Nat.zero_le _⟩
  · exact passed_callVariableValue note

theorem passed_contactCallVariables (custom : Values) :
    (P.contactCallVariables custom).AllPassed P.letters callVariableValueMax := by
  refine Lib.Run.foldl_inv (fun out column hout => ?_) (fun _ h => absurd h List.not_mem_nil) custom
  intro pair hpair
  split at hpair
  · exact hout pair hpair
  · split at hpair
    · exact hout pair hpair
    · rw [List.mem_append, List.mem_singleton] at hpair
      obtain hpair | rfl := hpair
      · exact hout pair hpair
      · exact passed_callVariableValue _

theorem length_items_concat (items : List Text) (item : Text) :
    ((items ++ [item]).intersperse "; ".toList).flatten.length =
      (items.intersperse "; ".toList).flatten.length +
        (item.length + if items = [] then 0 else 2) := by
  induction items with
  | nil => simp
  | cons first items ih =>
    cases items with
    | nil =>
      simp only [List.cons_append, List.nil_append, List.intersperse_cons_cons,
        List.intersperse_singleton, List.flatten_cons, List.flatten_nil, List.append_nil, List.length_append]
      rw [if_neg (by simp)]
      simp
      omega
    | cons next items =>
      rw [if_neg (by simp)] at ih
      rw [if_neg (by simp)]
      simp only [List.cons_append, List.intersperse_cons_cons, List.flatten_cons,
        List.length_append] at ih ⊢
      omega

/-- The items of the details, and so the details, are within their bounds. -/
theorem passed_detailItems (hL : P.letters.Punctuates) (custom : Values) (items : List Text)
    (hitems : ∀ item ∈ items, P.letters.MarkerFree item)
    (hused : (items.intersperse "; ".toList).flatten.length ≤ callVariableValueMax) :
    (∀ item ∈ P.detailItems items (items.intersperse "; ".toList).flatten.length custom,
        P.letters.MarkerFree item) ∧
      ((P.detailItems items (items.intersperse "; ".toList).flatten.length custom).intersperse
        "; ".toList).flatten.length ≤ callVariableValueMax := by
  induction custom generalizing items with
  | nil => exact ⟨hitems, hused⟩
  | cons column custom ih =>
    obtain ⟨header, raw⟩ := column
    rw [detailItems]
    dsimp only
    split
    · exact ih items hitems hused
    · rw [← length_items_concat]
      split
      · exact ⟨hitems, hused⟩
      next hfits =>
        have hlabel : P.letters.MarkerFree (clip (P.oneLine header) labelMax) :=
          (passed_clip (Letters.markerFree_neutraliseMarkers _) _).free
        have hvalue : P.letters.MarkerFree (P.oneLine raw) :=
          Letters.markerFree_neutraliseMarkers _
        have hitem : P.letters.MarkerFree (clip (clip (P.oneLine header) labelMax ++
            ": ".toList ++ P.oneLine raw) callVariableValueMax) := by
          refine (passed_clip ?_ _).free
          rw [List.append_assoc]
          exact hlabel.append_cons hvalue.cons_blank (by decide) (by decide) (hL ':' (by simp))
        refine ih _ (fun item h => ?_) (Nat.not_lt.mp hfits)
        obtain h | h := List.mem_append.mp h
        · exact hitems item h
        · rw [List.mem_singleton.mp h]
          exact hitem

theorem passed_callDetailsValue (hL : P.letters.Punctuates) (custom : Values) :
    Passed P.letters callVariableValueMax (P.callDetailsValue custom) := by
  obtain ⟨hfree, hshort⟩ := passed_detailItems hL custom [] (by simp) (Nat.zero_le _)
  exact ⟨Letters.markerFree_items hL hfree, hshort⟩

/-- `MAX_CALLER_MEMORY_CHARS`. -/
def maxCallerMemoryChars : ℕ := 1500

theorem passed_renderCallerMemory (hL : P.letters.Punctuates) (facts : List Text) :
    Passed P.letters maxCallerMemoryChars (P.renderCallerMemory facts) := by
  have hlines : P.letters.MarkerFree (unlines ((facts.filter fun fact => strip fact ≠ []).map
      fun fact => "- ".toList ++ P.letters.neutraliseMarkers (strip fact))) := by
    refine Letters.markerFree_unlines hL fun line hline => ?_
    obtain ⟨fact, -, rfl⟩ := List.mem_map.mp hline
    exact (Letters.markerFree_neutraliseMarkers _).cons_bullet
  unfold renderCallerMemory
  dsimp only
  split
  · have hpart := (upToLast_isPrefix '\n' _).trans (List.take_prefix 1500 (unlines
      ((facts.filter fun fact => strip fact ≠ []).map fun fact =>
        "- ".toList ++ P.letters.neutraliseMarkers (strip fact))))
    refine ⟨hlines.of_part hpart.isInfix, ?_⟩
    exact (upToLast_isPrefix '\n' _).length_le.trans (List.length_take_le _ _)
  next hshort => exact ⟨hlines, Nat.not_lt.mp hshort⟩

/-! ## The fence -/

/-- The platform's text is the prompt without its one fenced script, which is the whole of it
without a script. -/
structure FenceHolds (P : Platform) (cfg : PromptConfig) (facts : Option (List Text)) : Prop where
  fenced : strip cfg.systemPrompt ≠ [] → ∃ ahead behind,
    P.composeEnginePrompt cfg facts = ahead ++ (clientScriptOpen ++
      (('\n' :: P.letters.neutraliseMarkers (strip cfg.systemPrompt) ++ ['\n']) ++
        (clientScriptClose ++ behind))) ∧
    platformText (P.composeEnginePrompt cfg facts) = ahead ++ behind
  unfenced : strip cfg.systemPrompt = [] →
    platformText (P.composeEnginePrompt cfg facts) = P.composeEnginePrompt cfg facts
  once : ∀ fence ∈ fences, count fence (P.composeEnginePrompt cfg facts) =
    if strip cfg.systemPrompt = [] then 0 else 1

theorem fenceHolds (P : Platform) (cfg : PromptConfig) (facts : Option (List Text)) :
    FenceHolds P cfg facts where
  fenced hscript := ⟨_, _, P.composeEnginePrompt_of_script hscript facts,
    P.platformText_of_script hscript facts⟩
  unfenced hblank := P.platformText_of_blank hblank facts
  once _ hfence := P.count_composeEnginePrompt cfg facts hfence

/-- **The fence cannot be forged.** The gate leaves no marker, is done after one pass and leaves
texts without a marker alone, so the platform's text of any prompt is what is around the one
script; and every value of a call is free of markers and within its bound. -/
theorem unforgeable (P : Platform) (hwords : P.letters.Punctuates) :
    (∀ t, P.letters.MarkerFree (P.letters.neutraliseMarkers t)) ∧
    (∀ t, P.letters.neutraliseMarkers (P.letters.neutraliseMarkers t) =
      P.letters.neutraliseMarkers t) ∧
    (∀ t, P.letters.MarkerFree t → P.letters.neutraliseMarkers t = t) ∧
    (∀ cfg facts, FenceHolds P cfg facts) ∧
    (∀ value, Passed P.letters callVariableValueMax (P.callVariableValue value)) ∧
    (∀ custom, Passed P.letters callVariableValueMax (P.callDetailsValue custom)) ∧
    (∀ custom, (P.contactCallVariables custom).AllPassed P.letters callVariableValueMax) ∧
    (∀ note, Passed P.letters callVariableValueMax (P.callReasonValue note)) ∧
    ∀ facts, Passed P.letters maxCallerMemoryChars (P.renderCallerMemory facts) := by
  refine ⟨Letters.markerFree_neutraliseMarkers, fun t => ?_,
    fun t => Letters.neutraliseMarkers_of_markerFree, fenceHolds P, passed_callVariableValue,
    passed_callDetailsValue hwords, passed_contactCallVariables, passed_callReasonValue,
    passed_renderCallerMemory hwords⟩
  exact Letters.neutraliseMarkers_of_markerFree (Letters.markerFree_neutraliseMarkers t)

theorem quietPlatform_punctuates : quietPlatform.letters.Punctuates := by
  intro c hc
  simp only [List.mem_cons, List.not_mem_nil, or_false] at hc
  obtain rfl | rfl | rfl := hc <;> rfl

/-- The script's end, written by the client, ends nothing. -/
theorem unforgeable_english :
    quietPlatform.letters.Punctuates ∧
      quietPlatform.letters.neutraliseMarkers clientScriptClose = "— END CLIENT SCRIPT —".toList ∧
      quietPlatform.letters.MarkerFree
        (quietPlatform.letters.neutraliseMarkers clientScriptClose) :=
  ⟨quietPlatform_punctuates, by decide +kernel,
    (unforgeable quietPlatform quietPlatform_punctuates).1 _⟩

end Platform

end Calevate.Agents
