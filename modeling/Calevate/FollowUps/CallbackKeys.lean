import Calevate.FollowUps.Definition
import Calevate.Lib.Like
import Calevate.Lib.Uuid

/-!
# Keys of follow-up call-backs

A follow-up's call-back carries a key of the run, the step and the try it is for, and a tag
when it was booked again. Read as a key it names them (`parseCallbackKey_callbackKey`). Two
lookups ask the database for a key's call-backs by `LIKE` and the key's start, and there an
underscore of the step's id stands for any character: a lookup for one step finds no
call-back of another just if its id does not stand for the other's
(`namesOneStep_iff`). `a_b` stands for `axb`.
-/

namespace Calevate.FollowUps

open Lib

/-! ## The code -/

/-- `CALLBACK_PREFIX`. -/
def callbackPrefix : List Char := "follow-up:".toList

/-- `CALL_RETRIES_MAX`. -/
def callRetriesMax : ℕ := 3

/-- **`callback_key`**. -/
def callbackKey (run : Uuid) (stepId : StepId) (attempt : ℕ) (tag : Option (List Char)) :
    List Char :=
  let key := callbackPrefix ++ run.text ++ ':' :: stepId.1.toList ++ ':' :: Nat.toDigits 10 attempt
  match tag with
  | none => key
  | some [] => key
  | some tag => key ++ ':' :: tag

/-- `CallbackRef`. -/
structure CallbackRef where
  runId : Uuid
  stepId : List Char
  attempt : ℕ
  deriving DecidableEq

/-- What reading a key may raise: `int` of digits that are no decimals. -/
inductive ValueError where
  | invalidLiteral
  deriving DecidableEq

/-- **`parse_callback_key`**. -/
def parseCallbackKey (key : Option (List Char)) : Except ValueError (Option CallbackRef) :=
  match key with
  | none => .ok none
  | some key =>
    if callbackPrefix.isPrefixOf key then
      match (key.drop callbackPrefix.length).splitOn ':' with
      | run :: stepId :: attempt :: _ =>
        if attempt ≠ [] ∧ attempt.all Digits.isDigit then
          match Uuid.parse? run with
          | none => .ok none
          | some runId =>
            match Digits.number? attempt with
            | none => .error .invalidLiteral
            | some attempt => .ok (some ⟨runId, stepId, attempt⟩)
        else .ok none
      | _ => .ok none
    else .ok none

/-- A row of `scheduled_callbacks`: whether it is `scheduled` or `dialing`, and its
`source_execution_id`. -/
structure BookedCallback where
  live : Bool
  sourceExecutionId : List Char
  deriving DecidableEq

/-- **`_ever_booked`**. -/
def everBooked (callbacks : List BookedCallback) (key : List Char) : Bool :=
  callbacks.any fun callback => Like.like callback.sourceExecutionId (key ++ ['%'])

/-- **The next try of a step is on the books**, as `on_call_ended` asks. -/
def nextTryBooked (callbacks : List BookedCallback) (run : Uuid) (stepId : StepId)
    (attempt : ℕ) : Bool :=
  callbacks.any fun callback =>
    callback.live &&
      Like.like callback.sourceExecutionId (callbackKey run stepId (attempt + 1) none ++ ['%'])

/-- **A step's keys are its own** beside another's: a key names its run, step and try, and
the lookups for a try the step may reach find no other's call-back. -/
structure NamesOneStep (stepId other : StepId) : Prop where
  parsed : ∀ run attempt tag, parseCallbackKey (some (callbackKey run stepId attempt tag)) =
    .ok (some ⟨run, stepId.1.toList, attempt⟩)
  booked : ∀ run run' attempt attempt' tag live, attempt ≤ callRetriesMax →
    attempt' ≤ callRetriesMax →
    everBooked [⟨live, callbackKey run' other attempt' tag⟩]
      (callbackKey run stepId attempt none) = true →
    run' = run ∧ other = stepId ∧ attempt' = attempt
  nextTry : ∀ run run' attempt attempt' tag live, attempt ≤ callRetriesMax →
    attempt' ≤ callRetriesMax →
    nextTryBooked [⟨live, callbackKey run' other attempt' tag⟩] run stepId attempt = true →
    run' = run ∧ other = stepId ∧ attempt' = attempt + 1

/-- A step's id, as the start of a pattern, stands for another's: it is as long and has
underscores where they differ, or it goes on with an underscore for the colon behind the
other, with the other's try, and then with nothing or an underscore for the next colon. -/
def StandsForStep (stepId other : List Char) : Prop :=
  stepId ≠ other ∧ Like.StandsFor stepId other ∨
    ∃ head y rest attempt, stepId = head ++ '_' :: y :: rest ∧ Like.StandsFor head other ∧
      attempt ≤ callRetriesMax ∧ (y = '_' ∨ y = Nat.digitChar attempt) ∧
      (rest = [] ∨ rest.head? = some '_')

/-! ## The parts of a key -/

/-- The tag behind a key. -/
def tagPart : Option (List Char) → List Char
  | none => []
  | some [] => []
  | some tag => ':' :: tag

theorem tagPart_cases (tag : Option (List Char)) :
    tagPart tag = [] ∨ ∃ t, tagPart tag = ':' :: t := by
  match tag with
  | none => exact .inl rfl
  | some [] => exact .inl rfl
  | some (c :: t) => exact .inr ⟨c :: t, rfl⟩

theorem callbackKey_eq (run : Uuid) (stepId : StepId) (attempt : ℕ) (tag : Option (List Char)) :
    callbackKey run stepId attempt tag = callbackPrefix ++ (run.text ++ ':' ::
      (stepId.1.toList ++ ':' :: (Nat.toDigits 10 attempt ++ tagPart tag))) := by
  match tag with
  | none => simp [callbackKey, tagPart]
  | some [] => simp [callbackKey, tagPart]
  | some (c :: t) => simp [callbackKey, tagPart]

/-- A step's id holds small letters, digits and underscores. -/
theorem stepId_chars (stepId : StepId) :
    ∀ c ∈ stepId.1.toList, c.isLower = true ∨ c.isDigit = true ∨ c = '_' := by
  obtain ⟨id, hid⟩ := stepId
  rw [isKey, Bool.and_eq_true] at hid
  obtain ⟨-, hchars⟩ := hid
  dsimp only
  split at hchars
  · cases hchars
  next c rest hlist =>
    rw [Bool.and_eq_true, List.all_eq_true] at hchars
    intro d hd
    rw [hlist] at hd
    obtain rfl | hd := List.mem_cons.mp hd
    · exact .inl hchars.1
    · have := hchars.2 d hd
      simpa [or_assoc] using this

theorem notMem_stepId {c : Char} (hlower : c.isLower = false) (hdigit : c.isDigit = false)
    (hunderscore : c ≠ '_') (stepId : StepId) : c ∉ stepId.1.toList := by
  intro hc
  obtain h | h | h := stepId_chars stepId c hc
  · rw [hlower] at h
    cases h
  · rw [hdigit] at h
    cases h
  · exact hunderscore h

theorem notMem_digits {c : Char} (hdigit : c.isDigit = false) (n : ℕ) : c ∉ Nat.toDigits 10 n := by
  intro hc
  have h := Nat.isDigit_of_mem_toDigits (by decide) (by decide) hc
  rw [hdigit] at h
  cases h

/-- **A key names its run, its step and its try**, whatever the tag. -/
theorem parseCallbackKey_callbackKey (run : Uuid) (stepId : StepId) (attempt : ℕ)
    (tag : Option (List Char)) :
    parseCallbackKey (some (callbackKey run stepId attempt tag)) =
      .ok (some ⟨run, stepId.1.toList, attempt⟩) := by
  have hrun : ':' ∉ run.text := Uuid.notMem_text (by decide) run
  have hstep : ':' ∉ stepId.1.toList := notMem_stepId rfl rfl (by decide) stepId
  have hdigits : ':' ∉ Nat.toDigits 10 attempt := notMem_digits rfl attempt
  have hparts : ∃ others, (run.text ++ ':' :: (stepId.1.toList ++ ':' ::
      (Nat.toDigits 10 attempt ++ tagPart tag))).splitOn ':' =
        run.text :: stepId.1.toList :: Nat.toDigits 10 attempt :: others := by
    rw [List.splitOn_append_cons_self, List.splitOn_eq_singleton hrun,
      List.splitOn_append_cons_self, List.splitOn_eq_singleton hstep]
    obtain htag | ⟨t, htag⟩ := tagPart_cases tag
    · rw [htag, List.append_nil, List.splitOn_eq_singleton hdigits]
      exact ⟨[], rfl⟩
    · rw [htag, List.splitOn_append_cons_self, List.splitOn_eq_singleton hdigits]
      exact ⟨t.splitOn ':', rfl⟩
  obtain ⟨others, hparts⟩ := hparts
  have hprefix : callbackPrefix.isPrefixOf (callbackKey run stepId attempt tag) = true := by
    rw [callbackKey_eq, List.isPrefixOf_iff_prefix]
    exact List.prefix_append _ _
  have hall : (Nat.toDigits 10 attempt).all Digits.isDigit = true := List.all_eq_true.mpr
    fun c hc => Digits.isDigit_of_isDigit (Nat.isDigit_of_mem_toDigits (by decide) (by decide) hc)
  unfold parseCallbackKey
  dsimp only
  rw [if_pos hprefix, callbackKey_eq, List.drop_left, hparts]
  dsimp only
  rw [if_pos ⟨Nat.toDigits_ne_nil, hall⟩, Uuid.parse?_text, Digits.number?_toDigits]

/-! ## The lookups -/

/-- **What a step's part of a pattern stands for**, read along both ids: the other step with
the same try, or a place where an underscore stands for the colon behind the other. -/
theorem standsFor_stepPart {k k' : Char} (hk : k ≠ '_') (hk' : k' ≠ ':') {tail rest : List Char}
    (htail : tail = [] ∨ ∃ t, tail = ':' :: t) {stepId other matched : List Char}
    (hstep : ':' ∉ stepId) (hother : ':' ∉ other)
    (hkey : other ++ ':' :: k' :: tail = matched ++ rest)
    (h : Like.StandsFor (stepId ++ [':', k]) matched) :
    (Like.StandsFor stepId other ∧ k' = k) ∨
      ∃ head y z, stepId = head ++ '_' :: y :: z ∧ Like.StandsFor head other ∧
        (y = '_' ∨ y = k') ∧ (z = [] ∨ z.head? = some '_') := by
  induction stepId generalizing other matched with
  | nil =>
    -- the pattern is at its own colon, so the key is at its colon too
    cases h with
    | cons hcolon h =>
      cases h with
      | cons hd h =>
        cases h
        cases other with
        | nil =>
          obtain ⟨-, hkey⟩ := List.cons_eq_cons.mp hkey
          obtain ⟨rfl, -⟩ := List.cons_eq_cons.mp hkey
          exact .inl ⟨.nil, (hd.resolve_left hk).symm⟩
        | cons o other =>
          obtain ⟨rfl, -⟩ := List.cons_eq_cons.mp hkey
          obtain rfl := hcolon.resolve_left (by decide)
          exact absurd (List.mem_cons_self ..) hother
  | cons s stepId ih =>
    rw [List.mem_cons, not_or] at hstep
    cases h with
    | cons hs h =>
      cases other with
      | cons o other =>
        rw [List.mem_cons, not_or] at hother
        obtain ⟨rfl, hrest⟩ := List.cons_eq_cons.mp hkey
        obtain ⟨hstands, htry⟩ | ⟨head, y, z, rfl, hhead, hy, hz⟩ := ih hstep.2 hother.2 hrest h
        · exact .inl ⟨.cons hs hstands, htry⟩
        · exact .inr ⟨s :: head, y, z, rfl, .cons hs hhead, hy, hz⟩
      | nil =>
        -- the key is at its colon, under which only an underscore stands
        obtain ⟨rfl, htry⟩ := List.cons_eq_cons.mp hkey
        obtain rfl := hs.resolve_right (Ne.symm hstep.1)
        cases stepId with
        | nil =>
          cases h with
          | cons hcolon h =>
            obtain ⟨rfl, -⟩ := List.cons_eq_cons.mp htry
            exact absurd (hcolon.resolve_left (by decide)).symm hk'
        | cons y z =>
          cases h with
          | cons hy h =>
            obtain ⟨rfl, htag⟩ := List.cons_eq_cons.mp htry
            refine .inr ⟨[], y, z, rfl, .nil, hy, ?_⟩
            cases z with
            | nil => exact .inl rfl
            | cons z₀ z =>
              obtain rfl | ⟨t, rfl⟩ := htail
              · cases h
                cases htag
              · cases h with
                | cons hz h =>
                  obtain ⟨rfl, -⟩ := List.cons_eq_cons.mp htag
                  have hne : z₀ ≠ ':' := by
                    rintro rfl
                    exact hstep.2 (List.mem_cons_of_mem _ (List.mem_cons_self ..))
                  exact .inr (congrArg some (hz.resolve_right hne))

/-- A key holds none of the other characters that `LIKE` reads in its own way. -/
theorem notMem_callbackKey {c : Char} (hlower : c.isLower = false) (hdigit : c.isDigit = false)
    (hne : c ≠ '_' ∧ c ≠ ':') (hstart : c ∉ callbackPrefix)
    (huuid : c ≠ '-' ∧ ∀ d, c ≠ Uuid.hexChar d) (run : Uuid) (stepId : StepId) (attempt : ℕ) :
    c ∉ callbackKey run stepId attempt none := by
  rw [callbackKey_eq, List.mem_append, List.mem_append, List.mem_cons, List.mem_append,
    List.mem_cons, List.mem_append]
  rintro (h | h | h | h | h | h | h)
  · exact hstart h
  · exact Uuid.notMem_text huuid run h
  · exact hne.2 h
  · exact notMem_stepId hlower hdigit hne.1 stepId h
  · exact hne.2 h
  · exact notMem_digits hdigit attempt h
  · cases h

theorem callbackKey_plain (run : Uuid) (stepId : StepId) (attempt : ℕ) :
    ∀ c ∈ callbackKey run stepId attempt none, c ≠ '%' ∧ c ≠ '\\' := by
  intro c hc
  constructor
  · rintro rfl
    exact notMem_callbackKey rfl rfl (by decide) (by decide) (by decide) run stepId attempt hc
  · rintro rfl
    exact notMem_callbackKey rfl rfl (by decide) (by decide) (by decide) run stepId attempt hc

/-- The pattern of a lookup matches a call-back's key just if its run is the key's and its
step's part stands for the start of the rest. -/
theorem like_callbackKey {run run' : Uuid} {stepId other : StepId} {attempt attempt' : ℕ}
    {tag : Option (List Char)} :
    Like.like (callbackKey run' other attempt' tag) (callbackKey run stepId attempt none ++ ['%']) =
        true ↔ run' = run ∧ ∃ matched rest, other.1.toList ++ ':' ::
          (Nat.toDigits 10 attempt' ++ tagPart tag) = matched ++ rest ∧
        Like.StandsFor (stepId.1.toList ++ ':' :: Nat.toDigits 10 attempt) matched := by
  rw [Like.like_start (callbackKey_plain run stepId attempt), callbackKey_eq, callbackKey_eq]
  constructor
  · rintro ⟨head, rest, hkey, hstands⟩
    -- the prefix and the run hold no underscore, and every run is as long
    obtain ⟨start, _, rfl, hstart, hstands⟩ := Like.standsFor_append.mp hstands
    obtain ⟨ofRun, _, rfl, hrun, hbehind⟩ := Like.standsFor_append.mp hstands
    rw [hstart.eq (by decide), hrun.eq (Uuid.notMem_text (by decide) run), List.append_assoc,
      List.append_cancel_left_eq, List.append_assoc] at hkey
    obtain ⟨htext, hkey⟩ := List.append_inj hkey (by rw [Uuid.length_text, Uuid.length_text])
    cases hbehind with
    | cons _ hpart =>
      obtain ⟨-, hkey⟩ := List.cons_eq_cons.mp hkey
      rw [tagPart, List.append_nil] at hpart
      exact ⟨Uuid.text_inj htext, _, rest, hkey, hpart⟩
  · rintro ⟨rfl, matched, rest, hkey, hstands⟩
    refine ⟨callbackPrefix ++ (run'.text ++ ':' :: matched), rest, ?_, ?_⟩
    · rw [hkey]
      simp
    · rw [tagPart, List.append_nil]
      exact Like.standsFor_append.mpr ⟨_, _, rfl, Like.standsFor_refl _,
        Like.standsFor_append.mpr ⟨_, _, rfl, Like.standsFor_refl _, .cons (.inr rfl) hstands⟩⟩

theorem colon_notMem_stepId (stepId : StepId) : ':' ∉ stepId.1.toList :=
  notMem_stepId rfl rfl (by decide) stepId

theorem digitChar_ne {c : Char} (h : c.isDigit = false) {n : ℕ} (hn : n < 10) :
    n.digitChar ≠ c := by
  rintro rfl
  have hall : ∀ n < 10, (Nat.digitChar n).isDigit = true := by decide
  rw [hall n hn] at h
  cases h

/-- **A lookup matches no other's call-back** where the step does not stand for the other. -/
theorem eq_of_like {run run' : Uuid} {stepId other : StepId}
    (hstep : ¬ StandsForStep stepId.1.toList other.1.toList) {attempt attempt' : ℕ}
    (ha : attempt < 10) (ha' : attempt' ≤ callRetriesMax) {tag : Option (List Char)}
    (h : Like.like (callbackKey run' other attempt' tag)
      (callbackKey run stepId attempt none ++ ['%']) = true) :
    run' = run ∧ other = stepId ∧ attempt' = attempt := by
  have ha'' : attempt' < 10 := Nat.lt_of_le_of_lt ha' (by decide)
  obtain ⟨hrun, matched, rest, hkey, hstands⟩ := like_callbackKey.mp h
  rw [Nat.toDigits_of_lt_base ha] at hstands
  rw [Nat.toDigits_of_lt_base ha'', List.singleton_append] at hkey
  refine ⟨hrun, ?_⟩
  obtain ⟨hsame, htry⟩ | ⟨head, y, z, heq, hhead, hy, hz⟩ :=
    standsFor_stepPart (digitChar_ne rfl ha) (digitChar_ne rfl ha'') (tagPart_cases tag)
      (colon_notMem_stepId stepId) (colon_notMem_stepId other) hkey hstands
  · refine ⟨?_, ?_⟩
    · by_contra hne
      exact hstep (.inl ⟨fun heq => hne (Subtype.ext (String.toList_inj.mp heq.symm)), hsame⟩)
    · have hall : ∀ m < 10, ∀ n < 10, Nat.digitChar m = Nat.digitChar n → m = n := by decide
      exact hall _ ha'' _ ha htry
  · exact absurd (.inr ⟨head, y, z, attempt', heq, hhead, ha', hy, hz⟩) hstep

/-- A run for the examples. -/
def someRun : Uuid := ⟨List.replicate 32 (Fin.last 15), List.length_replicate⟩

/-- A step that stands for another finds a call-back of it. -/
theorem exists_like {stepId other : StepId} (h : StandsForStep stepId.1.toList other.1.toList) :
    other ≠ stepId ∧ ∃ attempt' ≤ callRetriesMax, ∃ tag, Like.like
      (callbackKey someRun other attempt' tag) (callbackKey someRun stepId 0 none ++ ['%']) =
        true := by
  obtain ⟨hne, hstands⟩ | ⟨head, y, z, attempt', heq, hhead, ha', hy, hz⟩ := h
  · refine ⟨fun he => hne (by rw [he]), 0, Nat.zero_le _, none, like_callbackKey.mpr ⟨rfl, ?_⟩⟩
    refine ⟨other.1.toList ++ ':' :: Nat.toDigits 10 0, [], by simp [tagPart], ?_⟩
    exact Like.standsFor_append.mpr ⟨_, _, rfl, hstands, Like.standsFor_refl _⟩
  · refine ⟨?_, attempt', ha', ?_⟩
    · rintro rfl
      have hlength := hhead.length_eq
      rw [heq, List.length_append, List.length_cons] at hlength
      omega
    · have ha'' : attempt' < 10 := Nat.lt_of_le_of_lt ha' (by decide)
      have htag : ∃ c t, Like.StandsFor (z ++ [':', '0']) (':' :: c :: t) := by
        obtain rfl | hz := hz
        · exact ⟨'0', [], Like.standsFor_refl _⟩
        · obtain ⟨z, rfl⟩ := List.head?_eq_some_iff.mp hz
          obtain ⟨c, t, hrest⟩ := List.exists_cons_of_ne_nil
            (List.append_ne_nil_of_right_ne_nil z (List.cons_ne_nil ':' ['0']))
          refine ⟨c, t, ?_⟩
          rw [List.cons_append, hrest]
          exact .cons (.inl rfl) (Like.standsFor_refl _)
      obtain ⟨c, t, htag⟩ := htag
      refine ⟨some (c :: t), like_callbackKey.mpr ⟨rfl, _, [], (List.append_nil _).symm, ?_⟩⟩
      rw [heq, Nat.toDigits_of_lt_base ha'', List.append_assoc]
      refine Like.standsFor_append.mpr ⟨_, _, rfl, hhead, .cons (.inl rfl) (.cons hy ?_)⟩
      exact htag

/-- **When a step's keys are its own beside another's**: its id does not stand for the
other's. -/
theorem namesOneStep_iff (stepId other : StepId) :
    NamesOneStep stepId other ↔ ¬ StandsForStep stepId.1.toList other.1.toList := by
  constructor
  · intro h hstands
    obtain ⟨hne, attempt', ha', tag, hlike⟩ := exists_like hstands
    have hbooked : everBooked [⟨true, callbackKey someRun other attempt' tag⟩]
        (callbackKey someRun stepId 0 none) = true := by
      rw [everBooked, List.any_cons, hlike, Bool.true_or]
    exact hne (h.booked someRun someRun 0 attempt' tag true (Nat.zero_le _) ha' hbooked).2.1
  · intro hstands
    refine ⟨fun run attempt tag => parseCallbackKey_callbackKey run stepId attempt tag, ?_, ?_⟩
    · intro run run' attempt attempt' tag live ha ha' hbooked
      rw [everBooked, List.any_cons, List.any_nil, Bool.or_false] at hbooked
      exact eq_of_like hstands (Nat.lt_of_le_of_lt ha (by decide)) ha' hbooked
    · intro run run' attempt attempt' tag live ha ha' hnext
      rw [nextTryBooked, List.any_cons, List.any_nil, Bool.or_false, Bool.and_eq_true] at hnext
      exact eq_of_like hstands (Nat.lt_of_le_of_lt (Nat.succ_le_succ ha) (by decide)) ha' hnext.2

/-! ## An underscore -/

theorem isKey_aAnyB : isKey 16 "a_b" = true := by decide

theorem isKey_axb : isKey 16 "axb" = true := by decide

/-- The call-back of the step `axb` is taken for one of the step `a_b`. -/
theorem underscore_booked : everBooked [⟨true, callbackKey someRun ⟨"axb", isKey_axb⟩ 0 none⟩]
      (callbackKey someRun ⟨"a_b", isKey_aAnyB⟩ 0 none) = true ∧
    ¬ NamesOneStep ⟨"a_b", isKey_aAnyB⟩ ⟨"axb", isKey_axb⟩ := by
  have hbooked : everBooked [⟨true, callbackKey someRun ⟨"axb", isKey_axb⟩ 0 none⟩]
      (callbackKey someRun ⟨"a_b", isKey_aAnyB⟩ 0 none) = true := by
    decide +kernel
  refine ⟨hbooked, fun h => ?_⟩
  have hsame := (h.booked someRun someRun 0 0 none true (Nat.zero_le _) (Nat.zero_le _) hbooked).2.1
  exact absurd (congrArg Subtype.val hsame) (by decide)

end Calevate.FollowUps
