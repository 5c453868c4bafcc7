import Mathlib.Order.Basic
import Mathlib.Order.Nat
import Calevate.Platform.LoadShed

/-!
# How old a status can be

A status that a call returns was durable once, and the ages of the copies it came through add
up: the memo's below `_MEMO_TTL_S`, the key's below `_CACHE_TTL_S`. The key's age counts from
its write, though, and a call may wait with what it read before it writes it. The sum is the
bound where no call writes a status the row has left behind (`statuses_fresh`); one that does
hands a lifted halt, or an unseen one, to everybody (`stale_write_unseen`).
-/

namespace Calevate

namespace Platform

open Lib

namespace Shed

/-- The status the row starts with. -/
def start (durable : PlatformStatus) : Shed := { durable }

variable {durable : PlatformStatus}

/-- The durable status was `v` at instant `t` of the run. -/
def Held (durable : PlatformStatus) (seen : List ShedAction) (t : ℕ) (v : PlatformStatus) : Prop :=
  ∃ before after, seen = before ++ after ∧ (before.foldl step (start durable)).clock = t ∧
    (before.foldl step (start durable)).durable = v

theorem Held.snoc {seen : List ShedAction} {t : ℕ} {v : PlatformStatus} (h : Held durable seen t v)
    (a : ShedAction) : Held durable (seen ++ [a]) t v := by
  obtain ⟨before, after, rfl, ht, hv⟩ := h
  exact ⟨before, after ++ [a], List.append_assoc .., ht, hv⟩

/-- What the row says now. -/
theorem held_now (seen : List ShedAction) :
    Held durable seen (seen.foldl step (start durable)).clock
      (seen.foldl step (start durable)).durable :=
  ⟨seen, [], (List.append_nil _).symm, rfl, rfl⟩

/-- The status was durable less than `age` before `instant`. -/
def Within (durable : PlatformStatus) (seen : List ShedAction) (age instant : ℕ)
    (v : PlatformStatus) : Prop :=
  ∃ t, Held durable seen t v ∧ instant < t + age

theorem Within.snoc {seen : List ShedAction} {age instant : ℕ} {v : PlatformStatus}
    (h : Within durable seen age instant v) (a : ShedAction) :
    Within durable (seen ++ [a]) age instant v := by
  obtain ⟨t, ht, hlt⟩ := h
  exact ⟨t, ht.snoc a, hlt⟩

/-- What a call holds, by how far it has got: the age counts from when the call began. -/
def CallAged (durable : PlatformStatus) (seen : List ShedAction) (clock : ℕ) : Call → Prop
  | .reading _ began | .missing _ began => began ≤ clock
  | .sizing _ began cached => began ≤ clock ∧
      ∀ c ∈ cached, Within durable seen cacheTtl began (.ofCache c)
  | .writing _ began status | .keeping _ began status =>
    Within durable seen cacheTtl began status
  | .returned began status => Within durable seen (cacheTtl + memoTtl) began status
  | _ => True

theorem CallAged.snoc {seen : List ShedAction} {clock clock' : ℕ} {c : Call}
    (h : CallAged durable seen clock c) (hle : clock ≤ clock') (a : ShedAction) :
    CallAged durable (seen ++ [a]) clock' c := by
  cases c with
  | reading process began | missing process began => exact h.trans hle
  | sizing process began cached => exact ⟨h.1.trans hle, fun c hc => (h.2 c hc).snoc a⟩
  | writing process began status | keeping process began status => exact Within.snoc h a
  | returned began status => exact Within.snoc h a
  | _ => trivial

/-- **Every copy is of a status that was durable recently enough.** -/
structure Aged (durable : PlatformStatus) (seen : List ShedAction) (s : Shed) : Prop where
  here : s = seen.foldl step (start durable)
  cache : ∀ c expiry, s.cache = some (c, expiry) →
    ∃ t, Held durable seen t (.ofCache c) ∧ expiry ≤ t + cacheTtl
  memo : ∀ process made v, s.memo process = some (made, v) → Within durable seen cacheTtl made v
  calls : ∀ i, CallAged durable seen s.clock (s.call i)

theorem aged_start : Aged durable [] (start durable) where
  here := rfl
  cache := by intros; contradiction
  memo := by intros; contradiction
  calls := fun _ => trivial

/-- The status a call is about to write into the cache. -/
def toWrite : Call → Option PlatformStatus
  | .writing _ _ status => some status
  | _ => none

/-- A write into the cache is of what the row still says. -/
def WritesCurrent (s : Shed) : ShedAction → Prop
  | .act i true => ∀ status ∈ toWrite (s.call i), status = s.durable
  | _ => True

instance (s : Shed) : ∀ a, Decidable (WritesCurrent s a)
  | .act i true => inferInstanceAs (Decidable (∀ status ∈ toWrite (s.call i), status = s.durable))
  | .act _ false | .get _ _ | .set _ _ _ _ | .pass _ | .moveWindow _ _ _ | .flush => isTrue trivial

namespace Aged

variable {seen : List ShedAction} {s : Shed}

/-- The status a call reads from the row. -/
theorem now (h : Aged durable seen s) : Held durable seen s.clock s.durable := by
  rw [h.here]
  exact held_now seen

/-- A live key is of a status durable less than its lifetime ago. -/
theorem key (h : Aged durable seen s) {c : CachedStatus} {expiry : ℕ}
    (hkey : s.key = some (c, expiry)) : Within durable seen cacheTtl s.clock (.ofCache c) := by
  rw [Shed.key, Option.filter_eq_some_iff] at hkey
  obtain ⟨t, ht, hle⟩ := h.cache c expiry hkey.1
  have hlive : s.clock < expiry := by simpa using hkey.2
  exact ⟨t, ht, hlive.trans_le hle⟩

/-- One call goes on, and the rest is as it was. -/
theorem goto (h : Aged durable seen s) {a : ShedAction} {s' : Shed} {i : ℕ} {c : Call}
    (hstep : step s a = s') (hclock : s'.clock = s.clock)
    (hcall : s'.call = Function.update s.call i c)
    (hcache : ∀ cached expiry, s'.cache = some (cached, expiry) →
      ∃ t, Held durable (seen ++ [a]) t (.ofCache cached) ∧ expiry ≤ t + cacheTtl)
    (hmemo : ∀ process made v, s'.memo process = some (made, v) →
      Within durable (seen ++ [a]) cacheTtl made v)
    (haged : CallAged durable (seen ++ [a]) s.clock c) : Aged durable (seen ++ [a]) s' where
  here := by rw [← hstep, h.here, List.foldl_append]; rfl
  cache := hcache
  memo := hmemo
  calls j := by
    rw [hclock, hcall]
    by_cases hji : j = i
    · subst hji
      simpa only [Function.update_self] using haged
    · simpa only [Function.update_of_ne hji] using (h.calls j).snoc le_rfl a

/-- A step of one call that touches no copy. -/
theorem move (h : Aged durable seen s) {a : ShedAction} {i : ℕ} {c : Call}
    (hstep : step s a = s.goto i c) (haged : CallAged durable (seen ++ [a]) s.clock c) :
    Aged durable (seen ++ [a]) (s.goto i c) := by
  refine h.goto hstep rfl rfl (fun cached expiry hc => ?_)
    (fun process made v hm => (h.memo process made v hm).snoc a) haged
  obtain ⟨t, ht, hle⟩ := h.cache cached expiry hc
  exact ⟨t, ht.snoc a, hle⟩

/-- Nothing but what is around the copies changes. -/
theorem stay (h : Aged durable seen s) {a : ShedAction} {s' : Shed} (hstep : step s a = s')
    (hclock : s.clock ≤ s'.clock) (hcall : s'.call = s.call) (hmemo : s'.memo = s.memo)
    (hcache : s'.cache = s.cache ∨ s'.cache = none) : Aged durable (seen ++ [a]) s' where
  here := by rw [← hstep, h.here, List.foldl_append]; rfl
  cache cached expiry hc := by
    rcases hcache with hsame | hnone
    · obtain ⟨t, ht, hle⟩ := h.cache cached expiry (hsame ▸ hc)
      exact ⟨t, ht.snoc a, hle⟩
    · rw [hnone] at hc
      cases hc
  memo process made v hm := (h.memo process made v (hmemo ▸ hm)).snoc a
  calls j := by
    rw [hcall]
    exact (h.calls j).snoc hclock a

/-- A call that begins: it returns a fresh memo, or goes on to the cache. -/
theorem get (h : Aged durable seen s) {a : ShedAction} {i process : ℕ}
    (hstep : step s a = s.get i process) : Aged durable (seen ++ [a]) (s.get i process) := by
  unfold Shed.get at hstep ⊢
  cases hmemo : s.memo process with
  | none =>
    simp only [hmemo] at hstep ⊢
    exact h.move hstep le_rfl
  | some m =>
    obtain ⟨made, v⟩ := m
    simp only [hmemo] at hstep ⊢
    split at hstep
    · next hfresh =>
      rw [if_pos hfresh]
      obtain ⟨t, ht, hlt⟩ := h.memo process made v hmemo
      exact h.move hstep ⟨t, ht.snoc a, by omega⟩
    · next hstale =>
      rw [if_neg hstale]
      exact h.move hstep le_rfl

/-- A step of a call that has begun. -/
theorem act (h : Aged durable seen s) {i : ℕ} {ok : Bool}
    (hcurrent : WritesCurrent s (.act i ok)) :
    Aged durable (seen ++ [.act i ok]) (s.act i ok) := by
  have hstep : step s (.act i ok) = s.act i ok := rfl
  have haged := h.calls i
  have hcached : ∀ cached expiry, s.cache = some (cached, expiry) →
      ∃ t, Held durable (seen ++ [.act i ok]) t (.ofCache cached) ∧ expiry ≤ t + cacheTtl := by
    intro cached expiry hc
    obtain ⟨t, ht, hle⟩ := h.cache cached expiry hc
    exact ⟨t, ht.snoc _, hle⟩
  have hmemos : ∀ process made v, s.memo process = some (made, v) →
      Within durable (seen ++ [.act i ok]) cacheTtl made v :=
    fun process made v hm => (h.memo process made v hm).snoc _
  unfold Shed.act at hstep ⊢
  cases hcall : s.call i with
  | reading process began =>
    rw [hcall] at haged
    simp only [hcall] at hstep ⊢
    cases ok with
    | true =>
      refine h.move hstep ⟨haged, fun c hc => ?_⟩
      obtain ⟨⟨c', expiry⟩, hkey, rfl⟩ := Option.map_eq_some_iff.mp hc
      obtain ⟨t, ht, hlt⟩ := h.key hkey
      exact ⟨t, ht.snoc _, lt_of_le_of_lt haged hlt⟩
    | false => exact h.move hstep haged
  | sizing process began cached =>
    rw [hcall] at haged
    simp only [hcall] at hstep ⊢
    cases cached with
    | none => exact h.move hstep haged.1
    | some cached =>
      simp only at hstep ⊢
      split at hstep
      · next hlive =>
        rw [if_pos hlive]
        exact h.move hstep ((haged.2 cached rfl).snoc _)
      · next hdead =>
        rw [if_neg hdead]
        exact h.move hstep haged.1
  | missing process began =>
    rw [hcall] at haged
    simp only [hcall] at hstep ⊢
    cases ok with
    | true =>
      refine h.move hstep ⟨s.clock, h.now.snoc _, ?_⟩
      exact lt_of_le_of_lt haged (Nat.lt_add_of_pos_right (by decide))
    | false => exact h.move hstep trivial
  | writing process began status =>
    rw [hcall] at haged
    simp only [hcall] at hstep ⊢
    cases ok with
    | true =>
      -- the key's lifetime counts from now, and now the row says what is written
      have hnow : status = s.durable := hcurrent status (by rw [hcall]; rfl)
      refine h.goto hstep rfl rfl (fun c expiry hc => ?_) hmemos (Within.snoc haged _)
      cases hc
      refine ⟨s.clock, ?_, le_rfl⟩
      rw [PlatformStatus.ofCache_toCache, hnow]
      exact h.now.snoc _
    | false => exact h.move hstep (Within.snoc haged _)
  | keeping process began status =>
    rw [hcall] at haged
    simp only [hcall] at hstep ⊢
    obtain ⟨t, ht, hlt⟩ := haged
    refine h.goto hstep rfl rfl hcached (fun p made v hm => ?_) ⟨t, ht.snoc _, by omega⟩
    by_cases hp : p = process
    · subst hp
      simp only [Function.update_self, Option.some.injEq, Prod.mk.injEq] at hm
      obtain ⟨rfl, rfl⟩ := hm
      exact ⟨t, ht.snoc _, hlt⟩
    · simp only [Function.update_of_ne hp] at hm
      exact hmemos p made v hm
  | setting process mode outboundHalted =>
    simp only [hcall] at hstep ⊢
    cases ok with
    | true => exact h.goto hstep rfl rfl hcached hmemos trivial
    | false => exact h.move hstep trivial
  | forgetting process =>
    simp only [hcall] at hstep ⊢
    refine h.goto hstep rfl rfl hcached (fun p made v hm => ?_) trivial
    by_cases hp : p = process
    · subst hp
      simp only [Function.update_self, reduceCtorEq] at hm
    · simp only [Function.update_of_ne hp] at hm
      exact hmemos p made v hm
  | invalidating process =>
    simp only [hcall] at hstep ⊢
    cases ok with
    | true => exact h.goto hstep rfl rfl nofun hmemos le_rfl
    | false => exact h.move hstep le_rfl
  | _ =>
    simp only [hcall] at hstep ⊢
    exact h.stay hstep le_rfl rfl rfl (.inl rfl)

/-- **A step that writes nothing stale keeps the ages.** -/
theorem step (h : Aged durable seen s) {a : ShedAction} (hcurrent : WritesCurrent s a) :
    Aged durable (seen ++ [a]) (s.step a) := by
  have hsame : s.step a = s → Aged durable (seen ++ [a]) s :=
    fun hstep => h.stay hstep le_rfl rfl rfl (.inl rfl)
  cases a with
  | get i process =>
    by_cases hidle : s.call i = .idle
    · have hstep : s.step (.get i process) = s.get i process := if_pos hidle
      rw [hstep]
      exact h.get hstep
    · have hstep : s.step (.get i process) = s := if_neg hidle
      rw [hstep]
      exact hsame hstep
  | set i process mode outboundHalted =>
    by_cases hidle : s.call i = .idle
    · by_cases hnothing : mode = none ∧ outboundHalted = none
      · have hstep : s.step (.set i process mode outboundHalted) = s.get i process := by
          rw [Shed.step, if_pos hidle, if_pos hnothing]
        rw [hstep]
        exact h.get hstep
      · have hstep : s.step (.set i process mode outboundHalted) =
            s.goto i (.setting process mode outboundHalted) := by
          rw [Shed.step, if_pos hidle, if_neg hnothing]
        rw [hstep]
        exact h.move hstep trivial
    · have hstep : s.step (.set i process mode outboundHalted) = s := if_neg hidle
      rw [hstep]
      exact hsame hstep
  | act i ok => exact h.act hcurrent
  | pass time => exact h.stay rfl (Nat.le_add_right ..) rfl rfl (.inl rfl)
  | moveWindow phase endsAt reason => exact h.stay rfl le_rfl rfl rfl (.inl rfl)
  | flush => exact h.stay rfl le_rfl rfl rfl (.inr rfl)

end Aged

/-- Every status returned was durable not earlier than the bound before its call began. -/
def Fresh (durable : PlatformStatus) (actions : List ShedAction) : Prop :=
  ∀ i began v, (actions.foldl step (start durable)).call i = .returned began v →
    ∃ t, Held durable actions t v ∧ began - (cacheTtl + memoTtl) ≤ t

/-- Once the row has said halted from some instant on, every call that begins more than the bound
later returns halted. -/
def HaltSeen (durable : PlatformStatus) (actions : List ShedAction) : Prop :=
  ∀ since, (∀ t v, Held durable actions t v → since ≤ t → v.outboundHalted = true) →
    ∀ i began v, (actions.foldl step (start durable)).call i = .returned began v →
      since + (cacheTtl + memoTtl) ≤ began → v.outboundHalted = true

theorem Fresh.haltSeen {actions : List ShedAction} (h : Fresh durable actions) :
    HaltSeen durable actions := by
  intro since hhalted i began v hreturned hlate
  obtain ⟨t, ht, hle⟩ := h i began v hreturned
  exact hhalted t v ht (by omega)

/-- **A halt is seen within its bound where no write into the cache is stale.** -/
theorem statuses_fresh (durable : PlatformStatus) (actions : List ShedAction)
    (h : Run.Guarded step WritesCurrent (start durable) actions) :
    Fresh durable actions ∧ HaltSeen durable actions := by
  have haged : Aged durable ([] ++ actions) (actions.foldl step (start durable)) :=
    Run.Guarded.inv_seen (fun _ _ _ hs hcurrent => hs.step hcurrent) aged_start h
  rw [List.nil_append] at haged
  have hfresh : Fresh durable actions := by
    intro i began v hreturned
    have hcall := haged.calls i
    rw [hreturned] at hcall
    obtain ⟨t, ht, hlt⟩ := hcall
    exact ⟨t, ht, by omega⟩
  exact ⟨hfresh, hfresh.haltSeen⟩

/-- A call of process 0 reads the row and waits; process 1 halts outbound a minute in, and reads
its halt back. -/
def haltWhileReading : List ShedAction :=
  [.get 0 0, .act 0 true, .act 0 true, .act 0 true, .pass 60000,
    .set 1 1 none (some true), .act 1 true, .act 1 true, .act 1 true, .act 1 true, .act 1 true,
    .act 1 true]

/-- The first call then writes what it read; process 2 asks ten seconds later. -/
def staleWrite : List ShedAction :=
  [.pass 20000, .act 0 true, .pass 10000, .get 2 2, .act 2 true, .act 2 true, .act 2 true]

/-- With the cache written at once every call is within its bound. -/
theorem promptWrite_fresh :
    Fresh {} (haltWhileReading ++ [.get 2 2, .act 2 true, .act 2 true, .act 2 true]) ∧
      HaltSeen {} (haltWhileReading ++ [.get 2 2, .act 2 true, .act 2 true, .act 2 true]) :=
  statuses_fresh {} _ (by decide +kernel)

/-- **Half a minute after the halt a process still reads that dialling is open.** -/
theorem stale_write_unseen : ¬ ∀ durable actions, Fresh durable actions := by
  intro h
  have hrun : ((haltWhileReading ++ staleWrite).foldl step (start {})).call 2 =
      .returned 90000 {} ∧
      ∀ n ∈ List.range ((haltWhileReading ++ staleWrite).length + 1),
        70000 ≤ (((haltWhileReading ++ staleWrite).take n).foldl step (start {})).clock →
        (((haltWhileReading ++ staleWrite).take n).foldl step (start {})).durable ≠ {} := by
    decide +kernel
  obtain ⟨t, ⟨before, after, hsplit, hclock, hheld⟩, hle⟩ := h {} _ 2 90000 {} hrun.1
  have hbefore : (haltWhileReading ++ staleWrite).take before.length = before := by
    rw [hsplit, List.take_left]
  have hlength : before.length < (haltWhileReading ++ staleWrite).length + 1 := by
    rw [hsplit, List.length_append]
    omega
  have hopen := hrun.2 before.length (List.mem_range.mpr hlength)
  rw [hbefore, hclock] at hopen
  exact hopen hle hheld

end Shed

end Platform

end Calevate
