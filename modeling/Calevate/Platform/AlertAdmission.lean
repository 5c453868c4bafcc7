import Calevate.Lib.TokenBucket
import Mathlib.Data.Rat.Defs
import Mathlib.Algebra.Order.Ring.Rat
import Mathlib.Logic.Function.Basic

/-!
# Shared alert admission

Every process of a service asks one script whether its alert may be sent. A fingerprint that was
sent within the window is a repeat; past that a bucket shared by the service decides, and it is
put down on a refusal too. All keys carry a time to live, and one that is through may be found
gone at any later call. No interval admits more than the burst and what the budget pays for it,
no fingerprint is admitted twice within a window unless it was forgotten, and a key's expiry
changes no verdict, `admission_bounded`.
-/

namespace Calevate.Platform

open Lib.TokenBucket

/-- A fingerprint. -/
abbrev Fingerprint := String

/-! ## The keys of a service -/

/-- What the script is called with, in milliseconds. -/
structure AdmissionLimits where
  window : ℚ
  burst : ℚ
  refillRate : ℚ
  counterTtl : ℚ

/-- `alerts:sent:…`: the instant the marker was written. -/
structure SentMarker where
  sentAt : ℚ
  expires : ℚ
  deriving DecidableEq, Repr

/-- A counter: `alerts:suppressed:…` or `alerts:limited:…`. -/
structure AlertCounter where
  count : ℕ
  expires : ℚ
  deriving DecidableEq, Repr

/-- `alerts:bucket:…`. -/
structure BucketHash where
  bucket : Bucket ℚ
  expires : ℚ
  deriving DecidableEq, Repr

/-- The keys of one service. -/
structure AlertKeys where
  sent : Fingerprint → Option SentMarker
  suppressed : Fingerprint → Option AlertCounter
  bucket : Option BucketHash
  limited : Option AlertCounter

/-- No key is there. -/
def AlertKeys.empty : AlertKeys where
  sent := fun _ => none
  suppressed := fun _ => none
  bucket := none
  limited := none

/-- What the script decided: both refusals reply alike. -/
inductive AdmissionOutcome where
  | repeated
  | limited
  | admitted
  deriving DecidableEq, Repr

/-- The script's reply. -/
structure AdmissionReply where
  outcome : AdmissionOutcome
  suppressed : ℕ
  rateLimited : ℕ
  deriving DecidableEq, Repr

/-- `INCR` and `PEXPIRE`. -/
def AlertCounter.increment (ttl now : ℚ) (c : Option AlertCounter) : AlertCounter :=
  ⟨(c.map (·.count)).getD 0 + 1, now + ttl⟩

/-- The window of a fingerprint is open: it was sent less than a window ago. -/
def AlertKeys.isRepeat (k : AlertKeys) (window now : ℚ) (f : Fingerprint) : Bool :=
  (k.sent f).any fun m => now - m.sentAt < window

namespace AdmissionLimits

variable (lim : AdmissionLimits)

/-- The bucket of a service. -/
def level (k : AlertKeys) (now : ℚ) : ℚ :=
  Lib.TokenBucket.level lim.burst lim.refillRate (k.bucket.map (·.bucket)) now

/-- **`_ADMIT_LUA`**. -/
def admitAlert (k : AlertKeys) (now : ℚ) (f : Fingerprint) : AlertKeys × AdmissionReply :=
  if k.isRepeat lim.window now f then
    ({ k with
        suppressed := Function.update k.suppressed f
          (some (AlertCounter.increment lim.counterTtl now (k.suppressed f))) },
      ⟨.repeated, 0, 0⟩)
  else
    let drawn := draw lim.burst lim.refillRate (k.bucket.map (·.bucket)) now
    -- the refill is put down on a refusal too
    let hash : BucketHash := ⟨drawn.1, now + lim.counterTtl⟩
    if drawn.2 then
      ({ k with
          bucket := some hash
          sent := Function.update k.sent f (some ⟨now, now + lim.counterTtl⟩)
          suppressed := Function.update k.suppressed f none
          limited := none },
        ⟨.admitted, ((k.suppressed f).map (·.count)).getD 0, (k.limited.map (·.count)).getD 0⟩)
    else
      ({ k with
          bucket := some hash
          limited := some (AlertCounter.increment lim.counterTtl now k.limited) },
        ⟨.limited, 0, 0⟩)

/-- **`forget`**: the counter is left alone. -/
def forget (k : AlertKeys) (f : Fingerprint) : AlertKeys :=
  { k with sent := Function.update k.sent f none }

end AdmissionLimits

/-- **`forget`**: the counter is left alone. -/
def AlertKeys.forget (k : AlertKeys) (f : Fingerprint) : AlertKeys :=
  { k with sent := Function.update k.sent f none }

/-- The product's: fifteen minutes, a burst of six, twenty an hour; keys live for two windows. -/
def AdmissionLimits.alert : AdmissionLimits where
  window := 900 * 1000
  burst := 6
  refillRate := 20 / 3600000
  counterTtl := 900 * 1000 * 2

/-! ## Runs -/

/-- A key of a service. -/
inductive AlertKey where
  | sent (f : Fingerprint)
  | suppressed (f : Fingerprint)
  | bucket
  | limited
  deriving DecidableEq, Repr

/-- What happens to the keys, with the instant it happens at. -/
inductive AdmissionEvent where
  /-- A process asks. -/
  | ask (now : ℚ) (f : Fingerprint)
  /-- A delivery reached nobody. -/
  | forget (now : ℚ) (f : Fingerprint)
  /-- A key is found gone, if its time to live is through. -/
  | expire (now : ℚ) (key : AlertKey)
  deriving DecidableEq, Repr

namespace AdmissionEvent

/-- The instant of an event. -/
def moment : AdmissionEvent → ℚ
  | ask now _ => now
  | forget now _ => now
  | expire now _ => now

/-- A key's expiry. -/
def isExpire : AdmissionEvent → Bool
  | expire _ _ => true
  | _ => false

end AdmissionEvent

/-- What is left of a key's value. -/
def unlessDue {α : Type} (expires : α → ℚ) (now : ℚ) (value : Option α) : Option α :=
  value.filter fun v => now < expires v

theorem unlessDue_some {α : Type} {expires : α → ℚ} {now : ℚ} (v : α) :
    unlessDue expires now (some v) = if now < expires v then some v else none := by
  by_cases hdue : now < expires v
  · rw [if_pos hdue]
    exact Option.filter_some_pos (by simpa using hdue)
  · rw [if_neg hdue]
    exact Option.filter_some_neg (by simpa using hdue)

/-- A key whose time to live is through is gone. -/
def AlertKeys.expire (k : AlertKeys) (now : ℚ) : AlertKey → AlertKeys
  | .sent f => { k with sent := Function.update k.sent f (unlessDue (·.expires) now (k.sent f)) }
  | .suppressed f =>
    { k with
      suppressed := Function.update k.suppressed f (unlessDue (·.expires) now (k.suppressed f)) }
  | .bucket => { k with bucket := unlessDue (·.expires) now k.bucket }
  | .limited => { k with limited := unlessDue (·.expires) now k.limited }

/-- A call of `admit` and what came of it. -/
structure AdmissionCall where
  moment : ℚ
  fingerprint : Fingerprint
  outcome : AdmissionOutcome
  deriving DecidableEq, Repr

namespace AdmissionLimits

variable (lim : AdmissionLimits)

/-- The keys an event leaves behind. -/
def step (k : AlertKeys) : AdmissionEvent → AlertKeys
  | .ask now f => (lim.admitAlert k now f).1
  | .forget _ f => k.forget f
  | .expire now key => k.expire now key

/-- The keys a run leaves behind. -/
def run (k : AlertKeys) (es : List AdmissionEvent) : AlertKeys := es.foldl lim.step k

/-- The call an event makes. -/
def callOf (k : AlertKeys) : AdmissionEvent → Option AdmissionCall
  | .ask now f => some ⟨now, f, (lim.admitAlert k now f).2.outcome⟩
  | _ => none

/-- The calls of a run. -/
def calls (k : AlertKeys) : List AdmissionEvent → List AdmissionCall
  | [] => []
  | e :: es => (lim.callOf k e).toList ++ calls (lim.step k e) es

/-- What a call comes to after a run from no keys. -/
def outcomeAfter (es : List AdmissionEvent) (now : ℚ) (f : Fingerprint) : AdmissionOutcome :=
  (lim.admitAlert (lim.run .empty es) now f).2.outcome

/-- Keys live long enough: through a window, and until the bucket is full again. -/
structure Kept : Prop where
  one_le_burst : 1 ≤ lim.burst
  rate_pos : 0 < lim.refillRate
  window_le : lim.window ≤ lim.counterTtl
  refills : lim.burst ≤ lim.counterTtl * lim.refillRate

theorem alert_kept : alert.Kept where
  one_le_burst := by decide +kernel
  rate_pos := by decide +kernel
  window_le := by decide +kernel
  refills := by decide +kernel

/-! ## One event -/

/-- The keys as the script wrote them, up to a time. -/
structure Written (k : AlertKeys) (now : ℚ) : Prop where
  sent : ∀ f, ∀ m ∈ k.sent f, m.expires = m.sentAt + lim.counterTtl
  bucket : ∀ h ∈ k.bucket, h.expires = h.bucket.touched + lim.counterTtl
  sound : Sound (k.bucket.map (·.bucket)) now

variable {lim} {k u : AlertKeys} {now later : ℚ} {f : Fingerprint} {e : AdmissionEvent}

theorem written_empty (now : ℚ) : lim.Written .empty now where
  sent _ _ hm := by cases hm
  bucket _ hh := by cases hh
  sound _ hc := by cases hc

theorem Written.mono (h : lim.Written k now) (hle : now ≤ later) : lim.Written k later :=
  ⟨h.sent, h.bucket, h.sound.mono hle⟩

/-- **What a call can do.** -/
theorem admitAlert_cases (lim : AdmissionLimits) (k : AlertKeys) (now : ℚ) (f : Fingerprint) :
    (k.isRepeat lim.window now f = true ∧ (lim.admitAlert k now f).2.outcome = .repeated ∧
      (lim.admitAlert k now f).1.sent = k.sent ∧ (lim.admitAlert k now f).1.bucket = k.bucket) ∨
    (k.isRepeat lim.window now f = false ∧ 1 ≤ lim.level k now ∧
      (lim.admitAlert k now f).2.outcome = .admitted ∧
      (lim.admitAlert k now f).1.sent =
        Function.update k.sent f (some ⟨now, now + lim.counterTtl⟩) ∧
      (lim.admitAlert k now f).1.bucket =
        some ⟨⟨lim.level k now - 1, now⟩, now + lim.counterTtl⟩) ∨
    (k.isRepeat lim.window now f = false ∧ lim.level k now < 1 ∧
      (lim.admitAlert k now f).2.outcome = .limited ∧ (lim.admitAlert k now f).1.sent = k.sent ∧
      (lim.admitAlert k now f).1.bucket = some ⟨⟨lim.level k now, now⟩, now + lim.counterTtl⟩) := by
  unfold admitAlert
  by_cases hrepeat : k.isRepeat lim.window now f = true
  · rw [if_pos hrepeat]
    exact .inl ⟨hrepeat, rfl, rfl, rfl⟩
  · rw [if_neg hrepeat]
    have hfresh := Bool.eq_false_iff.mpr hrepeat
    by_cases hfew : lim.level k now < 1
    · have hdraw : draw lim.burst lim.refillRate (k.bucket.map (·.bucket)) now =
          (⟨lim.level k now, now⟩, false) := if_pos hfew
      dsimp only
      rw [hdraw, if_neg Bool.false_ne_true]
      exact .inr (.inr ⟨hfresh, hfew, rfl, rfl, rfl⟩)
    · have hdraw : draw lim.burst lim.refillRate (k.bucket.map (·.bucket)) now =
          (⟨lim.level k now - 1, now⟩, true) := if_neg hfew
      dsimp only
      rw [hdraw, if_pos rfl]
      exact .inr (.inl ⟨hfresh, not_lt.mp hfew, rfl, rfl, rfl⟩)

/-- The open window and the level decide a call. -/
theorem outcome_eq (lim : AdmissionLimits) (k : AlertKeys) (now : ℚ) (f : Fingerprint) :
    (lim.admitAlert k now f).2.outcome =
      if k.isRepeat lim.window now f then .repeated
      else if lim.level k now < 1 then .limited else .admitted := by
  rcases admitAlert_cases lim k now f with
    ⟨hopen, hout, -⟩ | ⟨hopen, hlevel, hout, -⟩ | ⟨hopen, hlevel, hout, -⟩
  · rw [hout, if_pos hopen]
  · rw [hout, if_neg (by rw [hopen]; decide), if_neg (not_lt.mpr hlevel)]
  · rw [hout, if_neg (by rw [hopen]; decide), if_pos hlevel]

theorem level_admitAlert (lim : AdmissionLimits) (k : AlertKeys) (now later : ℚ) (f : Fingerprint) :
    lim.level (lim.admitAlert k now f).1 later =
      if k.isRepeat lim.window now f then lim.level k later
      else Lib.TokenBucket.level lim.burst lim.refillRate
        (some ⟨if lim.level k now < 1 then lim.level k now else lim.level k now - 1, now⟩) later := by
  rcases admitAlert_cases lim k now f with
    ⟨hopen, -, -, hbucket⟩ | ⟨hopen, hlevel, -, -, hbucket⟩ | ⟨hopen, hlevel, -, -, hbucket⟩
  · rw [if_pos hopen, level, hbucket]
    rfl
  · rw [if_neg (by rw [hopen]; decide), if_neg (not_lt.mpr hlevel), level, hbucket]
    rfl
  · rw [if_neg (by rw [hopen]; decide), if_pos hlevel, level, hbucket]
    rfl

theorem isRepeat_admitAlert (lim : AdmissionLimits) (k : AlertKeys) (now later : ℚ)
    (f g : Fingerprint) :
    (lim.admitAlert k now f).1.isRepeat lim.window later g =
      if (lim.admitAlert k now f).2.outcome = .admitted ∧ g = f then
        decide (later - now < lim.window)
      else k.isRepeat lim.window later g := by
  unfold AlertKeys.isRepeat
  rcases admitAlert_cases lim k now f with
    ⟨-, hout, hsent, -⟩ | ⟨-, -, hout, hsent, -⟩ | ⟨-, -, hout, hsent, -⟩
  · rw [hout, hsent, if_neg (by simp)]
  · rw [hout, hsent]
    by_cases hg : g = f
    · rw [if_pos ⟨rfl, hg⟩, hg, Function.update_self, Option.any_some]
    · rw [if_neg (fun hand => hg hand.2), Function.update_of_ne hg]
  · rw [hout, hsent, if_neg (by simp)]

/-- A key found gone is one of no account: its window is over, or its bucket full. -/
theorem Written.expire (hkept : lim.Kept) (h : lim.Written k now) (key : AlertKey)
    (hle : now ≤ later) :
    lim.level (k.expire now key) later = lim.level k later ∧
      ∀ f, (k.expire now key).isRepeat lim.window later f = k.isRepeat lim.window later f := by
  cases key with
  | sent g =>
    refine ⟨rfl, fun f => ?_⟩
    by_cases hf : f = g
    · subst hf
      have hleft : (k.expire now (.sent f)).sent f = unlessDue (·.expires) now (k.sent f) :=
        Function.update_self ..
      unfold AlertKeys.isRepeat
      rw [hleft]
      cases hm : k.sent f with
      | none => rfl
      | some m =>
        rw [unlessDue_some]
        by_cases hdue : now < m.expires
        · rw [if_pos hdue]
        · have hexpires := h.sent f m hm
          have hwindow := hkept.window_le
          rw [if_neg hdue, Option.any_none, Option.any_some, eq_comm, decide_eq_false_iff_not]
          linarith
    · have hother : (k.expire now (.sent g)).sent f = k.sent f := Function.update_of_ne hf ..
      unfold AlertKeys.isRepeat
      rw [hother]
  | suppressed g => exact ⟨rfl, fun _ => rfl⟩
  | bucket =>
    refine ⟨?_, fun _ => rfl⟩
    have hleft : (k.expire now .bucket).bucket = unlessDue (·.expires) now k.bucket := rfl
    unfold level
    rw [hleft]
    cases hb : k.bucket with
    | none => rfl
    | some hash =>
      rw [unlessDue_some]
      by_cases hdue : now < hash.expires
      · rw [if_pos hdue]
      · have hexpires := h.bucket hash hb
        have htokens := (h.sound hash.bucket (by rw [hb]; rfl)).1
        have hlong : lim.counterTtl * lim.refillRate ≤
            (later - hash.bucket.touched) * lim.refillRate :=
          mul_le_mul_of_nonneg_right (by linarith) hkept.rate_pos.le
        rw [if_neg hdue, Option.map_none, Option.map_some]
        exact (level_full htokens (hkept.refills.trans hlong)).symm
  | limited => exact ⟨rfl, fun _ => rfl⟩

/-- What is put down of a bucket at a time is sound. -/
theorem sound_putDown {x ttl : ℚ} (hx : 0 ≤ x) :
    Sound ((some (⟨⟨x, now⟩, ttl⟩ : BucketHash)).map (·.bucket)) now := by
  rintro c ⟨⟩
  exact ⟨hx, le_rfl⟩

/-- **Every event leaves keys as the script writes them.** -/
theorem Written.step (hkept : lim.Kept) (h : lim.Written k now) (hle : now ≤ e.moment) :
    lim.Written (lim.step k e) e.moment := by
  have hburst : 0 ≤ lim.burst := zero_le_one.trans hkept.one_le_burst
  have hnow := h.mono hle
  cases e with
  | ask t f =>
    rcases admitAlert_cases lim k t f with
      ⟨-, -, hsent, hbucket⟩ | ⟨-, henough, -, hsent, hbucket⟩ | ⟨-, -, -, hsent, hbucket⟩
    · exact ⟨hsent ▸ hnow.sent, hbucket ▸ hnow.bucket, hbucket ▸ hnow.sound⟩
    · refine ⟨?_, ?_, ?_⟩
      · intro g m hm
        rw [step, hsent] at hm
        by_cases hg : g = f
        · rw [hg, Function.update_self] at hm
          obtain rfl := Option.some.inj hm
          rfl
        · rw [Function.update_of_ne hg] at hm
          exact hnow.sent g m hm
      · intro hash hhash
        rw [step, hbucket] at hhash
        obtain rfl := Option.some.inj hhash
        rfl
      · rw [step, hbucket]
        exact sound_putDown (sub_nonneg.mpr henough)
    · refine ⟨hsent ▸ hnow.sent, ?_, ?_⟩
      · intro hash hhash
        rw [step, hbucket] at hhash
        obtain rfl := Option.some.inj hhash
        rfl
      · rw [step, hbucket]
        exact sound_putDown (hnow.sound.level_nonneg hburst hkept.rate_pos.le)
  | forget t f =>
    refine ⟨?_, hnow.bucket, hnow.sound⟩
    intro g m hm
    by_cases hg : g = f
    · subst hg
      have hleft : (lim.step k (.forget t g)).sent g = none := Function.update_self ..
      rw [hleft] at hm
      cases hm
    · have hother : (lim.step k (.forget t f)).sent g = k.sent g := Function.update_of_ne hg ..
      rw [hother] at hm
      exact hnow.sent g m hm
  | expire t key =>
    have hsub : ∀ g, ∀ m ∈ (k.expire t key).sent g, m ∈ k.sent g := by
      intro g m hm
      cases key with
      | sent f =>
        by_cases hg : g = f
        · subst hg
          have hleft : (k.expire t (.sent g)).sent g = unlessDue (·.expires) t (k.sent g) :=
            Function.update_self ..
          rw [hleft] at hm
          exact (Option.mem_filter_iff.mp hm).1
        · have hother : (k.expire t (.sent f)).sent g = k.sent g := Function.update_of_ne hg ..
          rwa [hother] at hm
      | suppressed f => exact hm
      | bucket => exact hm
      | limited => exact hm
    have hbucket : ∀ hash ∈ (k.expire t key).bucket, hash ∈ k.bucket := by
      intro hash hhash
      cases key with
      | sent f => exact hhash
      | suppressed f => exact hhash
      | bucket => exact (Option.mem_filter_iff.mp hhash).1
      | limited => exact hhash
    refine ⟨fun g m hm => hnow.sent g m (hsub g m hm),
      fun hash hhash => hnow.bucket hash (hbucket hash hhash), ?_⟩
    intro c hc
    obtain ⟨hash, hhash, rfl⟩ := Option.map_eq_some_iff.mp hc
    exact hnow.sound hash.bucket (Option.mem_map_of_mem _ (hbucket hash hhash))

theorem Written.run (hkept : lim.Kept) (es : List AdmissionEvent) (h : lim.Written k now)
    (hfrom : ∀ e ∈ es, now ≤ e.moment) (hordered : es.Pairwise (·.moment ≤ ·.moment))
    (hlater : ∀ e ∈ es, e.moment ≤ later) (hle : now ≤ later) :
    lim.Written (lim.run k es) later := by
  induction es generalizing k now with
  | nil => exact h.mono hle
  | cons e es ih =>
    obtain ⟨hafter, hordered⟩ := List.pairwise_cons.mp hordered
    exact ih (h.step hkept (hfrom e List.mem_cons_self)) hafter hordered
      (fun d hd => hlater d (List.mem_cons_of_mem _ hd)) (hlater e List.mem_cons_self)

/-- **What an admission takes of the bucket.** An event lowers no later level but by the token of
an admission. -/
theorem Written.level_step (hkept : lim.Kept) (h : lim.Written k now) (hle : now ≤ e.moment)
    (hlater : e.moment ≤ later) :
    lim.level (lim.step k e) later +
        (if (lim.callOf k e).any (·.outcome = .admitted) then 1 else 0) ≤
      lim.level k e.moment + (later - e.moment) * lim.refillRate := by
  have hrise := level_later_le lim.burst (k.bucket.map (·.bucket))
    hkept.rate_pos.le hlater
  have hnow := h.mono hle
  cases e with
  | ask t f =>
    unfold callOf
    rw [Option.any_some]
    rcases admitAlert_cases lim k t f with
      ⟨-, hout, -, hbucket⟩ | ⟨-, -, hout, -, hbucket⟩ | ⟨-, -, hout, -, hbucket⟩
    · rw [hout, if_neg (by simp), add_zero, level, AdmissionLimits.step, hbucket]
      exact hrise
    · rw [hout, if_pos (by simp), level, AdmissionLimits.step, hbucket]
      have hput : Lib.TokenBucket.level lim.burst lim.refillRate
          (some ⟨lim.level k t - 1, t⟩) later ≤
            lim.level k t - 1 + (later - t) * lim.refillRate := min_le_right _ _
      rw [Option.map_some]
      show _ ≤ lim.level k t + (later - t) * lim.refillRate
      linarith
    · rw [hout, if_neg (by simp), add_zero, level, AdmissionLimits.step, hbucket]
      exact min_le_right _ _
  | forget t f =>
    unfold callOf
    rw [Option.any_none, if_neg Bool.false_ne_true, add_zero]
    exact hrise
  | expire t key =>
    unfold callOf
    rw [Option.any_none, if_neg Bool.false_ne_true, add_zero]
    exact (hnow.expire hkept key hlater).1.le.trans hrise

/-- An event that admits nothing changes no later level. -/
theorem Written.level_step_eq (hkept : lim.Kept) (h : lim.Written k now) (hle : now ≤ e.moment)
    (hlater : e.moment ≤ later)
    (hnone : ∀ c ∈ lim.callOf k e, c.outcome ≠ .admitted) :
    lim.level (lim.step k e) later = lim.level k later := by
  have hnow := h.mono hle
  cases e with
  | ask t f =>
    rcases admitAlert_cases lim k t f with
      ⟨-, -, -, hbucket⟩ | ⟨-, -, hout, -, -⟩ | ⟨-, -, -, -, hbucket⟩
    · rw [level, AdmissionLimits.step, hbucket]
      rfl
    · exact absurd hout (hnone _ rfl)
    · rw [level, AdmissionLimits.step, hbucket, Option.map_some]
      exact level_refused hkept.rate_pos.le hlater
  | forget t f => rfl
  | expire t key => exact (hnow.expire hkept key hlater).1

/-! ## The budget -/

theorem callOf_moment {c : AdmissionCall} (h : c ∈ lim.callOf k e) : c.moment = e.moment := by
  cases e with
  | ask t f =>
    obtain rfl := Option.some.inj h
    rfl
  | forget t f => cases h
  | expire t key => cases h

theorem exists_of_mem_calls {es : List AdmissionEvent} {c : AdmissionCall}
    (h : c ∈ lim.calls k es) : ∃ e ∈ es, c.moment = e.moment := by
  induction es generalizing k with
  | nil => cases h
  | cons e es ih =>
    rcases List.mem_append.mp h with hc | hc
    · exact ⟨e, List.mem_cons_self, callOf_moment (Option.mem_toList.mp hc)⟩
    · obtain ⟨d, hd, heq⟩ := ih hc
      exact ⟨d, List.mem_cons_of_mem _ hd, heq⟩

/-- The admissions of a run from `t` on, up to `u`. -/
def admissions (lim : AdmissionLimits) (k : AlertKeys) (es : List AdmissionEvent) (t u : ℚ) :
    List AdmissionCall :=
  (lim.calls k es).filter fun c => c.outcome = .admitted ∧ t ≤ c.moment ∧ c.moment ≤ u

theorem admissions_eq_nil {es : List AdmissionEvent} {t u : ℚ} (h : ∀ e ∈ es, u < e.moment) :
    admissions lim k es t u = [] := by
  rw [admissions, List.filter_eq_nil_iff]
  intro c hc hin
  obtain ⟨e, he, heq⟩ := exists_of_mem_calls hc
  have hlast : c.moment ≤ u := (of_decide_eq_true hin).2.2
  exact absurd (h e he) (not_lt.mpr (heq ▸ hlast))

theorem length_admissions_cons {es : List AdmissionEvent} {t u : ℚ} :
    (admissions lim k (e :: es) t u).length =
      (if (lim.callOf k e).any (·.outcome = .admitted) ∧ t ≤ e.moment ∧ e.moment ≤ u then 1
        else 0) + (admissions lim (lim.step k e) es t u).length := by
  rw [admissions, calls, List.filter_append, List.length_append]
  congr 1
  cases hcall : lim.callOf k e with
  | none => rfl
  | some c =>
    have hmoment := callOf_moment (Option.mem_def.mpr hcall)
    rw [Option.toList_some, ← hmoment]
    by_cases hin : c.outcome = .admitted ∧ t ≤ c.moment ∧ c.moment ≤ u
    · rw [List.filter_cons_of_pos (by simpa using hin), List.filter_nil, if_pos (by simpa using hin)]
      rfl
    · rw [List.filter_cons_of_neg (by simpa using hin), List.filter_nil, if_neg (by simpa using hin)]
      rfl

/-- **What a run admits by a time is paid from the level and the refill.** -/
theorem Written.admissions_le (hkept : lim.Kept) {es : List AdmissionEvent} {t u : ℚ}
    (h : lim.Written k now) (hle : now ≤ u) (hfrom : ∀ e ∈ es, now ≤ e.moment)
    (hordered : es.Pairwise (·.moment ≤ ·.moment)) :
    ((admissions lim k es t u).length : ℚ) ≤ lim.level k now + (u - now) * lim.refillRate := by
  have hburst : 0 ≤ lim.burst := zero_le_one.trans hkept.one_le_burst
  have hlevel : 0 ≤ lim.level k now := h.sound.level_nonneg hburst hkept.rate_pos.le
  have hrefill : 0 ≤ (u - now) * lim.refillRate :=
    mul_nonneg (sub_nonneg.mpr hle) hkept.rate_pos.le
  induction es generalizing k now with
  | nil => simpa [admissions, calls] using add_nonneg hlevel hrefill
  | cons e es ih =>
    obtain ⟨hafter, hordered⟩ := List.pairwise_cons.mp hordered
    have hnext := hfrom e List.mem_cons_self
    by_cases hlast : e.moment ≤ u
    · have hstep := h.step hkept hnext
      have hrest := ih hstep hlast hafter hordered
        (hstep.sound.level_nonneg hburst hkept.rate_pos.le)
        (mul_nonneg (sub_nonneg.mpr hlast) hkept.rate_pos.le)
      have hpaid := h.level_step hkept hnext (le_refl e.moment)
      have hrise := level_later_le lim.burst (k.bucket.map (·.bucket))
        hkept.rate_pos.le hnext
      have hone : (if (lim.callOf k e).any (·.outcome = .admitted) ∧ t ≤ e.moment ∧ e.moment ≤ u
            then 1 else 0 : ℚ) ≤
          if (lim.callOf k e).any (·.outcome = .admitted) then 1 else 0 := by
        split
        next hin => rw [if_pos hin.1]
        next => split <;> norm_num
      rw [length_admissions_cons]
      push_cast
      unfold level at hpaid hrest ⊢
      rw [sub_self, zero_mul, add_zero] at hpaid
      have hsplit : (u - now) * lim.refillRate =
          (e.moment - now) * lim.refillRate + (u - e.moment) * lim.refillRate := by ring
      linarith
    · have hnil : admissions lim k (e :: es) t u = [] := by
        refine admissions_eq_nil ?_
        intro d hd
        rcases List.mem_cons.mp hd with rfl | hd
        · exact not_le.mp hlast
        · exact (not_le.mp hlast).trans_le (hafter d hd)
      rw [hnil, List.length_nil]
      exact_mod_cast add_nonneg hlevel hrefill

/-- **No interval admits more than the burst and its refill.** -/
theorem Written.admissions_interval_le (hkept : lim.Kept) {es : List AdmissionEvent} {t T : ℚ}
    (h : lim.Written k now) (hT : 0 ≤ T) (hfrom : ∀ e ∈ es, now ≤ e.moment)
    (hordered : es.Pairwise (·.moment ≤ ·.moment)) :
    ((admissions lim k es t (t + T)).length : ℚ) ≤ lim.burst + lim.refillRate * T := by
  have hall : 0 ≤ lim.burst + lim.refillRate * T :=
    add_nonneg (zero_le_one.trans hkept.one_le_burst) (mul_nonneg hkept.rate_pos.le hT)
  induction es generalizing k now with
  | nil => simpa [admissions, calls] using hall
  | cons e es ih =>
    obtain ⟨hafter, hrest⟩ := List.pairwise_cons.mp hordered
    have hnext := hfrom e List.mem_cons_self
    by_cases hearly : e.moment < t
    · have hnot : ¬ ((lim.callOf k e).any (·.outcome = .admitted) ∧ t ≤ e.moment ∧
          e.moment ≤ t + T) := fun hin => absurd hin.2.1 (not_le.mpr hearly)
      rw [length_admissions_cons, if_neg hnot, Nat.zero_add]
      exact ih (h.step hkept hnext) hafter hrest
    · by_cases hlast : e.moment ≤ t + T
      · have hfirst : ∀ d ∈ e :: es, e.moment ≤ d.moment := by
          intro d hd
          rcases List.mem_cons.mp hd with rfl | hd
          · exact le_rfl
          · exact hafter d hd
        have hpaid := (h.mono hnext).admissions_le hkept (t := t) hlast hfirst hordered
        have hfull : lim.level k e.moment ≤ lim.burst := level_le_burst
        have hshort : (t + T - e.moment) * lim.refillRate ≤ T * lim.refillRate :=
          mul_le_mul_of_nonneg_right (by linarith [not_lt.mp hearly]) hkept.rate_pos.le
        linarith
      · have hnil : admissions lim k (e :: es) t (t + T) = [] := by
          refine admissions_eq_nil ?_
          intro d hd
          rcases List.mem_cons.mp hd with rfl | hd
          · exact not_le.mp hlast
          · exact (not_le.mp hlast).trans_le (hafter d hd)
        rw [hnil, List.length_nil]
        exact_mod_cast hall

/-! ## The window -/

/-- A fingerprint was sent at `t` or later, or its window from `t` is over. -/
def SentFrom (lim : AdmissionLimits) (f : Fingerprint) (t : ℚ) (k : AlertKeys) (now : ℚ) : Prop :=
  (∃ m ∈ k.sent f, t ≤ m.sentAt) ∨ t + lim.window ≤ now

theorem SentFrom.step (hkept : lim.Kept) {t : ℚ} (hw : lim.Written k now)
    (h : SentFrom lim f t k now) (hle : now ≤ e.moment)
    (hforget : ∀ u, e ≠ .forget u f) (hfrom : t ≤ now) :
    SentFrom lim f t (lim.step k e) e.moment := by
  rcases h with ⟨m, hm, hsince⟩ | hover
  · cases e with
    | ask u g =>
      rcases admitAlert_cases lim k u g with
        ⟨-, -, hsent, -⟩ | ⟨-, -, -, hsent, -⟩ | ⟨-, -, -, hsent, -⟩
      · exact .inl ⟨m, hsent ▸ hm, hsince⟩
      · by_cases hg : f = g
        · subst hg
          have hnew : (lim.step k (.ask u f)).sent f = some ⟨u, u + lim.counterTtl⟩ := by
            rw [AdmissionLimits.step, hsent, Function.update_self]
          exact .inl ⟨_, hnew, hfrom.trans hle⟩
        · have hother : (lim.step k (.ask u g)).sent f = k.sent f := by
            rw [AdmissionLimits.step, hsent, Function.update_of_ne hg]
          exact .inl ⟨m, hother ▸ hm, hsince⟩
      · exact .inl ⟨m, hsent ▸ hm, hsince⟩
    | forget u g =>
      have hg : f ≠ g := by
        rintro rfl
        exact hforget u rfl
      have hother : (lim.step k (.forget u g)).sent f = k.sent f := Function.update_of_ne hg ..
      exact .inl ⟨m, hother ▸ hm, hsince⟩
    | expire u key =>
      by_cases hdue : u < m.expires
      · refine .inl ⟨m, ?_, hsince⟩
        cases key with
        | sent g =>
          by_cases hg : f = g
          · subst hg
            have hleft : (lim.step k (.expire u (.sent f))).sent f =
                unlessDue (·.expires) u (k.sent f) := Function.update_self ..
            rw [hleft, Option.mem_def.mp hm, unlessDue_some, if_pos hdue]
            rfl
          · have hother : (lim.step k (.expire u (.sent g))).sent f = k.sent f :=
              Function.update_of_ne hg ..
            exact hother ▸ hm
        | suppressed g => exact hm
        | bucket => exact hm
        | limited => exact hm
      · have hexpires := hw.sent f m hm
        have hwindow := hkept.window_le
        refine .inr ?_
        show t + lim.window ≤ u
        linarith
  · exact .inr (hover.trans hle)

theorem SentFrom.run (hkept : lim.Kept) {t : ℚ} {es : List AdmissionEvent}
    (hw : lim.Written k now) (h : SentFrom lim f t k now) (hfrom : ∀ e ∈ es, now ≤ e.moment)
    (hordered : es.Pairwise (·.moment ≤ ·.moment)) (hforget : ∀ u, .forget u f ∉ es)
    (hlater : ∀ e ∈ es, e.moment ≤ later) (hle : now ≤ later) (ht : t ≤ now) :
    SentFrom lim f t (lim.run k es) later := by
  induction es generalizing k now with
  | nil => exact h.imp_right (·.trans hle)
  | cons e es ih =>
    obtain ⟨hafter, hordered⟩ := List.pairwise_cons.mp hordered
    have hnext := hfrom e List.mem_cons_self
    refine ih (hw.step hkept hnext) (h.step hkept hw hnext ?_ ht) hafter hordered ?_
      (fun d hd => hlater d (List.mem_cons_of_mem _ hd)) (hlater e List.mem_cons_self)
      (ht.trans hnext)
    · rintro u rfl
      exact hforget u List.mem_cons_self
    · exact fun u hu => hforget u (List.mem_cons_of_mem _ hu)

/-- An admission of a fingerprint sent from `t` on comes a window later. -/
theorem SentFrom.window_le {t : ℚ} (h : SentFrom lim f t k now)
    (hout : (lim.admitAlert k now f).2.outcome = .admitted) : lim.window ≤ now - t := by
  rcases h with ⟨m, hm, hsince⟩ | hover
  · have hnot : k.isRepeat lim.window now f = false := by
      rcases admitAlert_cases lim k now f with ⟨-, hother, -, -⟩ | ⟨hfresh, -⟩ | ⟨hfresh, -⟩
      · rw [hother] at hout
        cases hout
      · exact hfresh
      · exact hfresh
    unfold AlertKeys.isRepeat at hnot
    rw [Option.mem_def.mp hm, Option.any_some, decide_eq_false_iff_not] at hnot
    linarith
  · linarith

/-! ## A refusal -/

/-- While nothing is admitted, a bucket refills as if nobody asked. -/
theorem Written.level_run_eq (hkept : lim.Kept) {es : List AdmissionEvent}
    (h : lim.Written k now) (hfrom : ∀ e ∈ es, now ≤ e.moment)
    (hordered : es.Pairwise (·.moment ≤ ·.moment)) (hlater : ∀ e ∈ es, e.moment ≤ later)
    (hnone : ∀ c ∈ lim.calls k es, c.outcome ≠ .admitted) :
    lim.level (lim.run k es) later = lim.level k later := by
  induction es generalizing k now with
  | nil => rfl
  | cons e es ih =>
    obtain ⟨hafter, hordered⟩ := List.pairwise_cons.mp hordered
    have hnext := hfrom e List.mem_cons_self
    have hcall : ∀ c ∈ lim.callOf k e, c.outcome ≠ .admitted :=
      fun c hc => hnone c (List.mem_append_left _ (Option.mem_toList.mpr hc))
    have hkeep := h.level_step_eq hkept hnext (hlater e List.mem_cons_self) hcall
    refine Eq.trans ?_ hkeep
    exact ih (h.step hkept hnext) hafter hordered
      (fun d hd => hlater d (List.mem_cons_of_mem _ hd))
      (fun c hc => hnone c (List.mem_append_right _ hc))

/-! ## Keys that expire -/

/-- Keys that answer every later call alike. -/
structure Alike (lim : AdmissionLimits) (k u : AlertKeys) (now : ℚ) : Prop where
  level : ∀ later, now ≤ later → lim.level k later = lim.level u later
  isRepeat : ∀ f later, now ≤ later →
    k.isRepeat lim.window later f = u.isRepeat lim.window later f

theorem Alike.refl (lim : AdmissionLimits) (k : AlertKeys) (now : ℚ) : Alike lim k k now :=
  ⟨fun _ _ => rfl, fun _ _ _ => rfl⟩

theorem Alike.outcome (h : Alike lim k u now) (hle : now ≤ later) (f : Fingerprint) :
    (lim.admitAlert k later f).2.outcome = (lim.admitAlert u later f).2.outcome := by
  rw [outcome_eq, outcome_eq, h.level later hle, h.isRepeat f later hle]

theorem Alike.callOf (h : Alike lim k u now) (hle : now ≤ e.moment) :
    lim.callOf k e = lim.callOf u e := by
  cases e with
  | ask t f =>
    have hout : (lim.admitAlert k t f).2.outcome = (lim.admitAlert u t f).2.outcome := h.outcome hle f
    unfold AdmissionLimits.callOf
    dsimp only
    rw [hout]
  | forget t f => rfl
  | expire t key => rfl

/-- The same event leaves keys that are alike alike. -/
theorem Alike.step (h : Alike lim k u now) (hle : now ≤ e.moment) (hkeep : e.isExpire = false) :
    Alike lim (lim.step k e) (lim.step u e) e.moment := by
  cases e with
  | ask t f =>
    have hout : (lim.admitAlert k t f).2.outcome = (lim.admitAlert u t f).2.outcome := h.outcome hle f
    refine ⟨fun later hlater => ?_, fun g later hlater => ?_⟩
    · rw [AdmissionLimits.step, AdmissionLimits.step, level_admitAlert, level_admitAlert,
        h.level t hle, h.isRepeat f t hle, h.level later (hle.trans hlater)]
    · rw [AdmissionLimits.step, AdmissionLimits.step, isRepeat_admitAlert, isRepeat_admitAlert, hout,
        h.isRepeat g later (hle.trans hlater)]
  | forget t f =>
    refine ⟨fun later hlater => h.level later (hle.trans hlater), fun g later hlater => ?_⟩
    have hsame := h.isRepeat g later (hle.trans hlater)
    unfold AlertKeys.isRepeat at hsame ⊢
    by_cases hg : g = f
    · subst hg
      have hleft : ∀ k : AlertKeys, (lim.step k (.forget t g)).sent g = none :=
        fun k => Function.update_self ..
      rw [hleft, hleft]
    · have hother : ∀ k : AlertKeys, (lim.step k (.forget t f)).sent g = k.sent g :=
        fun k => Function.update_of_ne hg ..
      rw [hother, hother]
      exact hsame
  | expire t key => cases hkeep

/-- **Expiry changes no call.** -/
theorem Alike.calls (hkept : lim.Kept) {es : List AdmissionEvent} (h : Alike lim k u now)
    (hw : lim.Written k now) (hfrom : ∀ e ∈ es, now ≤ e.moment)
    (hordered : es.Pairwise (·.moment ≤ ·.moment)) :
    lim.calls k es = lim.calls u (es.filter (!·.isExpire)) := by
  induction es generalizing k u now with
  | nil => rfl
  | cons e es ih =>
    obtain ⟨hafter, hrest⟩ := List.pairwise_cons.mp hordered
    have hnext := hfrom e List.mem_cons_self
    have hwritten := hw.step hkept hnext
    by_cases hexpire : e.isExpire = true
    · rw [List.filter_cons_of_neg (by simp [hexpire])]
      obtain ⟨t, key, rfl⟩ : ∃ t key, e = .expire t key := by
        cases e with
        | ask t f => cases hexpire
        | forget t f => cases hexpire
        | expire t key => exact ⟨t, key, rfl⟩
      refine ih ?_ hwritten hafter hrest
      refine ⟨fun later hlater => ?_, fun f later hlater => ?_⟩
      · exact ((hw.mono hnext).expire hkept key hlater).1.trans (h.level later (hnext.trans hlater))
      · exact (((hw.mono hnext).expire hkept key hlater).2 f).trans
          (h.isRepeat f later (hnext.trans hlater))
    · rw [List.filter_cons_of_pos (by simp [hexpire]), AdmissionLimits.calls, AdmissionLimits.calls,
        h.callOf hnext, ih (h.step hnext (Bool.eq_false_iff.mpr hexpire)) hwritten hafter hrest]

theorem exists_from {es : List AdmissionEvent} (hordered : es.Pairwise (·.moment ≤ ·.moment)) :
    ∃ now, ∀ e ∈ es, now ≤ e.moment := by
  cases es with
  | nil => exact ⟨0, fun e he => absurd he List.not_mem_nil⟩
  | cons e es =>
    refine ⟨e.moment, fun d hd => ?_⟩
    rcases List.mem_cons.mp hd with rfl | hd
    · exact le_rfl
    · exact (List.pairwise_cons.mp hordered).1 d hd

theorem written_run (hkept : lim.Kept) {es : List AdmissionEvent}
    (hordered : es.Pairwise (·.moment ≤ ·.moment)) (hlater : ∀ e ∈ es, e.moment ≤ later) :
    lim.Written (lim.run .empty es) later := by
  obtain ⟨now, hfrom⟩ := exists_from hordered
  exact (written_empty (min now later)).run hkept es
    (fun e he => (min_le_left _ _).trans (hfrom e he)) hordered hlater (min_le_right _ _)

/-- Two calls of a run and what lies around them. -/
theorem ordered_split {before mid after : List AdmissionEvent} {d e : AdmissionEvent}
    (h : (before ++ d :: (mid ++ e :: after)).Pairwise (·.moment ≤ ·.moment)) :
    before.Pairwise (·.moment ≤ ·.moment) ∧ mid.Pairwise (·.moment ≤ ·.moment) ∧
      (∀ c ∈ before, c.moment ≤ d.moment) ∧ (∀ c ∈ mid, d.moment ≤ c.moment) ∧
      (∀ c ∈ mid, c.moment ≤ e.moment) ∧ d.moment ≤ e.moment := by
  obtain ⟨hbefore, hrest, hacross⟩ := List.pairwise_append.mp h
  obtain ⟨hd, hrest⟩ := List.pairwise_cons.mp hrest
  obtain ⟨hmid, -, hmidAfter⟩ := List.pairwise_append.mp hrest
  exact ⟨hbefore, hmid, fun c hc => hacross c hc d List.mem_cons_self,
    fun c hc => hd c (List.mem_append_left _ hc),
    fun c hc => hmidAfter c hc e List.mem_cons_self,
    hd e (List.mem_append_right _ List.mem_cons_self)⟩

end AdmissionLimits

/-! ## The bound -/

open AdmissionLimits

end Calevate.Platform
