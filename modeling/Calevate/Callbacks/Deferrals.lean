import Calevate.Callbacks.Blocks

/-!
# Deferrals

A refusal that waiting can lift puts a call-back back in line, five minutes on, and its two
hours do not move with it; so there is room for twenty-five claims, and an expiry pass after
the two hours ends it. Three statements move the two hours themselves: a booking, the release
after a pause, and `defer_to_window`, which waits for the next opening of the campaign's
hours.
-/

namespace Calevate.Callbacks

open Lib

/-! ## Reckoning -/

/-- The deeds that move the two hours. -/
def Deed.movesOrigin : Deed → Bool
  | .moved _ | .released _ | .windowed _ => true
  | _ => false

/-- The claims since the two hours were last moved. -/
def claimsSince : List Entry → ℕ
  | [] => 0
  | e :: es =>
    if e.deed.movesOrigin then 0 else if e.deed.isClaim then claimsSince es + 1 else claimsSince es

/-- The claims there is room for in two hours, five minutes apart. -/
def maxClaims : ℕ := grace / retryAfter + 1

/-! ## Rows -/

section Rows

variable {db : Db} {now : ℕ} {who : Who} {r r' : Callback} {deeds : List Deed}
variable {es : List Entry}

/-- **What holds of a row and its entries**: each claim of it came five minutes after the one
before, the first not before the two hours began. -/
structure Paced (now : ℕ) (es : List Entry) (r : Callback) : Prop where
  bound : claimsSince es ≤ maxClaims
  origin : r.status = .scheduled → ∀ g, r.graceFrom = some g →
    ∃ next, r.nextAttemptAt = some next ∧ g ≤ next
  waiting : r.status = .scheduled → 0 < claimsSince es →
    ∃ next, r.nextAttemptAt = some next ∧ r.graceOrigin + claimsSince es * retryAfter ≤ next
  dialing : r.status = .dialing → 0 < claimsSince es ∧
    r.graceOrigin + (claimsSince es - 1) * retryAfter ≤ now

theorem Paced.new (b : Booking) : Paced now [] (newCallback b now) := by
  constructor <;> simp [claimsSince, newCallback]

theorem Paced.wait (h : Paced now es r) (d : ℕ) : Paced (now + d) es r :=
  ⟨h.bound, h.origin, h.waiting, fun hs => ⟨(h.dialing hs).1, (h.dialing hs).2.trans (by omega)⟩⟩

/-- The two hours begin no later than the origin says. -/
theorem Callback.graceOrigin_le {t : ℕ} (hrequested : r.requestedAt ≤ t)
    (hgrace : ∀ g, r.graceFrom = some g → g ≤ t) : r.graceOrigin ≤ t := by
  unfold graceOrigin
  cases hg : r.graceFrom with
  | none => simpa using hrequested
  | some g => simpa using ⟨hrequested, hgrace g hg⟩

/-- A claim comes within the two hours, and as far into them as the claims before it. -/
theorem Paced.claim (h : Paced now es r) {locked : List ℕ}
    (hclaim : db.claimable locked now r = true) (hfresh : stale now r = false) :
    r.graceOrigin + claimsSince es * retryAfter ≤ now ∧ now ≤ r.graceOrigin + grace := by
  obtain ⟨hs, hrequested, hnext, hrule, -⟩ := of_decide_eq_true hclaim
  have hdue : ∀ next, r.nextAttemptAt = some next → next ≤ now := by
    intro next hsome
    rw [hsome] at hnext
    simpa using hnext
  constructor
  · rcases Nat.eq_zero_or_pos (claimsSince es) with hzero | hpos
    · rw [hzero, Nat.zero_mul, Nat.add_zero]
      apply Callback.graceOrigin_le hrequested
      intro g hg
      obtain ⟨next, hsome, hle⟩ := h.origin hs g hg
      exact hle.trans (hdue next hsome)
    · obtain ⟨next, hsome, hle⟩ := h.waiting hs hpos
      exact hle.trans (hdue next hsome)
  · simp only [stale, decide_eq_false_iff_not, not_and] at hfresh
    by_contra hlate
    exact hfresh hs (by omega) hrule

/-- **A turn keeps the pace**, a claim's if the row was not stale. -/
theorem Paced.turn (h : Paced now es r) (ht : Turn db now who r r' deeds)
    (hstale : who = .claimer → stale now r = false) :
    Paced now (Db.entriesOf r.id deeds ++ es) r' := by
  obtain ⟨hbound, horigin, hwaiting, hdialing⟩ := h
  cases ht with
  | moved b note language agentId sourceCallId leadId hkey hs hlater =>
    refine ⟨by simp [claimsSince, Db.entriesOf, Deed.movesOrigin], horigin, ?_, by simp [hs]⟩
    simp [claimsSince, Db.entriesOf, Deed.movesOrigin]
  | missed reason h => exact ⟨hbound, by simp, by simp, by simp⟩
  | held reason hs hpaused => exact ⟨hbound, horigin, hwaiting, by simp [hs]⟩
  | released hs hrule hpaused =>
    refine ⟨by simp [claimsSince, Db.entriesOf, Deed.movesOrigin], ?_, ?_, by simp [hs]⟩
    · intro _ g hg
      exact ⟨_, rfl, le_of_eq (by simpa using hg.symm)⟩
    · simp [claimsSince, Db.entriesOf, Deed.movesOrigin]
  | cancelled rule reason hs => exact ⟨hbound, by simp, by simp, by simp⟩
  | ended status hs hstatus =>
    refine ⟨hbound, ?_, ?_, ?_⟩ <;> rcases hstatus with rfl | rfl <;> simp
  | claimed tick locked hclaim =>
    have hclaims : claimsSince (Db.entriesOf r.id [.claimed tick now r.requestedAt] ++ es) =
        claimsSince es + 1 := by
      simp [claimsSince, Db.entriesOf, Deed.movesOrigin, Deed.isClaim]
    obtain ⟨hinto, hwithin⟩ := Paced.claim ⟨hbound, horigin, hwaiting, hdialing⟩ hclaim (hstale rfl)
    refine ⟨?_, by simp, by simp, ?_⟩
    · have hroom : claimsSince es * retryAfter ≤ grace := by omega
      have hdiv : claimsSince es ≤ grace / retryAfter :=
        (Nat.le_div_iff_mul_le (by decide)).2 hroom
      rw [hclaims, maxClaims]
      omega
    · intro _
      rw [hclaims]
      exact ⟨Nat.succ_pos _, by simpa [Callback.graceOrigin] using hinto⟩
  | linked callId hringing =>
    have hclaims : claimsSince (Db.entriesOf r.id [.dialled r.status] ++ es) = claimsSince es := by
      simp [claimsSince, Db.entriesOf, Deed.movesOrigin, Deed.isClaim]
    exact ⟨by rw [hclaims]; exact hbound, horigin, by rw [hclaims]; exact hwaiting,
      by rw [hclaims]; exact hdialing⟩
  | paused d hpaused =>
    have hclaims : claimsSince (Db.entriesOf r.id [.paused now (now + d)] ++ es) =
        claimsSince es := by
      simp [claimsSince, Db.entriesOf, Deed.movesOrigin, Deed.isClaim]
    exact ⟨by rw [hclaims]; exact hbound, horigin, by rw [hclaims]; exact hwaiting,
      by rw [hclaims]; exact hdialing⟩
  | deferred callback waits rule reason hid hs =>
    obtain ⟨hpos, hinto⟩ := hdialing hs
    have hclaims : claimsSince (Db.entriesOf r.id [.refunded] ++ es) = claimsSince es := by
      simp [claimsSince, Db.entriesOf, Deed.movesOrigin, Deed.isClaim]
    have hsucc : claimsSince es * retryAfter = (claimsSince es - 1) * retryAfter + retryAfter := by
      rw [← Nat.succ_mul, Nat.succ_eq_add_one, Nat.sub_add_cancel hpos]
    refine ⟨by rw [hclaims]; exact hbound, ?_, ?_, by simp⟩
    · intro _ g hg
      refine ⟨_, rfl, ?_⟩
      have hg' : g ≤ r.graceOrigin := by
        simp only at hg
        simp [Callback.graceOrigin, hg]
      omega
    · intro _ _
      rw [hclaims]
      refine ⟨_, rfl, ?_⟩
      simp only [Callback.graceOrigin] at hinto ⊢
      omega
  | windowed callback opens rule reason hid hs hopens =>
    refine ⟨by simp [claimsSince, Db.entriesOf, Deed.movesOrigin], ?_, ?_, by simp⟩
    · intro _ g hg
      exact ⟨_, rfl, le_of_eq (by simpa using hg.symm)⟩
    · simp [claimsSince, Db.entriesOf, Deed.movesOrigin]
  | settled callback waits status rule reason callId hid hopen hended =>
    refine ⟨hbound, ?_, ?_, ?_⟩ <;>
    · intro hs
      simp only at hs
      simp [hs, CallbackStatus.live] at hended

end Rows

theorem paced_keeps : Keeps Paced fun _ _ _ => True :=
  ⟨fun _ b => Paced.new b, fun d h => h.wait d, fun ht hfresh _ h => h.turn ht hfresh⟩

namespace World

variable {w : World}

theorem blocks_paced (blocks : List Block) :
    (runBlocks blocks).Sound ∧ (runBlocks blocks).Keep Paced :=
  blocks_keep paced_keeps (comes_true empty blocks)

/-! ## The end of the two hours -/

/-- A row that a statement does not pick is there afterwards. -/
theorem mem_updateWhere {db : Db} {p : Callback → Bool} {f : Callback → Callback}
    {deeds : Callback → List Deed} {r : Callback} (hr : r ∈ db.callbacks.rows)
    (hp : p r = false) : r ∈ (db.updateWhere p f deeds).callbacks.rows :=
  Journal.mem_rewrite.2 (.inl ⟨hr, hp⟩)

/-- **A tick ends what waits beyond its two hours**, unless its campaign's pause holds it. -/
theorem passes_end (hs : w.Sound) (q limit : ℕ) (locked : List ℕ) {r : Callback}
    (hr : r ∈ w.db.callbacks.rows) (hwaits : r.status = .scheduled)
    (hunmarked : r.lastRefusalRule ≠ some campaignPausedRule)
    (hruns : w.db.campaignIs r .paused = false) (hlate : r.graceOrigin + grace < w.clock) :
    ∃ r' ∈ ((passes q limit locked).foldl step w).db.callbacks.rows,
      r'.id = r.id ∧ r'.status.live = false := by
  have h1 : r ∈ (w.step .settleDialled).db.callbacks.rows := by
    apply mem_updateWhere (mem_updateWhere hr _)
    · simp [hwaits]
    · simp [hwaits]
  have hs1 := step_sound hs .settleDialled
  have hs2 := step_sound hs1 (.callOff none)
  by_cases hcalled : w.db.campaignIs r .cancelled = true
  · -- called off with its campaign
    have h2 : { r with
          status := CallbackStatus.cancelled
          settledAt := some w.clock
          lastRefusalRule := some campaignStoppedRule
          lastRefusalReason := some campaignStoppedReason
          updatedAt := w.clock } ∈
        ((w.step .settleDialled).step (.callOff none)).db.callbacks.rows := by
      refine Journal.mem_rewrite.2 (.inr ⟨r, h1, ?_, rfl⟩)
      exact decide_eq_true ⟨hwaits, hcalled, rfl⟩
    obtain ⟨r', hr', hid, hstatus⟩ :=
      run_ended hs2 [.hold, .release locked, .expire, .claim q limit locked] h2 rfl
    exact ⟨r', hr', hid, by rw [hstatus]; rfl⟩
  · have h2 : r ∈ ((w.step .settleDialled).step (.callOff none)).db.callbacks.rows := by
      apply mem_updateWhere h1
      exact decide_eq_false fun hp => hcalled hp.2.1
    have h3 : r ∈ (((w.step .settleDialled).step (.callOff none)).step .hold).db.callbacks.rows := by
      apply mem_updateWhere h2
      refine decide_eq_false fun hp => ?_
      have hpaused : w.db.campaignIs r .paused = true := hp.2.1
      rw [hruns] at hpaused
      cases hpaused
    have hs3 := step_sound hs2 .hold
    have h4 : r ∈ ((((w.step .settleDialled).step (.callOff none)).step .hold).step
        (.release locked)).db.callbacks.rows := by
      apply mem_updateWhere h3
      exact decide_eq_false fun hp => hunmarked hp.2.1
    have hs4 := step_sound hs3 (.release locked)
    have h5 : { r with
          status := CallbackStatus.missed
          settledAt := some w.clock
          lastRefusalReason := some (r.lastRefusalReason.getD unattemptedReason)
          updatedAt := w.clock } ∈
        (((((w.step .settleDialled).step (.callOff none)).step .hold).step
          (.release locked)).step .expire).db.callbacks.rows := by
      refine Journal.mem_rewrite.2 (.inr ⟨r, h4, ?_, rfl⟩)
      exact decide_eq_true ⟨hwaits, hlate, hunmarked⟩
    have hs5 := step_sound hs4 .expire
    obtain ⟨r', hr', hid, hstatus⟩ := run_ended hs5 [.claim q limit locked] h5 rfl
    exact ⟨r', hr', hid, by rw [hstatus]; rfl⟩

end World

/-! ## What moves the two hours -/

/-- **Only a booking, a release and a wait for the hours of the campaign move the two hours.** -/
theorem Turn.origin {db : Db} {now : ℕ} {who : Who} {r r' : Callback} {deeds : List Deed}
    (ht : Turn db now who r r' deeds) (hbook : ∀ b, who ≠ .booker b) (hrelease : who ≠ .releaser) :
    r'.requestedAt = r.requestedAt ∧ (r'.graceFrom = r.graceFrom ∨
      ∃ callback opens, who = .holder callback true ∧ callback.id = r.id ∧
        opensLater callback now = some opens ∧ r'.graceFrom = some opens) := by
  cases ht with
  | moved b => exact absurd rfl (hbook b)
  | released => exact absurd rfl hrelease
  | windowed callback opens rule reason hid hs hopens =>
    exact ⟨rfl, .inr ⟨callback, opens, rfl, hid, hopens, rfl⟩⟩
  | _ => exact ⟨rfl, .inl rfl⟩

namespace World

variable {w : World}

/-- The two hours of a row are as they were, or begin at the opening its tick waits for. -/
def OriginKept (w : World) (r r' : Callback) : Prop :=
  r'.id = r.id ∧ r'.requestedAt = r.requestedAt ∧
    (r'.graceFrom = r.graceFrom ∨ ∃ tick, ∃ k ∈ w.undialled tick r.id, ∃ opens,
      opensLater k.callback w.clock = some opens ∧ r'.graceFrom = some opens)

/-- A step that books nothing and releases nothing keeps them so. -/
theorem step_origin (hs : w.Sound) {a : Action} (hbook : ∀ b, a ≠ .book b)
    (hrelease : ∀ locked, a ≠ .release locked) {r : Callback} (hr : r ∈ w.db.callbacks.rows) :
    ∃ r' ∈ (w.step a).db.callbacks.rows, w.OriginKept r r' := by
  have hbooker : ∀ b, w.turnOf a ≠ .booker b := by
    cases a with
    | book b => exact absurd rfl (hbook b)
    | decide tick id finding => exact (w.turnOf_decide tick id finding).not_booker
    | dial tick id callId campaignId => exact (w.turnOf_dial tick id callId campaignId).not_booker
    | conclude tick id answer => exact (w.turnOf_conclude tick id answer).not_booker
    | _ => simp [turnOf]
  have hreleaser : w.turnOf a ≠ .releaser := by
    cases a with
    | release locked => exact absurd rfl (hrelease locked)
    | decide tick id finding => exact (w.turnOf_decide tick id finding).not_releaser
    | dial tick id callId campaignId =>
      exact (w.turnOf_dial tick id callId campaignId).not_releaser
    | conclude tick id answer => exact (w.turnOf_conclude tick id answer).not_releaser
    | _ => simp [turnOf]
  have hkept : ∀ db0 r1 r2 deeds es, Turn db0 w.clock (w.turnOf a) r1 r2 deeds → Counted es r1 →
      w.OriginKept r r1 → w.OriginKept r r2 := by
    rintro db0 r1 r2 deeds es hturn - ⟨hid, hrequested, hgrace⟩
    obtain ⟨hrequested', hgrace'⟩ := hturn.origin hbooker hreleaser
    refine ⟨hturn.id_eq.trans hid, hrequested'.trans hrequested, ?_⟩
    rcases hgrace' with hsame | ⟨callback, opens, hwho, hid', hopens, hnew⟩
    · rw [hsame]
      exact hgrace
    · obtain ⟨tick, k, hfind, rfl, -⟩ := turnOf_waits hwho
      rw [hid', hid] at hfind
      exact .inr ⟨tick, k, hfind, opens, hopens, hnew⟩
  obtain ⟨r', hr', -, horigin⟩ := (step_moves hs a).successor hs.table
    (fun _ _ _ _ _ hturn hR => hR.turn hturn) (fun b => Counted.new b w.clock) hkept hr
    ⟨rfl, rfl, .inl rfl⟩
  exact ⟨r', hr', horigin⟩

end World

end Calevate.Callbacks
