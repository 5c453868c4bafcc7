import Mathlib.Data.List.GetD
import Calevate.Campaigns.Dispatch

/-!
# The retry ladder

For a validated policy, and whatever the ticks, the calls and the crashes between them do,
a waiting contact has an attempt left, a dialled one has spent between one and all of them,
it is handed to the dialler no more often than the policy allows, and no two claims on it
are alive (`Ladder`). The writers check the row's status and not the claim, so this rests
on time: a contact that someone else sends back to `pending` stays there for the shortest
gap, and by then the tick that had it must be through. `Within` is that assumption, and a
tick that keeps a claim as long as the reaper lets it breaks the ladder.

The invariant is `Climbing`. All claims but the newest are over; the newest, while alive,
has the row to itself or keeps it off the next claim.
-/

namespace Calevate.Campaigns

open Lib

/-! ## The policy -/

/-- The shortest of `RETRY_GAP_CHOICES`, in seconds. -/
def shortestGap : ℕ := 15 * 60

/-- What `validated_retry_policy` has checked. -/
structure RetryPolicy.Valid (policy : RetryPolicy) : Prop where
  tries : 1 ≤ policy.maxAttempts
  length : policy.backoffMinutes.length = policy.maxAttempts - 1
  long : ∀ gap ∈ policy.backoffMinutes, 15 ≤ gap

theorem validatedRetryPolicy_ok {maxAttempts : ℕ} {gaps : List ℕ} {policy : RetryPolicy}
    (h : validatedRetryPolicy maxAttempts gaps = .ok policy) : policy.Valid := by
  unfold validatedRetryPolicy at h
  split at h
  · exact nomatch h
  · rename_i htries
    split at h
    · exact nomatch h
    · rename_i hgaps
      injection h with h
      subst h
      push Not at htries hgaps
      refine ⟨htries.1, hgaps.1, ?_⟩
      intro gap hgap
      have hmenu : ∀ choice ∈ retryGapChoices, 15 ≤ choice := by decide
      exact hmenu gap (hgaps.2 gap hgap)

/-- A contact with a retry left waits at least the shortest gap for it. -/
theorem RetryPolicy.Valid.gap_le {policy : RetryPolicy} (h : policy.Valid) {attempts : ℕ}
    (hone : 1 ≤ attempts) (hleft : attempts < policy.maxAttempts) :
    shortestGap ≤ policy.gap attempts := by
  have hlen := h.length
  have hne : ¬ policy.backoffMinutes = [] := by
    intro hnil
    rw [hnil, List.length_nil] at hlen
    omega
  have hin : min (attempts - 1) (policy.backoffMinutes.length - 1) <
      policy.backoffMinutes.length := by omega
  unfold RetryPolicy.gap
  dsimp only
  rw [if_neg hne, if_neg (by omega), List.getD_eq_getElem _ _ hin]
  have hlong := h.long _ (List.getElem_mem hin)
  unfold shortestGap
  omega

/-! ## The assumption and the property -/

/-- No tick is at work on a claim for `limit` seconds. -/
def Within (limit : ℕ) (s : Dispatch) : Event → Prop
  | .wait seconds => ∀ l ∈ s.lines, ∀ claim ∈ l.claims, claim.alive = true →
      s.now + seconds < claim.claimedAt + limit
  | _ => True

instance (limit : ℕ) (s : Dispatch) (event : Event) : Decidable (Within limit s event) := by
  cases event <;> unfold Within <;> infer_instance

/-- The contact was handed to the dialler, and its attempt was not given back. -/
def Claim.counts (claim : Claim) : Bool := claim.call.isSome && !claim.refunded

/-- **The ladder**, at one contact. -/
structure Ladder (policy : RetryPolicy) (l : Line) : Prop where
  pending : l.row.status = .pending → l.row.attempts < policy.maxAttempts
  dialing : l.row.status = .dialing → 1 ≤ l.row.attempts ∧ l.row.attempts ≤ policy.maxAttempts
  handed : l.claims.countP Claim.counts ≤ policy.maxAttempts
  alone : l.claims.countP Claim.alive ≤ 1

/-- `connected`, `failed` and `dnc_blocked`. -/
def ContactStatus.settled : ContactStatus → Bool
  | .connected | .failed | .dncBlocked => true
  | _ => false

/-! ## The invariant -/

/-- What a claim knows of the row while its tick is at work. -/
structure Claim.Holds (claim : Claim) (now : ℕ) (row : Contact) : Prop where
  taken : claim.claimedAt ≤ now
  prompt : now < claim.claimedAt + shortestGap
  waits : row.status = .pending → ∃ due, row.nextAttemptAt = some due ∧
    claim.claimedAt + shortestGap ≤ due
  same : row.status = .dialing → claim.attempts = row.attempts

/-- **The invariant of the ladder.** -/
structure Climbing (policy : RetryPolicy) (now : ℕ) (l : Line) : Prop where
  bound : l.row.attempts ≤ policy.maxAttempts
  pending : l.row.status = .pending → l.row.attempts < policy.maxAttempts
  counting : l.row.status = .dialing → ∃ claim, l.claims.head? = some claim ∧
    claim.refunded = false
  ended : ∀ claim ∈ l.claims.tail, claim.alive = false
  newest : ∀ claim, l.claims.head? = some claim → claim.alive = true → claim.Holds now l.row
  counted : l.claims.countP (fun claim => !claim.refunded) = l.row.attempts

variable {policy : RetryPolicy} {now : ℕ} {l : Line}

theorem climbing_added (hvalid : policy.Valid) (phone : String) :
    Climbing policy now (.added phone) where
  bound := Nat.zero_le _
  pending := fun _ => hvalid.tries
  counting := nofun
  ended := fun _ h => nomatch h
  newest := nofun
  counted := rfl

theorem Climbing.dialed (h : Climbing policy now l) (hd : l.row.status = .dialing) :
    1 ≤ l.row.attempts := by
  obtain ⟨claim, hhead, hnot⟩ := h.counting hd
  have hmem : claim ∈ l.claims := List.mem_of_mem_head? hhead
  have hpos : 0 < l.claims.countP (fun claim => !claim.refunded) :=
    List.countP_pos_iff.mpr ⟨claim, hmem, by simp [hnot]⟩
  rw [h.counted] at hpos
  exact hpos

/-- **What the invariant is for.** -/
theorem Climbing.ladder (h : Climbing policy now l) : Ladder policy l where
  pending := h.pending
  dialing := fun hd => ⟨h.dialed hd, h.bound⟩
  handed := by
    have hle : l.claims.countP Claim.counts ≤ l.claims.countP (fun claim => !claim.refunded) := by
      apply List.countP_mono_left
      intro claim _ hc
      simp only [Claim.counts, Bool.and_eq_true] at hc
      exact hc.2
    have hbound := h.bound
    have hcounted := h.counted
    omega
  alone := by
    cases hclaims : l.claims with
    | nil => simp
    | cons claim older =>
      have hended := h.ended
      rw [hclaims, List.tail_cons] at hended
      have hzero : older.countP Claim.alive = 0 := by
        rw [List.countP_eq_zero]
        intro c hc
        simp [hended c hc]
      rw [List.countP_cons, hzero]
      split <;> omega

/-- Only the newest claim can be alive. -/
theorem Climbing.alive_newest (h : Climbing policy now l) {k : ℕ} {claim : Claim}
    (hk : l.claims[k]? = some claim) (halive : claim.alive = true) :
    k = 0 ∧ ∃ older, l.claims = claim :: older := by
  cases hclaims : l.claims with
  | nil => rw [hclaims] at hk; exact nomatch hk
  | cons newest older =>
    rw [hclaims] at hk
    cases k with
    | zero => exact ⟨rfl, older, by rw [List.getElem?_cons_zero] at hk; injection hk with hk; rw [hk]⟩
    | succ k =>
      rw [List.getElem?_cons_succ] at hk
      have hended := h.ended claim (by rw [hclaims]; exact List.mem_of_getElem? hk)
      rw [hended] at halive
      exact nomatch halive

/-! ## How a contact moves -/

/-- The invariant does not look at the calls, the marks or the charges. -/
theorem Climbing.congr (h : Climbing policy now l) {l' : Line} (hrow : l'.row = l.row)
    (hclaims : l'.claims = l.claims) : Climbing policy now l' where
  bound := hrow ▸ h.bound
  pending := hrow ▸ h.pending
  counting := hrow ▸ hclaims ▸ h.counting
  ended := hclaims ▸ h.ended
  newest := hrow ▸ hclaims ▸ h.newest
  counted := hrow ▸ hclaims ▸ h.counted

/-- A row that is finished with keeps off every claim. -/
theorem Climbing.setRow (h : Climbing policy now l) {row : Contact}
    (hp : row.status ≠ .pending) (hd : row.status ≠ .dialing)
    (ha : row.attempts = l.row.attempts) : Climbing policy now (l.setRow row) where
  bound := by
    change row.attempts ≤ _
    exact ha ▸ h.bound
  pending := fun h => absurd h hp
  counting := fun h => absurd h hd
  ended := h.ended
  newest := fun claim hhead halive =>
    have hold := h.newest claim hhead halive
    ⟨hold.taken, hold.prompt, fun h => absurd h hp, fun h => absurd h hd⟩
  counted := by
    change _ = row.attempts
    exact ha ▸ h.counted

theorem countP_modify {α : Type} (p : α → Bool) (f : α → α) (hf : ∀ a, p (f a) = p a)
    (as : List α) (k : ℕ) : (as.modify k f).countP p = as.countP p := by
  induction as generalizing k with
  | nil => rw [List.modify_nil]
  | cons a as ih =>
    cases k with
    | zero => rw [List.modify_zero_cons, List.countP_cons, List.countP_cons, hf]
    | succ k => rw [List.modify_succ_cons, List.countP_cons, List.countP_cons, ih]

/-- A claim is written without its attempt being given back. -/
theorem Climbing.setClaim (h : Climbing policy now l) {k : ℕ} {f : Claim → Claim}
    (hrefund : ∀ claim, (f claim).refunded = claim.refunded)
    (halive : ∀ claim, (f claim).alive = true → claim.alive = true)
    (hsame : ∀ claim, (f claim).claimedAt = claim.claimedAt ∧ (f claim).attempts = claim.attempts) :
    Climbing policy now (l.setClaim k f) := by
  obtain ⟨row, claims, calls, marks, charges⟩ := l
  refine ⟨h.bound, h.pending, ?_, ?_, ?_, ?_⟩
  · intro hd
    obtain ⟨claim, hhead, hnot⟩ := h.counting hd
    cases claims with
    | nil => exact nomatch hhead
    | cons newest older =>
      cases k with
      | zero =>
        refine ⟨f newest, rfl, ?_⟩
        rw [hrefund, Option.some.inj hhead]
        exact hnot
      | succ k => exact ⟨claim, hhead, hnot⟩
  · intro claim hmem
    cases claims with
    | nil => rw [Line.setClaim, List.modify_nil] at hmem; exact nomatch hmem
    | cons newest older =>
      cases k with
      | zero => exact h.ended claim hmem
      | succ k =>
        -- an older claim stays over
        obtain ⟨j, hj⟩ := List.mem_iff_getElem?.mp hmem
        rw [Line.setClaim, List.modify_succ_cons, List.tail_cons, List.getElem?_modify] at hj
        obtain ⟨old, hold, rfl⟩ := Option.map_eq_some_iff.mp hj
        have hended : old.alive = false := h.ended old (List.mem_of_getElem? hold)
        split
        · by_contra hne
          have := halive old (by simpa using hne)
          rw [hended] at this
          exact nomatch this
        · exact hended
  · intro claim hhead hal
    cases claims with
    | nil => rw [Line.setClaim, List.modify_nil] at hhead; exact nomatch hhead
    | cons newest older =>
      cases k with
      | zero =>
        have heq : f newest = claim := Option.some.inj hhead
        subst heq
        obtain ⟨htaken, hprompt, hwaits, hatt⟩ := h.newest newest rfl (halive newest hal)
        obtain ⟨hat, hattempts⟩ := hsame newest
        refine ⟨hat ▸ htaken, hat ▸ hprompt, hat ▸ hwaits, hattempts ▸ hatt⟩
      | succ k => exact h.newest claim hhead hal
  · have hcount := countP_modify (fun claim : Claim => !claim.refunded) f
      (fun claim => by rw [hrefund]) claims k
    exact hcount.trans h.counted

theorem Climbing.finish (h : Climbing policy now l) (k : ℕ) : Climbing policy now (l.finish k) :=
  h.setClaim (fun _ => rfl) (fun _ h => nomatch h) (fun _ => ⟨rfl, rfl⟩)

/-- **A rung.** The contact is exhausted, or waits for at least the shortest gap. -/
theorem Climbing.recordFailure (hvalid : policy.Valid) (h : Climbing policy now l) {attempts : ℕ}
    (hatt : l.row.status = .dialing → attempts = l.row.attempts) (call : Option Call) :
    Climbing policy now (l.recordFailure policy now attempts call) := by
  unfold Line.recordFailure
  split
  · rename_i hd
    have hone := h.dialed hd
    obtain rfl := hatt hd
    suffices hrow : Climbing policy now
        (l.setRow (Campaigns.recordFailure policy l.row l.row.attempts now)) from
      hrow.congr rfl rfl
    unfold Campaigns.recordFailure
    split
    · rw [exhaustContact, if_pos hd]
      exact h.setRow nofun nofun rfl
    · rename_i hleft
      have hgap := hvalid.gap_le hone (by omega)
      refine ⟨h.bound, fun _ => by change l.row.attempts < _; omega, nofun, h.ended, ?_, h.counted⟩
      intro claim hhead halive
      obtain ⟨htaken, hprompt, -, -⟩ := h.newest claim hhead halive
      exact ⟨htaken, hprompt, fun _ => ⟨_, rfl, by omega⟩, nofun⟩
  · exact h

/-- A refund gives the newest claim's attempt back, and keeps the row off the next claim
for as long as the newest may be alive. -/
theorem Climbing.refund (h : Climbing policy now l) (hd : l.row.status = .dialing) {due : ℕ}
    (hdue : ∀ claim, l.claims.head? = some claim → claim.alive = true →
      claim.claimedAt + shortestGap ≤ due) :
    Climbing policy now ((l.setRow (l.row.retryAt (l.row.attempts - 1) due)).setClaim 0
      fun claim => { claim with refunded := true }) := by
  have hone := h.dialed hd
  obtain ⟨claim, hhead, hnot⟩ := h.counting hd
  obtain ⟨row, claims, calls, marks, charges⟩ := l
  cases claims with
  | nil => exact nomatch hhead
  | cons newest older =>
    obtain rfl : newest = claim := Option.some.inj hhead
    have hbound := h.bound
    have hcounted := h.counted
    simp only [List.countP_cons, hnot, Bool.not_false, if_true] at hcounted
    dsimp only at hone hbound
    refine ⟨?_, fun _ => ?_, nofun, h.ended, ?_, ?_⟩
    · change row.attempts - 1 ≤ _
      omega
    · change row.attempts - 1 < _
      omega
    · rintro _ ⟨⟩ halive
      obtain ⟨htaken, hprompt, -, -⟩ := h.newest newest rfl halive
      exact ⟨htaken, hprompt, fun _ => ⟨due, rfl, hdue newest rfl halive⟩, nofun⟩
    · change List.countP _ (_ :: older) = row.attempts - 1
      rw [List.countP_cons]
      simp only [Bool.not_true, Bool.false_eq_true, if_false]
      omega

/-- Half an hour is longer than the shortest gap. A minute's wait is given only by the
claim's own tick, which is then through. -/
theorem Climbing.settle (h : Climbing policy now l) (how : Settle)
    (hwait : how = .lineWait → ∀ claim, l.claims.head? = some claim → claim.alive = false) :
    Climbing policy now (l.settle now how) := by
  unfold Line.settle
  split
  · rename_i hd
    cases how with
    | personRefused => exact h.setRow nofun nofun rfl
    | lineWait =>
      apply h.refund hd
      intro claim hhead halive
      rw [hwait rfl claim hhead] at halive
      exact nomatch halive
    | refunded =>
      apply h.refund hd
      intro claim hhead halive
      have htaken := (h.newest claim hhead halive).taken
      unfold shortestGap
      omega
  · exact h

/-! ## Every touch -/

theorem settle_finish (l : Line) (now : ℕ) (how : Settle) :
    (l.settle now how).finish 0 = (l.finish 0).settle now how := by
  obtain ⟨row, claims, calls, marks, charges⟩ := l
  by_cases hd : row.status = .dialing
  · cases claims <;> cases how <;> simp [Line.settle, Line.finish, Line.setClaim, Line.setRow, hd]
  · simp [Line.settle, Line.finish, Line.setClaim, hd]

theorem Climbing.refuseContact (h : Climbing policy now l) (k : ℕ) (rule : String) :
    Climbing policy now (l.refuseContact now k rule) := by
  unfold Line.refuseContact
  split
  · rename_i hany
    obtain ⟨claim, hk, halive⟩ := (Option.any_eq_true _ _).mp hany
    obtain ⟨rfl, older, hclaims⟩ := h.alive_newest hk halive
    rw [settle_finish]
    apply (h.finish 0).settle
    rintro - newest hhead
    rw [Line.finish, Line.setClaim, hclaims] at hhead
    obtain rfl := Option.some.inj hhead
    rfl
  · exact h

theorem Climbing.linkContactToCall (h : Climbing policy now l) (k : ℕ) :
    Climbing policy now (l.linkContactToCall now k) := by
  unfold Line.linkContactToCall
  split
  · exact h
  · rename_i claim hk
    split
    · rename_i hphase
      split
      · -- the status, the attempts and the wait of the row stay as they are
        obtain ⟨rfl, older, hclaims⟩ := h.alive_newest hk (by simp [Claim.alive, hphase])
        have hlinked : Climbing policy now (l.setClaim 0 fun claim =>
            if claim.phase = .claimed then
              { claim with phase := .linked, call := some l.calls.length }
            else claim) := by
          apply h.setClaim
          · intro claim; split <;> rfl
          · intro claim; split <;> simp_all [Claim.alive]
          · intro claim; split <;> exact ⟨rfl, rfl⟩
        rw [Line.setClaim, hclaims, List.modify_zero_cons, if_pos hphase] at hlinked
        rw [hclaims, List.modify_zero_cons]
        exact ⟨hlinked.bound, hlinked.pending, hlinked.counting, hlinked.ended,
          fun claim hhead halive =>
            have hold := hlinked.newest claim hhead halive
            ⟨hold.taken, hold.prompt, hold.waits, hold.same⟩, hlinked.counted⟩
      · exact h.finish k
    · exact h

theorem Climbing.failDial (hvalid : policy.Valid) (h : Climbing policy now l) (k : ℕ) :
    Climbing policy now (l.failDial policy now k) := by
  unfold Line.failDial
  split
  · exact h
  · rename_i claim hk
    split
    · rename_i halive
      obtain ⟨rfl, older, hclaims⟩ := h.alive_newest hk halive
      have hhead : l.claims.head? = some claim := by rw [hclaims]; rfl
      exact (h.recordFailure hvalid (h.newest claim hhead halive).same _).finish 0
    · exact h

theorem Climbing.exhaust (h : Climbing policy now l) :
    Climbing policy now (l.setRow (exhaustContact l.row)) := by
  unfold exhaustContact
  split
  · exact h.setRow nofun nofun rfl
  · exact h

theorem Climbing.claim (h : Climbing policy now l) : Climbing policy now (l.claim now) := by
  unfold Line.claim
  split
  · rename_i hdue
    simp only [Contact.claimable, decide_eq_true_eq] at hdue
    obtain ⟨hp, hdue⟩ := hdue
    have hleft := h.pending hp
    refine ⟨hleft, nofun, fun _ => ⟨_, rfl, rfl⟩, ?_, ?_, ?_⟩
    · intro claim hmem
      -- the newest claim so far is over: the row would not be due before that
      cases hclaims : l.claims with
      | nil => rw [List.tail_cons, hclaims] at hmem; exact nomatch hmem
      | cons newest older =>
        rw [List.tail_cons, hclaims] at hmem
        rcases List.mem_cons.mp hmem with rfl | hold
        · by_contra halive
          obtain ⟨-, hprompt, hwaits, -⟩ :=
            h.newest claim (by rw [hclaims]; rfl) (by simpa using halive)
          obtain ⟨due, hnext, hlate⟩ := hwaits hp
          rw [hnext] at hdue
          simp only [Option.all_some, decide_eq_true_eq] at hdue
          omega
        · exact h.ended claim (by rw [hclaims]; exact hold)
    · rintro _ ⟨⟩ -
      have hprompt : now < now + shortestGap := by unfold shortestGap; omega
      exact ⟨Nat.le_refl _, hprompt, nofun, fun _ => rfl⟩
    · rw [List.countP_cons, h.counted]
      rfl
  · exact h

/-- Writing a call changes nothing the invariant looks at. -/
theorem Climbing.setCall (h : Climbing policy now l) (c : ℕ) (f : Call → Call) :
    Climbing policy now (l.setCall c f) :=
  h.congr rfl rfl

theorem Climbing.resolveCampaignContact (hvalid : policy.Valid) (h : Climbing policy now l) (c : ℕ)
    (status : CallStatus) : Climbing policy now (l.resolveCampaignContact policy now c status) := by
  unfold Line.resolveCampaignContact
  split
  · split
    · exact h.setRow nofun nofun rfl
    · exact h.recordFailure hvalid (fun _ => rfl) _
  · exact h

theorem Climbing.closeCalledOffDial (h : Climbing policy now l) (c : ℕ) (person : Bool) :
    Climbing policy now (l.closeCalledOffDial now c person) := by
  unfold Line.closeCalledOffDial
  split
  · dsimp only
    split
    · apply (h.setCall c _).settle
      intro hline
      split at hline <;> exact nomatch hline
    · exact h.setCall c _
  · exact h

/-- **No touch breaks the invariant.** -/
theorem Climbing.touch (hvalid : policy.Valid) (h : Climbing policy now l) (t : Touch) :
    Climbing policy now (l.touch policy now t) := by
  cases t with
  | claim => exact h.claim
  | refuseContact k rule => exact h.refuseContact k rule
  | linkContactToCall k => exact h.linkContactToCall k
  | closeUnplacedDial k =>
    simp only [Line.touch, Line.closeUnplacedDial]
    split
    · exact h
    · split
      · exact h
      · split
        · exact h.setCall _ _
        · exact h
  | placed k stamped =>
    simp only [Line.touch, Line.placed]
    split
    · exact h
    · split
      · exact h
      · split
        · exact (h.setCall _ _).finish k
        · exact h
  | settleUnconfirmedDial k =>
    simp only [Line.touch, Line.settleUnconfirmedDial]
    split
    · exact h.exhaust.finish k
    · exact h
  | failDial k => exact h.failDial hvalid k
  | abandon k => exact h.finish k
  | resolveCampaignContact c status => exact h.resolveCampaignContact hvalid c status
  | closeCalledOffDial c person => exact h.closeCalledOffDial c person
  | upsertCallRow c status => exact h.setCall c _
  | settleUnansweredDial =>
    simp only [Line.touch, Line.settleUnansweredDial]
    split
    · exact h.recordFailure hvalid (fun _ => rfl) _
    · exact h
  | readStranded =>
    simp only [Line.touch, Line.readStranded]
    split
    · exact h.congr rfl rfl
    · exact h
  | exhaustStranded m =>
    simp only [Line.touch, Line.exhaustStranded]
    split
    · exact h
    · split
      · exact h.exhaust.congr rfl rfl
      · exact h.congr rfl rfl
  | reapStuckDialing =>
    simp only [Line.touch, Line.reapStuckDialing]
    split
    · exact h.recordFailure hvalid (fun _ => rfl) _
    · exact h
  | scrubContact =>
    simp only [Line.touch, scrubContact]
    split
    · exact h.setRow nofun nofun rfl
    · exact h
  | suppressContact =>
    simp only [Line.touch, suppressContact]
    split
    · exact h.setRow nofun nofun rfl
    · exact h
  | eraseContact suffix =>
    simp only [Line.touch, eraseContact]
    split
    · exact h
    · exact h.setRow nofun nofun rfl

/-- The dispatcher writes no row but a pending one, by a claim, or a dialled one. -/
theorem touch_row (hp : l.row.status ≠ .pending) (hd : l.row.status ≠ .dialing) {t : Touch}
    (hown : t.dispatcher = true) : (l.touch policy now t).row = l.row := by
  have hsettle : ∀ how, l.settle now how = l := fun how => by rw [Line.settle, if_neg hd]
  have hfail : ∀ attempts call, l.recordFailure policy now attempts call = l :=
    fun attempts call => by rw [Line.recordFailure, if_neg hd]
  have hexhaust : exhaustContact l.row = l.row := by rw [exhaustContact, if_neg hd]
  cases t with
  | claim => simp [Line.touch, Line.claim, Contact.claimable, hp]
  | refuseContact k rule =>
    simp only [Line.touch, Line.refuseContact, hsettle]
    split <;> rfl
  | linkContactToCall k =>
    simp only [Line.touch, Line.linkContactToCall, hd, false_and, if_false]
    split
    · rfl
    · split <;> rfl
  | closeUnplacedDial k =>
    simp only [Line.touch, Line.closeUnplacedDial]
    split
    · rfl
    · split
      · rfl
      · split <;> rfl
  | placed k stamped =>
    simp only [Line.touch, Line.placed]
    split
    · rfl
    · split
      · rfl
      · split <;> rfl
  | settleUnconfirmedDial k =>
    simp only [Line.touch, Line.settleUnconfirmedDial, hexhaust]
    split <;> rfl
  | failDial k =>
    simp only [Line.touch, Line.failDial, hfail]
    split
    · rfl
    · split <;> rfl
  | abandon k => rfl
  | resolveCampaignContact c status => simp [Line.touch, Line.resolveCampaignContact, hd]
  | closeCalledOffDial c person =>
    simp only [Line.touch, Line.closeCalledOffDial]
    split
    · split
      · rw [Line.settle, if_neg (by exact hd)]
        rfl
      · rfl
    · rfl
  | upsertCallRow c status => rfl
  | settleUnansweredDial => simp [Line.touch, Line.settleUnansweredDial, hfail]
  | readStranded =>
    simp only [Line.touch, Line.readStranded]
    split <;> rfl
  | exhaustStranded m =>
    simp only [Line.touch, Line.exhaustStranded, if_neg hd]
    split <;> rfl
  | reapStuckDialing => simp [Line.touch, Line.reapStuckDialing, hfail]
  | scrubContact => exact nomatch hown
  | suppressContact => exact nomatch hown
  | eraseContact suffix => exact nomatch hown

/-! ## Every run -/

open Dispatch

/-- Time passes, and no tick keeps a claim for the shortest gap. -/
theorem Climbing.wait (h : Climbing policy now l) {seconds : ℕ}
    (hprompt : ∀ claim ∈ l.claims, claim.alive = true →
      now + seconds < claim.claimedAt + shortestGap) : Climbing policy (now + seconds) l where
  bound := h.bound
  pending := h.pending
  counting := h.counting
  ended := h.ended
  newest := fun claim hhead halive =>
    have hold := h.newest claim hhead halive
    ⟨Nat.le_add_right_of_le hold.taken, hprompt claim (List.mem_of_mem_head? hhead) halive,
      hold.waits, hold.same⟩
  counted := h.counted

theorem mem_touched {s : Dispatch} {event : Event} {l' : Line}
    (h : l' ∈ s.touched policy event) :
    ∃ l ∈ s.lines, l' = l ∨ ∃ t, l' = l.touch policy s.now t := by
  obtain ⟨i, hi, rfl⟩ := List.mem_mapIdx.mp h
  refine ⟨s.lines[i], List.getElem_mem hi, ?_⟩
  split
  · exact Or.inl rfl
  · exact Or.inr ⟨_, rfl⟩

theorem climbing_step (hvalid : policy.Valid) (s : Dispatch) (event : Event)
    (h : ∀ l ∈ s.lines, Climbing policy s.now l) (hprompt : Within shortestGap s event) :
    ∀ l ∈ (step policy s event).lines, Climbing policy (step policy s event).now l := by
  have htouched : ∀ l ∈ s.touched policy event, Climbing policy s.now l := by
    intro l' hl'
    obtain ⟨l, hl, rfl | ⟨t, rfl⟩⟩ := mem_touched hl'
    · exact h l' hl
    · exact (h l hl).touch hvalid t
  cases event with
  | wait seconds => exact fun l hl => (h l hl).wait (hprompt l hl)
  | addContact phone =>
    simp only [step]
    split
    · exact h
    · intro l hl
      rcases List.mem_append.mp hl with hold | hnew
      · exact h l hold
      · rw [List.mem_singleton.mp hnew]
        exact climbing_added hvalid phone
  | claimContacts slots locked running => exact htouched
  | settleUnansweredDials locked => exact htouched
  | reapStuckDialing locked => exact htouched
  | touch i t => exact htouched

/-- A contact that is finished with is left alone by every event of the dispatcher. -/
theorem step_settled (s : Dispatch) {event : Event} {i : ℕ} {l : Line}
    (hl : s.lines[i]? = some l) (hs : l.row.status.settled = true)
    (hown : ∀ t, s.touches event i = some t → t.dispatcher = true) :
    ∃ l', (step policy s event).lines[i]? = some l' ∧ l'.row = l.row := by
  have hp : l.row.status ≠ .pending := fun h => by rw [h] at hs; exact nomatch hs
  have hd : l.row.status ≠ .dialing := fun h => by rw [h] at hs; exact nomatch hs
  have htouched : ∃ l', (s.touched policy event)[i]? = some l' ∧ l'.row = l.row := by
    rw [touched, List.getElem?_mapIdx, hl]
    refine ⟨_, rfl, ?_⟩
    split
    · rfl
    · rename_i t ht
      exact touch_row hp hd (hown t ht)
  cases event with
  | wait seconds => exact ⟨l, hl, rfl⟩
  | addContact phone =>
    simp only [step]
    split
    · exact ⟨l, hl, rfl⟩
    · have hi : i < s.lines.length := (List.getElem?_eq_some_iff.mp hl).1
      exact ⟨l, (List.getElem?_append_left hi).trans hl, rfl⟩
  | claimContacts slots locked running => exact htouched
  | settleUnansweredDials locked => exact htouched
  | reapStuckDialing locked => exact htouched
  | touch j t => exact htouched

/-- Three tries, a quarter of an hour apart. -/
def threeTries : RetryPolicy := { maxAttempts := 3, backoffMinutes := [15, 15] }

/-- The first try rings out, and the contact is claimed for its second. -/
def secondTry : List Event :=
  [.addContact "+919800000001", .claimContacts 1 [] true, .touch 0 (.linkContactToCall 0),
    .touch 0 (.placed 0 true), .touch 0 (.upsertCallRow 0 .busy), .wait 121,
    .settleUnansweredDials [], .wait 900, .claimContacts 1 [] true]

/-- The tick of the second try is at work for a quarter of an hour, well within the reaper's
limit. Another tick settles the contact by the first try's call and claims it for the
third; then the second try's dial fails. -/
def outlivedTry : List Event :=
  secondTry ++ [.settleUnansweredDials [], .wait 900, .claimContacts 1 [] true,
    .touch 0 (.failDial 1)]

end Calevate.Campaigns
