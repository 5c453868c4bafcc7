import Calevate.Callbacks.Deferrals
import Calevate.Callbacks.Pauses

/-!
# Openings

`defer_to_window` puts a released call-back off to the next opening of its campaign's hours,
and its two hours begin there. Where the hours are longer than the two hours and the time a
tick takes to come to what it claimed, it is put off once between two releases: the claims
that follow the opening all come while the hours are open (`Opened`). Where they are
shorter, a phone line that stays busy puts it off every day (`halfHour`).
-/

namespace Calevate.Callbacks

open Lib Lib.Calendar

/-! ## Reckoning -/

/-- The deeds that begin a promise anew. -/
def Deed.begins : Deed → Bool
  | .moved _ | .released _ => true
  | _ => false

def Deed.isWindow : Deed → Bool
  | .windowed _ => true
  | _ => false

/-- The claims since the last release or booking. -/
def claimsSinceRelease : List Entry → ℕ
  | [] => 0
  | e :: es =>
    if e.deed.begins then 0
    else if e.deed.isClaim then claimsSinceRelease es + 1
    else claimsSinceRelease es

/-- The openings waited for since then. -/
def windowsSince : List Entry → ℕ
  | [] => 0
  | e :: es =>
    if e.deed.begins then 0 else if e.deed.isWindow then windowsSince es + 1 else windowsSince es

def Deed.isDial : Deed → Bool
  | .dialled _ => true
  | _ => false

def Deed.claimedAt : Deed → Option ℕ
  | .claimed _ at_ _ => some at_
  | _ => none

/-- When a call-back was last claimed. -/
def lastClaim (es : List Entry) : Option ℕ := es.findSome? fun e => e.deed.claimedAt

/-- **Hours that are long enough**: open for longer than the two hours and a delay. -/
def LongWindow (window : Window) (delay : ℕ) : Prop := window.1 + grace + delay < window.2

/-- **A tick is prompt**: it comes to the call-back within the delay of its claim, and the hours
of its campaign are the ones in question. -/
def Prompt (id : ℕ) (window : Window) (delay : ℕ) (now : ℕ) (es : List Entry)
    (callback : DueCallback) : Prop :=
  callback.id = id →
    Campaigns.windowFor callback.campaignCallingHours = window ∧
      ∀ c ∈ lastClaim es, now ≤ c + delay

instance (id : ℕ) (window : Window) (delay now : ℕ) (es : List Entry) (callback : DueCallback) :
    Decidable (Prompt id window delay now es callback) := by
  unfold Prompt
  infer_instance

/-! ## Rows -/

section Rows

variable {db : Db} {now delay : ℕ} {who : Who} {r r' : Callback} {deeds : List Deed}
variable {es : List Entry} {window : Window}

/-- **What holds of a row and its entries**: once put off it begins at an opening, it is claimed
within its two hours, and the claims are those of the opening and those before it. -/
structure Opened (window : Window) (now : ℕ) (es : List Entry) (r : Callback) : Prop where
  paced : Paced now es r
  once : windowsSince es ≤ 1
  opening : r.status.live = true → windowsSince es = 1 →
    ∃ o, r.graceFrom = some o ∧ (o + Campaigns.istOffset) % day = window.1 ∧ r.requestedAt ≤ o
  dialing : r.status = .dialing → ∃ c, lastClaim es = some c ∧ c ≤ now ∧
    r.graceOrigin ≤ c ∧ c ≤ r.graceOrigin + grace
  claims : claimsSinceRelease es ≤ windowsSince es * maxClaims + claimsSince es

theorem Opened.new (b : Booking) : Opened window now [] (newCallback b now) :=
  ⟨Paced.new b, Nat.zero_le _, by simp [windowsSince], by simp [newCallback], le_rfl⟩

theorem Opened.wait (h : Opened window now es r) (d : ℕ) : Opened window (now + d) es r := by
  refine ⟨h.paced.wait d, h.once, h.opening, ?_, h.claims⟩
  intro hs
  obtain ⟨c, hlast, hle, hinto, hwithin⟩ := h.dialing hs
  exact ⟨c, hlast, by omega, hinto, hwithin⟩

/-- A deed that is no claim and begins nothing. -/
def Deed.quiet : Deed → Bool
  | .refunded | .dialled _ | .paused _ _ => true
  | _ => false

/-- Quiet deeds leave the reckoning as it was. -/
theorem quiet_append (id : ℕ) (es : List Entry) (hquiet : ∀ d ∈ deeds, d.quiet = true) :
    claimsSince (Db.entriesOf id deeds ++ es) = claimsSince es ∧
      claimsSinceRelease (Db.entriesOf id deeds ++ es) = claimsSinceRelease es ∧
      windowsSince (Db.entriesOf id deeds ++ es) = windowsSince es ∧
      lastClaim (Db.entriesOf id deeds ++ es) = lastClaim es := by
  induction deeds with
  | nil => exact ⟨rfl, rfl, rfl, rfl⟩
  | cons d deeds ih =>
    have hd := hquiet d List.mem_cons_self
    obtain ⟨h1, h2, h3, h4⟩ := ih fun d' hd' => hquiet d' (List.mem_cons_of_mem _ hd')
    cases d with
    | refunded => exact ⟨h1, h2, h3, h4⟩
    | dialled found => exact ⟨h1, h2, h3, h4⟩
    | paused since until_ => exact ⟨h1, h2, h3, h4⟩
    | _ => cases hd

theorem Opened.quiet (h : Opened window now es r)
    (hpaced : Paced now (Db.entriesOf r.id deeds ++ es) r')
    (hquiet : ∀ d ∈ deeds, d.quiet = true) (hlive : r'.status.live = true → r.status.live = true)
    (hdialing : r'.status = .dialing → r.status = .dialing)
    (hrequested : r'.requestedAt = r.requestedAt) (hgrace : r'.graceFrom = r.graceFrom) :
    Opened window now (Db.entriesOf r.id deeds ++ es) r' := by
  obtain ⟨h1, h2, h3, h4⟩ := quiet_append r.id es hquiet
  refine ⟨hpaced, by rw [h3]; exact h.once, ?_, ?_, by rw [h1, h2, h3]; exact h.claims⟩
  · rw [h3, hgrace, hrequested]
    exact fun hl => h.opening (hlive hl)
  · simp only [h4, Callback.graceOrigin, hgrace, hrequested]
    exact fun hs => h.dialing (hdialing hs)

/-- What is waited for is the next opening. -/
theorem opensLater_some {callback : DueCallback} {opens : ℕ}
    (h : opensLater callback now = some opens) :
    opens = Campaigns.firstDialNotBefore now callback.campaignCallingHours ∧ now < opens := by
  refine ⟨?_, World.opensLater_lt h⟩
  obtain ⟨g, -, h⟩ := Option.bind_eq_some_iff.1 h
  simp only at h
  split at h
  · cases h
  · cases h
    rfl

/-- **Nothing waits for a second opening.** A claim that follows the first comes within two hours
of it, and its tick comes to it while the hours are still open. -/
theorem Opened.no_second (h : Opened window now es r) (hlong : LongWindow window delay)
    {callback : DueCallback} {opens : ℕ} (hprompt : Prompt r.id window delay now es callback)
    (hid : callback.id = r.id) (hs : r.status = .dialing) (hopens : opensLater callback now = some opens) :
    windowsSince es = 0 := by
  by_contra hone
  have hwindows : windowsSince es = 1 := by
    have := h.once
    omega
  obtain ⟨o, hg, hclock, hrequested⟩ := h.opening (by simp [CallbackStatus.live, hs]) hwindows
  obtain ⟨c, hlast, hcnow, hinto, hwithin⟩ := h.dialing hs
  obtain ⟨hhours, hdelay⟩ := hprompt hid
  have hnow := hdelay c hlast
  have horigin : r.graceOrigin = o := by
    simp only [Callback.graceOrigin, hg, Option.getD_some]
    omega
  -- the clock runs from the opening to now within the day
  have hclose := Campaigns.windowFor_le callback.campaignCallingHours
  rw [hhours] at hclose
  have hlast21 : defaultWindow.2 ≤ day := by decide
  unfold LongWindow at hlong
  have hnowclock : (now + Campaigns.istOffset) % day = window.1 + (now - o) := by
    have hsum : now + Campaigns.istOffset = (o + Campaigns.istOffset) + (now - o) := by omega
    rw [hsum, Nat.add_mod, hclock]
    rw [Nat.mod_eq_of_lt (b := day) (a := now - o) (by omega)]
    exact Nat.mod_eq_of_lt (by omega)
  have hat : Campaigns.firstDialNotBefore now callback.campaignCallingHours = now := by
    apply Campaigns.firstDialNotBefore_open
    · rw [hhours, hnowclock]
      omega
    · rw [hhours, hnowclock]
      omega
  obtain ⟨heq, hlater⟩ := opensLater_some hopens
  rw [heq, hat] at hlater
  exact absurd hlater (lt_irrefl _)

/-- **A turn keeps it**, a claim's if the row was not stale, and its tick's if that is prompt. -/
theorem Opened.turn (h : Opened window now es r) (hlong : LongWindow window delay)
    (ht : Turn db now who r r' deeds) (hfresh : who = .claimer → stale now r = false)
    (hprompt : ∀ callback, who = .holder callback true → callback.id = r.id →
      Prompt r.id window delay now es callback) :
    Opened window now (Db.entriesOf r.id deeds ++ es) r' := by
  have hpaced := h.paced.turn ht hfresh
  cases ht with
  | moved b note language agentId sourceCallId leadId hkey hs hlater =>
    refine ⟨hpaced, Nat.zero_le _, ?_, by simp [hs], Nat.zero_le _⟩
    simp [windowsSince, Db.entriesOf, Deed.begins]
  | released hs hrule hpaused =>
    refine ⟨hpaced, Nat.zero_le _, ?_, by simp [hs], Nat.zero_le _⟩
    simp [windowsSince, Db.entriesOf, Deed.begins]
  | missed reason hstale =>
    exact h.quiet hpaced (by simp) (by simp [CallbackStatus.live]) (by simp) rfl rfl
  | held reason hs hpaused => exact h.quiet hpaced (by simp) id id rfl rfl
  | cancelled rule reason hs =>
    exact h.quiet hpaced (by simp) (by simp [CallbackStatus.live]) (by simp) rfl rfl
  | ended status hs hstatus =>
    refine h.quiet hpaced (by simp) ?_ ?_ rfl rfl <;>
      rcases hstatus with rfl | rfl <;> simp [CallbackStatus.live]
  | claimed tick locked hclaim =>
    obtain ⟨hinto, hwithin⟩ := h.paced.claim hclaim (hfresh rfl)
    have hs : r.status = .scheduled := (of_decide_eq_true hclaim).1
    refine ⟨hpaced, h.once, fun _ => h.opening (by simp [CallbackStatus.live, hs]), ?_, ?_⟩
    · intro _
      refine ⟨now, rfl, le_rfl, ?_, hwithin⟩
      exact le_trans (Nat.le_add_right _ _) hinto
    · have hclaims := h.claims
      simp only [claimsSinceRelease, windowsSince, claimsSince, Db.entriesOf, Deed.begins,
        Deed.isClaim, Deed.isWindow, Deed.movesOrigin, List.map_cons, List.map_nil,
        List.singleton_append, if_true, Bool.false_eq_true, if_false]
      omega
  | linked callId hringing => exact h.quiet hpaced (by simp [Deed.quiet]) id id rfl rfl
  | paused d hpaused => exact h.quiet hpaced (by simp [Deed.quiet]) id id rfl rfl
  | deferred callback waits rule reason hid hs =>
    exact h.quiet hpaced (by simp [Deed.quiet]) (by simp [CallbackStatus.live, hs]) (by simp) rfl rfl
  | windowed callback opens rule reason hid hs hopens =>
    have hnone := h.no_second hlong (hprompt callback rfl hid) hid hs hopens
    obtain ⟨c, -, hcnow, hinto, -⟩ := h.dialing hs
    obtain ⟨hhours, -⟩ := hprompt callback rfl hid hid
    obtain ⟨heq, hlater⟩ := opensLater_some hopens
    have hbound := h.paced.bound
    have hclaims := h.claims
    rw [hnone, Nat.zero_mul, Nat.zero_add] at hclaims
    refine ⟨hpaced, ?_, ?_, by simp, ?_⟩
    · exact le_of_eq (congrArg Nat.succ hnone)
    · intro _ _
      refine ⟨opens, rfl, ?_, ?_⟩
      · have hclose := Campaigns.windowFor_le callback.campaignCallingHours
        have hday : defaultWindow.2 < day := by decide
        unfold LongWindow at hlong
        rw [← hhours, heq]
        apply Campaigns.firstDialNotBefore_opening
        · rw [hhours] at hclose ⊢
          omega
        · rw [← heq]
          exact hlater
      · have hrequested : r.requestedAt ≤ r.graceOrigin := le_max_left _ _
        simp only
        omega
    · simp only [claimsSinceRelease, windowsSince, claimsSince, Db.entriesOf, Deed.begins,
        Deed.isClaim, Deed.isWindow, Deed.movesOrigin, List.map_cons, List.map_nil,
        List.cons_append, List.nil_append, if_true, Bool.false_eq_true, if_false, hnone]
      omega
  | settled callback waits status rule reason callId hid hopen hended =>
    refine h.quiet hpaced (by simp) (by simp [hended]) ?_ rfl rfl
    intro hs
    simp only at hs
    simp [hs, CallbackStatus.live] at hended

theorem opened_keeps (hlong : LongWindow window delay) (id : ℕ) :
    Keeps (fun now es r => r.id = id → Opened window now es r) (Prompt id window delay) := by
  refine ⟨fun _ b _ => Opened.new b, fun d h hid => (h hid).wait d, ?_⟩
  intro db now who r r' deeds es ht hfresh hprompt h hid
  obtain rfl : r.id = id := ht.id_eq.symm.trans hid
  exact (h rfl).turn hlong ht hfresh hprompt

end Rows

/-! ## Every run -/

/-- **Whatever the refusals and their order**, a call-back is claimed twenty-five times at most
before its two hours are moved; a booking, a release and a wait for the hours of its campaign
move them, and nothing else; a tick that comes after them ends it; and where the hours are
long enough for prompt ticks it waits for one opening between two releases, and is claimed
fifty times. -/
theorem deferrals_bounded (blocks : List Block) :
    (∀ r ∈ (World.runBlocks blocks).db.callbacks.rows,
      claimsSince ((World.runBlocks blocks).db.about r) ≤ maxClaims) ∧
    (∀ a, (∀ b, a ≠ .book b) → (∀ locked, a ≠ .release locked) →
      ∀ r ∈ (World.runBlocks blocks).db.callbacks.rows,
        ∃ r' ∈ ((World.runBlocks blocks).step a).db.callbacks.rows,
          (World.runBlocks blocks).OriginKept r r') ∧
    (∀ q limit locked, ∀ r ∈ (World.runBlocks blocks).db.callbacks.rows,
      r.status = .scheduled → r.lastRefusalRule ≠ some campaignPausedRule →
        (World.runBlocks blocks).db.campaignIs r .paused = false →
          r.graceOrigin + grace < (World.runBlocks blocks).clock →
            ∃ r' ∈ ((World.runBlocks blocks).block (.tick q limit locked)).db.callbacks.rows,
              r'.id = r.id ∧ r'.status.live = false) ∧
    ∀ window delay, LongWindow window delay →
      ∀ r ∈ (World.runBlocks blocks).db.callbacks.rows,
        Run.Guarded World.block (World.ComesAt (Prompt r.id window delay)) World.empty blocks →
          windowsSince ((World.runBlocks blocks).db.about r) ≤ 1 ∧
            claimsSinceRelease ((World.runBlocks blocks).db.about r) ≤ 2 * maxClaims := by
  obtain ⟨hs, hpaced⟩ := World.blocks_paced blocks
  refine ⟨?_, ?_, ?_, ?_⟩
  · exact fun r hr => (hpaced.rows r hr).bound
  · exact fun a hbook hrelease r hr => World.step_origin hs hbook hrelease hr
  · exact fun q limit locked r hr => World.passes_end hs q limit locked hr
  · intro window delay hlong r hr hprompt
    obtain ⟨-, hopened⟩ := World.blocks_keep (opened_keeps hlong r.id) hprompt
    have hrow := hopened.rows r hr rfl
    have honce := hrow.once
    have hbound := hrow.paced.bound
    have hclaims := hrow.claims
    refine ⟨honce, hclaims.trans ?_⟩
    have hwindows := Nat.mul_le_mul_right maxClaims honce
    omega

/-! ## Short hours and long ones -/

/-- A call-back promised while its campaign was paused, and released. -/
def released (hours : Campaigns.CallingHours) (pause : ℕ) : List Block :=
  [.other (.setCampaign 1 (some ⟨.running, some hours⟩)),
    .other (.setCall 1 (some ⟨some 1, .completed⟩)),
    .other (.book
      { callbackId := 1
        agentId := 1
        sourceCallId := some 1
        sourceExecutionId := "call"
        leadId := none
        phone := "+919000000000"
        requestedAt := hour
        bookedAt := 0
        note := none
        language := none }),
    .other (.setCampaign 1 (some ⟨.paused, some hours⟩)), .other (.wait pause),
    .tick 1 1 [], .other (.setCampaign 1 (some ⟨.running, some hours⟩)), .tick 1 1 []]

/-- Half past eleven, with hours until noon: the lines are busy, and busy again after noon. -/
def lateMorning : List Block :=
  released ⟨some "09:00", some "12:00"⟩ (6 * hour) ++
    [.other (.decide 1 1 (.engine "carrier_lines_busy")), .other (.wait (45 * minute)),
      .tick 1 1 [], .other (.decide 1 1 (.engine "carrier_lines_busy"))]

/-- Its ticks are prompt, its hours long, and it waits for nine the next day. -/
example : LongWindow (9 * hour, 12 * hour) (10 * minute) ∧
    Run.Guarded World.block (World.ComesAt (Prompt 1 (9 * hour, 12 * hour) (10 * minute)))
      World.empty lateMorning ∧
    (World.runBlocks lateMorning).db.callbacks.rows.map
      (fun r => windowsSince ((World.runBlocks lateMorning).db.about r)) = [1] := by
  unfold LongWindow
  decide +kernel

/-- Hours from nine to half past. -/
def halfHourHours : Campaigns.CallingHours := ⟨some "09:00", some "09:30"⟩

/-- Released before nine, it waits for half past. -/
def releasedEarly : List Block := released halfHourHours (2 * hour) ++ [.other (.wait (2 * hour))]

/-- At half past nine the lines are busy, and a day goes by. -/
def busyDay : List Block :=
  [.tick 1 1 [], .other (.decide 1 1 (.engine "carrier_lines_busy")), .other (.wait day)]

/-- And so on for some days. -/
def halfHour (days : ℕ) : List Block := releasedEarly ++ (List.replicate days busyDay).flatten

/-- Half past nine, on a day on which the call-back was to begin at nine. -/
structure HalfPast (days : ℕ) (w : World) (o : ℕ) (r : Callback) : Prop where
  holds : w.holds = []
  rows : w.db.callbacks.rows = [r]
  claims : claimsSinceRelease (w.entriesAbout 1) = days
  clock : w.clock = o + 30 * minute
  nine : (o + Campaigns.istOffset) % day = 9 * hour
  id : r.id = 1
  status : r.status = .scheduled
  next : r.nextAttemptAt = some o
  grace : r.graceFrom = some o
  requested : r.requestedAt ≤ o
  rule : r.lastRefusalRule ≠ some campaignPausedRule
  campaign : w.db.campaignOf r = some ⟨.running, some halfHourHours⟩

/-- The call-back as a claim leaves it. -/
def Callback.taken (r : Callback) (now : ℕ) : Callback :=
  { r with
    status := .dialing
    attempts := r.attempts + 1
    lastRefusalRule := none
    lastRefusalReason := none
    updatedAt := now }

/-- And as its tick puts it off. -/
def Callback.putOff (r : Callback) (now opens : ℕ) : Callback :=
  { r with
    status := .scheduled
    nextAttemptAt := some opens
    graceFrom := some opens
    lastRefusalRule := some callingHoursRule
    lastRefusalReason := some callingHoursReason
    updatedAt := now }

/-- A statement that picks no row writes nothing. -/
theorem updateWhere_of_not {db : Db} {p : Callback → Bool} {f : Callback → Callback}
    {deeds : Callback → List Deed} (h : ∀ r ∈ db.callbacks.rows, p r = false) :
    db.updateWhere p f deeds = db := by
  have hnone : db.callbacks.rows.any p = false := by
    rw [List.any_eq_false]
    intro r hr
    rw [h r hr]
    simp
  simp [Db.updateWhere, Journal.rewrite_of_notAny hnone]

section HalfPast

variable {days o : ℕ} {w : World} {r : Callback}

/-- The passes before the claim find nothing to do. -/
theorem HalfPast.passes (h : HalfPast days w o r) :
    w.block (.tick 1 1 []) = w.step (.claim 1 1 []) := by
  have hrunning : ∀ status, w.db.campaignIs r status = decide (.running = status) := by
    intro status
    simp [Db.campaignIs, h.campaign]
  have hended : w.step .settleDialled = w := by
    have h1 : w.db.settleEnded w.clock = w.db := by
      apply updateWhere_of_not
      simp [h.rows, h.status]
    have h2 : w.db.settleStuck w.clock = w.db := by
      apply updateWhere_of_not
      simp [h.rows, h.status]
    simp [World.step, Db.settleDialled, h1, h2]
  have hcalled : w.step (.callOff none) = w := by
    have h1 : w.db.callOffForStoppedCampaigns none w.clock = w.db := by
      apply updateWhere_of_not
      simp [h.rows, hrunning]
    simp [World.step, h1]
  have hheld : w.step .hold = w := by
    have h1 : w.db.holdForPausedCampaigns w.clock = w.db := by
      apply updateWhere_of_not
      simp [h.rows, hrunning]
    simp [World.step, h1]
  have hreleased : w.step (.release []) = w := by
    have h1 : w.db.releaseResumed [] w.clock = w.db := by
      apply updateWhere_of_not
      simp [h.rows, h.rule]
    simp [World.step, h1]
  have hexpired : w.step .expire = w := by
    have h1 : w.db.expireStale w.clock = w.db := by
      apply updateWhere_of_not
      have hgrace : 30 * minute ≤ Callbacks.grace := by decide
      have horigin : r.graceOrigin = o := by
        simpa [Callback.graceOrigin, h.grace] using h.requested
      simp only [h.rows, List.mem_singleton, forall_eq, stale, h.clock, horigin]
      simp only [decide_eq_false_iff_not, not_and]
      omega
    simp [World.step, h1]
  simp only [World.block, Block.actions, World.passes, List.foldl_cons, List.foldl_nil, hended,
    hcalled, hheld, hreleased, hexpired]

/-- The hours are closed until nine the next day. -/
theorem HalfPast.opens (h : HalfPast days w o r) :
    Campaigns.firstDialNotBefore w.clock (some halfHourHours) = o + day := by
  have hwindow : Campaigns.windowFor (some halfHourHours) = (9 * hour, 9 * hour + 30 * minute) := by
    decide +kernel
  have hoffset : Campaigns.istOffset < 9 * hour := by decide
  have hday : 9 * hour + 30 * minute < day := by decide
  have hsum : w.clock + Campaigns.istOffset = (o + Campaigns.istOffset) + 30 * minute := by
    rw [h.clock]
    omega
  have hclock : (w.clock + Campaigns.istOffset) % day = 9 * hour + 30 * minute := by
    rw [hsum, Nat.add_mod, h.nine, Nat.mod_eq_of_lt (by omega : 30 * minute < day),
      Nat.mod_eq_of_lt hday]
  have hsplit := Nat.div_add_mod' (w.clock + Campaigns.istOffset) day
  simp only [Campaigns.firstDialNotBefore, hwindow, hclock] at hsplit ⊢
  rw [if_neg (by omega), if_pos le_rfl]
  omega

/-- The tick claims the call-back. -/
theorem HalfPast.claim (h : HalfPast days w o r) :
    w.block (.tick 1 1 []) =
      { db := { w.db with
          callbacks := ⟨[r.taken w.clock],
            ⟨1, .claimed 1 w.clock r.requestedAt⟩ :: w.db.callbacks.entries⟩ }
        holds := [⟨1, w.db.due r, none⟩]
        clock := w.clock } := by
  have hclaimable : w.db.claimable [] w.clock r = true := by
    have hrequested : r.requestedAt ≤ w.clock := by
      rw [h.clock]
      exact h.requested.trans (Nat.le_add_right _ _)
    have hnext : o ≤ w.clock := by
      rw [h.clock]
      exact Nat.le_add_right _ _
    simp [Db.claimable, h.status, h.next, h.rule, Db.campaignIs, h.campaign, hrequested, hnext]
  have hpicked : w.db.picked 1 [] w.clock = [r] := by
    simp [Db.picked, h.rows, hclaimable]
  rw [h.passes]
  simp [Callback.taken, World.step, World.newHolds, Db.claimDue, Db.updateWhere, hpicked, h.rows,
    h.holds, h.id, Journal.rewrite, Table.update]

/-- It comes to it, and puts it off. -/
theorem HalfPast.decide (h : HalfPast days w o r) :
    (w.block (.tick 1 1 [])).block (.other (.decide 1 1 (.engine "carrier_lines_busy"))) =
      { db := { w.db with
          callbacks := ⟨[r.putOff w.clock (o + day)],
            ⟨1, .windowed w.clock⟩ :: ⟨1, .refunded⟩ ::
              ⟨1, .claimed 1 w.clock r.requestedAt⟩ :: w.db.callbacks.entries⟩ }
        holds := []
        clock := w.clock } := by
  have hopens : opensLater (w.db.due r) w.clock = some (o + day) := by
    have hlater : ¬ o + day ≤ w.clock := by
      have hday : 30 * minute < day := by decide
      rw [h.clock]
      omega
    simp [opensLater, Db.due, h.grace, h.campaign, h.opens, hlater]
  rw [h.claim]
  simp only [World.block, Block.actions, List.foldl_cons, List.foldl_nil, World.step,
    World.undialled, Db.due, h.id]
  simp only [Db.due, h.id] at hopens
  simp [World.decideOn, hopens, World.letGo, Callback.putOff, Callback.taken, Db.deferToWindow,
    Db.updateWhere, Journal.rewrite, Table.update, h.id]

/-- A day goes by while nothing is paused. -/
theorem HalfPast.day (h : HalfPast days w o r) :
    busyDay.foldl World.block w =
      { db := { w.db with
          callbacks := ⟨[r.putOff w.clock (o + day)],
            ⟨1, .windowed w.clock⟩ :: ⟨1, .refunded⟩ ::
              ⟨1, .claimed 1 w.clock r.requestedAt⟩ :: w.db.callbacks.entries⟩ }
        holds := []
        clock := w.clock + Calendar.day } := by
  simp only [busyDay, List.foldl_cons, List.foldl_nil, h.decide]
  simp only [World.block, Block.actions, List.foldl_cons, List.foldl_nil, World.step]
  rw [updateWhere_of_not]
  intro r' hr'
  obtain rfl := List.mem_singleton.1 hr'
  change (w.db.campaignOf r).any _ = false
  rw [h.campaign]
  rfl

/-- **The next day is as this one**, and the call-back was claimed once more. -/
theorem HalfPast.next_day (h : HalfPast days w o r) :
    HalfPast (days + 1) (busyDay.foldl World.block w) (o + Calendar.day)
      (r.putOff w.clock (o + Calendar.day)) := by
  rw [h.day]
  have hclaims := h.claims
  constructor
  · rfl
  · rfl
  · simp only [World.entriesAbout, Journal.about] at hclaims ⊢
    simp [claimsSinceRelease, Deed.begins, Deed.isClaim, hclaims]
  · change w.clock + Calendar.day = _
    rw [h.clock]
    omega
  · have hsum : o + Calendar.day + Campaigns.istOffset =
        (o + Campaigns.istOffset) + Calendar.day := by omega
    rw [hsum, Nat.add_mod_right, h.nine]
  · exact h.id
  · rfl
  · rfl
  · rfl
  · exact h.requested.trans (Nat.le_add_right _ _)
  · simp [Callback.putOff, callingHoursRule, campaignPausedRule]
  · exact h.campaign

/-- **Where the hours are half an hour, it is claimed day after day.** -/
theorem halfPast_days {n : ℕ} (h : HalfPast days w o r) :
    ∃ o' r', HalfPast (days + n)
      ((List.replicate n busyDay).flatten.foldl World.block w) o' r' := by
  induction n generalizing days w o r with
  | zero => exact ⟨o, r, h⟩
  | succ n ih =>
    obtain ⟨o', r', h'⟩ := ih h.next_day
    refine ⟨o', r', ?_⟩
    rw [List.replicate_succ, List.flatten_cons, List.foldl_append, Nat.add_comm n 1,
      ← Nat.add_assoc]
    exact h'

end HalfPast

theorem releasedEarly_halfPast :
    ∃ r, HalfPast 0 (World.runBlocks releasedEarly) (3 * hour + 30 * minute) r := by
  refine ⟨(World.runBlocks releasedEarly).db.callbacks.rows.get ⟨0, by decide +kernel⟩, ?_⟩
  constructor <;> decide +kernel

/-- **No number bounds the claims between two releases, and the expiry pass after the two hours
leaves a call-back that waits for an opening.** -/
theorem halfHour_unbounded :
    (¬ ∃ bound, ∀ blocks, ∀ r ∈ (World.runBlocks blocks).db.callbacks.rows,
      claimsSinceRelease ((World.runBlocks blocks).db.about r) ≤ bound) ∧
    ¬ ∀ blocks, ∀ r ∈ (World.runBlocks blocks).db.callbacks.rows,
      ((World.runBlocks blocks).db.about r).any (fun e => e.deed.isDial) = false →
        (World.runBlocks blocks).db.campaignIs r .paused = false →
          dueSince ((World.runBlocks blocks).db.about r) r + grace < (World.runBlocks blocks).clock →
            ∀ r' ∈ ((World.runBlocks blocks).step .expire).db.callbacks.rows,
              r'.id = r.id → r'.status.live = false := by
  constructor
  · rintro ⟨bound, h⟩
    obtain ⟨r0, hstart⟩ := releasedEarly_halfPast
    obtain ⟨o, r, hr⟩ := halfPast_days (n := bound + 1) hstart
    have hrun : (List.replicate (bound + 1) busyDay).flatten.foldl World.block
        (World.runBlocks releasedEarly) = World.runBlocks (halfHour (bound + 1)) := by
      rw [World.runBlocks, World.runBlocks, halfHour, List.foldl_append]
    rw [hrun] at hr
    have habout : (World.runBlocks (halfHour (bound + 1))).db.about r =
        (World.runBlocks (halfHour (bound + 1))).entriesAbout 1 := by
      rw [Db.about, hr.id, World.entriesAbout]
    have hle := h (halfHour (bound + 1)) r (by simp [hr.rows])
    rw [habout, hr.claims] at hle
    omega
  · intro h
    exact absurd (h (halfHour 1)) (by decide +kernel)

end Calevate.Callbacks
