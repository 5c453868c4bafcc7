import Calevate.Callbacks.Claims

/-!
# Time spent paused

Two hours of grace are two hours in which the campaign runs: a pause is to stop the clock.
What stops it is the mark `hold_for_paused_campaigns` leaves on a waiting row, and only a
tick that runs during the pause leaves it. Over every run in which no pause of a due
call-back ends unmarked, `expire_stale` ends none that had less than its two hours
(`paused_time_kept`). A pause that no tick looks at leaves no mark, and the first tick after
it ends a call-back that had no time at all (`pausedUnseen`).
-/

namespace Calevate.Callbacks

open Lib

/-! ## Time -/

/-- How long a pause lasted from an instant on. -/
def Deed.pausedFrom (t : ℕ) : Deed → ℕ
  | .paused since until_ => until_ - max t since
  | _ => 0

/-- The time spent paused since an instant. -/
def pausedSince (es : List Entry) (t : ℕ) : ℕ := (es.map fun e => e.deed.pausedFrom t).sum

/-- The time since an instant that was not spent paused. -/
def unpaused (es : List Entry) (t now : ℕ) : ℕ := now - t - pausedSince es t

def Deed.releasedAt : Deed → Option ℕ
  | .released at_ => some at_
  | _ => none

/-- When a call-back was last released. -/
def lastRelease (es : List Entry) : Option ℕ := es.findSome? fun e => e.deed.releasedAt

/-- When it fell due or was last released. -/
def dueSince (es : List Entry) (r : Callback) : ℕ := max r.requestedAt ((lastRelease es).getD 0)

/-- `expire_stale` ends nothing that had less than its two hours. -/
def World.GraceKept (w : World) : Prop :=
  ∀ r ∈ w.db.callbacks.rows, stale w.clock r = true →
    grace ≤ unpaused (w.db.about r) (dueSince (w.db.about r) r) w.clock

instance (w : World) : Decidable w.GraceKept := by
  unfold World.GraceKept
  infer_instance

/-! ## The condition -/

/-- From one state of the campaigns to the next, no pause of a due call-back ends that did not
leave its mark. -/
def World.Noticed (w w' : World) : Prop :=
  ∀ r ∈ w.db.callbacks.rows, r.status.live = true → r.requestedAt ≤ w.clock →
    w.db.campaignIs r .paused = true → w'.db.campaignIs r .paused = false →
      r.lastRefusalRule = some campaignPausedRule

/-- **No pause goes unseen**: none ends unmarked, none begins between the mark and the expiry,
and no promise is moved to a time that is past. -/
def Seen (w : World) : Action → Prop
  | .book b => ∀ r ∈ w.db.callbacks.rows, r.sourceExecutionId = b.sourceExecutionId →
      r.status = .scheduled → r.bookedAt < b.bookedAt → w.clock ≤ b.requestedAt
  | .expire => ∀ r ∈ w.db.callbacks.rows, stale w.clock r = true →
      w.db.campaignIs r .paused = false
  | .setCall callId call => w.Noticed (w.step (.setCall callId call))
  | .setCampaign campaignId campaign => w.Noticed (w.step (.setCampaign campaignId campaign))
  | _ => True

instance (w w' : World) : Decidable (w.Noticed w') := by
  unfold World.Noticed
  infer_instance

instance (w : World) (a : Action) : Decidable (Seen w a) := by
  cases a <;> unfold Seen <;> infer_instance

/-! ## Rows -/

section Rows

variable {db : Db} {now : ℕ} {who : Who} {r r' : Callback} {deeds : List Deed}
variable {es : List Entry} {paused paused' : Callback → Bool}

/-- **What holds of a row and its entries**: while its campaign runs and it bears no mark, no
time was spent paused since it fell due or was last released. -/
structure Accounted (paused : Callback → Bool) (now : ℕ) (es : List Entry) (r : Callback) :
    Prop where
  past : ∀ e ∈ es, ∀ since until_, e.deed = .paused since until_ → until_ ≤ now
  released : ∀ t, lastRelease es = some t → t ≤ now ∧ ∃ g, r.graceFrom = some g ∧ t ≤ g
  dialing : r.status = .dialing → r.lastRefusalRule ≠ some campaignPausedRule
  unmarked : r.status.live = true → r.lastRefusalRule ≠ some campaignPausedRule →
    paused r = false → pausedSince es (dueSince es r) = 0

theorem Accounted.new (b : Booking) : Accounted paused now [] (newCallback b now) := by
  constructor <;> simp [lastRelease, pausedSince, newCallback]

/-- No pause is recorded after the last one ended. -/
theorem Accounted.pausedSince_eq_zero (h : Accounted paused now es r) {t : ℕ} (ht : now ≤ t) :
    pausedSince es t = 0 := by
  apply List.sum_eq_zero
  intro x hx
  obtain ⟨e, he, rfl⟩ := List.mem_map.1 hx
  cases hdeed : e.deed with
  | paused since until_ =>
    have hpast := h.past e he since until_ hdeed
    simp only [Deed.pausedFrom]
    omega
  | _ => rfl

/-- A deed that tells of no pause and no release. -/
def Deed.idle : Deed → Bool
  | .paused .. | .released .. => false
  | _ => true

theorem pausedSince_append (id t : ℕ) (hidle : ∀ d ∈ deeds, d.idle = true) :
    pausedSince (Db.entriesOf id deeds ++ es) t = pausedSince es t := by
  have hzero : ((Db.entriesOf id deeds).map fun e => e.deed.pausedFrom t).sum = 0 := by
    apply List.sum_eq_zero
    intro x hx
    obtain ⟨e, he, rfl⟩ := List.mem_map.1 hx
    obtain ⟨d, hd, rfl⟩ := List.mem_map.1 he
    have hd := hidle d hd
    cases d <;> simp_all [Deed.idle, Deed.pausedFrom]
  simp only [pausedSince, List.map_append, List.sum_append, hzero, zero_add]

theorem lastRelease_append (id : ℕ) (hidle : ∀ d ∈ deeds, d.idle = true) :
    lastRelease (Db.entriesOf id deeds ++ es) = lastRelease es := by
  have hnone : lastRelease (Db.entriesOf id deeds) = none := by
    rw [lastRelease, List.findSome?_eq_none_iff]
    intro e he
    obtain ⟨d, hd, rfl⟩ := List.mem_map.1 he
    have hd := hidle d hd
    cases d <;> simp_all [Deed.idle, Deed.releasedAt]
  simp only [lastRelease] at hnone ⊢
  rw [List.findSome?_append, hnone, Option.none_or]

/-- Deeds that tell of no pause and no release leave the reckoning as it was. -/
theorem Accounted.idle (h : Accounted paused now es r) (id : ℕ)
    (hidle : ∀ d ∈ deeds, d.idle = true) (hrequested : r'.requestedAt = r.requestedAt)
    (hgrace : ∀ g, r.graceFrom = some g → ∃ g', r'.graceFrom = some g' ∧ (g' = g ∨ now ≤ g'))
    (hdialing : r'.status = .dialing → r'.lastRefusalRule ≠ some campaignPausedRule)
    (hunmarked : r'.status.live = true → r'.lastRefusalRule ≠ some campaignPausedRule →
      paused r' = false → r.status.live = true ∧ r.lastRefusalRule ≠ some campaignPausedRule ∧
        paused r = false) :
    Accounted paused now (Db.entriesOf id deeds ++ es) r' := by
  refine ⟨?_, ?_, hdialing, ?_⟩
  · intro e he since until_ hdeed
    rcases List.mem_append.1 he with he | he
    · obtain ⟨d, hd, rfl⟩ := List.mem_map.1 he
      have hd := hidle d hd
      simp only at hdeed
      rw [hdeed] at hd
      cases hd
    · exact h.past e he since until_ hdeed
  · intro t ht
    rw [lastRelease_append id hidle] at ht
    obtain ⟨hle, g, hg, htg⟩ := h.released t ht
    obtain ⟨g', hg', hsame⟩ := hgrace g hg
    exact ⟨hle, g', hg', by omega⟩
  · intro hlive hrule hp
    obtain ⟨hlive, hrule, hp⟩ := hunmarked hlive hrule hp
    rw [pausedSince_append id _ hidle, dueSince, lastRelease_append id hidle, hrequested]
    exact h.unmarked hlive hrule hp

/-- **A turn keeps the reckoning**, a booking's if it moves the promise to no past time. -/
theorem Accounted.turn (h : Accounted (fun r => db.campaignIs r .paused) now es r)
    (ht : Turn db now who r r' deeds) (hbook : ∀ b, who = .booker b → now ≤ b.requestedAt)
    (hclock : ∀ d, who ≠ .clock d) :
    Accounted (fun r => db.campaignIs r .paused) now (Db.entriesOf r.id deeds ++ es) r' := by
  cases ht with
  | moved b note language agentId sourceCallId leadId hkey hs hlater =>
    refine ⟨?_, ?_, by simp [hs], ?_⟩
    · intro e he since until_ hdeed
      rcases List.mem_append.1 he with he | he
      · simp only [Db.entriesOf, List.map_cons, List.map_nil, List.mem_singleton] at he
        simp [he] at hdeed
      · exact h.past e he since until_ hdeed
    · intro t htr
      rw [lastRelease_append _ (by simp [Deed.idle])] at htr
      exact h.released t htr
    · intro hlive hrule hp
      rw [pausedSince_append _ _ (by simp [Deed.idle])]
      apply h.pausedSince_eq_zero
      exact (hbook b rfl).trans (le_max_left _ _)
  | missed reason hstale =>
    exact h.idle _ (by simp) rfl (fun g hg => ⟨g, hg, .inl rfl⟩) (by simp)
      (by simp [CallbackStatus.live])
  | held reason hs hpaused =>
    exact h.idle _ (by simp) rfl (fun g hg => ⟨g, hg, .inl rfl⟩) (by simp [hs]) (by simp)
  | released hs hrule hpaused =>
    refine ⟨?_, ?_, by simp [hs], ?_⟩
    · intro e he since until_ hdeed
      rcases List.mem_append.1 he with he | he
      · simp only [Db.entriesOf, List.map_cons, List.map_nil, List.mem_singleton] at he
        simp [he] at hdeed
      · exact h.past e he since until_ hdeed
    · intro t htr
      have hlast : t = now := by
        simpa [lastRelease, Db.entriesOf, Deed.releasedAt, eq_comm] using htr
      subst hlast
      refine ⟨le_rfl, _, rfl, ?_⟩
      exact (le_max_left _ _).trans (Campaigns.le_firstDialNotBefore _ _)
    · intro hlive hrule' hp
      have hdue : now ≤ dueSince (Db.entriesOf r.id [.released now] ++ es)
          { r with
            graceFrom := some (db.releaseAt now r)
            nextAttemptAt := some (db.releaseAt now r)
            lastRefusalRule := none
            lastRefusalReason := none
            updatedAt := now } := by
        simp [dueSince, lastRelease, Db.entriesOf, Deed.releasedAt]
      have hzero := h.pausedSince_eq_zero hdue
      simpa [pausedSince, Db.entriesOf, Deed.pausedFrom] using hzero
  | cancelled rule reason hs =>
    exact h.idle _ (by simp) rfl (fun g hg => ⟨g, hg, .inl rfl⟩) (by simp)
      (by simp [CallbackStatus.live])
  | ended status hs hstatus =>
    refine h.idle _ (by simp) rfl (fun g hg => ⟨g, hg, .inl rfl⟩) ?_ ?_ <;>
      rcases hstatus with rfl | rfl <;> simp [CallbackStatus.live]
  | claimed tick locked hclaim =>
    obtain ⟨hs, -, -, hrule, hp, -⟩ := of_decide_eq_true hclaim
    exact h.idle _ (by simp [Deed.idle]) rfl (fun g hg => ⟨g, hg, .inl rfl⟩) (by simp)
      fun _ _ _ => ⟨by simp [CallbackStatus.live, hs], hrule, hp⟩
  | linked callId hringing =>
    exact h.idle _ (by simp [Deed.idle]) rfl (fun g hg => ⟨g, hg, .inl rfl⟩) h.dialing
      fun hlive hrule hp => ⟨hlive, hrule, hp⟩
  | paused d hpaused => exact absurd rfl (hclock d)
  | deferred callback waits rule reason hid hs =>
    exact h.idle _ (by simp [Deed.idle]) rfl (fun g hg => ⟨g, hg, .inl rfl⟩) (by simp)
      fun _ _ hp => ⟨by simp [CallbackStatus.live, hs], h.dialing hs, hp⟩
  | windowed callback opens rule reason hid hs hopens =>
    exact h.idle _ (by simp [Deed.idle]) rfl (fun g hg => ⟨opens, rfl, .inr (World.opensLater_lt hopens).le⟩) (by simp)
      fun _ _ hp => ⟨by simp [CallbackStatus.live, hs], h.dialing hs, hp⟩
  | settled callback waits status rule reason callId hid hopen hended =>
    refine h.idle _ (by simp) rfl (fun g hg => ⟨g, hg, .inl rfl⟩) ?_ (by simp [hended])
    intro hs
    simp only at hs
    simp [hs, CallbackStatus.live] at hended

/-- Time passes, paused for the row or not. -/
theorem Accounted.wait (h : Accounted paused now es r) (d : ℕ) :
    Accounted paused (now + d) es r :=
  ⟨fun e he since until_ hdeed => (h.past e he since until_ hdeed).trans (by omega),
    fun t ht => ⟨(h.released t ht).1.trans (by omega), (h.released t ht).2⟩, h.dialing, h.unmarked⟩

theorem Accounted.waitPaused (h : Accounted (fun r => db.campaignIs r .paused) now es r) (d : ℕ)
    (ht : Turn db now (.clock d) r r' deeds) :
    Accounted (fun r => db.campaignIs r .paused) (now + d) (Db.entriesOf r.id deeds ++ es) r' := by
  cases ht with
  | paused d hpaused =>
    refine ⟨?_, ?_, h.dialing, ?_⟩
    · intro e he since until_ hdeed
      rcases List.mem_append.1 he with he | he
      · simp only [Db.entriesOf, List.map_cons, List.map_nil, List.mem_singleton] at he
        subst he
        cases hdeed
        exact le_rfl
      · exact (h.past e he since until_ hdeed).trans (by omega)
    · intro t htr
      have hlast : lastRelease es = some t := by
        simpa [lastRelease, Db.entriesOf, Deed.releasedAt] using htr
      exact ⟨(h.released t hlast).1.trans (by omega), (h.released t hlast).2⟩
    · intro _ _ hp
      rw [hpaused] at hp
      cases hp

/-- The campaigns change, and no pause of a due row ends unmarked. -/
theorem Accounted.change (h : Accounted paused now es r)
    (hnoticed : r.status.live = true → r.requestedAt ≤ now → paused r = true →
      paused' r = false → r.lastRefusalRule = some campaignPausedRule) :
    Accounted paused' now es r := by
  refine ⟨h.past, h.released, h.dialing, ?_⟩
  intro hlive hrule hp
  by_cases hbefore : paused r = true
  · -- a pause that ends before the row fell due cost it nothing
    rcases Nat.lt_or_ge now r.requestedAt with hlater | hdue
    · exact h.pausedSince_eq_zero (hlater.le.trans (le_max_left _ _))
    · exact absurd (hnoticed hlive hdue hbefore hp) hrule
  · exact h.unmarked hlive hrule (by simpa using hbefore)

end Rows

/-! ## Runs -/

namespace World

variable {w : World}

/-- The invariant of a run in which no pause goes unseen. -/
def Accounts (w : World) : Prop :=
  Journal.Sound Callback.id Entry.callback
    (Accounted (fun r => w.db.campaignIs r .paused) w.clock) w.db.callbacks

/-- The same campaigns pause the same rows. -/
theorem paused_congr {db db' : Db} (h : Db.SameCampaigns db db') :
    (fun r => db'.campaignIs r .paused) = fun r => db.campaignIs r .paused := by
  funext r
  exact h.campaignIs r .paused

/-- Turns of anybody but the booker and the clock keep it. -/
theorem Accounts.moves (h : w.Accounts) {who : Who} {db' : Db}
    (hm : Db.Moves w.clock who w.db db') (hbook : ∀ b, who ≠ .booker b)
    (hclock : ∀ d, who ≠ .clock d) :
    Journal.Sound Callback.id Entry.callback
      (Accounted (fun r => w.db.campaignIs r .paused) w.clock) db'.callbacks := by
  refine hm.sound h ?_ fun b => Accounted.new b
  intro db0 hsame r r' deeds es ht hR
  rw [← paused_congr hsame] at hR ⊢
  exact hR.turn ht (fun b hb => absurd hb (hbook b)) hclock

/-- A call that is new was nobody's campaign's. -/
theorem linked_paused {db : Db} {callId id now : ℕ} (hfresh : db.calls callId = none)
    (campaignId : Option ℕ) {r : Callback} (hp : db.campaignIs r .paused = true) :
    (db.linkCallbackToCall id callId campaignId now).campaignIs r .paused = true := by
  have hne : ∀ c, r.sourceCallId = some c → c ≠ callId := by
    rintro c hc rfl
    simp [Db.campaignIs, Db.campaignOf, Db.campaignIdOf, hc, hfresh] at hp
  cases hc : r.sourceCallId with
  | none => simp [Db.campaignIs, Db.campaignOf, Db.campaignIdOf, hc] at hp
  | some c =>
    have hcall : Function.update db.calls callId (some ⟨campaignId, .queued⟩) c = db.calls c :=
      Function.update_of_ne (hne c hc) _ _
    simpa [Db.campaignIs, Db.campaignOf, Db.campaignIdOf, Db.linkCallbackToCall, Db.updateWhere,
      hc, hcall] using hp

/-- **One step keeps it, if the step lets no pause go unseen.** -/
theorem step_accounts (hs : w.Sound) (h : w.Accounts) (a : Action) (hseen : Seen w a) :
    (w.step a).Accounts := by
  have hm := step_moves hs a
  have hholder : (∀ b, w.turnOf a ≠ .booker b) → (∀ d, w.turnOf a ≠ .clock d) →
      Db.SameCampaigns w.db (w.step a).db → (w.step a).clock = w.clock → (w.step a).Accounts := by
    intro hbook hclock hsame hnow
    have hmoved := h.moves hm hbook hclock
    rwa [← paused_congr hsame, ← hnow] at hmoved
  cases a with
  | book b =>
    have hsame := Db.book_campaigns w.db b w.clock
    rcases w.db.book_cases b w.clock with ht | ⟨hkey, hid, heq⟩
    · have hmoved : Journal.Sound Callback.id Entry.callback
          (Accounted (fun r => w.db.campaignIs r .paused) w.clock)
          (w.db.book b w.clock).callbacks := by
        refine ht.sound h ?_ fun _ _ hR => hR
        intro r hr r' deeds hturn hR
        refine hR.turn hturn ?_ (by simp)
        rintro b' hb'
        cases hb'
        cases hturn with
        | moved b note language agentId sourceCallId leadId hkey hs hlater =>
          exact hseen r hr hkey hs hlater
      rwa [← paused_congr hsame] at hmoved
    · have hmoved : Journal.Sound Callback.id Entry.callback
          (Accounted (fun r => w.db.campaignIs r .paused) w.clock)
          (w.db.book b w.clock).callbacks := by
        rw [heq]
        exact h.insert hid (by simp) (Accounted.new b) fun _ _ hR => hR
      rwa [← paused_congr hsame] at hmoved
  | wait d =>
    have ht := Db.paused_turned w.db w.clock d
    exact ht.sound h (fun _ _ _ _ hturn hR => hR.waitPaused d hturn) fun _ _ hR => hR.wait d
  | setCall callId call => exact h.mono fun r hr hR => hR.change (hseen r hr)
  | setCampaign campaignId campaign => exact h.mono fun r hr hR => hR.change (hseen r hr)
  | decide tick id finding =>
    have hturn := w.turnOf_decide tick id finding
    refine hholder (fun b => hturn.not_booker b) (fun d => hturn.not_clock d) ?_ ?_
    · cases hfind : w.undialled tick id with
      | none => simpa only [step, hfind] using ⟨rfl, rfl⟩
      | some k => simpa only [step, hfind, letGo_db] using w.decideOn_campaigns k finding
    · simp only [step]
      split <;> rfl
  | conclude tick id answer =>
    have hturn := w.turnOf_conclude tick id answer
    refine hholder (fun b => hturn.not_booker b) (fun d => hturn.not_clock d) ?_ ?_
    · cases hfind : w.dialled tick id with
      | none => simpa only [step, hfind] using ⟨rfl, rfl⟩
      | some found => simpa only [step, hfind, letGo_db] using w.concludeOn_campaigns found.1 found.2 answer
    · simp only [step]
      split <;> rfl
  | dial tick id callId campaignId =>
    have hturn := w.turnOf_dial tick id callId campaignId
    have hmoved := h.moves hm (fun b => hturn.not_booker b) fun d => hturn.not_clock d
    cases hfind : w.undialled tick id with
    | none => simpa only [step, hfind] using h
    | some k =>
      cases hopens : opensLater k.callback w.clock with
      | some opens =>
        simp only [step, hfind, hopens] at hmoved ⊢
        exact hmoved
      | none =>
        cases hcall : w.db.calls callId with
        | some call => simpa [step, hfind, hopens, hcall] using h
        | none =>
          have hstep : w.step (.dial tick id callId campaignId) =
              { w with
                db := w.db.linkCallbackToCall id callId campaignId w.clock
                holds := w.holds.map fun h' =>
                  if h'.tick = tick ∧ h'.callback.id = id then { h' with dial := some callId }
                  else h' } := by
            simp [step, hfind, hopens, hcall]
          rw [hstep] at hmoved ⊢
          refine hmoved.mono fun r hr hR => hR.change ?_
          intro _ _ hp hp'
          rw [linked_paused hcall campaignId hp] at hp'
          cases hp'
  | _ => exact hholder (by simp [turnOf]) (by simp [turnOf]) ⟨rfl, rfl⟩ rfl

theorem guarded_accounts {actions : List Action} (h : Run.Guarded step Seen empty actions) :
    (run actions).Sound ∧ (run actions).Accounts := by
  refine @Run.Guarded.inv _ _ step Seen (fun w => w.Sound ∧ w.Accounts) ?_ empty actions
    ⟨empty_sound, Journal.Sound.empty⟩ h
  rintro w a ⟨hs, hw⟩ hseen
  exact ⟨step_sound hs a, step_accounts hs hw a hseen⟩

/-- What is expired under no pause had its two hours. -/
theorem Accounts.grace_kept (h : w.Accounts) (hseen : Seen w .expire) : w.GraceKept := by
  intro r hr hstale
  have hR := h.rows r hr
  obtain ⟨hs, hlate, hrule⟩ := of_decide_eq_true hstale
  have hzero : pausedSince (w.db.about r) (dueSince (w.db.about r) r) = 0 :=
    hR.unmarked (by simp [CallbackStatus.live, hs]) hrule (hseen r hr hstale)
  have hsince : dueSince (w.db.about r) r ≤ r.graceOrigin := by
    cases hlast : lastRelease (w.db.about r) with
    | none => simp [dueSince, hlast, Callback.graceOrigin]
    | some t =>
      obtain ⟨-, g, hg, htg⟩ := hR.released t hlast
      simp only [dueSince, hlast, Callback.graceOrigin, hg, Option.getD_some]
      omega
  simp only [unpaused, hzero]
  omega

end World

/-- **Time spent paused expires no call-back**, in every run in which no pause goes unseen: what
`expire_stale` ends had two hours in which its campaign ran, since it fell due or was last
released. -/
theorem paused_time_kept (actions : List Action)
    (h : Run.Guarded World.step Seen World.empty actions) (before after : List Action)
    (hexpire : actions = before ++ .expire :: after) : (World.run before).GraceKept := by
  subst hexpire
  exact (World.guarded_accounts h.begins).2.grace_kept h.at

/-! ## Two pauses -/

/-- A campaign and a call of it, on which a call-back is promised for an hour later. -/
def promised : List Action :=
  [.setCampaign 1 (some ⟨.running, none⟩), .setCall 1 (some ⟨some 1, .completed⟩),
    .book
      { callbackId := 1
        agentId := 1
        sourceCallId := some 1
        sourceExecutionId := "call"
        leadId := none
        phone := "+919000000000"
        requestedAt := Calendar.hour
        bookedAt := 0
        note := none
        language := none }]

/-- The campaign is paused over the promised time, and the ticks see it. -/
def pausedSeen : List Action :=
  promised ++ [.setCampaign 1 (some ⟨.paused, none⟩), .wait (4 * Calendar.hour), .hold,
    .setCampaign 1 (some ⟨.running, none⟩), .hold, .release [], .expire,
    .wait (3 * Calendar.hour), .hold, .release []]

theorem pausedSeen_kept : (World.run pausedSeen).GraceKept :=
  paused_time_kept (pausedSeen ++ [.expire]) (by decide +kernel) pausedSeen [] rfl

/-- The same pause, while no tick runs. -/
def pausedUnseen : List Action :=
  promised ++ [.setCampaign 1 (some ⟨.paused, none⟩), .wait (4 * Calendar.hour),
    .setCampaign 1 (some ⟨.running, none⟩), .settleDialled, .callOff none, .hold, .release []]

/-- **The next expiry ends a call-back that had no time at all.** -/
theorem pausedUnseen_missed : ¬ ∀ before : List Action, (World.run before).GraceKept := by
  intro h
  exact absurd (h pausedUnseen) (by decide +kernel)

end Calevate.Callbacks
