import Calevate.Callbacks.Turns

/-!
# Claims of a call-back

Over every run of the statements, in any order: a call-back is claimed by one tick at a time
and not before its time, an ending is for good, the count of attempts is what was claimed
and not given back, and a dial finds the row dialing or its dial ended. `Counted` is the
invariant of a row and its entries, `World.Sound` adds that the row of a claim nobody has
come to the end of is ringing. Two statements could break the first half: `defer` puts a
dialing row back in line, and is only ever the tick's own that claimed it.
-/

namespace Calevate.Callbacks

open Lib

/-! ## Rows -/

def Deed.isClaim : Deed → Bool
  | .claimed .. => true
  | _ => false

/-- How often the entries say a row was claimed. -/
def claims (es : List Entry) : ℕ := es.countP fun e => e.deed.isClaim

/-- How often they say a claim was given back. -/
def refunds (es : List Entry) : ℕ := es.countP fun e => e.deed = .refunded

/-- No entry tells of a claim before its time, or of a dial of what was called off. -/
def Deed.Lawful : Deed → Prop
  | .claimed _ at_ requestedAt => requestedAt ≤ at_
  | .dialled found => found.ringing = true
  | _ => True

/-- **What holds of a row and its entries.** -/
structure Counted (es : List Entry) (r : Callback) : Prop where
  attempts : r.attempts = claims es - refunds es
  nonneg : 0 ≤ r.attempts
  scheduled : r.status = .scheduled → r.attempts = 0
  dialing : r.status = .dialing → r.attempts = 1
  settled : r.settledAt = none ↔ r.status.live = true
  lawful : ∀ e ∈ es, e.deed.Lawful

variable {db : Db} {now : ℕ} {who : Who} {r r' : Callback} {deeds : List Deed}
variable {es : List Entry}

theorem Counted.new (b : Booking) (now : ℕ) : Counted [] (newCallback b now) := by
  constructor <;> simp [newCallback, claims, refunds, CallbackStatus.live]

theorem claims_append (id : ℕ) (deeds : List Deed) (es : List Entry) :
    claims (Db.entriesOf id deeds ++ es) = deeds.countP Deed.isClaim + claims es := by
  simp [claims, Db.entriesOf, List.countP_append, List.countP_map, Function.comp_def]

theorem refunds_append (id : ℕ) (deeds : List Deed) (es : List Entry) :
    refunds (Db.entriesOf id deeds ++ es) =
      deeds.countP (fun d => d = .refunded) + refunds es := by
  simp [refunds, Db.entriesOf, List.countP_append, List.countP_map, Function.comp_def]

theorem lawful_append (id : ℕ) (hlawful : ∀ e ∈ es, e.deed.Lawful)
    (hdeeds : ∀ d ∈ deeds, d.Lawful) :
    ∀ e ∈ Db.entriesOf id deeds ++ es, e.deed.Lawful := by
  intro e he
  rcases List.mem_append.1 he with he | he
  · obtain ⟨d, hd, rfl⟩ := List.mem_map.1 he
    exact hdeeds d hd
  · exact hlawful e he

/-- **A turn keeps the count of its row.** -/
theorem Counted.turn (h : Counted es r) (ht : Turn db now who r r' deeds) :
    Counted (Db.entriesOf r.id deeds ++ es) r' := by
  obtain ⟨hattempts, hnonneg, hscheduled, hdialing, hsettled, hlawful⟩ := h
  have hlaw : ∀ d ∈ deeds, d.Lawful := by
    cases ht with
    | claimed tick locked hclaim =>
      obtain ⟨-, hdue, -⟩ := of_decide_eq_true hclaim
      simpa [Deed.Lawful] using hdue
    | linked callId hringing => simpa [Deed.Lawful] using hringing
    | _ => simp [Deed.Lawful]
  have hes := lawful_append r.id hlawful hlaw
  cases ht with
  | moved b note language agentId sourceCallId leadId hkey hs hlater =>
    exact ⟨by simpa [claims_append, refunds_append, Deed.isClaim] using hattempts, hnonneg,
      hscheduled, hdialing, hsettled, hes⟩
  | missed reason hstale =>
    exact ⟨hattempts, hnonneg, by simp, by simp, by simp [CallbackStatus.live], hes⟩
  | held reason hs hpaused => exact ⟨hattempts, hnonneg, hscheduled, hdialing, hsettled, hes⟩
  | released hs hrule hpaused =>
    exact ⟨by simpa [claims_append, refunds_append, Deed.isClaim] using hattempts, hnonneg,
      hscheduled, hdialing, hsettled, hes⟩
  | cancelled rule reason hs =>
    exact ⟨hattempts, hnonneg, by simp, by simp, by simp [CallbackStatus.live], hes⟩
  | ended status hs hstatus =>
    refine ⟨hattempts, hnonneg, ?_, ?_, ?_, hes⟩ <;>
      rcases hstatus with rfl | rfl <;> simp [CallbackStatus.live]
  | claimed tick locked hclaim =>
    have hzero := hscheduled (of_decide_eq_true hclaim).1
    refine ⟨?_, by simp [hzero], by simp, by simp [hzero], ?_, hes⟩
    · simp only [claims_append, refunds_append, hattempts]
      simp [Deed.isClaim]
      omega
    · have hs : r.status = .scheduled := (of_decide_eq_true hclaim).1
      simpa [CallbackStatus.live, hs] using hsettled
  | linked callId hringing =>
    exact ⟨by simpa [claims_append, refunds_append, Deed.isClaim] using hattempts, hnonneg,
      hscheduled, hdialing, hsettled, hes⟩
  | paused d hpaused =>
    exact ⟨by simpa [claims_append, refunds_append, Deed.isClaim] using hattempts, hnonneg,
      hscheduled, hdialing, hsettled, hes⟩
  | deferred callback waits rule reason hid hs =>
    have hone := hdialing hs
    refine ⟨?_, by simp [hone], by simp [hone], by simp, ?_, hes⟩
    · simp only [claims_append, refunds_append, hattempts]
      simp [Deed.isClaim]
      omega
    · simpa [CallbackStatus.live, hs] using hsettled
  | windowed callback opens rule reason hid hs hopens =>
    have hone := hdialing hs
    refine ⟨?_, by simp [hone], by simp [hone], by simp, ?_, hes⟩
    · simp only [claims_append, refunds_append, hattempts]
      simp [Deed.isClaim]
      omega
    · simpa [CallbackStatus.live, hs] using hsettled
  | settled callback waits status rule reason callId hid hopen hended =>
    refine ⟨hattempts, hnonneg, ?_, ?_, by simp [hended], hes⟩
    · intro hs
      simp only at hs
      simp [hs, CallbackStatus.live] at hended
    · intro hs
      simp only at hs
      simp [hs, CallbackStatus.live] at hended

/-- **An ending is for good.** -/
theorem Turn.ended_stays (ht : Turn db now who r r' deeds) (h : Counted es r)
    (hended : r.status.live = false) : r'.status = r.status := by
  have hnot : r.status ≠ .scheduled ∧ r.status ≠ .dialing := by
    simpa [CallbackStatus.live] using hended
  cases ht with
  | moved b note language agentId sourceCallId leadId hkey hs hlater => rfl
  | missed reason hstale => exact absurd (of_decide_eq_true hstale).1 hnot.1
  | held reason hs hpaused => rfl
  | released hs hrule hpaused => rfl
  | cancelled rule reason hs => exact absurd hs hnot.1
  | ended status hs hstatus => exact absurd hs hnot.2
  | claimed tick locked hclaim => exact absurd (of_decide_eq_true hclaim).1 hnot.1
  | linked callId hringing => rfl
  | paused d hpaused => rfl
  | deferred callback waits rule reason hid hs => exact absurd hs hnot.2
  | windowed callback opens rule reason hid hs hopens => exact absurd hs hnot.2
  | settled callback waits status rule reason callId hid hopen hstatus =>
    rw [h.settled.1 hopen] at hended
    cases hended

/-- A ringing row goes on ringing unless the tick that claimed it has its turn. -/
theorem Turn.ringing_stays (ht : Turn db now who r r' deeds)
    (hwho : ∀ callback waits, who = .holder callback waits → callback.id ≠ r.id)
    (h : r.status.ringing = true) : r'.status.ringing = true := by
  have hnot : r.status ≠ .scheduled := by
    intro hs
    simp [hs, CallbackStatus.ringing] at h
  cases ht with
  | moved b note language agentId sourceCallId leadId hkey hs hlater => exact h
  | missed reason hstale => exact absurd (of_decide_eq_true hstale).1 hnot
  | held reason hs hpaused => exact h
  | released hs hrule hpaused => exact h
  | cancelled rule reason hs => exact absurd hs hnot
  | ended status hs hstatus =>
    rcases hstatus with rfl | rfl <;> simp [CallbackStatus.ringing]
  | claimed tick locked hclaim => exact absurd (of_decide_eq_true hclaim).1 hnot
  | linked callId hringing => exact h
  | paused d hpaused => exact h
  | deferred callback waits rule reason hid hs => exact absurd hid (hwho callback waits rfl)
  | windowed callback opens rule reason hid hs hopens => exact absurd hid (hwho callback _ rfl)
  | settled callback waits status rule reason callId hid hopen hstatus => exact absurd hid (hwho callback _ rfl)

/-! ## Worlds -/

/-- The rows of the claims nobody has come to the end of. -/
def World.heldIds (w : World) : List ℕ := w.holds.map fun h => h.callback.id

/-- **The invariant of a run.** -/
structure World.Sound (w : World) : Prop where
  table : Journal.Sound Callback.id Entry.callback Counted w.db.callbacks
  keys : (w.db.callbacks.rows.map Callback.sourceExecutionId).Nodup
  holders : w.heldIds.Nodup
  held : ∀ id ∈ w.heldIds, ∃ r ∈ w.db.callbacks.rows, r.id = id ∧ r.status.ringing = true

namespace World

variable {w : World} {db' : Db}

theorem empty_sound : empty.Sound :=
  ⟨Journal.Sound.empty, List.nodup_nil, List.nodup_nil, by simp [empty, heldIds]⟩

/-- The row of an id is unique. -/
theorem Sound.row_unique (h : w.Sound) {r r' : Callback} (hr : r ∈ w.db.callbacks.rows)
    (hr' : r' ∈ w.db.callbacks.rows) (hid : r.id = r'.id) : r = r' :=
  List.inj_on_of_nodup_map h.table.keys hr hr' hid

/-- The row of a claim nobody has come to the end of is ringing. -/
theorem Sound.held_ringing (h : w.Sound) {k : Hold} (hk : k ∈ w.holds) :
    ∀ r ∈ w.db.callbacks.rows, r.id = k.callback.id → r.status.ringing = true := by
  intro r hr hid
  obtain ⟨r', hr', hid', hringing⟩ := h.held _ (List.mem_map_of_mem hk)
  rw [h.row_unique hr hr' (hid.trans hid'.symm)]
  exact hringing

theorem undialled_mem {tick id : ℕ} {k : Hold} (h : w.undialled tick id = some k) :
    k ∈ w.holds ∧ k.tick = tick ∧ k.callback.id = id := by
  have hp := List.find?_some h
  simp only [decide_eq_true_eq] at hp
  exact ⟨List.mem_of_find?_eq_some h, hp.1, hp.2.1⟩

theorem dialled_mem {tick id callId : ℕ} {k : Hold} (h : w.dialled tick id = some (k, callId)) :
    k ∈ w.holds ∧ k.tick = tick ∧ k.callback.id = id := by
  obtain ⟨k', hfind, h⟩ := Option.bind_eq_some_iff.1 h
  obtain ⟨c, -, h⟩ := Option.bind_eq_some_iff.1 h
  cases h
  have hp := List.find?_some hfind
  simp only [decide_eq_true_eq] at hp
  exact ⟨List.mem_of_find?_eq_some hfind, hp.1, hp.2.1⟩

theorem opensLater_lt {callback : DueCallback} {now opens : ℕ}
    (h : opensLater callback now = some opens) : now < opens := by
  obtain ⟨g, -, h⟩ := Option.bind_eq_some_iff.1 h
  simp only at h
  split at h
  · cases h
  · cases h
    omega

/-- What a tick makes of a call-back it does not dial is a turn of its own. -/
theorem decideOn_turned (w : World) (k : Hold) (finding : Finding) :
    w.db.Turned w.clock (.holder k.callback true) (w.decideOn k finding) := by
  cases finding with
  | stale => exact Db.settle_turned ..
  | answered => exact Db.settle_turned ..
  | onACall => exact Db.defer_turned ..
  | gate rule reason =>
    simp only [decideOn]
    split
    · rename_i opens hopens
      exact Db.deferToWindow_turned _ _ _ hopens
    · exact Db.gateRefused_turned ..
  | engine code =>
    simp only [decideOn]
    split
    · rename_i opens hopens
      exact Db.deferToWindow_turned _ _ _ hopens
    · exact Db.engineRefused_turned ..

/-- And so is what it makes of an answer. -/
theorem concludeOn_turned (w : World) (k : Hold) (callId : ℕ) (answer : Answer) :
    w.db.Turned w.clock (.holder k.callback false) (w.concludeOn k callId answer) := by
  cases answer with
  | placed => exact Db.turned_self ..
  | unconfirmed => exact Db.settle_turned ..
  | refused code => exact Db.engineRefused_turned ..

/-- It leaves calls and campaigns alone. -/
theorem decideOn_campaigns (w : World) (k : Hold) (finding : Finding) :
    Db.SameCampaigns w.db (w.decideOn k finding) := by
  cases finding with
  | stale => exact Db.settle_campaigns ..
  | answered => exact Db.settle_campaigns ..
  | onACall => exact ⟨rfl, rfl⟩
  | gate rule reason =>
    simp only [decideOn]
    split
    · exact ⟨rfl, rfl⟩
    · exact Db.gateRefused_campaigns ..
  | engine code =>
    simp only [decideOn]
    split
    · exact ⟨rfl, rfl⟩
    · exact Db.engineRefused_campaigns ..

theorem concludeOn_campaigns (w : World) (k : Hold) (callId : ℕ) (answer : Answer) :
    Db.SameCampaigns w.db (w.concludeOn k callId answer) := by
  cases answer with
  | placed => exact ⟨rfl, rfl⟩
  | unconfirmed => exact Db.settle_campaigns ..
  | refused code => exact Db.engineRefused_campaigns ..

/-! ## Steps -/

/-- Whose turns a step is made of. -/
@[simp] def turnOf (w : World) : Action → Who
  | .book b => .booker b
  | .claim _ _ _ => .claimer
  | .release _ => .releaser
  | .wait d => .clock d
  | .decide tick id _ =>
    match w.undialled tick id with
    | some k => .holder k.callback true
    | none => .anybody
  | .dial tick id _ _ =>
    match w.undialled tick id with
    | some k => if (opensLater k.callback w.clock).isSome then .holder k.callback true else .anybody
    | none => .anybody
  | .conclude tick id _ =>
    match w.dialled tick id with
    | some (k, _) => .holder k.callback false
    | none => .anybody
  | _ => .anybody

theorem turnOf_decide (w : World) (tick id : ℕ) (finding : Finding) :
    (w.turnOf (.decide tick id finding)).OfDispatch := by
  simp only [turnOf]
  split <;> trivial

theorem turnOf_dial (w : World) (tick id callId : ℕ) (campaignId : Option ℕ) :
    (w.turnOf (.dial tick id callId campaignId)).OfDispatch := by
  simp only [turnOf]
  split
  · split <;> trivial
  · trivial

theorem turnOf_conclude (w : World) (tick id : ℕ) (answer : Answer) :
    (w.turnOf (.conclude tick id answer)).OfDispatch := by
  simp only [turnOf]
  split <;> trivial

/-- Only a claim has a claimer's turn. -/
theorem turnOf_ne_claimer {a : Action} (ha : ∀ tick limit locked, a ≠ .claim tick limit locked) :
    w.turnOf a ≠ .claimer := by
  cases a with
  | claim tick limit locked => exact absurd rfl (ha tick limit locked)
  | decide tick id finding => exact (w.turnOf_decide tick id finding).not_claimer
  | dial tick id callId campaignId => exact (w.turnOf_dial tick id callId campaignId).not_claimer
  | conclude tick id answer => exact (w.turnOf_conclude tick id answer).not_claimer
  | _ => simp [turnOf]

/-- A tick comes to a call-back and does not dial it. -/
theorem decide_turned (w : World) (tick id : ℕ) (finding : Finding) :
    w.db.Turned w.clock (w.turnOf (.decide tick id finding))
      (w.step (.decide tick id finding)).db := by
  cases hfind : w.undialled tick id with
  | none =>
    simp only [step, hfind]
    exact Db.turned_self ..
  | some k =>
    obtain ⟨-, -, rfl⟩ := undialled_mem hfind
    simp only [turnOf, step, hfind]
    exact w.decideOn_turned k finding

/-- It dials it, or waits for the hours of the campaign. -/
theorem dial_turned (h : w.Sound) (tick id callId : ℕ) (campaignId : Option ℕ) :
    w.db.Turned w.clock (w.turnOf (.dial tick id callId campaignId))
      (w.step (.dial tick id callId campaignId)).db := by
  cases hfind : w.undialled tick id with
  | none =>
    simp only [step, hfind]
    exact Db.turned_self ..
  | some k =>
    obtain ⟨hk, -, rfl⟩ := undialled_mem hfind
    cases hopens : opensLater k.callback w.clock with
    | some opens =>
      simp only [turnOf, step, hfind, hopens, Option.isSome_some, if_true]
      exact Db.deferToWindow_turned _ _ _ hopens
    | none =>
      simp only [turnOf, step, hfind, hopens, Option.isSome_none, Bool.false_eq_true, if_false]
      split
      · exact Db.turned_self ..
      · exact Db.linkCallbackToCall_turned callId campaignId (h.held_ringing hk)

/-- **What one step does to the rows.** -/
theorem step_moves (h : w.Sound) (a : Action) :
    Db.Moves w.clock (w.turnOf a) w.db (w.step a).db := by
  cases a with
  | book b =>
    rcases w.db.book_cases b w.clock with ht | ⟨hkey, hid, heq⟩
    · exact .turned ht
    · exact .booked b hkey hid heq
  | cancelForPhones phones reason => exact .turned (Db.cancelForPhones_turned ..)
  | settleDialled =>
    exact .trans (.turned (Db.settleEnded_turned ..)) ⟨rfl, rfl⟩
      (.turned (Db.settleStuck_turned ..))
  | callOff only => exact .turned (Db.callOff_turned ..)
  | hold => exact .turned (Db.holdForPausedCampaigns_turned ..)
  | release locked => exact .turned (Db.releaseResumed_turned ..)
  | expire => exact .turned (Db.expireStale_turned ..)
  | claim tick limit locked => exact .turned (Db.claimDue_turned h.table.keys tick limit locked)
  | decide tick id finding => exact .turned (w.decide_turned tick id finding)
  | dial tick id callId campaignId => exact .turned (dial_turned h tick id callId campaignId)
  | conclude tick id answer =>
    cases hfind : w.dialled tick id with
    | none =>
      simp only [step, hfind]
      exact .same rfl
    | some found =>
      obtain ⟨k, callId⟩ := found
      obtain ⟨-, -, rfl⟩ := dialled_mem hfind
      simp only [turnOf, step, hfind]
      exact .turned (w.concludeOn_turned k callId answer)
  | crash tick => exact .same rfl
  | setCall callId call => exact .same rfl
  | setCampaign campaignId campaign => exact .same rfl
  | wait d => exact .turned (Db.paused_turned ..)

/-- A row goes on ringing while no tick has its last turn on it. -/
theorem Sound.ringing (h : w.Sound) {turn : Who} (hm : Db.Moves w.clock turn w.db db') {id : ℕ}
    (hid : id ∈ w.heldIds) (hnot : ∀ callback waits, turn = .holder callback waits → callback.id ≠ id) :
    ∃ r ∈ db'.callbacks.rows, r.id = id ∧ r.status.ringing = true := by
  obtain ⟨r, hr, rfl, hringing⟩ := h.held id hid
  have hT : ∀ db0 r1 r2 deeds es, Turn db0 w.clock turn r1 r2 deeds → Counted es r1 →
      (r1.id = r.id ∧ r1.status.ringing = true) → (r2.id = r.id ∧ r2.status.ringing = true) := by
    rintro db0 r1 r2 deeds es hturn - ⟨hid1, hring1⟩
    refine ⟨hturn.id_eq.trans hid1, hturn.ringing_stays ?_ hring1⟩
    rw [hid1]
    exact hnot
  obtain ⟨r', hr', hid', -, hringing'⟩ := hm.successor h.table
    (fun _ _ _ _ _ hturn hR => hR.turn hturn) (fun b => Counted.new b w.clock) hT hr
    ⟨rfl, hringing⟩
  exact ⟨r', hr', hid', hringing'⟩

/-- A claim that a tick comes to the end of is nobody's any more. -/
theorem Sound.letGo_held (h : w.Sound) {k : Hold} (hk : k ∈ w.holds) (db : Db) :
    (w.letGo k.tick k.callback.id db).heldIds.Sublist w.heldIds ∧
      ∀ id ∈ (w.letGo k.tick k.callback.id db).heldIds, k.callback.id ≠ id := by
  refine ⟨(List.filter_sublist).map _, ?_⟩
  rintro id hid rfl
  obtain ⟨k', hk', hid'⟩ := List.mem_map.1 hid
  obtain ⟨hmem, hother⟩ := List.mem_filter.1 hk'
  have hsame : k' = k := List.inj_on_of_nodup_map h.holders hmem hk hid'
  simp [hsame] at hother

/-- A step that claims nothing adds no holder, and who has the turn is none afterwards. -/
theorem Sound.step_held (h : w.Sound) {a : Action} (ha : w.turnOf a ≠ .claimer) :
    (w.step a).heldIds.Sublist w.heldIds ∧
      ∀ id ∈ (w.step a).heldIds, ∀ callback waits, w.turnOf a = .holder callback waits →
        callback.id ≠ id := by
  cases a with
  | claim tick limit locked => exact absurd rfl ha
  | decide tick id finding =>
    cases hfind : w.undialled tick id with
    | none => simp [step, turnOf, hfind]
    | some k =>
      obtain ⟨hk, rfl, rfl⟩ := undialled_mem hfind
      simpa [step, turnOf, hfind] using h.letGo_held hk _
  | dial tick id callId campaignId =>
    cases hfind : w.undialled tick id with
    | none => simp [step, turnOf, hfind]
    | some k =>
      obtain ⟨hk, rfl, rfl⟩ := undialled_mem hfind
      cases hopens : opensLater k.callback w.clock with
      | some opens => simpa [step, turnOf, hfind, hopens] using h.letGo_held hk _
      | none =>
        have hids : (w.holds.map fun k' =>
            if k'.tick = k.tick ∧ k'.callback.id = k.callback.id then
              { k' with dial := some callId } else k').map (fun k' => k'.callback.id) =
            w.heldIds := by
          rw [List.map_map]
          apply List.map_congr_left
          intro k' _
          simp only [Function.comp_apply]
          split <;> rfl
        simp only [step, turnOf, hfind, hopens]
        split
        · simp
        · simp [heldIds, hids]
  | conclude tick id answer =>
    cases hfind : w.dialled tick id with
    | none => simp [step, turnOf, hfind]
    | some found =>
      obtain ⟨k, callId⟩ := found
      obtain ⟨hk, rfl, rfl⟩ := dialled_mem hfind
      simpa [step, turnOf, hfind] using h.letGo_held hk _
  | crash tick => exact ⟨(List.filter_sublist).map _, by simp [turnOf]⟩
  | _ => exact ⟨List.Sublist.refl _, by simp [turnOf]⟩

/-- A claim takes rows that nobody holds. -/
theorem Sound.claim_held (h : w.Sound) (tick limit : ℕ) (locked : List ℕ) :
    (w.step (.claim tick limit locked)).heldIds =
        w.heldIds ++ (w.db.picked limit locked w.clock).map Callback.id ∧
      (w.step (.claim tick limit locked)).heldIds.Nodup := by
  have hids : (w.step (.claim tick limit locked)).heldIds =
      w.heldIds ++ (w.db.picked limit locked w.clock).map Callback.id := by
    simp [heldIds, step, newHolds, Db.due]
  refine ⟨hids, ?_⟩
  rw [hids, List.nodup_append]
  refine ⟨h.holders, ?_, ?_⟩
  · have hsorted : (((w.db.callbacks.rows.filter (w.db.claimable locked w.clock)).mergeSort
        sooner).map Callback.id).Nodup := by
      rw [((List.mergeSort_perm _ _).map _).nodup_iff]
      exact h.table.keys.sublist ((List.filter_sublist).map _)
    exact hsorted.sublist ((List.take_sublist _ _).map _)
  · -- what is claimed waits, and what is held does not
    rintro id hid _ hb rfl
    obtain ⟨r, hr, rfl⟩ := List.mem_map.1 hb
    obtain ⟨hmem, hclaim⟩ := Db.mem_picked hr
    obtain ⟨r', hr', hid', hringing⟩ := h.held _ hid
    have hsame : r' = r := h.row_unique hr' hmem hid'
    have hs : r.status = .scheduled := (of_decide_eq_true hclaim).1
    simp [hsame, hs, CallbackStatus.ringing] at hringing

/-- What is claimed is dialing. -/
theorem claimed_dialing (tick limit : ℕ) (locked : List ℕ) {r : Callback}
    (hr : r ∈ w.db.picked limit locked w.clock) :
    ∃ r' ∈ (w.step (.claim tick limit locked)).db.callbacks.rows,
      r'.id = r.id ∧ r'.status = .dialing := by
  have hpick : decide (r.id ∈ (w.db.picked limit locked w.clock).map Callback.id) = true := by
    simpa using ⟨r, hr, rfl⟩
  refine ⟨_, List.mem_map_of_mem (Db.mem_picked hr).1, ?_⟩
  rw [if_pos hpick]
  exact ⟨rfl, rfl⟩

/-- **One step keeps the invariant.** -/
theorem step_sound (h : w.Sound) (a : Action) : (w.step a).Sound := by
  have hm := step_moves h a
  have htable := hm.sound h.table (fun _ _ _ _ _ _ hturn hR => hR.turn hturn)
    fun b => Counted.new b w.clock
  by_cases hclaim : ∃ tick limit locked, a = .claim tick limit locked
  · obtain ⟨tick, limit, locked, rfl⟩ := hclaim
    obtain ⟨hids, hnodup⟩ := h.claim_held tick limit locked
    refine ⟨htable, hm.keys h.keys, hnodup, ?_⟩
    intro id hid
    rw [hids] at hid
    rcases List.mem_append.1 hid with hid | hid
    · exact h.ringing hm hid (by simp [turnOf])
    · obtain ⟨r, hr, rfl⟩ := List.mem_map.1 hid
      obtain ⟨r', hr', hid', hs⟩ := claimed_dialing tick limit locked hr
      exact ⟨r', hr', hid', by simp [hs, CallbackStatus.ringing]⟩
  · have hother : w.turnOf a ≠ .claimer := by
      refine turnOf_ne_claimer fun tick limit locked heq => ?_
      exact hclaim ⟨tick, limit, locked, heq⟩
    obtain ⟨hsub, hfree⟩ := h.step_held hother
    exact ⟨htable, hm.keys h.keys, h.holders.sublist hsub,
      fun id hid => h.ringing hm (hsub.subset hid) (hfree id hid)⟩

theorem run_sound (actions : List Action) : (run actions).Sound :=
  @Run.foldl_inv _ _ step Sound (fun _ a h => step_sound h a) empty empty_sound actions

/-! ## Endings -/

/-- What has ended stays as it ended. -/
theorem step_ended (h : w.Sound) (a : Action) {r : Callback} (hr : r ∈ w.db.callbacks.rows)
    (hended : r.status.live = false) :
    ∃ r' ∈ (w.step a).db.callbacks.rows, r'.id = r.id ∧ r'.status = r.status := by
  refine (step_moves h a).successor h.table (fun _ _ _ _ _ hturn hR => hR.turn hturn)
    (fun b => Counted.new b w.clock) ?_ hr rfl
  intro db0 r1 r2 deeds es hturn hR hstatus
  rw [hturn.ended_stays hR (by rw [hstatus, hended]), hstatus]

/-- **What has ended stays as it ended**, through the rest of a run. -/
theorem run_ended (h : w.Sound) (more : List Action) {r : Callback}
    (hr : r ∈ w.db.callbacks.rows) (hended : r.status.live = false) :
    ∃ r' ∈ (more.foldl step w).db.callbacks.rows, r'.id = r.id ∧ r'.status = r.status := by
  induction more generalizing w r with
  | nil => exact ⟨r, hr, rfl, rfl⟩
  | cons a more ih =>
    obtain ⟨r', hr', hid, hstatus⟩ := step_ended h a hr hended
    obtain ⟨r'', hr'', hid', hstatus'⟩ := ih (step_sound h a) hr' (by rw [hstatus, hended])
    exact ⟨r'', hr'', hid'.trans hid, hstatus'.trans hstatus⟩

/-- **An older word changes nothing**, whatever has become of the promise. -/
theorem book_late (h : w.Sound) (b : Booking) {r : Callback} (hr : r ∈ w.db.callbacks.rows)
    (hkey : b.sourceExecutionId = r.sourceExecutionId)
    (hlate : b.bookedAt ≤ r.bookedAt ∨ r.status ≠ .scheduled) :
    (w.step (.book b)).db.callbacks = w.db.callbacks := by
  have htaken : (w.db.callbacks.rows.any fun r => r.sourceExecutionId = b.sourceExecutionId) =
      true := by
    simpa using ⟨r, hr, hkey.symm⟩
  have hnone : w.db.callbacks.rows.any (fun r => r.sourceExecutionId = b.sourceExecutionId ∧
      r.status = .scheduled ∧ r.bookedAt < b.bookedAt) = false := by
    rw [List.any_eq_false]
    intro r' hr' hp
    obtain ⟨hkey', hs, hlater⟩ := of_decide_eq_true hp
    have hsame : r' = r := List.inj_on_of_nodup_map h.keys hr' hr (hkey'.trans hkey)
    subst hsame
    rcases hlate with hold | hnot
    · omega
    · exact hnot hs
  simp only [step, Db.book, if_pos htaken]
  exact Journal.rewrite_of_notAny hnone

end World

/-! ## Every run -/

/-- **Whatever the statements and their order**, a call-back has one holder at most, no claim of
it was before its time, its attempts are its claims less those given back, no dial found it
called off, missed or refused, its ending is for good, and an older word of its caller
changes nothing. -/
theorem callback_claims (actions : List Action) :
    (World.run actions).heldIds.Nodup ∧
      (∀ id ∈ (World.run actions).heldIds, ∃ r ∈ (World.run actions).db.callbacks.rows,
        r.id = id ∧ r.status ≠ .scheduled) ∧
      ∀ r ∈ (World.run actions).db.callbacks.rows,
        (∀ tick at_ requestedAt, ⟨r.id, .claimed tick at_ requestedAt⟩ ∈
          (World.run actions).db.about r → requestedAt ≤ at_) ∧
        (0 ≤ r.attempts ∧ r.attempts =
          claims ((World.run actions).db.about r) - refunds ((World.run actions).db.about r)) ∧
        (∀ found, ⟨r.id, .dialled found⟩ ∈ (World.run actions).db.about r →
          found = .dialing ∨ found = .completed ∨ found = .failed) ∧
        (r.status.live = false → ∀ more, ∃ r' ∈ (World.run (actions ++ more)).db.callbacks.rows,
          r'.id = r.id ∧ r'.status = r.status) ∧
        ∀ b : Booking, b.sourceExecutionId = r.sourceExecutionId →
          b.bookedAt ≤ r.bookedAt ∨ r.status ≠ .scheduled →
            ((World.run actions).step (.book b)).db.callbacks =
              (World.run actions).db.callbacks := by
  have h := World.run_sound actions
  refine ⟨h.holders, ?_, fun r hr => ⟨?_, ?_, ?_, ?_, ?_⟩⟩
  · intro id hid
    obtain ⟨r, hr, hrid, hringing⟩ := h.held id hid
    refine ⟨r, hr, hrid, ?_⟩
    intro hs
    simp [hs, CallbackStatus.ringing] at hringing
  · intro tick at_ requestedAt he
    exact (h.table.rows r hr).lawful _ he
  · exact ⟨(h.table.rows r hr).nonneg, (h.table.rows r hr).attempts⟩
  · intro found he
    have hringing : found.ringing = true := (h.table.rows r hr).lawful _ he
    simpa [CallbackStatus.ringing] using hringing
  · intro hended more
    have happend : World.run (actions ++ more) = more.foldl World.step (World.run actions) :=
      List.foldl_append
    rw [happend]
    exact World.run_ended h more hr hended
  · intro b hkey hlate
    exact World.book_late h b hr hkey hlate

end Calevate.Callbacks
