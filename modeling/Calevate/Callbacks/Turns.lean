import Calevate.Callbacks.Dispatch

/-!
# What a statement does to a row

`Turn` says once, for every statement, in which state it finds a row it picks and what it
makes of it; every invariant of the rows is one case analysis over it. A turn says whose it
is, for the invariants that ask something of a booking, of a claim, of the clock, or of the
tick that claimed the row, which may wait for the hours of the campaign or not.
-/

namespace Calevate.Callbacks

open Lib

/-- The row is being dialled, or its dial came to an end. -/
def CallbackStatus.ringing (status : CallbackStatus) : Bool :=
  status = .dialing ∨ status = .completed ∨ status = .failed

/-- Whose turn it is. -/
inductive Who where
  | anybody
  | booker (booking : Booking)
  | claimer
  | releaser
  | clock (d : ℕ)
  | holder (callback : DueCallback) (waits : Bool)

/-- A turn of the tick that claimed a row, or of nobody in particular. -/
def Who.OfDispatch : Who → Prop
  | .anybody | .holder _ _ => True
  | _ => False

theorem Who.OfDispatch.not_booker {who : Who} (h : who.OfDispatch) (b : Booking) :
    who ≠ .booker b := by
  rintro rfl
  exact h

theorem Who.OfDispatch.not_claimer {who : Who} (h : who.OfDispatch) : who ≠ .claimer := by
  rintro rfl
  exact h

theorem Who.OfDispatch.not_releaser {who : Who} (h : who.OfDispatch) : who ≠ .releaser := by
  rintro rfl
  exact h

theorem Who.OfDispatch.not_clock {who : Who} (h : who.OfDispatch) (d : ℕ) : who ≠ .clock d := by
  rintro rfl
  exact h

/-- **What a statement can do to a row.** -/
inductive Turn (db : Db) (now : ℕ) : Who → Callback → Callback → List Deed → Prop
  /-- A later booking moves a promise that waits. -/
  | moved {r : Callback} (b : Booking) (note language : Option String) (agentId : ℕ)
      (sourceCallId leadId : Option ℕ) :
      r.sourceExecutionId = b.sourceExecutionId → r.status = .scheduled →
      r.bookedAt < b.bookedAt →
      Turn db now (.booker b) r
        { r with
          requestedAt := b.requestedAt
          bookedAt := b.bookedAt
          note := note
          language := language
          agentId := agentId
          sourceCallId := sourceCallId
          leadId := leadId
          updatedAt := now } [.moved b.requestedAt]
  /-- A promise ends that nobody dialled. -/
  | missed {r : Callback} (reason : Option String) :
      stale now r = true →
      Turn db now .anybody r
        { r with
          status := .missed
          settledAt := some now
          lastRefusalReason := reason
          updatedAt := now } []
  | held {r : Callback} (reason : Option String) :
      r.status = .scheduled → db.campaignIs r .paused = true →
      Turn db now .anybody r
        { r with
          lastRefusalRule := some campaignPausedRule
          lastRefusalReason := reason
          updatedAt := now } []
  | released {r : Callback} :
      r.status = .scheduled → r.lastRefusalRule = some campaignPausedRule →
      db.campaignIs r .paused = false →
      Turn db now .releaser r
        { r with
          graceFrom := some (db.releaseAt now r)
          nextAttemptAt := some (db.releaseAt now r)
          lastRefusalRule := none
          lastRefusalReason := none
          updatedAt := now } [.released now]
  /-- A promise that waits is called off. -/
  | cancelled {r : Callback} (rule reason : Option String) :
      r.status = .scheduled →
      Turn db now .anybody r
        { r with
          status := .cancelled
          settledAt := some now
          lastRefusalRule := rule
          lastRefusalReason := reason
          updatedAt := now } []
  /-- A dial comes to its end. -/
  | ended {r : Callback} (status : CallbackStatus) :
      r.status = .dialing → status = .completed ∨ status = .failed →
      Turn db now .anybody r { r with status := status, settledAt := some now, updatedAt := now } []
  | claimed {r : Callback} (tick : ℕ) (locked : List ℕ) :
      db.claimable locked now r = true →
      Turn db now .claimer r
        { r with
          status := .dialing
          attempts := r.attempts + 1
          lastRefusalRule := none
          lastRefusalReason := none
          updatedAt := now } [.claimed tick now r.requestedAt]
  | linked {r : Callback} (callId : ℕ) :
      r.status.ringing = true →
      Turn db now .anybody r { r with lastCallId := some callId, updatedAt := now }
        [.dialled r.status]
  /-- Time passes while the campaign is paused. -/
  | paused {r : Callback} (d : ℕ) :
      db.campaignIs r .paused = true → Turn db now (.clock d) r r [.paused now (now + d)]
  | deferred {r : Callback} (callback : DueCallback) (waits : Bool) (rule : String)
      (reason : Option String) :
      callback.id = r.id → r.status = .dialing →
      Turn db now (.holder callback waits) r
        { r with
          status := .scheduled
          attempts := r.attempts - 1
          nextAttemptAt := some (now + retryAfter)
          lastRefusalRule := some rule
          lastRefusalReason := reason
          updatedAt := now } [.refunded]
  | windowed {r : Callback} (callback : DueCallback) (opens : ℕ) (rule : String)
      (reason : Option String) :
      callback.id = r.id → r.status = .dialing → opensLater callback now = some opens →
      Turn db now (.holder callback true) r
        { r with
          status := .scheduled
          attempts := r.attempts - 1
          nextAttemptAt := some opens
          graceFrom := some opens
          lastRefusalRule := some rule
          lastRefusalReason := reason
          updatedAt := now } [.windowed now, .refunded]
  /-- The tick that claimed a promise ends it. -/
  | settled {r : Callback} (callback : DueCallback) (waits : Bool) (status : CallbackStatus)
      (rule reason : Option String) (callId : Option ℕ) :
      callback.id = r.id → r.settledAt = none → status.live = false →
      Turn db now (.holder callback waits) r
        { r with
          status := status
          settledAt := some now
          lastRefusalRule := rule
          lastRefusalReason := reason
          lastCallId := callId
          updatedAt := now } []

theorem Turn.id_eq {db : Db} {now : ℕ} {who : Who} {r r' : Callback} {deeds : List Deed}
    (ht : Turn db now who r r' deeds) : r'.id = r.id := by
  cases ht <;> rfl

/-- A statement that is turns of the rows it picks. -/
def Db.Turned (db : Db) (now : ℕ) (who : Who) (db' : Db) : Prop :=
  ∃ p f deeds, db'.callbacks = (db.updateWhere p f deeds).callbacks ∧
    (∀ r, (f r).id = r.id ∧ (f r).sourceExecutionId = r.sourceExecutionId) ∧
      ∀ r ∈ db.callbacks.rows, p r = true → Turn db now who r (f r) (deeds r)

namespace Db

variable {db : Db} {now id : ℕ}

/-! ## The statements -/

theorem expireStale_turned (db : Db) (now : ℕ) : db.Turned now .anybody (db.expireStale now) :=
  ⟨_, _, _, rfl, fun _ => ⟨rfl, rfl⟩, fun _ _ h => .missed _ h⟩

theorem holdForPausedCampaigns_turned (db : Db) (now : ℕ) :
    db.Turned now .anybody (db.holdForPausedCampaigns now) := by
  refine ⟨_, _, _, rfl, fun _ => ⟨rfl, rfl⟩, fun r _ h => ?_⟩
  obtain ⟨hs, hp, -⟩ := of_decide_eq_true h
  exact .held _ hs hp

theorem releaseResumed_turned (db : Db) (locked : List ℕ) (now : ℕ) :
    db.Turned now .releaser (db.releaseResumed locked now) := by
  refine ⟨_, _, _, rfl, fun _ => ⟨rfl, rfl⟩, fun r _ h => ?_⟩
  obtain ⟨hs, hrule, hp, -⟩ := of_decide_eq_true h
  exact .released hs hrule hp

theorem callOff_turned (db : Db) (only : Option ℕ) (now : ℕ) :
    db.Turned now .anybody (db.callOffForStoppedCampaigns only now) := by
  refine ⟨_, _, _, rfl, fun _ => ⟨rfl, rfl⟩, fun r _ h => ?_⟩
  exact .cancelled _ _ (of_decide_eq_true h).1

theorem cancelForPhones_turned (db : Db) (phones : List String) (reason : String) (now : ℕ) :
    db.Turned now .anybody (db.cancelForPhones phones reason now) := by
  refine ⟨_, _, _, rfl, fun _ => ⟨rfl, rfl⟩, fun r _ h => ?_⟩
  exact .cancelled _ _ (of_decide_eq_true h).2

theorem settleEnded_turned (db : Db) (now : ℕ) : db.Turned now .anybody (db.settleEnded now) := by
  refine ⟨_, _, _, rfl, fun _ => ⟨rfl, rfl⟩, fun r _ h => ?_⟩
  refine .ended _ (of_decide_eq_true h).1 ?_
  split
  · exact .inr rfl
  · exact .inl rfl

theorem settleStuck_turned (db : Db) (now : ℕ) : db.Turned now .anybody (db.settleStuck now) :=
  ⟨_, _, _, rfl, fun _ => ⟨rfl, rfl⟩, fun _ _ h => .ended _ (of_decide_eq_true h).1 (.inr rfl)⟩

theorem mem_picked {limit : ℕ} {locked : List ℕ} {r : Callback}
    (h : r ∈ db.picked limit locked now) :
    r ∈ db.callbacks.rows ∧ db.claimable locked now r = true := by
  have hsort := List.mem_mergeSort.1 (List.mem_of_mem_take h)
  exact List.mem_filter.1 hsort

theorem claimDue_turned (hkeys : (db.callbacks.rows.map Callback.id).Nodup) (tick limit : ℕ)
    (locked : List ℕ) : db.Turned now .claimer (db.claimDue tick limit locked now) := by
  refine ⟨_, _, _, rfl, fun _ => ⟨rfl, rfl⟩, fun r hr h => ?_⟩
  obtain ⟨r', hr', hid⟩ := List.mem_map.1 (of_decide_eq_true h)
  obtain ⟨hmem, hclaimable⟩ := mem_picked hr'
  have heq : r' = r := List.inj_on_of_nodup_map hkeys hmem hr hid
  exact .claimed _ locked (heq ▸ hclaimable)

theorem defer_turned (db : Db) (callback : DueCallback) (waits : Bool) (rule : String)
    (reason : Option String) (now : ℕ) :
    db.Turned now (.holder callback waits) (db.defer callback.id rule reason now) := by
  refine ⟨_, _, _, rfl, fun _ => ⟨rfl, rfl⟩, fun r _ h => ?_⟩
  obtain ⟨hid, hs⟩ := of_decide_eq_true h
  exact .deferred _ _ _ _ hid.symm hs

theorem deferToWindow_turned (db : Db) {callback : DueCallback} {opens : ℕ} (rule : String)
    (reason : Option String) (hopens : opensLater callback now = some opens) :
    db.Turned now (.holder callback true) (db.deferToWindow callback.id opens rule reason now) := by
  refine ⟨_, _, _, rfl, fun _ => ⟨rfl, rfl⟩, fun r _ h => ?_⟩
  obtain ⟨hid, hs⟩ := of_decide_eq_true h
  exact .windowed _ _ _ _ hid.symm hs hopens

/-- A statement that writes nothing. -/
theorem turned_self (db : Db) (now : ℕ) (who : Who) : db.Turned now who db := by
  refine ⟨fun _ => false, id, fun _ => [], ?_, fun _ => ⟨rfl, rfl⟩, fun _ _ h => by cases h⟩
  simp [updateWhere, Journal.rewrite, Table.update]

theorem settle_turned (db : Db) (callback : DueCallback) (waits : Bool)
    (status : CallbackStatus) (rule reason : Option String) (callId : Option ℕ) (now : ℕ) :
    db.Turned now (.holder callback waits) (db.settle callback.id status rule reason callId now) := by
  unfold settle
  split
  · exact turned_self db now _
  · rename_i hlive
    refine ⟨_, _, _, rfl, fun _ => ⟨rfl, rfl⟩, fun r _ h => ?_⟩
    obtain ⟨hid, hs⟩ := of_decide_eq_true h
    exact .settled _ _ _ _ _ _ hid.symm hs (by simpa using hlive)

theorem gateRefused_turned (db : Db) (callback : DueCallback) (waits : Bool) (rule : String)
    (reason : Option String) (now : ℕ) :
    db.Turned now (.holder callback waits) (db.gateRefused callback.id rule reason now) := by
  unfold gateRefused
  split
  · exact settle_turned ..
  · split
    · exact settle_turned ..
    · exact defer_turned ..

theorem engineRefused_turned (db : Db) (callback : DueCallback) (waits : Bool) (code : String)
    (now : ℕ) : db.Turned now (.holder callback waits) (db.engineRefused callback.id code now) := by
  unfold engineRefused
  split
  · exact settle_turned ..
  · split
    · exact defer_turned ..
    · exact defer_turned ..

theorem linkCallbackToCall_turned (callId : ℕ) (campaignId : Option ℕ)
    (hringing : ∀ r ∈ db.callbacks.rows, r.id = id → r.status.ringing = true) :
    db.Turned now .anybody (db.linkCallbackToCall id callId campaignId now) := by
  refine ⟨_, _, _, rfl, fun _ => ⟨rfl, rfl⟩, fun r hr h => ?_⟩
  exact .linked _ (hringing r hr (of_decide_eq_true h))

theorem paused_turned (db : Db) (now d : ℕ) :
    db.Turned now (.clock d) (db.updateWhere (fun r => db.campaignIs r .paused) (fun r => r)
      fun _ => [.paused now (now + d)]) :=
  ⟨_, _, _, rfl, fun _ => ⟨rfl, rfl⟩, fun _ _ h => .paused _ h⟩

/-- A booking moves the row that has its key, or adds one. -/
theorem book_cases (db : Db) (b : Booking) (now : ℕ) :
    db.Turned now (.booker b) (db.book b now) ∨
      ((∀ r ∈ db.callbacks.rows, r.sourceExecutionId ≠ b.sourceExecutionId) ∧
        (∀ r ∈ db.callbacks.rows, r.id ≠ b.callbackId) ∧
          (db.book b now).callbacks = db.callbacks.insert (newCallback b now) []) := by
  unfold book
  split
  · left
    refine ⟨_, _, _, rfl, fun _ => ⟨rfl, rfl⟩, fun r _ h => ?_⟩
    obtain ⟨hkey, hs, hlater⟩ := of_decide_eq_true h
    exact .moved b _ _ _ _ _ hkey hs hlater
  · rename_i hkey
    split
    · exact .inl (turned_self db now _)
    · rename_i hid
      simp only [Bool.not_eq_true, List.any_eq_false, decide_eq_true_eq] at hkey hid
      exact .inr ⟨hkey, hid, rfl⟩

/-! ## What statements leave alone -/

/-- Calls and campaigns are as they were. -/
structure SameCampaigns (db db' : Db) : Prop where
  calls : db'.calls = db.calls
  campaigns : db'.campaigns = db.campaigns

theorem SameCampaigns.campaignOf {db' : Db} (h : SameCampaigns db db') (r : Callback) :
    db'.campaignOf r = db.campaignOf r := by
  simp only [Db.campaignOf, campaignIdOf, h.calls, h.campaigns]

theorem SameCampaigns.campaignIs {db' : Db} (h : SameCampaigns db db') (r : Callback)
    (status : Campaigns.CampaignStatus) : db'.campaignIs r status = db.campaignIs r status := by
  simp only [Db.campaignIs, h.campaignOf]

theorem book_campaigns (db : Db) (b : Booking) (now : ℕ) : SameCampaigns db (db.book b now) := by
  unfold book
  split
  · exact ⟨rfl, rfl⟩
  · split <;> exact ⟨rfl, rfl⟩

theorem settle_campaigns (db : Db) (id : ℕ) (status : CallbackStatus)
    (rule reason : Option String) (callId : Option ℕ) (now : ℕ) :
    SameCampaigns db (db.settle id status rule reason callId now) := by
  unfold settle
  split <;> exact ⟨rfl, rfl⟩

theorem gateRefused_campaigns (db : Db) (id : ℕ) (rule : String) (reason : Option String)
    (now : ℕ) : SameCampaigns db (db.gateRefused id rule reason now) := by
  unfold gateRefused
  split
  · exact settle_campaigns ..
  · split
    · exact settle_campaigns ..
    · exact ⟨rfl, rfl⟩

theorem engineRefused_campaigns (db : Db) (id : ℕ) (code : String) (now : ℕ) :
    SameCampaigns db (db.engineRefused id code now) := by
  unfold engineRefused
  split
  · exact settle_campaigns ..
  · split <;> exact ⟨rfl, rfl⟩

/-! ## What turns keep -/

/-- The entries about a call-back. -/
def about (db : Db) (r : Callback) : List Entry :=
  Journal.about Entry.callback r.id db.callbacks.entries

/-- The entries of some deeds of a row. -/
def entriesOf (id : ℕ) (deeds : List Deed) : List Entry := deeds.map fun d => ⟨id, d⟩

variable {who : Who} {db' : Db} {R R' : List Entry → Callback → Prop}

/-- **What every turn keeps of its row, a statement keeps of the table.** -/
theorem Turned.sound (ht : db.Turned now who db')
    (h : Journal.Sound Callback.id Entry.callback R db.callbacks)
    (hturn : ∀ r ∈ db.callbacks.rows, ∀ r' deeds, Turn db now who r r' deeds →
      R (db.about r) r → R' (entriesOf r.id deeds ++ db.about r) r')
    (hrest : ∀ r ∈ db.callbacks.rows, R (db.about r) r → R' (db.about r) r) :
    Journal.Sound Callback.id Entry.callback R' db'.callbacks := by
  obtain ⟨p, f, deeds, heq, hkey, hrow⟩ := ht
  rw [heq]
  apply h.rewrite
  · exact fun r => (hkey r).1
  · intro r e he
    obtain ⟨d, -, rfl⟩ := List.mem_map.1 he
    rfl
  · exact fun r hr hp hR => hturn r hr _ _ (hrow r hr hp) hR
  · exact fun r hr _ hR => hrest r hr hR

/-- Every row has a successor, the row itself or what a turn makes of it. -/
theorem Turned.successor (ht : db.Turned now who db') {r : Callback}
    (hr : r ∈ db.callbacks.rows) :
    ∃ r' ∈ db'.callbacks.rows, r'.id = r.id ∧
      (r' = r ∨ ∃ deeds, Turn db now who r r' deeds) := by
  obtain ⟨p, f, deeds, heq, hkey, hrow⟩ := ht
  rw [heq]
  refine ⟨_, Journal.mem_rewrite_of_mem hr, ?_⟩
  by_cases hp : p r = true
  · rw [if_pos hp]
    exact ⟨(hkey r).1, .inr ⟨_, hrow r hr hp⟩⟩
  · rw [if_neg hp]
    exact ⟨rfl, .inl rfl⟩

/-- And it keeps its key. -/
theorem Turned.keys (ht : db.Turned now who db') :
    db'.callbacks.rows.map Callback.sourceExecutionId =
      db.callbacks.rows.map Callback.sourceExecutionId := by
  obtain ⟨p, f, deeds, heq, hkey, -⟩ := ht
  rw [heq]
  exact Table.map_update fun r => (hkey r).2

/-! ## Steps -/

/-- What one step does to the rows: turns of one actor, one after another, or a new row. -/
inductive Moves (now : ℕ) (who : Who) : Db → Db → Prop
  | turned {db db' : Db} : db.Turned now who db' → Moves now who db db'
  | booked {db db' : Db} (b : Booking) :
      (∀ r ∈ db.callbacks.rows, r.sourceExecutionId ≠ b.sourceExecutionId) →
      (∀ r ∈ db.callbacks.rows, r.id ≠ b.callbackId) →
      db'.callbacks = db.callbacks.insert (newCallback b now) [] → Moves now who db db'
  | trans {db mid db' : Db} :
      Moves now who db mid → SameCampaigns db mid → Moves now who mid db' → Moves now who db db'

section Moves

/-- A step that leaves the rows alone. -/
theorem Moves.same (h : db'.callbacks = db.callbacks) : Moves now who db db' := by
  refine .turned ⟨fun _ => false, fun r => r, fun _ => [], ?_, fun _ => ⟨rfl, rfl⟩,
    fun _ _ h => by cases h⟩
  rw [h]
  simp [updateWhere, Journal.rewrite, Table.update]

/-- **What every turn keeps of its row, a step keeps of the table**, with the calls and
the campaigns as the step finds them. -/
theorem Moves.sound (hm : Moves now who db db')
    (h : Journal.Sound Callback.id Entry.callback R db.callbacks)
    (hturn : ∀ db0, SameCampaigns db db0 → ∀ r r' deeds es, Turn db0 now who r r' deeds → R es r →
        R (entriesOf r.id deeds ++ es) r')
    (hnew : ∀ b, R [] (newCallback b now)) :
    Journal.Sound Callback.id Entry.callback R db'.callbacks := by
  induction hm with
  | turned ht =>
    exact ht.sound h (fun _ _ _ _ hone hR => hturn _ ⟨rfl, rfl⟩ _ _ _ _ hone hR)
      fun _ _ hR => hR
  | booked b hkey hid heq =>
    rw [heq]
    exact h.insert hid (by simp) (hnew b) fun _ _ hR => hR
  | trans _ hsame _ ih ih' =>
    refine ih' (ih h hturn) ?_
    intro db0 hsame0
    exact hturn db0 ⟨hsame0.calls.trans hsame.calls, hsame0.campaigns.trans hsame.campaigns⟩

/-- A step keeps the keys unique. -/
theorem Moves.keys (hm : Moves now who db db')
    (h : (db.callbacks.rows.map Callback.sourceExecutionId).Nodup) :
    (db'.callbacks.rows.map Callback.sourceExecutionId).Nodup := by
  induction hm with
  | turned ht =>
    rw [ht.keys]
    exact h
  | booked b hkey hid heq =>
    rw [heq]
    simp only [Journal.insert, List.map_append, List.map_cons, List.map_nil]
    rw [List.nodup_append]
    refine ⟨h, List.nodup_singleton _, ?_⟩
    intro k hk k' hk'
    obtain ⟨r, hr, rfl⟩ := List.mem_map.1 hk
    rw [List.mem_singleton.1 hk']
    exact hkey r hr
  | trans _ _ _ ih ih' => exact ih' (ih h)

/-- **What every turn keeps from a row to the next, a step keeps.** The property may lean
on an invariant of the table. -/
theorem Moves.successor (hm : Moves now who db db')
    (h : Journal.Sound Callback.id Entry.callback R db.callbacks)
    (hsound : ∀ db0 r r' deeds es, Turn db0 now who r r' deeds → R es r →
      R (entriesOf r.id deeds ++ es) r')
    (hnew : ∀ b, R [] (newCallback b now)) {T : Callback → Prop}
    (hT : ∀ db0 r r' deeds es, Turn db0 now who r r' deeds → R es r → T r → T r')
    {r : Callback} (hr : r ∈ db.callbacks.rows) (hTr : T r) :
    ∃ r' ∈ db'.callbacks.rows, r'.id = r.id ∧ T r' := by
  induction hm generalizing r with
  | turned ht =>
    obtain ⟨r', hr', hid, hturn⟩ := ht.successor hr
    refine ⟨r', hr', hid, ?_⟩
    rcases hturn with rfl | ⟨deeds, hturn⟩
    · exact hTr
    · exact hT _ _ _ _ _ hturn (h.rows r hr) hTr
  | booked b hkey hid heq =>
    rw [heq]
    exact ⟨r, List.mem_append_left _ hr, rfl, hTr⟩
  | trans hfirst _ _ ih ih' =>
    obtain ⟨r', hr', hid, hTr'⟩ := ih h hr hTr
    have hmid := hfirst.sound h (fun db0 _ r r' ds es => hsound db0 r r' ds es) hnew
    obtain ⟨r'', hr'', hid', hTr''⟩ := ih' hmid hr' hTr'
    exact ⟨r'', hr'', hid'.trans hid, hTr''⟩

end Moves

end Db

end Calevate.Callbacks
