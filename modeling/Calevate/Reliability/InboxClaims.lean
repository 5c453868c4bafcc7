import Calevate.Reliability.Inbox

/-!
# One consumer to an event

A processed event is never claimed again, in any run (`Processed`). That no two consumers
hold an event within their leases rests on the stamp of its row: a consumer within its lease
has the row under its own stamp, or finds it processed (`Backed`). A report does not say
whose it is, so one that comes in after the event was taken over moves the new holder's row
to `failed`, and the next delivery claims it again. `orderly` leaves that step out.
-/

namespace Calevate.Reliability

open Lib

/-- The event a consumer was given, and its row. It may have reported since. -/
def Consumer.claim? : Consumer → Option (Delivery × ℕ)
  | .claimed delivery rowId _ | .reported delivery rowId => some (delivery, rowId)
  | _ => none

/-- The row a consumer writes by its id. -/
def Consumer.row? : Consumer → Option (Delivery × ℕ)
  | .looked delivery _ found | .repeated delivery _ found => some (delivery, found)
  | .claimed delivery rowId _ | .reported delivery rowId => some (delivery, rowId)
  | _ => none

theorem Consumer.row?_of_claim? {consumer : Consumer} {c : Delivery × ℕ}
    (h : consumer.claim? = some c) : consumer.row? = some c := by
  cases consumer <;> simp_all [Consumer.claim?, Consumer.row?]

/-- When a claim that is still under way began. -/
def Consumer.begun : Consumer → Option ℕ
  | .conflicted _ now | .looked _ now _ => some now
  | _ => none

namespace Inbox

/-! ## What a step does -/

/-- The steps, with the guards they passed. -/
inductive Moved (s : Inbox) : Action → Inbox → Prop
  | rest (a) : Moved s a s
  | tick (d) : Moved s (.tick d) { s with clock := s.clock + d }
  | conflicted (q delivery now) (hcall : s.consumers q = .idle) (hnow : now ≤ s.clock)
      (hfull : ∃ r ∈ s.events, r.key = delivery.key) :
      Moved s (.claim q delivery now) (s.setConsumer q (.conflicted delivery now))
  | inserted (q delivery now) (hcall : s.consumers q = .idle) (hnow : now ≤ s.clock)
      (hfree : ∀ r ∈ s.events, r.key ≠ delivery.key) :
      Moved s (.claim q delivery now)
        ({ s with events := s.events ++ [newEvent q delivery now] }.setConsumer q
          (.claimed delivery q now))
  | gone (q delivery now) (hcall : s.consumers q = .conflicted delivery now)
      (hfree : ∀ r ∈ s.events, r.key ≠ delivery.key) :
      Moved s (.look q) (s.setConsumer q (.claimed delivery q now))
  | refused (q delivery now) (hcall : s.consumers q = .conflicted delivery now) :
      Moved s (.look q) (s.setConsumer q (.refused delivery payloadMismatch))
  | looked (q delivery now r) (hcall : s.consumers q = .conflicted delivery now)
      (hr : r ∈ s.events) (hkey : r.key = delivery.key) :
      Moved s (.look q) (s.setConsumer q (.looked delivery now r.id))
  | repeated (q delivery now r) (hcall : s.consumers q = .conflicted delivery now)
      (hr : r ∈ s.events) (hkey : r.key = delivery.key) :
      Moved s (.look q) (s.setConsumer q (.repeated delivery now r.id))
  | retaken (q delivery now found r) (hcall : s.consumers q = .looked delivery now found)
      (hr : r ∈ s.events) (hid : r.id = found) (hopen : r.retakable now = true) :
      Moved s (.retake q)
        ((s.updateEvents (fun r => r.id = found ∧ r.retakable now)
          fun r => { r with status := .processing, updatedAt := now }).setConsumer q
            (.claimed delivery found now))
  | late (q delivery now found) (hcall : s.consumers q = .looked delivery now found) :
      Moved s (.retake q) (s.setConsumer q (.repeated delivery now found))
  | counted (q delivery now found) (hcall : s.consumers q = .repeated delivery now found) :
      Moved s (.countDuplicate q) (s.countDuplicate q delivery now found)
  | reported (q delivery rowId outcome now)
      (hcall : (s.consumers q).claim? = some (delivery, rowId)) :
      Moved s (.report q outcome now)
        ((outcome.mark s rowId now).setConsumer q (.reported delivery rowId))

variable {s s' : Inbox} {a : Action} {q q' : ℕ}

theorem insert_moved {delivery : Delivery} {now : ℕ} (hcall : s.consumers q = .idle)
    (hnow : now ≤ s.clock) : Moved s (.claim q delivery now) (s.insert q delivery now) := by
  unfold insert
  split
  · rename_i hfull
    apply Moved.conflicted q delivery now hcall hnow
    simpa using hfull
  · rename_i hfree
    apply Moved.inserted q delivery now hcall hnow
    simpa using hfree

theorem look_moved {delivery : Delivery} {now : ℕ}
    (hcall : s.consumers q = .conflicted delivery now) :
    Moved s (.look q) (s.look q delivery now) := by
  unfold look
  split
  · rename_i hnone
    apply Moved.gone q delivery now hcall
    simpa using hnone
  · rename_i found hfound
    have hr := List.mem_of_find?_eq_some hfound
    have hkey : found.key = delivery.key := by simpa using List.find?_some hfound
    split
    · exact .refused q delivery now hcall
    · split
      · exact .looked q delivery now found hcall hr hkey
      · exact .repeated q delivery now found hcall hr hkey

theorem retake_moved {delivery : Delivery} {now found : ℕ}
    (hcall : s.consumers q = .looked delivery now found) :
    Moved s (.retake q) (s.retake q delivery now found) := by
  unfold retake
  split
  · rename_i hany
    simp only [List.any_eq_true, decide_eq_true_eq] at hany
    obtain ⟨r, hr, hid, hopen⟩ := hany
    exact .retaken q delivery now found r hcall hr hid hopen
  · exact .late q delivery now found hcall

/-- **Every step is one of these.** -/
theorem step_moved (s : Inbox) (a : Action) : Moved s a (s.step a) := by
  cases a with
  | claim q delivery now =>
    simp only [step]
    split
    · rename_i hcall
      split
      · rename_i hnow
        exact insert_moved hcall hnow
      · exact .rest _
    · exact .rest _
  | look q =>
    simp only [step]
    split
    · rename_i hcall
      exact look_moved hcall
    · exact .rest _
  | retake q =>
    simp only [step]
    split
    · rename_i hcall
      exact retake_moved hcall
    · exact .rest _
  | countDuplicate q =>
    simp only [step]
    split
    · rename_i hcall
      exact .counted q _ _ _ hcall
    · exact .rest _
  | report q outcome now =>
    simp only [step]
    split
    · rename_i hcall
      split
      · exact .reported q _ _ _ _ (by rw [hcall]; rfl)
      · exact .rest _
    · rename_i hcall
      split
      · exact .reported q _ _ _ _ (by rw [hcall]; rfl)
      · exact .rest _
    · exact .rest _
  | tick d => exact .tick d

@[simp] theorem consumers_setConsumer_self {consumer : Consumer} :
    (s.setConsumer q consumer).consumers q = consumer := by
  simp [setConsumer]

theorem consumers_setConsumer_of_ne {consumer : Consumer} (h : q' ≠ q) :
    (s.setConsumer q consumer).consumers q' = s.consumers q' := by
  simp [setConsumer, h]

@[simp] theorem events_setConsumer {consumer : Consumer} :
    (s.setConsumer q consumer).events = s.events := rfl

@[simp] theorem clock_setConsumer {consumer : Consumer} :
    (s.setConsumer q consumer).clock = s.clock := rfl

/-! ## What every run keeps -/

/-- An event has one row, under one id. -/
structure Sound (s : Inbox) : Prop where
  keys : ∀ r ∈ s.events, ∀ r' ∈ s.events, r.key = r'.key → r = r'
  ids : ∀ r ∈ s.events, ∀ r' ∈ s.events, r.id = r'.id → r = r'
  minted : ∀ r ∈ s.events, s.consumers r.id ≠ .idle
  arrived : ∀ q delivery now, s.consumers q = .conflicted delivery now →
    ∃ r ∈ s.events, r.key = delivery.key
  known : ∀ q delivery i, (s.consumers q).row? = some (delivery, i) →
    ∃ r ∈ s.events, r.id = i ∧ r.key = delivery.key
  begun : ∀ q now, (s.consumers q).begun = some now → now ≤ s.clock

theorem sound_init : Sound init where
  keys := by simp [init]
  ids := by simp [init]
  minted := by simp [init]
  arrived := by simp [init]
  known := by simp [init, Consumer.row?]
  begun := by simp [init, Consumer.begun]

/-- A consumer moves on, to a row that is there. -/
theorem Sound.setConsumer (h : Sound s) {consumer : Consumer} (hidle : consumer ≠ .idle)
    (harrived : ∀ delivery now, consumer = .conflicted delivery now →
      ∃ r ∈ s.events, r.key = delivery.key)
    (hknown : ∀ delivery i, consumer.row? = some (delivery, i) →
      ∃ r ∈ s.events, r.id = i ∧ r.key = delivery.key)
    (hbegun : ∀ now, consumer.begun = some now → now ≤ s.clock) :
    Sound (s.setConsumer q consumer) where
  keys := h.keys
  ids := h.ids
  minted := by
    intro r hr
    by_cases hq : r.id = q
    · simpa [hq] using hidle
    · rw [consumers_setConsumer_of_ne hq]
      exact h.minted r hr
  arrived := by
    intro p delivery now hp
    by_cases hpq : p = q
    · subst hpq
      exact harrived delivery now (by simpa using hp)
    · rw [consumers_setConsumer_of_ne hpq] at hp
      exact h.arrived p delivery now hp
  known := by
    intro p delivery i hp
    by_cases hpq : p = q
    · subst hpq
      exact hknown delivery i (by simpa using hp)
    · rw [consumers_setConsumer_of_ne hpq] at hp
      exact h.known p delivery i hp
  begun := by
    intro p now hp
    by_cases hpq : p = q
    · subst hpq
      exact hbegun now (by simpa using hp)
    · rw [consumers_setConsumer_of_ne hpq] at hp
      exact h.begun p now hp

/-- Rows keep their id and their key under every `UPDATE`. -/
theorem Sound.update (h : Sound s) {p : InboxEvent → Bool} {f : InboxEvent → InboxEvent}
    (hid : ∀ r, (f r).id = r.id) (hkey : ∀ r, (f r).key = r.key) :
    Sound (s.updateEvents p f) := by
  have hrow : ∀ y ∈ (s.updateEvents p f).events,
      ∃ x ∈ s.events, y = (if p x = true then f x else x) ∧ y.id = x.id ∧ y.key = x.key := by
    intro y hy
    simp only [updateEvents, Table.update, List.mem_map] at hy
    obtain ⟨x, hx, rfl⟩ := hy
    refine ⟨x, hx, rfl, ?_, ?_⟩
    · split <;> simp [hid]
    · split <;> simp [hkey]
  have hstays : ∀ x ∈ s.events,
      ∃ y ∈ (s.updateEvents p f).events, y.id = x.id ∧ y.key = x.key := by
    intro x hx
    refine ⟨if p x = true then f x else x, List.mem_map_of_mem hx, ?_, ?_⟩
    · split <;> simp [hid]
    · split <;> simp [hkey]
  constructor
  · intro y hy y' hy' heq
    obtain ⟨x, hx, rfl, -, hk⟩ := hrow y hy
    obtain ⟨x', hx', rfl, -, hk'⟩ := hrow y' hy'
    rw [h.keys x hx x' hx' (hk ▸ hk' ▸ heq)]
  · intro y hy y' hy' heq
    obtain ⟨x, hx, rfl, hi, -⟩ := hrow y hy
    obtain ⟨x', hx', rfl, hi', -⟩ := hrow y' hy'
    rw [h.ids x hx x' hx' (hi ▸ hi' ▸ heq)]
  · intro y hy
    obtain ⟨x, hx, -, hi, -⟩ := hrow y hy
    rw [hi]
    exact h.minted x hx
  · intro q delivery now hq
    obtain ⟨x, hx, hk⟩ := h.arrived q delivery now hq
    obtain ⟨y, hy, -, hyk⟩ := hstays x hx
    exact ⟨y, hy, hyk.trans hk⟩
  · intro q delivery i hq
    obtain ⟨x, hx, hi, hk⟩ := h.known q delivery i hq
    obtain ⟨y, hy, hyi, hyk⟩ := hstays x hx
    exact ⟨y, hy, hyi.trans hi, hyk.trans hk⟩
  · exact h.begun

theorem Sound.insert (h : Sound s) {delivery : Delivery} {now : ℕ}
    (hcall : s.consumers q = .idle) (hfree : ∀ r ∈ s.events, r.key ≠ delivery.key) :
    Sound ({ s with events := s.events ++ [newEvent q delivery now] }.setConsumer q
      (.claimed delivery q now)) := by
  -- no row has the new row's id
  have hnew : ∀ r ∈ s.events, r.id ≠ q := by
    intro r hr heq
    exact h.minted r hr (heq ▸ hcall)
  have hmem : ∀ r, r ∈ ({ s with events := s.events ++ [newEvent q delivery now] }.setConsumer q
      (.claimed delivery q now)).events ↔ r ∈ s.events ∨ r = newEvent q delivery now := by
    intro r
    simp
  constructor
  · intro r hr r' hr' heq
    rcases (hmem r).mp hr with hr | rfl
    · rcases (hmem r').mp hr' with hr' | rfl
      · exact h.keys r hr r' hr' heq
      · exact absurd heq (hfree r hr)
    · rcases (hmem r').mp hr' with hr' | rfl
      · exact absurd heq.symm (hfree r' hr')
      · rfl
  · intro r hr r' hr' heq
    rcases (hmem r).mp hr with hr | rfl
    · rcases (hmem r').mp hr' with hr' | rfl
      · exact h.ids r hr r' hr' heq
      · exact absurd heq (hnew r hr)
    · rcases (hmem r').mp hr' with hr' | rfl
      · exact absurd heq.symm (hnew r' hr')
      · rfl
  · intro r hr
    rcases (hmem r).mp hr with hr | rfl
    · rw [consumers_setConsumer_of_ne (hnew r hr)]
      exact h.minted r hr
    · simp [newEvent]
  · intro p delivery' now' hp
    have hpq : p ≠ q := by
      rintro rfl
      simp at hp
    rw [consumers_setConsumer_of_ne hpq] at hp
    obtain ⟨r, hr, hk⟩ := h.arrived p delivery' now' hp
    exact ⟨r, (hmem r).mpr (Or.inl hr), hk⟩
  · intro p delivery' i hp
    by_cases hpq : p = q
    · subst hpq
      obtain ⟨rfl, rfl⟩ : delivery = delivery' ∧ p = i := by simpa [Consumer.row?] using hp
      exact ⟨_, (hmem _).mpr (Or.inr rfl), rfl, rfl⟩
    · rw [consumers_setConsumer_of_ne hpq] at hp
      obtain ⟨r, hr, hi, hk⟩ := h.known p delivery' i hp
      exact ⟨r, (hmem r).mpr (Or.inl hr), hi, hk⟩
  · intro p now' hp
    have hpq : p ≠ q := by
      rintro rfl
      simp [Consumer.begun] at hp
    rw [consumers_setConsumer_of_ne hpq] at hp
    exact h.begun p now' hp

theorem Sound.mark (h : Sound s) (outcome : Outcome) (rowId now : ℕ) :
    Sound (outcome.mark s rowId now) := by
  cases outcome with
  | enqueued => exact h.update (fun _ => rfl) fun _ => rfl
  | processed => exact h.update (fun _ => rfl) fun _ => rfl
  | failed => exact h.update (fun _ => rfl) fun _ => rfl

theorem Sound.reported (h : Sound s) {delivery : Delivery} {rowId : ℕ}
    (hcall : (s.consumers q).claim? = some (delivery, rowId)) :
    Sound (s.setConsumer q (.reported delivery rowId)) := by
  apply h.setConsumer (by simp) (by simp)
  · intro delivery' i hrow
    obtain ⟨rfl, rfl⟩ : delivery = delivery' ∧ rowId = i := by
      simpa [Consumer.row?] using hrow
    exact h.known q delivery rowId (Consumer.row?_of_claim? hcall)
  · simp [Consumer.begun]

theorem sound_step (h : Sound s) (a : Action) : Sound (s.step a) := by
  have hm := step_moved s a
  revert hm
  generalize s.step a = s'
  intro hm
  cases hm with
  | rest => exact h
  | tick d =>
    exact ⟨h.keys, h.ids, h.minted, h.arrived, h.known,
      fun q now hq => (h.begun q now hq).trans (Nat.le_add_right _ _)⟩
  | conflicted q delivery now hcall hnow hfull =>
    apply h.setConsumer (by simp)
    · rintro _ _ hc
      cases hc
      exact hfull
    · simp [Consumer.row?]
    · simpa [Consumer.begun] using hnow
  | inserted q delivery now hcall hnow hfree => exact h.insert hcall hfree
  | gone q delivery now hcall hfree =>
    obtain ⟨r, hr, hkey⟩ := h.arrived q delivery now hcall
    exact absurd hkey (hfree r hr)
  | refused q delivery now hcall =>
    exact h.setConsumer (by simp) (by simp) (by simp [Consumer.row?]) (by simp [Consumer.begun])
  | looked q delivery now r hcall hr hkey =>
    apply h.setConsumer (by simp) (by simp)
    · simp only [Consumer.row?, Option.some.injEq, Prod.mk.injEq]
      rintro _ _ ⟨rfl, rfl⟩
      exact ⟨r, hr, rfl, hkey⟩
    · have hnow := h.begun q now (by rw [hcall]; rfl)
      simpa [Consumer.begun] using hnow
  | repeated q delivery now r hcall hr hkey =>
    apply h.setConsumer (by simp) (by simp)
    · simp only [Consumer.row?, Option.some.injEq, Prod.mk.injEq]
      rintro _ _ ⟨rfl, rfl⟩
      exact ⟨r, hr, rfl, hkey⟩
    · simp [Consumer.begun]
  | retaken q delivery now found r hcall hr hid hopen =>
    have hbase : Sound (s.setConsumer q (.claimed delivery found now)) := by
      apply h.setConsumer (by simp) (by simp)
      · intro delivery' i hrow
        exact h.known q delivery' i (by simpa [hcall, Consumer.row?] using hrow)
      · simp [Consumer.begun]
    exact hbase.update (fun _ => rfl) fun _ => rfl
  | late q delivery now found hcall =>
    apply h.setConsumer (by simp) (by simp)
    · intro delivery' i hrow
      exact h.known q delivery' i (by simpa [hcall, Consumer.row?] using hrow)
    · simp [Consumer.begun]
  | counted q delivery now found hcall =>
    have hbase : Sound (s.setConsumer q (.duplicate delivery found)) :=
      h.setConsumer (by simp) (by simp) (by simp [Consumer.row?]) (by simp [Consumer.begun])
    exact hbase.update (fun _ => rfl) fun _ => rfl
  | reported q delivery rowId outcome now hcall =>
    have hmark := (h.reported hcall).mark outcome rowId now
    cases outcome with
    | enqueued => exact hmark
    | processed => exact hmark
    | failed => exact hmark

theorem sound_run (as : List Action) : Sound (run as) := by
  apply @Run.foldl_inv _ _ step Sound
  · exact fun s a h => sound_step h a
  · exact sound_init

/-! ## Processed events -/

theorem run_append (as bs : List Action) : run (as ++ bs) = bs.foldl step (run as) := by
  simp [run, List.foldl_append]

/-- The event stays processed, and none of the consumers that had not been given it is. -/
structure Processed (s : Inbox) (key : EventKey) (later : ℕ → Prop) : Prop where
  stands : ∃ r ∈ s.events, r.key = key ∧ r.status = .processed
  closed : ∀ q, later q → ∀ c, (s.consumers q).claim? = some c → c.1.key ≠ key

variable {key : EventKey} {later : ℕ → Prop}

theorem Processed.setConsumer (h : Processed s key later) {consumer : Consumer}
    (hconsumer : later q → ∀ c, consumer.claim? = some c → c.1.key ≠ key) :
    Processed (s.setConsumer q consumer) key later where
  stands := h.stands
  closed := by
    intro p hp c hc
    by_cases hpq : p = q
    · subst hpq
      exact hconsumer hp c (by simpa using hc)
    · rw [consumers_setConsumer_of_ne hpq] at hc
      exact h.closed p hp c hc

/-- An `UPDATE` that leaves processed rows processed. -/
theorem Processed.update (h : Processed s key later) {p : InboxEvent → Bool}
    {f : InboxEvent → InboxEvent} (hkey : ∀ r, (f r).key = r.key)
    (hstatus : ∀ r, p r = true → r.status = .processed → (f r).status = .processed) :
    Processed (s.updateEvents p f) key later where
  stands := by
    obtain ⟨r, hr, hrk, hrs⟩ := h.stands
    by_cases hp : p r = true
    · exact ⟨f r, Table.mem_update.mpr (Or.inr ⟨r, hr, hp, rfl⟩), (hkey r).trans hrk,
        hstatus r hp hrs⟩
    · exact ⟨r, Table.mem_update.mpr (Or.inl ⟨hr, by simpa using hp⟩), hrk, hrs⟩
  closed := h.closed

theorem Processed.mark (h : Processed s key later) (outcome : Outcome) (rowId now : ℕ) :
    Processed (outcome.mark s rowId now) key later := by
  cases outcome with
  | enqueued =>
    refine h.update (fun _ => rfl) fun r hp hs => ?_
    simp [hs] at hp
  | processed => exact h.update (fun _ => rfl) fun _ _ _ => rfl
  | failed =>
    refine h.update (fun _ => rfl) fun r hp hs => ?_
    simp [InboxEvent.open, hs] at hp

theorem processed_step (hs : Sound s) (h : Processed s key later) (a : Action) :
    Processed (s.step a) key later := by
  have hm := step_moved s a
  revert hm
  generalize s.step a = s'
  intro hm
  cases hm with
  | rest => exact h
  | tick => exact ⟨h.stands, h.closed⟩
  | conflicted => exact h.setConsumer (by simp [Consumer.claim?])
  | inserted q delivery now hcall hnow hfree =>
    have hbase : Processed (s.setConsumer q (.claimed delivery q now)) key later := by
      apply h.setConsumer
      intro _ c hc hkey
      obtain rfl : (delivery, q) = c := by simpa [Consumer.claim?] using hc
      obtain ⟨r, hr, hrk, -⟩ := h.stands
      exact hfree r hr (hrk.trans hkey.symm)
    obtain ⟨r, hr, hrest⟩ := hbase.stands
    exact ⟨⟨r, List.mem_append_left _ hr, hrest⟩, hbase.closed⟩
  | gone q delivery now hcall hfree =>
    obtain ⟨r, hr, hkey⟩ := hs.arrived q delivery now hcall
    exact absurd hkey (hfree r hr)
  | refused => exact h.setConsumer (by simp [Consumer.claim?])
  | looked => exact h.setConsumer (by simp [Consumer.claim?])
  | repeated => exact h.setConsumer (by simp [Consumer.claim?])
  | retaken q delivery now found r hcall hr hid hopen =>
    obtain ⟨x, hx, hxi, hxk⟩ := hs.known q delivery found (by rw [hcall]; rfl)
    have hbase : Processed (s.setConsumer q (.claimed delivery found now)) key later := by
      apply h.setConsumer
      intro _ c hc hkey
      obtain rfl : (delivery, found) = c := by simpa [Consumer.claim?] using hc
      -- the row taken back would be the processed one
      obtain ⟨y, hy, hyk, hys⟩ := h.stands
      have hxr : x = r := hs.ids x hx r hr (hxi.trans hid.symm)
      have hyr : y = r := hs.keys y hy r hr (by rw [hyk, ← hxr, hxk]; exact hkey.symm)
      rw [← hyr] at hopen
      simp [InboxEvent.retakable, hys] at hopen
    refine hbase.update (fun _ => rfl) fun y hp hys => ?_
    simp [InboxEvent.retakable, hys] at hp
  | late => exact h.setConsumer (by simp [Consumer.claim?])
  | counted q delivery now found hcall =>
    have hbase : Processed (s.setConsumer q (.duplicate delivery found)) key later :=
      h.setConsumer (by simp [Consumer.claim?])
    exact hbase.update (fun _ => rfl) fun _ _ hys => hys
  | reported q delivery rowId outcome now hcall =>
    apply (h.mark outcome rowId now).setConsumer
    intro hq c hc
    obtain rfl : (delivery, rowId) = c := by simpa [Consumer.claim?] using hc
    exact h.closed q hq _ hcall

/-- **A processed event is not claimed again.** -/
theorem processed_run {as : List Action} (bs : List Action) {r : InboxEvent} (hr : r ∈ (run as).events)
    (hstatus : r.status = .processed) :
    Processed (run (as ++ bs)) r.key fun q => ((run as).consumers q).claim? = none := by
  have hinv : Sound (run (as ++ bs)) ∧
      Processed (run (as ++ bs)) r.key fun q => ((run as).consumers q).claim? = none := by
    rw [run_append]
    apply @Run.foldl_inv _ _ step (fun s => Sound s ∧
      Processed s r.key fun q => ((run as).consumers q).claim? = none)
    · exact fun s a h => ⟨sound_step h.1 a, processed_step h.1 h.2 a⟩
    · refine ⟨sound_run as, ⟨r, hr, rfl, hstatus⟩, fun q hq c hc => ?_⟩
      cases hq.symm.trans hc
  exact hinv.2

/-! ## One holder -/

theorem holds_iff : s.holds q key = true ↔
    ∃ delivery rowId takenAt, s.consumers q = .claimed delivery rowId takenAt ∧
      delivery.key = key ∧ s.clock ≤ takenAt + claimLease := by
  unfold holds
  split
  · rename_i delivery rowId takenAt hcall
    simp [hcall]
  · rename_i hother
    simp only [Bool.false_eq_true, false_iff]
    rintro ⟨delivery, rowId, takenAt, hcall, -⟩
    exact hother delivery rowId takenAt hcall

/-- A consumer within its lease has its row under its own stamp, or finds it processed. -/
def Backed (s : Inbox) : Prop :=
  ∀ q delivery rowId takenAt, s.consumers q = .claimed delivery rowId takenAt →
    s.clock ≤ takenAt + claimLease →
    ∃ r ∈ s.events, r.id = rowId ∧
      (r.status = .processed ∨ r.status = .processing ∧ r.updatedAt = takenAt)

/-- No two consumers hold an event within their leases. -/
def Exclusive (s : Inbox) : Prop :=
  ∀ key q q', s.holds q key = true → s.holds q' key = true → q = q'

/-- The steps that keep a takeover intact: a report of `enqueued` or `failed` comes while no
other consumer holds the event, or finds the row closed. -/
def orderly (s : Inbox) : Action → Prop
  | .report _ .processed _ => True
  | .report q _ _ => ∀ c, (s.consumers q).claim? = some c →
      ∀ r ∈ s.events, r.id = c.2 → r.open = true → ∀ p, p ≠ q → s.holds p r.key = false
  | _ => True

theorem Backed.setConsumer (h : Backed s) {consumer : Consumer}
    (hconsumer : ∀ d i t, consumer ≠ .claimed d i t) : Backed (s.setConsumer q consumer) := by
  intro p d i t hp hlive
  have hpq : p ≠ q := by
    rintro rfl
    exact hconsumer d i t (by simpa using hp)
  rw [consumers_setConsumer_of_ne hpq] at hp
  exact h p d i t hp hlive

theorem Exclusive.setConsumer (h : Exclusive s) {consumer : Consumer}
    (hconsumer : ∀ d i t, consumer ≠ .claimed d i t) :
    Exclusive (s.setConsumer q consumer) := by
  have hback : ∀ key p, (s.setConsumer q consumer).holds p key = true → s.holds p key = true := by
    intro key p hp
    obtain ⟨d, i, t, hcall, hkey, hlive⟩ := (holds_iff).mp hp
    have hpq : p ≠ q := by
      rintro rfl
      exact hconsumer d i t (by simpa using hcall)
    rw [consumers_setConsumer_of_ne hpq] at hcall
    exact (holds_iff).mpr ⟨d, i, t, hcall, hkey, hlive⟩
  exact fun key p p' hp hp' => h key p p' (hback key p hp) (hback key p' hp')

/-- A consumer that is given an event nobody holds is the only one. -/
theorem Exclusive.take (h : Exclusive s) {delivery : Delivery} {rowId now : ℕ}
    (hfree : ∀ p, s.holds p delivery.key = false) :
    Exclusive (s.setConsumer q (.claimed delivery rowId now)) := by
  have hback : ∀ key p, (s.setConsumer q (.claimed delivery rowId now)).holds p key = true →
      (p = q ∧ key = delivery.key) ∨ (p ≠ q ∧ s.holds p key = true) := by
    intro key p hp
    obtain ⟨d, i, t, hcall, hkey, hlive⟩ := (holds_iff).mp hp
    by_cases hpq : p = q
    · subst hpq
      obtain ⟨rfl, -, -⟩ : delivery = d ∧ rowId = i ∧ now = t := by simpa using hcall
      exact Or.inl ⟨rfl, hkey.symm⟩
    · rw [consumers_setConsumer_of_ne hpq] at hcall
      exact Or.inr ⟨hpq, (holds_iff).mpr ⟨d, i, t, hcall, hkey, hlive⟩⟩
  intro key p p' hp hp'
  rcases hback key p hp with ⟨rfl, rfl⟩ | ⟨-, hold⟩
  · rcases hback _ p' hp' with ⟨rfl, -⟩ | ⟨-, hold'⟩
    · rfl
    · simp [hfree p'] at hold'
  · rcases hback key p' hp' with ⟨rfl, rfl⟩ | ⟨-, hold'⟩
    · simp [hfree p] at hold
    · exact h key p p' hold hold'

/-- The row of a consumer within its lease is not taken back, and it is the row of its
event. -/
theorem Backed.row (h : Backed s) (hs : Sound s) (hq : s.holds q key = true) :
    ∃ r ∈ s.events, r.key = key ∧ ∀ now, now ≤ s.clock → r.retakable now = false := by
  obtain ⟨d, i, t, hcall, rfl, hlive⟩ := (holds_iff).mp hq
  obtain ⟨r, hr, hri, hstate⟩ := h q d i t hcall hlive
  obtain ⟨x, hx, hxi, hxk⟩ := hs.known q d i (by rw [hcall]; rfl)
  obtain rfl : x = r := hs.ids x hx r hr (hxi.trans hri.symm)
  refine ⟨x, hx, hxk, fun now hnow => ?_⟩
  rcases hstate with hdone | ⟨hproc, hstamp⟩
  · simp [InboxEvent.retakable, hdone]
  · have hwithin : ¬ x.updatedAt + claimLease < now := by omega
    simp [InboxEvent.retakable, hproc, hwithin]

/-- A row that stays under its stamp, or is processed, still backs its consumer. -/
theorem Backed.update (h : Backed s) {p : InboxEvent → Bool} {f : InboxEvent → InboxEvent}
    (hid : ∀ r, (f r).id = r.id)
    (hkept : ∀ q key, s.holds q key = true → ∀ r ∈ s.events, r.key = key → p r = true →
      r.status ≠ .failed → r.status ≠ .enqueued →
      (f r).status = .processed ∨
        (f r).status = r.status ∧ (f r).updatedAt = r.updatedAt) (hs : Sound s) :
    Backed (s.updateEvents p f) := by
  intro q d i t hcall hlive
  have hcall : s.consumers q = .claimed d i t := hcall
  obtain ⟨r, hr, hri, hstate⟩ := h q d i t hcall hlive
  obtain ⟨x, hx, hxi, hxk⟩ := hs.known q d i (by rw [hcall]; rfl)
  obtain rfl : x = r := hs.ids x hx r hr (hxi.trans hri.symm)
  by_cases hp : p x = true
  · refine ⟨f x, Table.mem_update.mpr (Or.inr ⟨x, hx, hp, rfl⟩), (hid x).trans hri, ?_⟩
    have hnot : x.status ≠ .failed ∧ x.status ≠ .enqueued := by
      rcases hstate with hdone | ⟨hproc, -⟩
      · simp [hdone]
      · simp [hproc]
    have hholds : s.holds q d.key = true := (holds_iff).mpr ⟨d, i, t, hcall, rfl, hlive⟩
    rcases hkept q d.key hholds x hx hxk hp hnot.1 hnot.2 with hdone | ⟨hsame, hstamp⟩
    · exact Or.inl hdone
    · rw [hsame, hstamp]
      exact hstate
  · exact ⟨x, Table.mem_update.mpr (Or.inl ⟨hx, by simpa using hp⟩), hri, hstate⟩

/-- A consumer that is given a row under its own stamp. -/
theorem Backed.take (h : Backed s) {delivery : Delivery} {rowId now : ℕ}
    (hrow : ∃ r ∈ s.events, r.id = rowId ∧ r.status = .processing ∧ r.updatedAt = now) :
    Backed (s.setConsumer q (.claimed delivery rowId now)) := by
  intro p d i t hp hlive
  by_cases hpq : p = q
  · subst hpq
    obtain ⟨-, rfl, rfl⟩ : delivery = d ∧ rowId = i ∧ now = t := by simpa using hp
    obtain ⟨r, hr, hri, hstate⟩ := hrow
    exact ⟨r, hr, hri, Or.inr hstate⟩
  · rw [consumers_setConsumer_of_ne hpq] at hp
    exact h p d i t hp hlive

theorem backed_mark (hs : Sound s) (hb : Backed s) {outcome : Outcome} {rowId : ℕ}
    (now : ℕ) (ho : (∃ error, outcome = .failed error) ∨ outcome = .enqueued →
      ∀ r ∈ s.events, r.id = rowId → r.open = true → ∀ p, s.holds p r.key = false) :
    Backed (outcome.mark s rowId now) := by
  cases outcome with
  | enqueued =>
    refine hb.update (fun _ => rfl) (fun p key hp r hr hkey hpick _ _ => ?_) hs
    simp only [decide_eq_true_eq] at hpick
    have hfree := ho (Or.inr rfl) r hr hpick.1 (by simp [InboxEvent.open, hpick.2]) p
    rw [hkey, hp] at hfree
    cases hfree
  | processed => exact hb.update (fun _ => rfl) (fun _ _ _ _ _ _ _ _ _ => Or.inl rfl) hs
  | failed error =>
    refine hb.update (fun _ => rfl) (fun p key hp r hr hkey hpick _ _ => ?_) hs
    simp only [decide_eq_true_eq] at hpick
    have hfree := ho (Or.inl ⟨error, rfl⟩) r hr hpick.1 hpick.2 p
    rw [hkey, hp] at hfree
    cases hfree

theorem exclusive_step (hs : Sound s) (hb : Backed s) (he : Exclusive s) (a : Action) :
    Exclusive (s.step a) := by
  have hm := step_moved s a
  revert hm
  generalize s.step a = s'
  intro hm
  cases hm with
  | rest => exact he
  | tick d =>
    have hback : ∀ key p, { s with clock := s.clock + d }.holds p key = true →
        s.holds p key = true := by
      intro key p hp
      obtain ⟨delivery, i, t, hcall, hkey, hlive⟩ := (holds_iff).mp hp
      exact (holds_iff).mpr ⟨delivery, i, t, hcall, hkey, (Nat.le_add_right _ _).trans hlive⟩
    exact fun key p p' hp hp' => he key p p' (hback key p hp) (hback key p' hp')
  | conflicted => exact he.setConsumer (by simp)
  | inserted q delivery now hcall hnow hfree =>
    have hnone : ∀ p, s.holds p delivery.key = false := by
      intro p
      by_contra hp
      obtain ⟨r, hr, hkey, -⟩ := hb.row hs (by simpa using hp)
      exact hfree r hr hkey
    exact he.take hnone
  | gone q delivery now hcall hfree =>
    obtain ⟨r, hr, hkey⟩ := hs.arrived q delivery now hcall
    exact absurd hkey (hfree r hr)
  | refused => exact he.setConsumer (by simp)
  | looked => exact he.setConsumer (by simp)
  | repeated => exact he.setConsumer (by simp)
  | retaken q delivery now found r hcall hr hid hopen =>
    obtain ⟨x, hx, hxi, hxk⟩ := hs.known q delivery found (by rw [hcall]; rfl)
    obtain rfl : x = r := hs.ids x hx r hr (hxi.trans hid.symm)
    have hnow : now ≤ s.clock := hs.begun q now (by rw [hcall]; rfl)
    have hnone : ∀ p, s.holds p delivery.key = false := by
      intro p
      by_contra hp
      obtain ⟨y, hy, hkey, hkept⟩ := hb.row hs (by simpa using hp)
      obtain rfl : y = x := hs.keys y hy x hx (hkey.trans hxk.symm)
      rw [hkept now hnow] at hopen
      cases hopen
    exact he.take hnone
  | late => exact he.setConsumer (by simp)
  | counted => exact he.setConsumer (by simp)
  | reported q delivery rowId outcome now =>
    have hbase : Exclusive (s.setConsumer q (.reported delivery rowId)) :=
      he.setConsumer (by simp)
    cases outcome with
    | enqueued => exact hbase
    | processed => exact hbase
    | failed => exact hbase

theorem backed_step (hs : Sound s) (hb : Backed s) (ho : orderly s a) : Backed (s.step a) := by
  have hm := step_moved s a
  revert hm
  generalize s.step a = s'
  intro hm
  cases hm with
  | rest => exact hb
  | tick d =>
    intro q delivery i t hcall hlive
    exact hb q delivery i t hcall ((Nat.le_add_right _ _).trans hlive)
  | conflicted => exact hb.setConsumer (by simp)
  | inserted q delivery now hcall hnow hfree =>
    have hgrown : Backed { s with events := s.events ++ [newEvent q delivery now] } := by
      intro p d i t hp hlive
      obtain ⟨r, hr, hrest⟩ := hb p d i t hp hlive
      exact ⟨r, List.mem_append_left _ hr, hrest⟩
    exact hgrown.take ⟨newEvent q delivery now, by simp, rfl, rfl, rfl⟩
  | gone q delivery now hcall hfree =>
    obtain ⟨r, hr, hkey⟩ := hs.arrived q delivery now hcall
    exact absurd hkey (hfree r hr)
  | refused => exact hb.setConsumer (by simp)
  | looked => exact hb.setConsumer (by simp)
  | repeated => exact hb.setConsumer (by simp)
  | retaken q delivery now found r hcall hr hid hopen =>
    have hnow : now ≤ s.clock := hs.begun q now (by rw [hcall]; rfl)
    have hbase : Backed (s.updateEvents (fun r => r.id = found ∧ r.retakable now)
        fun r => { r with status := .processing, updatedAt := now }) := by
      refine hb.update (fun _ => rfl) (fun p key hp y hy hkey hpick _ _ => ?_) hs
      obtain ⟨z, hz, hzk, hkept⟩ := hb.row hs hp
      obtain rfl : z = y := hs.keys z hz y hy (hzk.trans hkey.symm)
      simp [hkept now hnow] at hpick
    apply hbase.take
    exact ⟨_, Table.mem_update.mpr (Or.inr ⟨r, hr, by simp [hid, hopen], rfl⟩), hid, rfl, rfl⟩
  | late => exact hb.setConsumer (by simp)
  | counted q delivery now found hcall =>
    have hbase : Backed (s.updateEvents (fun r => r.id = found) fun r =>
        { r with
          duplicateCount := r.duplicateCount + 1
          updatedAt := if r.status = .processing then r.updatedAt else now }) := by
      refine hb.update (fun _ => rfl) (fun _ _ _ r _ _ _ hnf hne => ?_) hs
      cases hstatus : r.status with
      | processing => simp
      | enqueued => exact absurd hstatus hne
      | processed => simp
      | failed => exact absurd hstatus hnf
    exact hbase.setConsumer (by simp)
  | reported q delivery rowId outcome now hcall =>
    have hbase : Backed (s.setConsumer q (.reported delivery rowId)) :=
      hb.setConsumer (by simp)
    -- the reporter's own claim is over, and no other consumer holds the row
    have hfree : (∃ error, outcome = .failed error) ∨ outcome = .enqueued →
        ∀ r ∈ s.events, r.id = rowId → r.open = true →
          ∀ p, (s.setConsumer q (.reported delivery rowId)).holds p r.key = false := by
      intro houtcome r hr hid hopen p
      by_cases hpq : p = q
      · simp [holds, hpq]
      · have hsame : (s.setConsumer q (.reported delivery rowId)).holds p r.key
            = s.holds p r.key := by
          unfold holds
          rw [consumers_setConsumer_of_ne hpq]
          rfl
        rw [hsame]
        rcases houtcome with ⟨error, rfl⟩ | rfl
        · exact ho _ hcall r hr hid hopen p hpq
        · exact ho _ hcall r hr hid hopen p hpq
    have hmark := backed_mark (hs.reported hcall) hbase now hfree
    cases outcome with
    | enqueued => exact hmark
    | processed => exact hmark
    | failed => exact hmark

theorem alone_run {as : List Action} (h : Run.Guarded step orderly init as) :
    Backed (run as) ∧ Exclusive (run as) := by
  have hinv : Sound (run as) ∧ Backed (run as) ∧ Exclusive (run as) := by
    refine @Run.Guarded.inv _ _ step orderly (fun s => Sound s ∧ Backed s ∧ Exclusive s) ?_
      init as ?_ h
    · rintro s a ⟨hs, hb, he⟩ ho
      exact ⟨sound_step hs a, backed_step hs hb ho, exclusive_step hs hb he a⟩
    · exact ⟨sound_init, by simp [Backed, init], by simp [Exclusive, holds, init]⟩
  exact hinv.2

/-! ## The claim on an event -/

/-- What holds of the inbox after a run: no two consumers hold an event within their leases;
no consumer's `enqueued` or `failed` touched the event while another held it; and a processed
event stays so and was given to nobody since. -/
structure InboxProperty (as : List Action) : Prop where
  exclusive : ∀ key q q', (run as).holds q key = true → (run as).holds q' key = true → q = q'
  late : ∀ bs cs q outcome now p c, as = bs ++ .report q outcome now :: cs →
    outcome ≠ .processed → ((run bs).consumers q).claim? = some c → p ≠ q →
    (run bs).holds p c.1.key = true →
    ((run bs).step (.report q outcome now)).events = (run bs).events
  final : ∀ bs cs r, as = bs ++ cs → r ∈ (run bs).events → r.status = .processed →
    (∃ r' ∈ (run as).events, r'.key = r.key ∧ r'.status = .processed) ∧
    ∀ q c, ((run bs).consumers q).claim? = none → ((run as).consumers q).claim? = some c →
      c.1.key ≠ r.key

/-- An orderly report that finds another consumer at work writes nothing. -/
theorem report_idle (hs : Sound s) {outcome : Outcome} {now p : ℕ} {c : Delivery × ℕ}
    (ho : orderly s (.report q outcome now)) (hout : outcome ≠ .processed)
    (hcall : (s.consumers q).claim? = some c) (hpq : p ≠ q)
    (hp : s.holds p c.1.key = true) :
    (s.step (.report q outcome now)).events = s.events := by
  obtain ⟨x, hx, hxi, hxk⟩ := hs.known q c.1 c.2 (Consumer.row?_of_claim? hcall)
  -- the row the report names is the holder's, and it is closed
  have hclosed : ∀ r ∈ s.events, r.id = c.2 → r.open = false := by
    intro r hr hid
    obtain rfl : x = r := hs.ids x hx r hr (hxi.trans hid.symm)
    by_contra hopen
    have hfree : s.holds p x.key = false := by
      cases outcome with
      | enqueued => exact ho c hcall x hx hxi (by simpa using hopen) p hpq
      | processed => exact absurd rfl hout
      | failed => exact ho c hcall x hx hxi (by simpa using hopen) p hpq
    rw [hxk, hp] at hfree
    cases hfree
  have hm := step_moved s (.report q outcome now)
  revert hm
  generalize s.step (.report q outcome now) = s'
  intro hm
  cases hm with
  | rest => rfl
  | reported _ delivery rowId _ _ hcall' =>
    obtain rfl : (delivery, rowId) = c := by
      rw [hcall] at hcall'
      simpa using hcall'.symm
    cases outcome with
    | enqueued =>
      apply Table.update_of_notAny
      rw [List.any_eq_false]
      intro r hr
      have hopen := hclosed r hr
      simp only [InboxEvent.open, decide_eq_false_iff_not, not_or] at hopen
      simp only [decide_eq_true_eq]
      rintro ⟨hid, hproc⟩
      exact (hopen hid).1 hproc
    | processed => exact absurd rfl hout
    | failed =>
      apply Table.update_of_notAny
      rw [List.any_eq_false]
      intro r hr
      simp only [decide_eq_true_eq]
      rintro ⟨hid, hopen⟩
      rw [hclosed r hr hid] at hopen
      cases hopen

/-- **Where reports are orderly, an event has one consumer at a time.** -/
theorem inbox_event_held_once (as : List Action) (h : Run.Guarded step orderly init as) :
    InboxProperty as where
  exclusive := (alone_run h).2
  late := by
    rintro bs cs q outcome now p c rfl hout hcall hpq hp
    exact report_idle (sound_run bs) h.at hout hcall hpq hp
  final := by
    rintro bs cs r rfl hr hstatus
    have hproc := processed_run cs hr hstatus
    exact ⟨hproc.stands, fun q c hq hc => hproc.closed q hq c hc⟩

/-- The delivery of the runs below. -/
def callEnded : Delivery where
  key := ⟨"engine", "execution-1"⟩
  payloadHash := "payload"
  eventName := some "call.ended"

/-- A consumer that outlives its lease and fails after another took its event over. -/
def lateFailure : List Action :=
  [.claim 0 callEnded 0, .tick 601, .claim 1 callEnded 601, .look 1, .retake 1,
    .report 0 (.failed "timeout") 601, .claim 2 callEnded 601, .look 2, .retake 2]

/-- **A late failure hands the event to a third consumer.** -/
theorem lateFailure_two_holders : ¬ ∀ as, InboxProperty as := by
  intro h
  have hsame := (h lateFailure).exclusive callEnded.key 1 2 (by decide +kernel)
    (by decide +kernel)
  exact absurd hsame (by decide)

/-- An event whose first consumer fails in time and whose second one hands it on. -/
theorem inbox_event_held_once_retried :
    InboxProperty [.claim 0 callEnded 0, .report 0 (.failed "timeout") 0, .claim 1 callEnded 0,
      .look 1, .retake 1, .report 1 .processed 0, .claim 2 callEnded 0, .look 2] := by
  refine inbox_event_held_once _ ⟨trivial, ?_, trivial, trivial, trivial, trivial, trivial,
    trivial, trivial⟩
  intro c hc r hr hid hopen p hp
  have hidle : (init.step (.claim 0 callEnded 0)).consumers p = .idle := by
    simp [step, init, insert, setConsumer, hp]
  simp [holds, hidle]

end Inbox

end Calevate.Reliability
