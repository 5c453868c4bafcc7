import Calevate.Reliability.Idempotency

/-!
# One holder to a key

A record answers to one claim, the last one made on it, so a late report finds nothing
(`Ousted`) and a stored response is what every later call is given (`Answering`). Both hold
of every run. That no two calls hold a key within their leases does not: the sweep deletes
a record by its age alone, which a second holder inherits from the first, and a claim that
conflicted with a record finds the key free once the record is swept. `undisturbed` leaves
these two steps out, and on the rest a call within its lease has its record behind it
(`Backed`).
-/

namespace Calevate.Reliability

open Lib

/-- What the call was handed the key for, and the record it was handed. It may have reported
since. -/
def Phase.claim? : Phase → Option (Ask × ℕ)
  | .fresh ask recordId _ | .done ask recordId => some (ask, recordId)
  | _ => none

/-- What the call asked with. -/
def Phase.ask? : Phase → Option Ask
  | .idle => none
  | .conflicted ask _ | .looked ask _ _ _ | .fresh ask _ _ | .replay ask _ _ _
  | .refused ask _ | .done ask _ => some ask

@[simp] theorem Phase.claim?_idle : Phase.idle.claim? = none := rfl

@[simp] theorem Phase.claim?_conflicted {ask : Ask} {now : ℕ} :
    (Phase.conflicted ask now).claim? = none := rfl

@[simp] theorem Phase.claim?_looked {ask : Ask} {now found : ℕ} {status : IdempotencyStatus} :
    (Phase.looked ask now found status).claim? = none := rfl

@[simp] theorem Phase.claim?_fresh {ask : Ask} {recordId takenAt : ℕ} :
    (Phase.fresh ask recordId takenAt).claim? = some (ask, recordId) := rfl

@[simp] theorem Phase.claim?_replay {ask : Ask} {recordId : ℕ} {responseStatus : Option ℕ}
    {responsePayload : Option String} :
    (Phase.replay ask recordId responseStatus responsePayload).claim? = none := rfl

@[simp] theorem Phase.claim?_refused {ask : Ask} {refusal : Refusal} :
    (Phase.refused ask refusal).claim? = none := rfl

@[simp] theorem Phase.claim?_done {ask : Ask} {recordId : ℕ} :
    (Phase.done ask recordId).claim? = some (ask, recordId) := rfl

/-- The moment a claim that is still under way began. -/
def Phase.begun : Phase → Option ℕ
  | .conflicted _ now | .looked _ now _ _ => some now
  | _ => none

namespace Idempotency

/-! ## What a step does -/

/-- The steps, with the guards they passed. -/
inductive Moved (s : Idempotency) : Action → Idempotency → Prop
  | rest (a) : Moved s a s
  | tick (d) : Moved s (.tick d) { s with clock := s.clock + d }
  | conflicted (q ask now) (hcall : s.calls q = .idle) (hnow : now ≤ s.clock) :
      Moved s (.claim q ask now) (s.setCall q (.conflicted ask now))
  | inserted (q ask now) (hcall : s.calls q = .idle) (hnow : now ≤ s.clock)
      (hfree : ∀ r ∈ s.records, r.key ≠ ask.key) :
      Moved s (.claim q ask now)
        ({ s with records := s.records ++ [newRecord q ask now] }.setCall q (.fresh ask q now))
  | gone (q ask now) (hcall : s.calls q = .conflicted ask now)
      (hfree : ∀ r ∈ s.records, r.key ≠ ask.key) :
      Moved s (.look q) (s.setCall q (.fresh ask q now))
  | reused (q ask now r) (hcall : s.calls q = .conflicted ask now) (hr : r ∈ s.records)
      (hkey : r.key = ask.key) (hbody : r.requestHash ≠ ask.requestHash) :
      Moved s (.look q) (s.setCall q (.refused ask (.problem keyReused)))
  | replayed (q ask now r) (hcall : s.calls q = .conflicted ask now) (hr : r ∈ s.records)
      (hkey : r.key = ask.key) (hstatus : r.status = .completed) :
      Moved s (.look q)
        (s.setCall q (.replay ask r.id r.responseStatus r.responsePayload))
  | looked (q ask now r) (hcall : s.calls q = .conflicted ask now) (hr : r ∈ s.records)
      (hkey : r.key = ask.key) (hstatus : r.status ≠ .completed) :
      Moved s (.look q) (s.setCall q (.looked ask now r.id r.status))
  | refused (q ask now found status refusal)
      (hcall : s.calls q = .looked ask now found status) :
      Moved s (.settle q) (s.setCall q (.refused ask refusal))
  | retaken (q ask now found status r) (hcall : s.calls q = .looked ask now found status)
      (hr : r ∈ s.records) (hid : r.id = found) (hopen : r.retakable now = true) :
      Moved s (.settle q)
        ((s.updateRecords (fun r => r.id = found ∧ r.retakable now)
          fun r => { r with status := .processing, claimNonce := q, updatedAt := now }).setCall q
            (.fresh ask found now))
  | marked (q ask recordId takenAt now) (hcall : s.calls q = .fresh ask recordId takenAt) :
      Moved s (.markInDoubt q now)
        (s.updateRecords
          (fun r => r.id = recordId ∧ r.status = .processing ∧ r.claimNonce = q)
          fun r => { r with status := .inDoubt, updatedAt := now })
  | lost (q ask recordId takenAt now) (hcall : s.calls q = .fresh ask recordId takenAt)
      (hlost : ∀ r ∈ s.records,
        ¬ (r.id = recordId ∧ r.status = .processing ∧ r.claimNonce = q)) :
      Moved s (.markInDoubt q now) (s.setCall q (.done ask recordId))
  | completed (q ask recordId responseStatus responsePayload now)
      (hcall : (s.calls q).claim? = some (ask, recordId)) :
      Moved s (.complete q responseStatus responsePayload now)
        (s.completeIdempotency q ask recordId responseStatus responsePayload now)
  | failed (q ask recordId now) (hcall : (s.calls q).claim? = some (ask, recordId)) :
      Moved s (.fail q now) (s.failIdempotency q ask recordId now)
  | swept (now) (hnow : now ≤ s.clock) : Moved s (.sweep now) (s.sweepIdempotency now)

variable {s s' : Idempotency} {a : Action} {q q' : ℕ}

theorem insert_moved {ask : Ask} {now : ℕ} (hcall : s.calls q = .idle) (hnow : now ≤ s.clock) :
    Moved s (.claim q ask now) (s.insert q ask now) := by
  unfold insert
  split
  · exact .conflicted q ask now hcall hnow
  · rename_i hfree
    apply Moved.inserted q ask now hcall hnow
    simpa using hfree

theorem look_moved {ask : Ask} {now : ℕ} (hcall : s.calls q = .conflicted ask now) :
    Moved s (.look q) (s.look q ask now) := by
  unfold look
  split
  · rename_i hnone
    apply Moved.gone q ask now hcall
    simpa using hnone
  · rename_i found hfound
    have hr := List.mem_of_find?_eq_some hfound
    have hkey : found.key = ask.key := by simpa using List.find?_some hfound
    split
    · rename_i hbody
      exact .reused q ask now found hcall hr hkey hbody
    · split
      · rename_i hstatus
        exact .replayed q ask now found hcall hr hkey hstatus
      · rename_i hstatus
        exact .looked q ask now found hcall hr hkey hstatus

theorem settle_moved {ask : Ask} {now found : ℕ} {status : IdempotencyStatus}
    (hcall : s.calls q = .looked ask now found status) :
    Moved s (.settle q) (s.settle q ask now found status) := by
  unfold settle
  split
  · split
    · exact .refused q ask now found status _ hcall
    · split
      · exact .refused q ask now found status _ hcall
      · exact .refused q ask now found status _ hcall
  · split
    · rename_i hany
      simp only [List.any_eq_true, decide_eq_true_eq] at hany
      obtain ⟨r, hr, hid, hopen⟩ := hany
      exact .retaken q ask now found status r hcall hr hid hopen
    · exact .refused q ask now found status _ hcall

theorem mark_moved {ask : Ask} {recordId takenAt now : ℕ}
    (hcall : s.calls q = .fresh ask recordId takenAt) :
    Moved s (.markInDoubt q now) (s.markIdempotencyInDoubt q ask recordId now) := by
  unfold markIdempotencyInDoubt
  split
  · exact .marked q ask recordId takenAt now hcall
  · rename_i hany
    apply Moved.lost q ask recordId takenAt now hcall
    simpa using hany

/-- **Every step is one of these.** -/
theorem step_moved (s : Idempotency) (a : Action) : Moved s a (s.step a) := by
  cases a with
  | claim q ask now =>
    simp only [step]
    split
    · rename_i hcall
      split
      · rename_i hnow
        exact insert_moved hcall hnow
      · exact .rest _
    · exact .rest _
  | look q =>
    simp only [step]
    split
    · rename_i hcall
      exact look_moved hcall
    · exact .rest _
  | settle q =>
    simp only [step]
    split
    · rename_i hcall
      exact settle_moved hcall
    · exact .rest _
  | markInDoubt q now =>
    simp only [step]
    split
    · rename_i hcall
      split
      · exact mark_moved hcall
      · exact .rest _
    · exact .rest _
  | complete q responseStatus responsePayload now =>
    simp only [step]
    split
    · rename_i hcall
      split
      · exact .completed q _ _ _ _ _ (by rw [hcall]; rfl)
      · exact .rest _
    · rename_i hcall
      split
      · exact .completed q _ _ _ _ _ (by rw [hcall]; rfl)
      · exact .rest _
    · exact .rest _
  | fail q now =>
    simp only [step]
    split
    · rename_i hcall
      split
      · exact .failed q _ _ _ (by rw [hcall]; rfl)
      · exact .rest _
    · rename_i hcall
      split
      · exact .failed q _ _ _ (by rw [hcall]; rfl)
      · exact .rest _
    · exact .rest _
  | sweep now =>
    simp only [step]
    split
    · rename_i hnow
      exact .swept now hnow
    · exact .rest _
  | tick d => exact .tick d

/-! ## What every run keeps -/

@[simp] theorem calls_setCall_self {phase : Phase} : (s.setCall q phase).calls q = phase := by
  simp [setCall]

theorem calls_setCall_of_ne {phase : Phase} (h : q' ≠ q) :
    (s.setCall q phase).calls q' = s.calls q' := by
  simp [setCall, h]

@[simp] theorem records_setCall {phase : Phase} : (s.setCall q phase).records = s.records := rfl

@[simp] theorem clock_setCall {phase : Phase} : (s.setCall q phase).clock = s.clock := rfl

/-- A key has one record, which the last call to be handed the key made or took over. -/
structure Sound (s : Idempotency) : Prop where
  keys : ∀ r ∈ s.records, ∀ r' ∈ s.records, r.key = r'.key → r = r'
  ids : ∀ r ∈ s.records, ∀ r' ∈ s.records, r.id = r'.id → r.key = r'.key
  minted : ∀ r ∈ s.records, s.calls r.id ≠ .idle
  known : ∀ q ask now i status, s.calls q = .looked ask now i status →
    s.calls i ≠ .idle ∧ ∀ r ∈ s.records, r.id = i → r.key = ask.key
  begun : ∀ q now, (s.calls q).begun = some now → now ≤ s.clock
  nonces : ∀ r ∈ s.records,
    ∃ c, (s.calls r.claimNonce).claim? = some c ∧ c.1.key = r.key

theorem sound_init : Sound init where
  keys := by simp [init]
  ids := by simp [init]
  minted := by simp [init]
  known := by simp [init]
  begun := by simp [init, Phase.begun]
  nonces := by simp [init]

/-- A call moves on, and a call that was handed a key stays so. -/
theorem Sound.setCall (h : Sound s) {phase : Phase} (hidle : phase ≠ .idle)
    (hbegun : ∀ now, phase.begun = some now → now ≤ s.clock)
    (hclaim : ∀ c, (s.calls q).claim? = some c → phase.claim? = some c)
    (hlooked : ∀ ask now i status, phase = .looked ask now i status →
      ∃ r ∈ s.records, r.id = i ∧ r.key = ask.key) :
    Sound (s.setCall q phase) where
  keys := h.keys
  ids := h.ids
  minted := by
    intro r hr
    by_cases hq : r.id = q
    · simpa [hq] using hidle
    · rw [calls_setCall_of_ne hq]
      exact h.minted r hr
  known := by
    intro p ask now i status hp
    have hmint : ∀ i, s.calls i ≠ .idle → (s.setCall q phase).calls i ≠ .idle := by
      intro i hi
      by_cases hq : i = q
      · simpa [hq] using hidle
      · rwa [calls_setCall_of_ne hq]
    by_cases hpq : p = q
    · subst hpq
      obtain ⟨r, hr, rfl, hkey⟩ := hlooked ask now i status (by simpa using hp)
      refine ⟨hmint _ (h.minted r hr), fun r' hr' hid => ?_⟩
      rw [← hkey]
      exact h.ids r' hr' r hr hid
    · rw [calls_setCall_of_ne hpq] at hp
      obtain ⟨hi, hrec⟩ := h.known p ask now i status hp
      exact ⟨hmint i hi, hrec⟩
  begun := by
    intro p now hp
    by_cases hpq : p = q
    · subst hpq
      exact hbegun now (by simpa using hp)
    · rw [calls_setCall_of_ne hpq] at hp
      exact h.begun p now hp
  nonces := by
    intro r hr
    obtain ⟨c, hc, hkey⟩ := h.nonces r hr
    by_cases hq : r.claimNonce = q
    · exact ⟨c, by simpa [hq] using hclaim c (hq ▸ hc), hkey⟩
    · exact ⟨c, by rwa [calls_setCall_of_ne hq], hkey⟩

/-- Rows keep their id and their key under every `UPDATE`. -/
theorem Sound.update (h : Sound s) {p : IdempotencyRecord → Bool}
    {f : IdempotencyRecord → IdempotencyRecord} (hid : ∀ r, (f r).id = r.id)
    (hkey : ∀ r, (f r).key = r.key)
    (hnonce : ∀ r ∈ s.records, p r = true →
      ∃ c, (s.calls (f r).claimNonce).claim? = some c ∧ c.1.key = r.key) :
    Sound (s.updateRecords p f) := by
  -- every row written is one that stood, under its id and key
  have hrow : ∀ y ∈ (s.updateRecords p f).records,
      ∃ x ∈ s.records, y = (if p x = true then f x else x) ∧ y.id = x.id ∧ y.key = x.key := by
    intro y hy
    simp only [updateRecords, Table.update, List.mem_map] at hy
    obtain ⟨x, hx, rfl⟩ := hy
    refine ⟨x, hx, rfl, ?_, ?_⟩
    · split <;> simp [hid]
    · split <;> simp [hkey]
  constructor
  · intro y hy y' hy' heq
    obtain ⟨x, hx, rfl, -, hk⟩ := hrow y hy
    obtain ⟨x', hx', rfl, -, hk'⟩ := hrow y' hy'
    rw [h.keys x hx x' hx' (hk ▸ hk' ▸ heq)]
  · intro y hy y' hy' heq
    obtain ⟨x, hx, -, hi, hk⟩ := hrow y hy
    obtain ⟨x', hx', -, hi', hk'⟩ := hrow y' hy'
    rw [hk, hk']
    exact h.ids x hx x' hx' (hi ▸ hi' ▸ heq)
  · intro y hy
    obtain ⟨x, hx, -, hi, -⟩ := hrow y hy
    rw [hi]
    exact h.minted x hx
  · intro q ask now i status hq
    obtain ⟨hi, hrec⟩ := h.known q ask now i status hq
    refine ⟨hi, fun y hy hyi => ?_⟩
    obtain ⟨x, hx, -, hxi, hk⟩ := hrow y hy
    rw [hk]
    exact hrec x hx (hxi ▸ hyi)
  · exact h.begun
  · intro y hy
    obtain ⟨x, hx, rfl, -, hk⟩ := hrow y hy
    rw [hk]
    by_cases hp : p x = true
    · rw [if_pos hp]
      exact hnonce x hx hp
    · rw [if_neg hp]
      exact h.nonces x hx

theorem Sound.insert (h : Sound s) {ask : Ask} {now : ℕ} (hcall : s.calls q = .idle)
    (hfree : ∀ r ∈ s.records, r.key ≠ ask.key) :
    Sound ({ s with records := s.records ++ [newRecord q ask now] }.setCall q
      (.fresh ask q now)) := by
  -- no row and no claim under way has the new row's id
  have hnew : ∀ r ∈ s.records, r.id ≠ q := by
    intro r hr heq
    exact h.minted r hr (heq ▸ hcall)
  have hbase : Sound (s.setCall q (.fresh ask q now)) := by
    apply h.setCall
    · simp
    · simp [Phase.begun]
    · simp [hcall]
    · simp
  constructor
  · intro r hr r' hr' heq
    simp only [records_setCall, List.mem_append, List.mem_singleton] at hr hr'
    rcases hr with hr | rfl
    · rcases hr' with hr' | rfl
      · exact h.keys r hr r' hr' heq
      · exact absurd heq (hfree r hr)
    · rcases hr' with hr' | rfl
      · exact absurd heq.symm (hfree r' hr')
      · rfl
  · intro r hr r' hr' heq
    simp only [records_setCall, List.mem_append, List.mem_singleton] at hr hr'
    rcases hr with hr | rfl
    · rcases hr' with hr' | rfl
      · exact h.ids r hr r' hr' heq
      · exact absurd heq (hnew r hr)
    · rcases hr' with hr' | rfl
      · exact absurd heq.symm (hnew r' hr')
      · rfl
  · intro r hr
    simp only [records_setCall, List.mem_append, List.mem_singleton] at hr
    rcases hr with hr | rfl
    · exact hbase.minted r hr
    · simp [newRecord]
  · intro p ask' now' i status hp
    have hne : p ≠ q := by
      rintro rfl
      simp at hp
    obtain ⟨hi, hrec⟩ := hbase.known p ask' now' i status hp
    refine ⟨hi, fun r hr hri => ?_⟩
    simp only [records_setCall, List.mem_append, List.mem_singleton] at hr
    rcases hr with hr | rfl
    · exact hrec r hr hri
    · rw [calls_setCall_of_ne hne] at hp
      exact absurd (hri ▸ hcall) (h.known p ask' now' i status hp).1
  · exact hbase.begun
  · intro r hr
    simp only [records_setCall, List.mem_append, List.mem_singleton] at hr
    rcases hr with hr | rfl
    · exact hbase.nonces r hr
    · exact ⟨(ask, q), by simp [newRecord], rfl⟩

theorem Sound.sweep (h : Sound s) (now : ℕ) : Sound (s.sweepIdempotency now) := by
  have hsub : ∀ r ∈ (s.sweepIdempotency now).records, r ∈ s.records :=
    fun r hr => (List.mem_filter.mp hr).1
  constructor
  · exact fun r hr r' hr' => h.keys r (hsub r hr) r' (hsub r' hr')
  · exact fun r hr r' hr' => h.ids r (hsub r hr) r' (hsub r' hr')
  · exact fun r hr => h.minted r (hsub r hr)
  · intro q ask now' i status hq
    obtain ⟨hi, hrec⟩ := h.known q ask now' i status hq
    exact ⟨hi, fun r hr => hrec r (hsub r hr)⟩
  · exact h.begun
  · exact fun r hr => h.nonces r (hsub r hr)

/-- A row a claim's own report picks was handed to that claim. -/
theorem Sound.report (h : Sound s) {ask : Ask} {recordId : ℕ}
    {f : IdempotencyRecord → IdempotencyRecord} (hcall : (s.calls q).claim? = some (ask, recordId))
    (hid : ∀ r, (f r).id = r.id) (hkey : ∀ r, (f r).key = r.key)
    (hnonce : ∀ r, (f r).claimNonce = r.claimNonce) :
    Sound ((s.updateRecords (fun r => r.heldByClaim recordId q) f).setCall q
      (.done ask recordId)) := by
  have hupdate : Sound (s.updateRecords (fun r => r.heldByClaim recordId q) f) := by
    apply h.update hid hkey
    intro r hr _
    rw [hnonce]
    exact h.nonces r hr
  apply hupdate.setCall
  · simp
  · simp [Phase.begun]
  · intro c hc
    exact hcall.symm.trans hc
  · simp

theorem sound_step (h : Sound s) (a : Action) : Sound (s.step a) := by
  have hm := step_moved s a
  revert hm
  generalize s.step a = s'
  intro hm
  cases hm with
  | rest => exact h
  | tick d =>
    exact ⟨h.keys, h.ids, h.minted, h.known,
      fun q now hq => (h.begun q now hq).trans (Nat.le_add_right _ _), h.nonces⟩
  | conflicted q ask now hcall hnow =>
    apply h.setCall
    · simp
    · simpa [Phase.begun] using hnow
    · simp [hcall]
    · simp
  | inserted q ask now hcall hnow hfree => exact h.insert hcall hfree
  | gone q ask now hcall hfree =>
    apply h.setCall
    · simp
    · simp [Phase.begun]
    · simp [hcall]
    · simp
  | reused q ask now r hcall hr hkey hbody =>
    apply h.setCall
    · simp
    · simp [Phase.begun]
    · simp [hcall]
    · simp
  | replayed q ask now r hcall hr hkey hstatus =>
    apply h.setCall
    · simp
    · simp [Phase.begun]
    · simp [hcall]
    · simp
  | looked q ask now r hcall hr hkey hstatus =>
    apply h.setCall
    · simp
    · have hnow := h.begun q now (by rw [hcall]; rfl)
      simpa [Phase.begun] using hnow
    · simp [hcall]
    · rintro ask' now' i status hlooked
      cases hlooked
      exact ⟨r, hr, rfl, hkey⟩
  | refused q ask now found status refusal hcall =>
    apply h.setCall
    · simp
    · simp [Phase.begun]
    · simp [hcall]
    · simp
  | retaken q ask now found status r hcall hr hid hopen =>
    have hbase : Sound (s.setCall q (.fresh ask found now)) := by
      apply h.setCall
      · simp
      · simp [Phase.begun]
      · simp [hcall]
      · simp
    refine hbase.update (fun _ => rfl) (fun _ => rfl) fun y hy hp => ?_
    have hyid : y.id = found := by
      simp only [decide_eq_true_eq] at hp
      exact hp.1
    have hykey := (h.known q ask now found status hcall).2 y hy hyid
    exact ⟨(ask, found), by simp, hykey.symm⟩
  | marked q ask recordId takenAt now hcall =>
    exact h.update (fun _ => rfl) (fun _ => rfl) fun y hy _ => h.nonces y hy
  | lost q ask recordId takenAt now hcall hlost =>
    apply h.setCall
    · simp
    · simp [Phase.begun]
    · simp [hcall]
    · simp
  | completed q ask recordId responseStatus responsePayload now hcall =>
    exact h.report hcall (fun _ => rfl) (fun _ => rfl) fun _ => rfl
  | failed q ask recordId now hcall =>
    exact h.report hcall (fun _ => rfl) (fun _ => rfl) fun _ => rfl
  | swept now hnow => exact h.sweep now

theorem sound_run (as : List Action) : Sound (run as) := by
  apply @Run.foldl_inv _ _ step Sound
  · exact fun s a h => sound_step h a
  · exact sound_init

/-! ## Late reports -/

/-- A call that was handed a key keeps its claim. -/
theorem claim_step (a : Action) {c : Ask × ℕ} (h : (s.calls q).claim? = some c) :
    ((s.step a).calls q).claim? = some c := by
  have hm := step_moved s a
  revert hm
  generalize s.step a = s'
  intro hm
  have hmove : ∀ p phase, ((s.calls p).claim? = some c → phase.claim? = some c) →
      ((s.setCall p phase).calls q).claim? = some c := by
    intro p phase hphase
    by_cases hpq : q = p
    · subst hpq
      simpa using hphase h
    · rwa [calls_setCall_of_ne hpq]
  cases hm with
  | rest => exact h
  | tick => exact h
  | conflicted p _ _ hcall => exact hmove p _ (by simp [hcall])
  | inserted p _ _ hcall => exact hmove p _ (by simp [hcall])
  | gone p _ _ hcall => exact hmove p _ (by simp [hcall])
  | reused p _ _ _ hcall => exact hmove p _ (by simp [hcall])
  | replayed p _ _ _ hcall => exact hmove p _ (by simp [hcall])
  | looked p _ _ _ hcall => exact hmove p _ (by simp [hcall])
  | refused p _ _ _ _ _ hcall => exact hmove p _ (by simp [hcall])
  | retaken p _ _ _ _ _ hcall => exact hmove p _ (by simp [hcall])
  | marked => exact h
  | lost p _ _ _ _ hcall => exact hmove p _ (by simp [hcall])
  | completed p _ _ _ _ _ hcall => exact hmove p _ fun hc => hcall.symm.trans hc
  | failed p _ _ _ hcall => exact hmove p _ fun hc => hcall.symm.trans hc
  | swept => exact h

/-- No record answers to the call. -/
def Ousted (s : Idempotency) (q : ℕ) : Prop := ∀ r ∈ s.records, r.claimNonce ≠ q

/-- An `UPDATE` that leaves the nonces brings no record back to the call. -/
theorem Ousted.update (h : Ousted s q) {p : IdempotencyRecord → Bool}
    {f : IdempotencyRecord → IdempotencyRecord}
    (hf : ∀ r, p r = true → r.claimNonce ≠ q → (f r).claimNonce ≠ q) :
    Ousted (s.updateRecords p f) q := by
  intro y hy
  rcases Table.mem_update.mp hy with ⟨hy, -⟩ | ⟨x, hx, hp, rfl⟩
  · exact h y hy
  · exact hf x hp (h x hx)

/-- A call that was handed a key is not handed it again. -/
theorem ousted_step {c : Ask × ℕ} (hclaim : (s.calls q).claim? = some c) (h : Ousted s q)
    (a : Action) : Ousted (s.step a) q := by
  have hm := step_moved s a
  revert hm
  generalize s.step a = s'
  intro hm
  cases hm with
  | rest => exact h
  | tick => exact h
  | conflicted => exact h
  | inserted p ask now hcall =>
    intro r hr
    simp only [records_setCall, List.mem_append, List.mem_singleton] at hr
    rcases hr with hr | rfl
    · exact h r hr
    · rintro rfl
      simp [newRecord, hcall] at hclaim
  | gone => exact h
  | reused => exact h
  | replayed => exact h
  | looked => exact h
  | refused => exact h
  | retaken p ask now found status r hcall =>
    refine h.update fun x _ _ => ?_
    rintro rfl
    simp [hcall] at hclaim
  | marked => exact h.update fun _ _ hx => hx
  | lost => exact h
  | completed => exact h.update fun _ _ hx => hx
  | failed => exact h.update fun _ _ hx => hx
  | swept => exact fun r hr => h r (List.mem_filter.mp hr).1

/-- **Handing a key to one call takes it from every other.** -/
theorem ousted_of_handed (h : Sound s) {c c' : Ask × ℕ} (hclaim : (s.calls q).claim? = some c)
    (hnot : (s.calls q').claim? = none) (hnow : ((s.step a).calls q').claim? = some c')
    (hkey : c'.1.key = c.1.key) : Ousted (s.step a) q := by
  have hm := step_moved s a
  revert hm hnow
  generalize s.step a = s'
  intro hnow hm
  -- a record of the call's is one for its key
  have hrow : ∀ r ∈ s.records, r.claimNonce = q → r.key = c.1.key := by
    rintro r hr rfl
    obtain ⟨c'', hc'', hr⟩ := h.nonces r hr
    rw [hclaim] at hc''
    cases hc''
    exact hr.symm
  -- only the call that moves can have been handed anything
  have hmove : ∀ p phase, ((s.setCall p phase).calls q').claim? = some c' →
      q' = p ∧ phase.claim? = some c' := by
    intro p phase hp
    by_cases hpq : q' = p
    · subst hpq
      exact ⟨rfl, by simpa using hp⟩
    · rw [calls_setCall_of_ne hpq, hnot] at hp
      cases hp
  cases hm with
  | rest => cases hnot.symm.trans hnow
  | tick => cases hnot.symm.trans hnow
  | conflicted p ask now => simpa using (hmove p _ hnow).2
  | inserted p ask now hcall _ hfree =>
    obtain ⟨rfl, hc⟩ := hmove p _ hnow
    obtain rfl : (ask, q') = c' := by simpa using hc
    intro r hr
    simp only [records_setCall, List.mem_append, List.mem_singleton] at hr
    rcases hr with hr | rfl
    · intro hq
      exact hfree r hr ((hrow r hr hq).trans hkey.symm)
    · rintro rfl
      simp [newRecord, hcall] at hclaim
  | gone p ask now hcall hfree =>
    obtain ⟨rfl, hc⟩ := hmove p _ hnow
    obtain rfl : (ask, q') = c' := by simpa using hc
    intro r hr hq
    exact hfree r hr ((hrow r hr hq).trans hkey.symm)
  | reused p => simpa using (hmove p _ hnow).2
  | replayed p => simpa using (hmove p _ hnow).2
  | looked p => simpa using (hmove p _ hnow).2
  | refused p => simpa using (hmove p _ hnow).2
  | retaken p ask now found status r hcall hr hid hopen =>
    obtain ⟨rfl, hc⟩ := hmove p _ hnow
    obtain rfl : (ask, found) = c' := by simpa using hc
    -- the record taken over is the only one for the key
    have hone : r.key = ask.key := (h.known q' ask now found status hcall).2 r hr hid
    intro y hy
    rcases Table.mem_update.mp hy with ⟨hy, hp⟩ | ⟨x, hx, -, rfl⟩
    · intro hq
      have hyr : y = r := by
        apply h.keys y hy r hr
        rw [hrow y hy hq, hone]
        exact hkey.symm
      subst hyr
      simp [hid, hopen] at hp
    · rintro rfl
      simp [hcall] at hclaim
  | marked => cases hnot.symm.trans hnow
  | lost p _ _ _ _ hcall =>
    obtain ⟨rfl, -⟩ := hmove p _ hnow
    simp [hcall] at hnot
  | completed p _ _ _ _ _ hcall =>
    obtain ⟨rfl, -⟩ := hmove p _ hnow
    cases hnot.symm.trans hcall
  | failed p _ _ _ hcall =>
    obtain ⟨rfl, -⟩ := hmove p _ hnow
    cases hnot.symm.trans hcall
  | swept => cases hnot.symm.trans hnow

/-- What a call says of its claim. -/
inductive Report (q : ℕ) : Action → Prop
  | markInDoubt (now) : Report q (.markInDoubt q now)
  | complete (responseStatus responsePayload now) :
      Report q (.complete q responseStatus responsePayload now)
  | fail (now) : Report q (.fail q now)

/-- **A call no record answers to changes none.** -/
theorem report_of_ousted (h : Ousted s q) (ha : Report q a) :
    (s.step a).records = s.records := by
  have hheld : ∀ i, s.records.any (fun r => r.heldByClaim i q) = false := by
    intro i
    rw [List.any_eq_false]
    intro r hr
    simp [IdempotencyRecord.heldByClaim, h r hr]
  have hm := step_moved s a
  revert hm
  generalize s.step a = s'
  intro hm
  cases ha with
  | markInDoubt now =>
    cases hm with
    | rest => rfl
    | marked _ ask recordId takenAt =>
      apply Table.update_of_notAny
      rw [List.any_eq_false]
      intro r hr
      simp [h r hr]
    | lost => rfl
  | complete =>
    cases hm with
    | rest => rfl
    | completed _ ask recordId => exact Table.update_of_notAny (hheld recordId)
  | fail =>
    cases hm with
    | rest => rfl
    | failed _ ask recordId => exact Table.update_of_notAny (hheld recordId)

theorem run_append (as bs : List Action) : run (as ++ bs) = bs.foldl step (run as) := by
  simp [run, List.foldl_append]

/-- Once another call was handed the key, no record answers to the first any more. -/
theorem ousted_run {as bs : List Action} {c c' : Ask × ℕ}
    (hclaim : ((run as).calls q).claim? = some c) (hnot : ((run as).calls q').claim? = none)
    (hnow : ((run (as ++ bs)).calls q').claim? = some c') (hkey : c'.1.key = c.1.key) :
    ((run (as ++ bs)).calls q).claim? = some c ∧ Ousted (run (as ++ bs)) q := by
  -- carried along: until the other call is handed a key nothing is promised
  have hinv : Sound (run (as ++ bs)) ∧ ((run (as ++ bs)).calls q).claim? = some c ∧
      ∀ c', ((run (as ++ bs)).calls q').claim? = some c' → c'.1.key = c.1.key →
        Ousted (run (as ++ bs)) q := by
    rw [run_append]
    apply @Run.foldl_inv _ _ step (fun s => Sound s ∧ (s.calls q).claim? = some c ∧
      ∀ c', (s.calls q').claim? = some c' → c'.1.key = c.1.key → Ousted s q)
    · rintro s a ⟨hs, hc, ho⟩
      refine ⟨sound_step hs a, claim_step a hc, fun d hd hdk => ?_⟩
      cases hq' : (s.calls q').claim? with
      | none => exact ousted_of_handed hs hc hq' hd hdk
      | some d' =>
        obtain rfl : d' = d := by
          have hkept := claim_step a hq'
          rw [hd] at hkept
          simpa using hkept.symm
        exact ousted_step hc (ho d' hq' hdk) a
    · refine ⟨sound_run as, hclaim, fun d hd _ => ?_⟩
      cases hnot.symm.trans hd
  exact ⟨hinv.2.1, hinv.2.2 c' hnow hkey⟩

theorem ousted_append {as bs : List Action} {c : Ask × ℕ}
    (hclaim : ((run as).calls q).claim? = some c) (h : Ousted (run as) q) :
    Ousted (run (as ++ bs)) q := by
  have hinv : ((run (as ++ bs)).calls q).claim? = some c ∧ Ousted (run (as ++ bs)) q := by
    rw [run_append]
    apply @Run.foldl_inv _ _ step (fun s => (s.calls q).claim? = some c ∧ Ousted s q)
    · exact fun s a hs => ⟨claim_step a hs.1, ousted_step hs.1 hs.2 a⟩
    · exact ⟨hclaim, h⟩
  exact hinv.2

/-! ## Stored responses -/

theorem clock_step (s : Idempotency) (a : Action) : s.clock ≤ (s.step a).clock := by
  have hm := step_moved s a
  revert hm
  generalize s.step a = s'
  intro hm
  cases hm with
  | tick d => exact Nat.le_add_right _ _
  | _ => exact le_rfl

/-- The answer to a call that asks while the response stands. -/
def Answers (r : IdempotencyRecord) (phase : Phase) : Prop :=
  ∀ ask, phase.ask? = some ask → ask.key = r.key →
    (∃ now, phase = .conflicted ask now) ∨
    phase = .replay ask r.id r.responseStatus r.responsePayload ∨
    ask.requestHash ≠ r.requestHash ∧ phase = .refused ask (.problem keyReused)

/-- A call handed a key asked for another. -/
theorem Answers.key_ne_of_claim {r : IdempotencyRecord} {phase : Phase} (h : Answers r phase)
    {ask : Ask} {recordId : ℕ} (hc : phase.claim? = some (ask, recordId)) : ask.key ≠ r.key := by
  intro hkey
  have hask : phase.ask? = some ask := by
    cases phase <;> simp_all [Phase.ask?]
  rcases h ask hask hkey with ⟨now, rfl⟩ | rfl | ⟨-, rfl⟩
  · cases hc
  · cases hc
  · cases hc

/-- And so did one that is about to take a record over. -/
theorem Answers.key_ne_of_looked {r : IdempotencyRecord} {ask : Ask} {now found : ℕ}
    {status : IdempotencyStatus} (h : Answers r (.looked ask now found status)) :
    ask.key ≠ r.key := by
  intro hkey
  rcases h ask rfl hkey with ⟨now, hc⟩ | hc | ⟨-, hc⟩
  · cases hc
  · cases hc
  · cases hc

/-- A response stands, and the calls that asked since were given it. -/
structure Answering (s : Idempotency) (r : IdempotencyRecord) (later : ℕ → Prop) : Prop where
  stands : r ∈ s.records
  answers : ∀ q, later q → Answers r (s.calls q)

theorem Answering.setCall {r : IdempotencyRecord} {later : ℕ → Prop} (h : Answering s r later)
    {phase : Phase} (hphase : later q → Answers r phase) :
    Answering (s.setCall q phase) r later where
  stands := h.stands
  answers := by
    intro p hp
    by_cases hpq : p = q
    · subst hpq
      simpa using hphase hp
    · rw [calls_setCall_of_ne hpq]
      exact h.answers p hp

/-- A finished record is in no `UPDATE`. -/
theorem Answering.update {r : IdempotencyRecord} {later : ℕ → Prop} (h : Answering s r later)
    {p : IdempotencyRecord → Bool} {f : IdempotencyRecord → IdempotencyRecord}
    (hp : p r = false) : Answering (s.updateRecords p f) r later where
  stands := Table.mem_update.mpr (Or.inl ⟨h.stands, hp⟩)
  answers := h.answers

/-- A report is of a call that asked for another key. -/
theorem Answering.done {r : IdempotencyRecord} {later : ℕ → Prop} (h : Answering s r later)
    {ask : Ask} {recordId : ℕ} (hc : (s.calls q).claim? = some (ask, recordId)) :
    Answering (s.setCall q (.done ask recordId)) r later := by
  apply h.setCall
  intro hq ask' hask hask'
  cases hask
  exact absurd hask' ((h.answers q hq).key_ne_of_claim hc)

theorem answering_step (hs : Sound s) {r : IdempotencyRecord} {later : ℕ → Prop}
    (hstatus : r.status = .completed) (h : Answering s r later)
    (hlife : (s.step a).clock ≤ r.expiresAt) : Answering (s.step a) r later := by
  have hclock := clock_step s a
  have hm := step_moved s a
  revert hm hlife hclock
  generalize s.step a = s'
  intro hlife hclock hm
  -- the record is the only one of its key
  have hone : ∀ r' ∈ s.records, ∀ ask : Ask, r'.key = ask.key → ask.key = r.key → r' = r :=
    fun r' hr' ask hkey hask => hs.keys r' hr' r h.stands (hkey.trans hask)
  have hheld : ∀ q i, r.heldByClaim i q = false := by
    simp [IdempotencyRecord.heldByClaim, IdempotencyRecord.open, hstatus]
  cases hm with
  | rest => exact h
  | tick => exact ⟨h.stands, h.answers⟩
  | conflicted q ask now =>
    apply h.setCall
    intro _ ask' hask _
    cases hask
    exact Or.inl ⟨now, rfl⟩
  | inserted q ask now hcall hnow hfree =>
    have hbase : Answering (s.setCall q (.fresh ask q now)) r later := by
      apply h.setCall
      intro _ ask' hask hkey
      cases hask
      exact absurd hkey.symm (hfree r h.stands)
    exact ⟨List.mem_append_left _ hbase.stands, hbase.answers⟩
  | gone q ask now hcall hfree =>
    apply h.setCall
    intro _ ask' hask hkey
    cases hask
    exact absurd hkey.symm (hfree r h.stands)
  | reused q ask now r' hcall hr' hkey hbody =>
    apply h.setCall
    intro _ ask' hask hask'
    cases hask
    obtain rfl := hone r' hr' ask hkey hask'
    exact Or.inr (Or.inr ⟨hbody.symm, rfl⟩)
  | replayed q ask now r' hcall hr' hkey _ =>
    apply h.setCall
    intro _ ask' hask hask'
    cases hask
    obtain rfl := hone r' hr' ask hkey hask'
    exact Or.inr (Or.inl rfl)
  | looked q ask now r' hcall hr' hkey hnot =>
    apply h.setCall
    intro _ ask' hask hask'
    cases hask
    obtain rfl := hone r' hr' ask hkey hask'
    exact absurd hstatus hnot
  | refused q ask now found status refusal hcall =>
    apply h.setCall
    intro hq ask' hask hask'
    cases hask
    have hans := h.answers q hq
    rw [hcall] at hans
    exact absurd hask' hans.key_ne_of_looked
  | retaken q ask now found status r' hcall hr' hid hopen =>
    have hbase : Answering (s.setCall q (.fresh ask found now)) r later := by
      apply h.setCall
      intro hq ask' hask hask'
      cases hask
      have hans := h.answers q hq
      rw [hcall] at hans
      exact absurd hask' hans.key_ne_of_looked
    apply hbase.update
    simp [IdempotencyRecord.retakable, hstatus]
  | marked =>
    apply h.update
    simp [hstatus]
  | lost q ask recordId takenAt now hcall =>
    exact h.done (by rw [hcall]; rfl)
  | completed q ask recordId responseStatus responsePayload now hcall =>
    exact (h.update (hheld q recordId)).done hcall
  | failed q ask recordId now hcall =>
    exact (h.update (hheld q recordId)).done hcall
  | swept now hnow =>
    refine ⟨List.mem_filter.mpr ⟨h.stands, ?_⟩, h.answers⟩
    have hle : now ≤ r.expiresAt := hnow.trans hlife
    simpa using hle

/-- **A stored response is what every later call is given**, for as long as it lasts. -/
theorem answering_run {as bs : List Action} {r : IdempotencyRecord} (hr : r ∈ (run as).records)
    (hstatus : r.status = .completed) (hlife : (run (as ++ bs)).clock ≤ r.expiresAt) :
    Answering (run (as ++ bs)) r fun q => (run as).calls q = .idle := by
  have hinv : Sound (run (as ++ bs)) ∧ ((run (as ++ bs)).clock ≤ r.expiresAt →
      Answering (run (as ++ bs)) r fun q => (run as).calls q = .idle) := by
    rw [run_append]
    apply @Run.foldl_inv _ _ step (fun s => Sound s ∧ (s.clock ≤ r.expiresAt →
      Answering s r fun q => (run as).calls q = .idle))
    · rintro s a ⟨hs, h⟩
      refine ⟨sound_step hs a, fun hclock => ?_⟩
      exact answering_step hs hstatus (h ((clock_step s a).trans hclock)) hclock
    · refine ⟨sound_run as, fun _ => ⟨hr, fun q hq ask hask => ?_⟩⟩
      rw [hq] at hask
      cases hask
  exact hinv.2 hlife

/-- A call that waits for its answer gets it from the stored response. -/
theorem look_answered (hs : Sound s) {r : IdempotencyRecord} (hr : r ∈ s.records)
    (hstatus : r.status = .completed) {ask : Ask} {now : ℕ}
    (hcall : s.calls q = .conflicted ask now) (hkey : ask.key = r.key)
    (hbody : ask.requestHash = r.requestHash) :
    (s.step (.look q)).calls q = .replay ask r.id r.responseStatus r.responsePayload := by
  have hfind : s.records.find? (fun x => x.key = ask.key) = some r := by
    cases hx : s.records.find? (fun x => x.key = ask.key) with
    | none =>
      have hnone := List.find?_eq_none.mp hx r hr
      exact absurd hkey.symm (by simpa using hnone)
    | some x =>
      have hxkey : x.key = ask.key := by simpa using List.find?_some hx
      rw [hs.keys x (List.mem_of_find?_eq_some hx) r hr (hxkey.trans hkey)]
  simp only [step, hcall, look, hfind, hbody, ne_eq, not_true_eq_false, if_false, hstatus, if_true,
    calls_setCall_self]

/-! ## One holder -/

/-- A call within its lease has its record behind it. -/
def Backed (s : Idempotency) : Prop :=
  ∀ q ask recordId takenAt, s.calls q = .fresh ask recordId takenAt →
    s.clock ≤ takenAt + claimLease →
    ∃ r ∈ s.records, r.key = ask.key ∧ r.claimNonce = q ∧ r.open = true ∧
      (r.status = .processing → r.updatedAt = takenAt)

theorem holds_iff {key : IdempotencyKey} : s.holds q key = true ↔
    ∃ ask recordId takenAt, s.calls q = .fresh ask recordId takenAt ∧ ask.key = key ∧
      s.clock ≤ takenAt + claimLease := by
  unfold holds
  split
  · rename_i ask recordId takenAt hcall
    simp [hcall]
  · rename_i hother
    simp only [Bool.false_eq_true, false_iff]
    rintro ⟨ask, recordId, takenAt, hcall, -⟩
    exact hother ask recordId takenAt hcall

/-- The steps that keep the keys apart: no sweep deletes the record of a call within its
lease, and no claim finds the record it conflicted with gone. -/
def undisturbed (s : Idempotency) : Action → Bool
  | .sweep now => s.records.all fun r => ¬ (r.expiresAt < now ∧ s.holds r.claimNonce r.key)
  | .look q =>
    match s.calls q with
    | .conflicted ask _ => s.records.any fun r => r.key = ask.key
    | _ => true
  | _ => true

/-- Two calls with records of their own behind them hold two keys. -/
theorem Backed.exclusive (h : Backed s) (hs : Sound s) {key : IdempotencyKey}
    (hq : s.holds q key) (hq' : s.holds q' key) : q = q' := by
  obtain ⟨ask, i, t, hcall, hkey, hlive⟩ := (holds_iff).mp hq
  obtain ⟨ask', i', t', hcall', hkey', hlive'⟩ := (holds_iff).mp hq'
  obtain ⟨r, hr, hrkey, hrq, -⟩ := h q ask i t hcall hlive
  obtain ⟨r', hr', hrkey', hrq', -⟩ := h q' ask' i' t' hcall' hlive'
  have hsame : r = r' := by
    apply hs.keys r hr r' hr'
    rw [hrkey, hrkey', hkey, hkey']
  rw [← hrq, ← hrq', hsame]

/-- A call that is not handed the key needs no record. -/
theorem Backed.setCall (h : Backed s) {phase : Phase}
    (hphase : ∀ ask i t, phase ≠ .fresh ask i t) : Backed (s.setCall q phase) := by
  intro p ask i t hp hlive
  have hpq : p ≠ q := by
    rintro rfl
    exact hphase ask i t (by simpa using hp)
  rw [calls_setCall_of_ne hpq] at hp
  exact h p ask i t hp hlive

/-- An `UPDATE` that leaves out the records of calls within their leases. -/
theorem Backed.report (h : Backed s) {p : IdempotencyRecord → Bool}
    {f : IdempotencyRecord → IdempotencyRecord} (hp : ∀ r, p r = true → r.claimNonce = q)
    {phase : Phase} (hphase : ∀ ask i t, phase ≠ .fresh ask i t) :
    Backed ((s.updateRecords p f).setCall q phase) := by
  intro x ask i t hx hlive
  have hxq : x ≠ q := by
    rintro rfl
    exact hphase ask i t (by simpa using hx)
  rw [calls_setCall_of_ne hxq] at hx
  obtain ⟨r, hr, hkey, hnonce, hrest⟩ := h x ask i t hx hlive
  refine ⟨r, Table.mem_update.mpr (Or.inl ⟨hr, ?_⟩), hkey, hnonce, hrest⟩
  rw [Bool.eq_false_iff]
  intro hpr
  exact hxq (hnonce.symm.trans (hp r hpr))

theorem backed_step (hs : Sound s) (h : Backed s) (hquiet : undisturbed s a = true) :
    Backed (s.step a) := by
  have hm := step_moved s a
  revert hm
  generalize s.step a = s'
  intro hm
  cases hm with
  | rest => exact h
  | tick d =>
    intro q ask i t hcall hlive
    exact h q ask i t hcall ((Nat.le_add_right _ _).trans hlive)
  | conflicted => exact h.setCall (by simp)
  | inserted q ask now hcall hnow hfree =>
    intro p ask' i t hp hlive
    by_cases hpq : p = q
    · subst hpq
      obtain ⟨rfl, rfl, rfl⟩ : ask = ask' ∧ p = i ∧ now = t := by simpa using hp
      refine ⟨newRecord p ask now, by simp, rfl, rfl, rfl, fun _ => rfl⟩
    · rw [calls_setCall_of_ne hpq] at hp
      obtain ⟨r, hr, hrest⟩ := h p ask' i t hp hlive
      exact ⟨r, List.mem_append_left _ hr, hrest⟩
  | gone q ask now hcall hfree =>
    simp only [undisturbed, hcall, List.any_eq_true, decide_eq_true_eq] at hquiet
    obtain ⟨r, hr, hkey⟩ := hquiet
    exact absurd hkey (hfree r hr)
  | reused => exact h.setCall (by simp)
  | replayed => exact h.setCall (by simp)
  | looked => exact h.setCall (by simp)
  | refused => exact h.setCall (by simp)
  | retaken q ask now found status r hcall hr hid hopen =>
    have hnow : now ≤ s.clock := hs.begun q now (by rw [hcall]; rfl)
    intro p ask' i t hp hlive
    by_cases hpq : p = q
    · subst hpq
      obtain ⟨rfl, rfl, rfl⟩ : ask = ask' ∧ found = i ∧ now = t := by simpa using hp
      have hkey := (hs.known p ask now found status hcall).2 r hr hid
      refine ⟨_, Table.mem_update.mpr (Or.inr ⟨r, hr, ?_, rfl⟩), hkey, rfl, rfl, fun _ => rfl⟩
      simp [hid, hopen]
    · rw [calls_setCall_of_ne hpq] at hp
      obtain ⟨y, hy, hkey, hnonce, hyopen, hstamp⟩ := h p ask' i t hp hlive
      refine ⟨y, Table.mem_update.mpr (Or.inl ⟨hy, ?_⟩), hkey, hnonce, hyopen, hstamp⟩
      -- a record within its lease is neither failed nor silent for long enough
      rw [Bool.eq_false_iff]
      intro hpick
      simp only [IdempotencyRecord.retakable, IdempotencyRecord.open, decide_eq_true_eq] at *
      rcases hpick.2 with hfailed | ⟨hproc, hlapsed⟩
      · simp [hfailed] at hyopen
      · have := hstamp hproc
        have hlive : s.clock ≤ t + claimLease := hlive
        omega
  | marked q ask recordId takenAt now hcall =>
    intro p ask' i t hp hlive
    obtain ⟨y, hy, hkey, hnonce, hopen, hstamp⟩ := h p ask' i t hp hlive
    by_cases hpick : y.id = recordId ∧ y.status = .processing ∧ y.claimNonce = q
    · refine ⟨_, Table.mem_update.mpr (Or.inr ⟨y, hy, by simpa using hpick, rfl⟩), hkey, hnonce,
        rfl, ?_⟩
      simp
    · exact ⟨y, Table.mem_update.mpr (Or.inl ⟨hy, by simpa using hpick⟩), hkey, hnonce, hopen,
        hstamp⟩
  | lost => exact h.setCall (by simp)
  | completed =>
    refine h.report (fun r hr => ?_) (by simp)
    simp only [IdempotencyRecord.heldByClaim, decide_eq_true_eq] at hr
    exact hr.2.2
  | failed =>
    refine h.report (fun r hr => ?_) (by simp)
    simp only [IdempotencyRecord.heldByClaim, decide_eq_true_eq] at hr
    exact hr.2.2
  | swept now hnow =>
    intro q ask i t hcall hlive
    obtain ⟨r, hr, hkey, hnonce, hrest⟩ := h q ask i t hcall hlive
    refine ⟨r, List.mem_filter.mpr ⟨hr, ?_⟩, hkey, hnonce, hrest⟩
    have hkept : ¬ r.expiresAt < now := by
      intro hexpired
      simp only [undisturbed, List.all_eq_true, decide_eq_true_eq] at hquiet
      apply hquiet r hr
      rw [hnonce, hkey]
      exact ⟨hexpired, (holds_iff).mpr ⟨ask, i, t, hcall, rfl, hlive⟩⟩
    simpa using hkept

theorem backed_run {as : List Action} (h : Run.Guarded step (fun s a => undisturbed s a) init as) :
    Backed (run as) := by
  have hinv : Sound (run as) ∧ Backed (run as) := by
    refine @Run.Guarded.inv _ _ step (fun s a => undisturbed s a) (fun s => Sound s ∧ Backed s) ?_
      init as ?_ h
    · exact fun s a hs hquiet => ⟨sound_step hs.1 a, backed_step hs.1 hs.2 hquiet⟩
    · exact ⟨sound_init, by simp [Backed, init]⟩
  exact hinv.2

/-! ## The claim on a key -/

/-- What holds of the keys after a run: no two calls hold a key within their leases; what a
call reports of a key that was handed on since changes no record; and a call that asks with
a key whose response is stored, and the same body, waits for its answer or was given exactly
that response, and its `SELECT` gives it that. -/
structure KeyProperty (as : List Action) : Prop where
  exclusive : ∀ key q q', (run as).holds q key → (run as).holds q' key → q = q'
  late : ∀ bs cs ds q q' c c', as = bs ++ cs ++ ds → ((run bs).calls q).claim? = some c →
    ((run bs).calls q').claim? = none → ((run (bs ++ cs)).calls q').claim? = some c' →
    c'.1.key = c.1.key → ∀ a, Report q a → ((run as).step a).records = (run as).records
  replays : ∀ bs cs r q ask, as = bs ++ cs → r ∈ (run bs).records → r.status = .completed →
    (run as).clock ≤ r.expiresAt → (run bs).calls q = .idle →
    ((run as).calls q).ask? = some ask → ask.key = r.key → ask.requestHash = r.requestHash →
    let answer := Phase.replay ask r.id r.responseStatus r.responsePayload
    (run as).calls q = answer ∨
      (∃ now, (run as).calls q = .conflicted ask now) ∧
        ((run as).step (.look q)).calls q = answer

theorem late_report_idle {bs cs ds : List Action} {c c' : Ask × ℕ}
    (hclaim : ((run bs).calls q).claim? = some c) (hnot : ((run bs).calls q').claim? = none)
    (hnow : ((run (bs ++ cs)).calls q').claim? = some c') (hkey : c'.1.key = c.1.key)
    (ha : Report q a) :
    ((run (bs ++ cs ++ ds)).step a).records = (run (bs ++ cs ++ ds)).records := by
  obtain ⟨hkept, hout⟩ := ousted_run hclaim hnot hnow hkey
  exact report_of_ousted (ousted_append hkept hout) ha

theorem replayed_exactly {bs cs : List Action} {r : IdempotencyRecord} {ask : Ask}
    (hr : r ∈ (run bs).records) (hstatus : r.status = .completed)
    (hlife : (run (bs ++ cs)).clock ≤ r.expiresAt) (hidle : (run bs).calls q = .idle)
    (hask : ((run (bs ++ cs)).calls q).ask? = some ask) (hkey : ask.key = r.key)
    (hbody : ask.requestHash = r.requestHash) :
    let answer := Phase.replay ask r.id r.responseStatus r.responsePayload
    (run (bs ++ cs)).calls q = answer ∨
      (∃ now, (run (bs ++ cs)).calls q = .conflicted ask now) ∧
        ((run (bs ++ cs)).step (.look q)).calls q = answer := by
  have hans := answering_run hr hstatus hlife
  rcases hans.answers q hidle ask hask hkey with ⟨now, hcall⟩ | hcall | ⟨hne, -⟩
  · refine Or.inr ⟨⟨now, hcall⟩, ?_⟩
    exact look_answered (sound_run _) hans.stands hstatus hcall hkey hbody
  · exact Or.inl hcall
  · exact absurd hbody hne

/-- **Undisturbed, a key has one holder at a time.** -/
theorem idempotency_key_held_once (as : List Action)
    (h : Run.Guarded step (fun s a => undisturbed s a) init as) : KeyProperty as where
  exclusive := fun _ _ _ hq hq' => (backed_run h).exclusive (sound_run as) hq hq'
  late := by
    rintro bs cs ds q q' c c' rfl hclaim hnot hnow hkey a ha
    exact late_report_idle hclaim hnot hnow hkey ha
  replays := by
    rintro bs cs r q ask rfl hr hstatus hlife hidle hask hkey hbody
    exact replayed_exactly hr hstatus hlife hidle hask hkey hbody

/-- The request of the runs below. -/
def callLead : Ask where
  key := ⟨"tenant:user", "/v1/leads/{id}/call", "POST", "once"⟩
  requestHash := "body"

/-- A key that failed, was claimed again the moment before its record expired, and is
claimed a third time while the second holder is at work. -/
def sweptUnderHolder : List Action :=
  [.claim 0 callLead 0, .fail 0 0, .tick idempotencyTtl, .claim 1 callLead idempotencyTtl,
    .look 1, .settle 1, .tick 1, .sweep (idempotencyTtl + 1),
    .claim 2 callLead (idempotencyTtl + 1)]

/-- **The sweep can hand a key to a second holder.** -/
theorem sweptUnderHolder_two_holders : ¬ ∀ as, KeyProperty as := by
  intro h
  have hsame := (h sweptUnderHolder).exclusive callLead.key 1 2 (by decide +kernel)
    (by decide +kernel)
  exact absurd hsame (by decide)

/-- A key that is asked for at once, again after its response is stored, and swept too early:
a run that disturbs nothing. -/
theorem idempotency_key_held_once_replayed :
    KeyProperty [.claim 0 callLead 0, .claim 1 callLead 0, .complete 0 200 "accepted" 0, .look 1,
      .sweep 0] :=
  idempotency_key_held_once _ (by decide +kernel)

end Idempotency

end Calevate.Reliability
