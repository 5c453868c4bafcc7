import Calevate.Campaigns.WindowMarks
import Calevate.Platform.MaintenanceTicks

/-!
# Maintenance puts the platform back

Once the window is closed and a tick has found none open, the mode is the one from before it and
no campaign waits for it, in every run where a tick that completes a window is let finish, has
read the mode to restore, and no older tick goes on to pause campaigns or to shut clients out.
None of these holds by itself: the completion, the mode and the campaigns are separate
transactions owed by a tick that looks only at open windows.
-/

namespace Calevate

namespace Platform

open Lib

namespace Course

/-! ## The promise, and what it takes -/

/-- No window is open. -/
def Closed (s : State) : Prop := ∀ k w, s.windows k = some w → w.open = false

/-- Maintenance has left the platform as it found it. -/
structure PutBack (s : State) : Prop where
  mode : s.mode ≠ .maintenance
  before : s.operatorSince = false → s.mode = s.modeBefore
  campaigns : ∀ r ∈ s.campaigns.campaigns.rows, r.status = .paused →
    ∀ k w, r.pausedByMaintenanceId = some k → s.windows k = some w → w.state ≠ .completed

/-- Clients are shut out behind a tick over an active window. -/
def ShutBehind (s s' : State) (i : ℕ) : Prop :=
  ∀ tick, (s.stage i = .atArm tick ∧ tick.window.state = .active ∨ s.stage i = .shedding tick) →
    s'.stage i = .idle →
      ∀ w, s'.windows tick.windowId = some w → w.state = .active → s'.mode = .maintenance

/-- The window has begun and is not over. -/
def Underway (s : State) (k : ℕ) : Prop :=
  ∃ w, s.windows k = some w ∧ (w.state = .draining ∨ w.state = .active)

/-- The next transaction of a session finds what it goes by. A tick that looks at the mode is
answered the one in force; one that completes a window has read the mode to restore, which for
a window still draining is the one in force; one that pauses campaigns or sheds clients does so
for a window that is not over; one that resumes campaigns reaches every tenant that has one. -/
def FineAt (s : State) (i : ℕ) (seen : LoadShedMode) : Prop :=
  match s.stage i with
  | .atArm tick =>
    match tick.arm with
    | .nothing => tick.window.state = .active → seen = s.mode
    | .complete => ∀ w ∈ s.windows tick.windowId, w.state = .draining ∨ w.state = .active →
        w.restoreLoadShedMode = tick.window.restoreLoadShedMode ∧
          (w.state = .draining → s.operatorSince = false → s.mode = .normal)
    | _ => True
  | .pausing tick (t :: _) => ∀ r ∈ s.campaigns.campaigns.rows, r.tenantId = t →
      r.status = .running → ∃ w ∈ s.windows tick.windowId, w.state = .draining ∨ w.state = .active
  | .shedding tick => ∃ w ∈ s.windows tick.windowId, w.state = .active
  | .toResume tick => ∀ r ∈ s.campaigns.campaigns.rows,
      r.pausedByMaintenanceId = some tick.windowId → r.tenantId ∈ s.callable
  | _ => True

/-- A tick that has completed a window is let finish before the next one begins or the next
window is scheduled, and an operator does not put the platform into maintenance by hand. -/
def Fine (s : State) : Action → Prop
  | .schedule _ => ∀ j, (s.stage j).puttingBack = false
  | .tick _ _ _ _ => ∀ j, (s.stage j).puttingBack = false
  | .advance i _ seen => FineAt s i seen
  | .stop i => (s.stage i).puttingBack = false
  | .operator mode => mode ≠ .maintenance
  | _ => True

/-! ## What every fine step keeps -/

/-- What a tick has still to resume. -/
def Stage.owes : Stage → ℕ → ℕ → Prop
  | .restoring tick, k, _ => k = tick.windowId
  | .toResume tick, k, _ => k = tick.windowId
  | .resuming tick tenants, k, t => k = tick.windowId ∧ t ∈ tenants
  | _, _, _ => False

/-- What a session at the stage goes by is so. -/
def Stage.Fits (s : State) : Stage → Prop
  | .atArm tick => tick.window.state ≠ .scheduled →
      ∃ w, s.windows tick.windowId = some w ∧ w.state ≠ .scheduled
  | .activating tick => ∃ w, s.windows tick.windowId = some w ∧ w.state ≠ .scheduled ∧
      (w.state = .draining → s.operatorSince = false → tick.restoreMode = s.modeBefore)
  | .restoring tick => (Closed s ∧ s.looked = false) ∧
      (s.operatorSince = false → restoreMode tick.window.restoreLoadShedMode = s.modeBefore)
  | .toResume _ => Closed s ∧ s.looked = false
  | .resuming _ _ => Closed s ∧ s.looked = false
  | _ => True

/-- The mode is one to serve clients in, and the one from before unless an operator set it. -/
def Serves (s : State) : Prop :=
  s.mode ≠ .maintenance ∧ (s.operatorSince = false → s.mode = s.modeBefore)

/-- No window is active and no tick has a mode to restore. -/
def Resting (s : State) : Prop :=
  (∀ k w, s.windows k = some w → w.state ≠ .active) ∧ ∀ j tick, s.stage j ≠ .restoring tick

structure Kept (s : State) : Prop where
  bounded : ∀ k w, s.windows k = some w → k < s.size
  one : ∀ k k' w w', s.windows k = some w → s.windows k' = some w' → w.open = true →
    w'.open = true → k = k'
  unactivated : ∀ k w, s.windows k = some w → w.state = .scheduled ∨ w.state = .draining →
    w.restoreLoadShedMode = none
  active : ∀ k w, s.windows k = some w → w.state = .active → ∃ r, w.restoreLoadShedMode = some r ∧
    r ≠ .maintenance ∧ (s.operatorSince = false → r = s.modeBefore)
  fits : ∀ j, (s.stage j).Fits s
  mode : Resting s → Serves s
  marks : ∀ r ∈ s.campaigns.campaigns.rows, ∀ k, r.pausedByMaintenanceId = some k →
    Underway s k ∨ ∃ j, (s.stage j).owes k r.tenantId

theorem kept_start : Kept start where
  bounded := fun _ _ h => nomatch h
  one := fun _ _ _ _ h => nomatch h
  unactivated := fun _ _ h => nomatch h
  active := fun _ _ h => nomatch h
  fits := fun _ => trivial
  mode := fun _ => ⟨nofun, fun _ => rfl⟩
  marks := fun _ h => absurd h List.not_mem_nil

theorem open_of_underway {w : MaintenanceWindow} (h : w.state = .draining ∨ w.state = .active) :
    w.open = true := by
  rcases h with h | h <;> simp [MaintenanceWindow.open, MaintenanceState.open, h]

theorem open_of_scheduled {w : MaintenanceWindow} (h : w.state = .scheduled) : w.open = true := by
  simp [MaintenanceWindow.open, MaintenanceState.open, h]

theorem restoreMode_tick_ne (tick : Tick) : tick.restoreMode ≠ .maintenance := by
  unfold Tick.restoreMode
  split
  · next h => exact h
  · nofun

/-- What a session goes by stays so while windows only move on and nothing is put on record. -/
theorem Stage.Fits.mono {s s' : State} {stage : Stage} (hf : stage.Fits s)
    (hclosed : Closed s → Closed s') (hlooked : s.looked = false → s'.looked = false)
    (hwindows : ∀ k v, s.windows k = some v → v.state ≠ .scheduled →
      ∃ v', s'.windows k = some v' ∧ v'.state ≠ .scheduled ∧
        (v'.state = .draining → v.state = .draining))
    (hsince : s'.operatorSince = false → s.operatorSince = false ∧ s'.modeBefore = s.modeBefore) :
    stage.Fits s' := by
  cases stage with
  | atArm tick =>
    intro hs
    obtain ⟨v, hv, hvs⟩ := hf hs
    obtain ⟨v', hv', hvs', -⟩ := hwindows _ v hv hvs
    exact ⟨v', hv', hvs'⟩
  | activating tick =>
    obtain ⟨v, hv, hvs, hmode⟩ := hf
    obtain ⟨v', hv', hvs', hdrain⟩ := hwindows _ v hv hvs
    refine ⟨v', hv', hvs', fun hd ho => ?_⟩
    rw [(hsince ho).2]
    exact hmode (hdrain hd) (hsince ho).1
  | restoring tick =>
    refine ⟨⟨hclosed hf.1.1, hlooked hf.1.2⟩, fun ho => ?_⟩
    rw [(hsince ho).2]
    exact hf.2 (hsince ho).1
  | toResume tick => exact ⟨hclosed hf.1, hlooked hf.2⟩
  | resuming tick tenants => exact ⟨hclosed hf.1, hlooked hf.2⟩
  | _ => trivial

/-- And where a window takes the mode down anew, a session that puts nothing back goes by nothing
that it changes: no other window is draining. -/
theorem Stage.Fits.anew {s s' : State} {stage : Stage} (hf : stage.Fits s)
    (hq : stage.puttingBack = false)
    (hwindows : ∀ k v, s.windows k = some v → v.state ≠ .scheduled →
      s'.windows k = some v ∧ v.state ≠ .draining) : stage.Fits s' := by
  cases stage with
  | atArm tick =>
    intro hs
    obtain ⟨v, hv, hvs⟩ := hf hs
    exact ⟨v, (hwindows _ v hv hvs).1, hvs⟩
  | activating tick =>
    obtain ⟨v, hv, hvs, -⟩ := hf
    obtain ⟨hv', hd⟩ := hwindows _ v hv hvs
    exact ⟨v, hv', hvs, fun h => absurd h hd⟩
  | restoring tick => cases hq
  | toResume tick => cases hq
  | resuming tick tenants => cases hq
  | _ => trivial

/-- A tick that is putting back goes by there being no window open, and nobody having looked. -/
theorem closed_of_puttingBack {s : State} {stage : Stage} (hf : stage.Fits s)
    (hq : stage.puttingBack = true) : Closed s ∧ s.looked = false := by
  cases stage <;> first | exact hf | exact hf.1 | cases hq

namespace Kept

variable {s s' : State} {i k : ℕ}

/-- While a window is open, no tick is still putting one back. -/
theorem not_puttingBack (h : Kept s) {w : MaintenanceWindow} (hw : s.windows k = some w)
    (hopen : w.open = true) (j : ℕ) : (s.stage j).puttingBack = false := by
  cases hq : (s.stage j).puttingBack with
  | false => rfl
  | true =>
    rw [(closed_of_puttingBack (h.fits j) hq).1 k w hw] at hopen
    cases hopen

theorem not_owes {stage : Stage} (hq : stage.puttingBack = false) (k t : ℕ) :
    ¬ stage.owes k t := by
  cases stage <;> first | exact id | cases hq

theorem not_restoring {stage : Stage} (hq : stage.puttingBack = false) (tick : Tick) :
    stage ≠ .restoring tick := by
  rintro rfl
  cases hq

theorem fits_goto (h : Kept s) {stage : Stage} (hfits : stage.Fits s) (j : ℕ) :
    ((s.goto i stage).stage j).Fits s := by
  by_cases hji : j = i
  · rw [hji, State.goto_stage_self]
    exact hfits
  · rw [State.goto_stage_of_ne s hji]
    exact h.fits j

theorem marks_goto (h : Kept s) {stage : Stage} {r : Campaigns.Pausing.Row}
    (hr : r ∈ s.campaigns.campaigns.rows) (hk : r.pausedByMaintenanceId = some k)
    (howes : (s.stage i).owes k r.tenantId → stage.owes k r.tenantId) :
    Underway s k ∨ ∃ j, ((s.goto i stage).stage j).owes k r.tenantId := by
  refine (h.marks r hr k hk).imp_right ?_
  rintro ⟨j, hj⟩
  refine ⟨j, ?_⟩
  by_cases hji : j = i
  · subst hji
    rw [State.goto_stage_self]
    exact howes hj
  · rw [State.goto_stage_of_ne s hji]
    exact hj

/-- A session goes on to another stage, owing what it owed. -/
theorem goOn (h : Kept s) {stage : Stage} (hnot : ∀ tick, s.stage i ≠ .restoring tick)
    (hfits : stage.Fits s)
    (howes : ∀ r ∈ s.campaigns.campaigns.rows, ∀ k, r.pausedByMaintenanceId = some k →
      (s.stage i).owes k r.tenantId → stage.owes k r.tenantId) :
    Kept (s.goto i stage) where
  bounded := h.bounded
  one := h.one
  unactivated := h.unactivated
  active := h.active
  fits := h.fits_goto hfits
  mode := fun hrest => by
    refine h.mode ⟨hrest.1, fun j tick hj => ?_⟩
    by_cases hji : j = i
    · subst hji
      exact hnot tick hj
    · exact hrest.2 j tick ((State.goto_stage_of_ne s hji stage).trans hj)
  marks := fun r hr k hk => h.marks_goto hr hk (howes r hr k hk)

/-- A session that puts nothing back goes on. -/
theorem goto (h : Kept s) {stage : Stage} (hq : (s.stage i).puttingBack = false)
    (hfits : stage.Fits s) : Kept (s.goto i stage) :=
  h.goOn (not_restoring hq) hfits fun r _ k _ hb => absurd hb (not_owes hq k r.tenantId)

/-- A write that opens no window leaves one open at most. -/
theorem one_write {w w' : MaintenanceWindow} (h : Kept s) (hw : s.windows k = some w)
    (hopen : w'.open = true → w.open = true) {m m' : ℕ} {v v' : MaintenanceWindow}
    (hv : (s.setWindow k w').windows m = some v) (hv' : (s.setWindow k w').windows m' = some v')
    (ho : v.open = true) (ho' : v'.open = true) : m = m' := by
  rcases State.setWindow_cases hv with ⟨hm, heq⟩ | ⟨-, hv⟩
  · rcases State.setWindow_cases hv' with ⟨hm', -⟩ | ⟨-, hv'⟩
    · exact hm.trans hm'.symm
    · exact hm.trans (h.one k m' w v' hw hv' (hopen (heq ▸ ho)) ho')
  · rcases State.setWindow_cases hv' with ⟨hm', heq'⟩ | ⟨-, hv'⟩
    · exact (h.one m k v w hv hw ho (hopen (heq' ▸ ho'))).trans hm'.symm
    · exact h.one m m' v v' hv hv' ho ho'

theorem bounded_write {w w' : MaintenanceWindow} (h : Kept s) (hw : s.windows k = some w) {m : ℕ}
    {v : MaintenanceWindow} (hv : (s.setWindow k w').windows m = some v) : m < s.size := by
  rcases State.setWindow_cases hv with ⟨rfl, -⟩ | ⟨-, hv⟩
  · exact h.bounded m w hw
  · exact h.bounded m v hv

/-- What a session goes by stays so where a window moves on. -/
theorem fits_write {w w' : MaintenanceWindow} {stage : Stage} {looked : Bool}
    (hw : s.windows k = some w) (hopen : w'.open = true → w.open = true)
    (hscheduled : w'.state = .scheduled → w.state = .scheduled)
    (hdraining : w'.state = .draining → w.state = .draining)
    (hlooked : s.looked = false → looked = false) (hfits : stage.Fits s) :
    stage.Fits { s.setWindow k w' with looked := looked } := by
  refine hfits.mono (fun hclosed m v hv => ?_) hlooked (fun m v hv hvs => ?_) fun ho => ⟨ho, rfl⟩
  · rcases State.setWindow_cases hv with ⟨rfl, rfl⟩ | ⟨-, hv⟩
    · rw [Bool.eq_false_iff]
      intro ho
      rw [hclosed _ w hw] at hopen
      exact Bool.false_ne_true (hopen ho)
    · exact hclosed m v hv
  · by_cases hm : m = k
    · subst hm
      obtain rfl := Option.some.inj (hw.symm.trans hv)
      exact ⟨w', State.setWindow_self .., fun hs => hvs (hscheduled hs), hdraining⟩
    · exact ⟨v, (State.setWindow_of_ne s hm w').trans hv, hvs, id⟩

/-- A step writes one window, and a session that puts nothing back goes on. -/
theorem write {w w' : MaintenanceWindow} {stage : Stage} {looked : Bool} (h : Kept s)
    (hq : (s.stage i).puttingBack = false) (hw : s.windows k = some w)
    (hopen : w'.open = true → w.open = true)
    (hscheduled : w'.state = .scheduled → w.state = .scheduled)
    (hdraining : w'.state = .draining → w.state = .draining)
    (hrestore : w'.state = .scheduled ∨ w'.state = .draining → w'.restoreLoadShedMode = none)
    (hactive : w'.state = .active → ∃ r, w'.restoreLoadShedMode = some r ∧ r ≠ .maintenance ∧
      (s.operatorSince = false → r = s.modeBefore))
    (hlooked : s.looked = false → looked = false)
    (hfits : stage.Fits { (s.setWindow k w').goto i stage with looked := looked })
    (hmode : w'.state ≠ .active → (∀ tick, stage ≠ .restoring tick) → w.state ≠ .active)
    (hmarks : w.state = .draining ∨ w.state = .active →
      (w'.state = .draining ∨ w'.state = .active) ∨ ∀ t, stage.owes k t) :
    Kept { (s.setWindow k w').goto i stage with looked := looked } where
  bounded := fun _ _ hv => h.bounded_write hw hv
  one := fun _ _ _ _ hv hv' ho ho' => h.one_write hw hopen hv hv' ho ho'
  unactivated := fun m v hv hs => by
    rcases State.setWindow_cases hv with ⟨rfl, rfl⟩ | ⟨-, hv⟩
    · exact hrestore hs
    · exact h.unactivated m v hv hs
  active := fun m v hv hs => by
    rcases State.setWindow_cases hv with ⟨rfl, rfl⟩ | ⟨-, hv⟩
    · exact hactive hs
    · exact h.active m v hv hs
  fits := fun j => by
    by_cases hji : j = i
    · have hstage : ({ (s.setWindow k w').goto i stage with looked := looked } : State).stage j =
          stage := by
        rw [hji]
        exact State.goto_stage_self ..
      rw [hstage]
      exact hfits
    · have hstage : ({ (s.setWindow k w').goto i stage with looked := looked } : State).stage j =
          s.stage j := State.goto_stage_of_ne _ hji _
      rw [hstage]
      exact fits_write hw hopen hscheduled hdraining hlooked (h.fits j)
  mode := fun hrest => by
    have hw' : w'.state ≠ .active := hrest.1 k w' (State.setWindow_self ..)
    have hstage : ∀ tick, stage ≠ .restoring tick := fun tick heq =>
      hrest.2 i tick ((State.goto_stage_self ..).trans heq)
    refine h.mode ⟨fun m v hv => ?_, fun j tick hj => ?_⟩
    · by_cases hm : m = k
      · subst hm
        obtain rfl := Option.some.inj (hw.symm.trans hv)
        exact hmode hw' hstage
      · exact hrest.1 m v ((State.setWindow_of_ne s hm w').trans hv)
    · by_cases hji : j = i
      · subst hji
        exact not_restoring hq tick hj
      · exact hrest.2 j tick ((State.goto_stage_of_ne _ hji stage).trans hj)
  marks := fun r hr m hm => by
    rcases h.marks r hr m hm with ⟨v, hv, hvs⟩ | ⟨j, hj⟩
    · by_cases hmk : m = k
      · subst hmk
        obtain rfl := Option.some.inj (hw.symm.trans hv)
        rcases hmarks hvs with hvs' | howes
        · exact .inl ⟨w', State.setWindow_self .., hvs'⟩
        · refine .inr ⟨i, ?_⟩
          have hstage : ({ (s.setWindow m w').goto i stage with looked := looked } : State).stage i =
              stage := State.goto_stage_self ..
          rw [hstage]
          exact howes r.tenantId
      · exact .inl ⟨v, (State.setWindow_of_ne s hmk w').trans hv, hvs⟩
    · have hji : j ≠ i := by
        rintro rfl
        exact not_owes hq m r.tenantId hj
      refine .inr ⟨j, ?_⟩
      have hstage : ({ (s.setWindow k w').goto i stage with looked := looked } : State).stage j =
          s.stage j := State.goto_stage_of_ne _ hji _
      rw [hstage]
      exact hj

/-- A tick that begins the drain takes down the mode in force. -/
theorem beginDrain {tick : Tick} {w : MaintenanceWindow} {minutes now : ℕ} (h : Kept s)
    (hw : s.windows k = some w) (hs : w.state = .scheduled) :
    Kept { (s.setWindow k (w.beginDrain minutes now)).goto i (.toPause tick) with
      modeBefore := s.mode
      operatorSince := false } := by
  have hopen := open_of_scheduled hs
  have hall : ∀ j, (s.stage j).puttingBack = false := h.not_puttingBack hw hopen
  -- no other window is open, so none is draining or active
  have hothers : ∀ m v, s.windows m = some v → v.state = .draining ∨ v.state = .active → False := by
    intro m v hv hvs
    obtain rfl := h.one m k v w hv hw (open_of_underway hvs) hopen
    obtain rfl := Option.some.inj (hw.symm.trans hv)
    rw [hs] at hvs
    rcases hvs with hvs | hvs <;> cases hvs
  have hserves : Serves s := by
    refine h.mode ⟨fun m v hv hvs => hothers m v hv (.inr hvs), fun j tick hj => ?_⟩
    exact not_restoring (hall j) tick hj
  constructor
  case bounded => exact fun _ _ hv => h.bounded_write hw hv
  case one => exact fun _ _ _ _ hv hv' ho ho' => h.one_write hw (fun _ => hopen) hv hv' ho ho'
  case unactivated =>
    intro m v hv hvs
    rcases State.setWindow_cases hv with ⟨-, rfl⟩ | ⟨-, hv⟩
    · exact h.unactivated k w hw (.inl hs)
    · exact h.unactivated m v hv hvs
  case active =>
    intro m v hv hvs
    rcases State.setWindow_cases hv with ⟨-, rfl⟩ | ⟨-, hv⟩
    · cases hvs
    · exact absurd (.inr hvs) (hothers m v hv)
  case fits =>
    intro j
    by_cases hji : j = i
    · rw [hji]
      exact (congrArg _ (State.goto_stage_self ..)).mpr trivial
    · refine (congrArg _ (State.goto_stage_of_ne _ hji _)).mpr ((h.fits j).anew (hall j) ?_)
      intro m v hv hvs
      have hm : m ≠ k := by
        rintro rfl
        obtain rfl := Option.some.inj (hw.symm.trans hv)
        exact hvs hs
      exact ⟨(State.setWindow_of_ne s hm _).trans hv, fun hd => hothers m v hv (.inl hd)⟩
  case mode => exact fun _ => ⟨hserves.1, fun _ => rfl⟩
  case marks =>
    intro r hr m hm
    rcases h.marks r hr m hm with ⟨v, hv, hvs⟩ | ⟨j, hj⟩
    · exact absurd hvs (hothers m v hv)
    · exact absurd hj (not_owes (hall j) m r.tenantId)

theorem openWindow_none (h : Kept s) (hnone : s.openWindow = none) : Closed s := by
  intro k w hw
  have := List.findSome?_eq_none_iff.mp hnone k (List.mem_range.mpr (h.bounded k w hw))
  rw [hw] at this
  cases ho : w.open with
  | false => rfl
  | true => simp [Option.filter, ho] at this

theorem openWindow_some {w : MaintenanceWindow} (hsome : s.openWindow = some (k, w)) :
    s.windows k = some w ∧ w.open = true := by
  obtain ⟨m, -, hm⟩ := List.exists_of_findSome?_eq_some hsome
  obtain ⟨v, hv, heq⟩ := Option.map_eq_some_iff.mp hm
  cases heq
  exact Option.filter_eq_some_iff.mp hv

/-- The next window is scheduled where none is open and nothing is being put back. -/
theorem schedule {w : MaintenanceWindow} (h : Kept s) (hs : w.state = .scheduled)
    (hrestore : w.restoreLoadShedMode = none) (hclosed : Closed s)
    (hall : ∀ j, (s.stage j).puttingBack = false) :
    Kept { s.setWindow s.size w with
      size := s.size + 1
      modeBefore := s.mode
      operatorSince := false } := by
  have hothers : ∀ m v, s.windows m = some v → v.open = true → False := by
    intro m v hv ho
    rw [hclosed m v hv] at ho
    cases ho
  have hserves : Serves s := by
    refine h.mode ⟨fun m v hv hvs => hothers m v hv (open_of_underway (.inr hvs)), ?_⟩
    exact fun j tick hj => not_restoring (hall j) tick hj
  constructor
  case bounded =>
    intro m v hv
    rcases State.setWindow_cases hv with ⟨rfl, -⟩ | ⟨-, hv⟩
    · exact Nat.lt_succ_self _
    · exact Nat.lt_succ_of_lt (h.bounded m v hv)
  case one =>
    intro m m' v v' hv hv' ho ho'
    rcases State.setWindow_cases hv with ⟨rfl, -⟩ | ⟨-, hv⟩
    · rcases State.setWindow_cases hv' with ⟨rfl, -⟩ | ⟨-, hv'⟩
      · rfl
      · exact absurd ho' (hothers m' v' hv')
    · exact absurd ho (hothers m v hv)
  case unactivated =>
    intro m v hv hvs
    rcases State.setWindow_cases hv with ⟨-, rfl⟩ | ⟨-, hv⟩
    · exact hrestore
    · exact h.unactivated m v hv hvs
  case active =>
    intro m v hv hvs
    rcases State.setWindow_cases hv with ⟨-, rfl⟩ | ⟨-, hv⟩
    · rw [hs] at hvs
      cases hvs
    · exact absurd (open_of_underway (.inr hvs)) (hothers m v hv)
  case fits =>
    intro j
    refine (h.fits j).anew (hall j) fun m v hv _ => ⟨?_, fun hd => ?_⟩
    · exact (State.setWindow_of_ne s (h.bounded m v hv).ne w).trans hv
    · exact hothers m v hv (open_of_underway (.inl hd))
  case mode => exact fun _ => ⟨hserves.1, fun _ => rfl⟩
  case marks =>
    intro r hr m hm
    rcases h.marks r hr m hm with ⟨v, hv, hvs⟩ | ⟨j, hj⟩
    · exact absurd (open_of_underway hvs) (hothers m v hv)
    · exact absurd hj (not_owes (hall j) m r.tenantId)

theorem open_eq_of_state {w w' : MaintenanceWindow} (h : w'.state = w.state) :
    w'.open = w.open := by
  rw [MaintenanceWindow.open, h, MaintenanceWindow.open]

/-- An amendment leaves the state of its window and the mode it restores. -/
theorem amend {w w' : MaintenanceWindow} (h : Kept s) (hq : (s.stage i).puttingBack = false)
    (hw : s.windows k = some w) (hstate : w'.state = w.state)
    (hrestore : w'.restoreLoadShedMode = w.restoreLoadShedMode) :
    Kept ((s.setWindow k w').goto i .idle) := by
  refine h.write hq hw ?_ ?_ ?_ ?_ ?_ id trivial ?_ ?_
  · exact fun ho => (open_eq_of_state hstate).symm.trans ho
  · exact fun hs => hstate.symm.trans hs
  · exact fun hs => hstate.symm.trans hs
  · intro hs
    rw [hrestore]
    exact h.unactivated k w hw (hstate ▸ hs)
  · intro hs
    rw [hrestore]
    exact h.active k w hw (hstate ▸ hs)
  · exact fun hs _ => hstate ▸ hs
  · exact fun hs => .inl (hstate ▸ hs)

/-- The activation stores the mode that was read while the window was draining. -/
theorem activate {tick : Tick} {w : MaintenanceWindow} {forced : Bool} {now : ℕ} (h : Kept s)
    (hat : s.stage i = .activating tick) (hw : s.windows tick.windowId = some w)
    (hs : w.state = .draining) :
    Kept ((s.setWindow tick.windowId (w.activate forced tick.restoreMode now)).goto i
      (.shedding tick)) := by
  have hfits := h.fits i
  rw [hat] at hfits
  obtain ⟨v, hv, -, hmode⟩ := hfits
  obtain rfl := Option.some.inj (hw.symm.trans hv)
  refine h.write (by rw [hat]; rfl) hw ?_ nofun nofun ?_ ?_ id trivial ?_ ?_
  · exact fun _ => open_of_underway (.inl hs)
  · rintro (hs | hs) <;> cases hs
  · exact fun _ => ⟨_, rfl, restoreMode_tick_ne tick, hmode hs⟩
  · exact fun hne => absurd rfl hne
  · exact fun _ => .inl (.inr rfl)

/-- The completion leaves a tick that restores the mode from before the window. -/
theorem complete {tick : Tick} {w : MaintenanceWindow} {now : ℕ} (h : Kept s)
    (hq : (s.stage i).puttingBack = false) (hw : s.windows tick.windowId = some w)
    (hs : w.state = .draining ∨ w.state = .active)
    (hread : w.restoreLoadShedMode = tick.window.restoreLoadShedMode)
    (hdraining : w.state = .draining → s.operatorSince = false → s.mode = .normal) :
    Kept { (s.setWindow tick.windowId (w.complete now)).goto i (.restoring tick) with
      looked := false } := by
  have hopen := open_of_underway hs
  have hrestores : s.operatorSince = false →
      restoreMode tick.window.restoreLoadShedMode = s.modeBefore := by
    intro ho
    rw [← hread]
    rcases hs with hd | ha
    · rw [h.unactivated _ w hw (.inr hd)]
      have hserves : Serves s := by
        refine h.mode ⟨fun m v hv hvs => ?_, fun j t hj => ?_⟩
        · have hm := h.one m _ v w hv hw (open_of_underway (.inr hvs)) hopen
          subst hm
          obtain rfl := Option.some.inj (hw.symm.trans hv)
          rw [hd] at hvs
          cases hvs
        · exact not_restoring (h.not_puttingBack hw hopen j) t hj
      exact (hdraining hd ho).symm.trans (hserves.2 ho)
    · obtain ⟨r, hr, hne, hbefore⟩ := h.active _ w hw ha
      rw [hr, restoreMode_some hne]
      exact hbefore ho
  refine h.write hq hw (fun _ => hopen) nofun nofun ?_ nofun (fun _ => rfl) ?_ ?_ ?_
  · rintro (hs | hs) <;> cases hs
  · refine ⟨⟨fun m v hv => ?_, rfl⟩, hrestores⟩
    rcases State.setWindow_cases hv with ⟨-, rfl⟩ | ⟨hm, hv⟩
    · rfl
    · rw [Bool.eq_false_iff]
      exact fun ho => hm (h.one m _ v w hv hw ho hopen)
  · exact fun _ hno => absurd rfl (hno tick)
  · exact fun _ => .inr fun _ => rfl

/-- Calling a window off leaves everything as it was. -/
theorem cancel {w : MaintenanceWindow} {now : ℕ} (h : Kept s) (hw : s.windows k = some w)
    (hs : w.state = .scheduled) :
    Kept { s.setWindow k (w.cancel now) with looked := false } := by
  have hopen := open_of_scheduled hs
  have hgo : ((s.setWindow k (w.cancel now)).goto 0 (s.stage 0)) = s.setWindow k (w.cancel now) := by
    rw [State.goto]
    exact congrArg (fun f => { s.setWindow k (w.cancel now) with stage := f })
      (Function.update_eq_self ..)
  rw [← hgo]
  refine h.write (h.not_puttingBack hw hopen 0) hw (fun _ => hopen) nofun nofun ?_ nofun
    (fun _ => rfl) ?_ ?_ ?_
  · rintro (hs | hs) <;> cases hs
  · exact fits_write hw (fun _ => hopen) nofun nofun (fun _ => rfl) (h.fits 0)
  · intro _ _ ha
    rw [hs] at ha
    cases ha
  · rintro (hd | ha)
    · rw [hs] at hd
      cases hd
    · rw [hs] at ha
      cases ha

/-- Clients are shut out for a window that is active. -/
theorem shed (h : Kept s) (hq : (s.stage i).puttingBack = false) {w : MaintenanceWindow}
    (hw : s.windows k = some w) (hs : w.state = .active) :
    Kept { s.goto i .idle with mode := .maintenance } :=
  { (h.goto hq trivial : Kept (s.goto i .idle)) with
    mode := fun hrest => absurd hs (hrest.1 k w hw) }

/-- The mode goes back to the one from before. -/
theorem restore {tick : Tick} (h : Kept s) (hat : s.stage i = .restoring tick) :
    Kept { s.goto i (.toResume tick) with
      mode := restoreMode tick.window.restoreLoadShedMode } := by
  have hfits := h.fits i
  rw [hat] at hfits
  constructor
  case bounded => exact h.bounded
  case one => exact h.one
  case unactivated => exact h.unactivated
  case active => exact h.active
  case fits => exact h.fits_goto hfits.1
  case mode => exact fun _ => ⟨restoreMode_ne _, hfits.2⟩
  case marks =>
    intro r hr k hk
    refine h.marks_goto hr hk fun howes => ?_
    rw [hat] at howes
    exact howes

end Kept

/-! ## The campaigns -/

namespace Kept

variable {s : State} {i : ℕ}

/-- Campaigns are paused for a window that is not over. -/
theorem pause {tick : Tick} {t : ℕ} {ts : List ℕ} (h : Kept s)
    (hat : s.stage i = .pausing tick (t :: ts))
    (hfine : ∀ r ∈ s.campaigns.campaigns.rows, r.tenantId = t → r.status = .running →
      Underway s tick.windowId) :
    Kept { s.goto i (.pausing tick ts) with
      campaigns := s.campaigns.pauseForMaintenance t tick.windowId } := by
  have hq : (s.stage i).puttingBack = false := by rw [hat]; rfl
  have hgo : Kept (s.goto i (.pausing tick ts)) := h.goto hq trivial
  refine { hgo with marks := fun r' hr' k hk => ?_ }
  rcases Journal.mem_rewrite.mp hr' with ⟨hr, -⟩ | ⟨r, hr, hp, rfl⟩
  · exact hgo.marks r' hr k hk
  · obtain rfl := Option.some.inj hk
    have hpicked := of_decide_eq_true hp
    exact .inl (hfine r hr hpicked.1 hpicked.2)

/-- The campaigns of one tenant are resumed. -/
theorem resume {tick : Tick} {t : ℕ} {ts : List ℕ} (h : Kept s)
    (hat : s.stage i = .resuming tick (t :: ts)) :
    Kept { s.goto i (.resuming tick ts) with
      campaigns := s.campaigns.resumeAfterMaintenance t tick.windowId } := by
  have hfits := h.fits i
  rw [hat] at hfits
  constructor
  case bounded => exact h.bounded
  case one => exact h.one
  case unactivated => exact h.unactivated
  case active => exact h.active
  case fits => exact h.fits_goto hfits
  case mode =>
    intro hrest
    refine h.mode ⟨hrest.1, fun j tick' hj => ?_⟩
    by_cases hji : j = i
    · rw [hji, hat] at hj
      cases hj
    · exact hrest.2 j tick' ((State.goto_stage_of_ne s hji _).trans hj)
  case marks =>
    intro r' hr' k hk
    rcases Journal.mem_rewrite.mp hr' with ⟨hr, hno⟩ | ⟨r, hr, -, rfl⟩
    · refine h.marks_goto hr hk fun howes => ?_
      rw [hat] at howes
      obtain ⟨rfl, hmem⟩ := howes
      -- a row of this tenant that waits for the window would have been resumed
      have hne : r'.tenantId ≠ t := by
        intro heq
        simp [heq, hk] at hno
      exact ⟨rfl, List.mem_of_ne_of_mem hne hmem⟩
    · cases hk

/-- Clients and the healer mark no campaign for a window. -/
theorem campaign {action : Campaigns.Pausing.Action} (h : Kept s)
    (hne : ∀ tenantId windowId, action ≠ .pauseForMaintenance tenantId windowId) :
    Kept { s with campaigns := s.campaigns.step action } :=
  { h with
    marks := fun r' hr' k hk => by
      obtain ⟨r, hr, hmark, htenant⟩ := Campaigns.Pausing.waited_step hne hr' hk
      have := h.marks r hr k hmark
      rw [htenant] at this
      exact this }

theorem operator {mode : LoadShedMode} (h : Kept s) (hmode : mode ≠ .maintenance) :
    Kept { s with mode := mode, operatorSince := true } where
  bounded := h.bounded
  one := h.one
  unactivated := h.unactivated
  active := fun k w hw hs => by
    obtain ⟨r, hr, hne, -⟩ := h.active k w hw hs
    exact ⟨r, hr, hne, nofun⟩
  fits := fun j => (h.fits j).mono id id (fun _ v hv hvs => ⟨v, hv, hvs, id⟩) nofun
  mode := fun _ => ⟨hmode, nofun⟩
  marks := h.marks

/-- A tick has looked and found no window open, with nothing left to put back. -/
theorem look (h : Kept s) (hclosed : Closed s) (hall : ∀ j, (s.stage j).puttingBack = false) :
    Kept { s with looked := true } :=
  { h with
    fits := fun j => (h.fits j).anew (hall j) fun k v hv _ => ⟨hv, fun hd => by
      have hopen := open_of_underway (.inl hd)
      rw [hclosed k v hv] at hopen
      cases hopen⟩ }

theorem idle (h : Kept s) (hq : (s.stage i).puttingBack = false) : Kept (s.goto i .idle) :=
  h.goto hq trivial

/-- The next step of a tick at its arm. -/
theorem arm {tick : Tick} {now : ℕ} {seen : LoadShedMode} (h : Kept s)
    (hat : s.stage i = .atArm tick) (hfine : FineAt s i seen) :
    Kept (s.advance i now seen) := by
  have hq : (s.stage i).puttingBack = false := by rw [hat]; rfl
  have hfits := h.fits i
  rw [hat] at hfits
  rw [FineAt, hat] at hfine
  simp only [State.advance, hat]
  split
  case h_1 =>
    split
    · exact h.goto hq trivial
    · exact h.idle hq
  case h_2 => exact h.idle hq
  case h_3 =>
    unfold State.beginDrain
    split
    · next w hw =>
      split
      · next hs => exact h.beginDrain hw hs
      · exact h.idle hq
    · exact h.idle hq
  case h_4 harm =>
    -- the mode is read while the window, if it is draining still, is the one open
    have hstate : tick.window.state ≠ .scheduled := by
      intro hs
      simp only [Tick.arm, hs] at harm
      split at harm
      · split at harm <;> cases harm
      · cases harm
    obtain ⟨w, hw, hws⟩ := hfits hstate
    refine h.goto hq ⟨w, hw, hws, fun hd ho => ?_⟩
    have hopen := open_of_underway (.inl hd)
    have hserves : Serves s := by
      refine h.mode ⟨fun m v hv hvs => ?_, fun j t hj => ?_⟩
      · have hm := h.one m _ v w hv hw (open_of_underway (.inr hvs)) hopen
        subst hm
        obtain rfl := Option.some.inj (hw.symm.trans hv)
        rw [hd] at hvs
        cases hvs
      · exact not_restoring (h.not_puttingBack hw hopen j) t hj
    rw [Tick.restoreMode, if_pos hserves.1]
    exact hserves.2 ho
  case h_5 harm =>
    simp only [harm] at hfine
    unfold State.complete
    split
    · next w hw =>
      split
      · next hs =>
        obtain ⟨hread, hmode⟩ := hfine w hw hs
        exact h.complete hq hw hs hread hmode
      · exact h.idle hq
    · exact h.idle hq

theorem advance {now : ℕ} {seen : LoadShedMode} (h : Kept s) (hfine : FineAt s i seen) :
    Kept (s.advance i now seen) := by
  cases hat : s.stage i with
  | atArm tick => exact h.arm hat hfine
  | idle =>
    simp only [State.advance, hat]
    exact h.idle (by rw [hat]; rfl)
  | amending call seen =>
    have hq : (s.stage i).puttingBack = false := by rw [hat]; rfl
    simp only [State.advance, hat, State.amend]
    split
    · next w hw =>
      split
      · exact h.amend hq hw rfl rfl
      · exact h.idle hq
    · exact h.idle hq
  | toPause tick =>
    simp only [State.advance, hat]
    exact h.goto (by rw [hat]; rfl) trivial
  | pausing tick tenants =>
    rw [FineAt, hat] at hfine
    simp only [State.advance, hat]
    cases tenants with
    | nil => exact h.idle (by rw [hat]; rfl)
    | cons t ts =>
      refine h.pause hat fun r hr ht hrun => ?_
      obtain ⟨w, hw, hs⟩ := hfine r hr ht hrun
      exact ⟨w, hw, hs⟩
  | activating tick =>
    have hq : (s.stage i).puttingBack = false := by rw [hat]; rfl
    simp only [State.advance, hat, State.activate]
    split
    · next w hw =>
      split
      · next hs => exact h.activate hat hw hs
      · exact h.idle hq
    · exact h.idle hq
  | shedding tick =>
    rw [FineAt, hat] at hfine
    obtain ⟨w, hw, hs⟩ := hfine
    simp only [State.advance, hat]
    exact h.shed (by rw [hat]; rfl) hw hs
  | restoring tick =>
    simp only [State.advance, hat]
    exact h.restore hat
  | toResume tick =>
    rw [FineAt, hat] at hfine
    have hfits := h.fits i
    rw [hat] at hfits
    simp only [State.advance, hat]
    refine h.goOn (fun t ht => ?_) hfits fun r hr k hk howes => ?_
    · rw [hat] at ht
      cases ht
    · rw [hat] at howes
      cases howes
      exact ⟨rfl, hfine r hr hk⟩
  | resuming tick tenants =>
    simp only [State.advance, hat]
    cases tenants with
    | nil =>
      refine h.goOn (fun t ht => ?_) trivial fun r _ k _ howes => ?_
      · rw [hat] at ht
        cases ht
      · rw [hat] at howes
        exact absurd howes.2 List.not_mem_nil
    | cons t ts => exact h.resume hat

theorem readAmended {call : Amendment} (h : Kept s) : Kept (s.readAmended i call) := by
  unfold State.readAmended
  split
  · next w hat _ =>
    split
    · exact h.goto (by rw [hat]; rfl) trivial
    · exact h
  · exact h

/-- **A fine step keeps what the promise rests on.** -/
theorem step {a : Action} (h : Kept s) (hf : Fine s a) : Kept (step s a) := by
  cases a with
  | schedule call =>
    simp only [Course.step]
    split
    · next hok =>
      have hnone : s.openWindow = none := by
        cases ho : s.openWindow with
        | none => rfl
        | some p =>
          rw [ho, Schedule.check] at hok
          cases hspan : validateSpan call.told.startsAt call.told.endsAt call.now <;>
            rw [hspan] at hok <;> cases hok
      exact h.schedule rfl rfl (h.openWindow_none hnone) hf
    · exact h
  | cancel windowId now =>
    simp only [Course.step]
    split
    · next w hw =>
      split
      · next hs => exact h.cancel hw hs
      · exact h
    · exact h
  | amend i call => exact h.readAmended
  | endNow i windowId now =>
    simp only [Course.step]
    split
    · split
      · exact h.readAmended
      · exact h
    · exact h
  | tick i now lead drained =>
    simp only [Course.step]
    split
    · next k w hat hopen =>
      exact h.goto (by rw [hat]; rfl) fun hs => ⟨w, (openWindow_some hopen).1, hs⟩
    · next hnone => exact h.look (h.openWindow_none hnone) hf
    · exact h
  | advance i now seen => exact h.advance hf
  | stop i => exact h.idle hf
  | operator mode => exact h.operator hf
  | campaign action =>
    cases action
    case pauseForMaintenance => exact h
    all_goals exact h.campaign nofun
  | route tenants =>
    exact { h with }

end Kept

/-! ## The promise -/

/-- What a fine run has put back once a tick has looked. -/
theorem Kept.putBack {s : State} (h : Kept s) (hclosed : Closed s) (hlooked : s.looked = true) :
    PutBack s := by
  have hall : ∀ j, (s.stage j).puttingBack = false := by
    intro j
    cases hq : (s.stage j).puttingBack with
    | false => rfl
    | true =>
      have hno := (closed_of_puttingBack (h.fits j) hq).2
      rw [hlooked] at hno
      cases hno
  have hover : ∀ k w, s.windows k = some w → ¬ (w.state = .draining ∨ w.state = .active) := by
    intro k w hw hs
    have hopen := open_of_underway hs
    rw [hclosed k w hw] at hopen
    cases hopen
  have hserves : Serves s := by
    refine h.mode ⟨fun k w hw ha => hover k w hw (.inr ha), fun j tick hj => ?_⟩
    exact not_restoring (hall j) tick hj
  refine ⟨hserves.1, hserves.2, fun r hr _ k w hk _ _ => ?_⟩
  rcases h.marks r hr k hk with ⟨v, hv, hvs⟩ | ⟨j, hj⟩
  · exact hover k v hv hvs
  · exact not_owes (hall j) k r.tenantId hj

/-- A fine tick over an active window leaves clients shut out. -/
theorem shut_behind {s : State} {i now : ℕ} {seen : LoadShedMode}
    (hfine : FineAt s i seen) : ShutBehind s (s.advance i now seen) i := by
  rintro tick (⟨hat, hstate⟩ | hat) hidle w hw hactive
  · simp only [State.advance, hat] at hidle hw ⊢
    simp only [FineAt, hat] at hfine
    cases harm : tick.arm <;> simp only [harm] at hfine hidle hw ⊢
    case nothing =>
      by_cases hseen : seen = .maintenance
      · simp only [hseen, ne_eq, not_true_eq_false, and_false, if_false] at hidle hw ⊢
        exact (hfine hstate).symm.trans hseen
      · simp only [hstate, ne_eq, hseen, not_false_eq_true, and_self, if_true] at hidle
        rw [State.goto_stage_self] at hidle
        cases hidle
    case announce =>
      simp only [Tick.arm, hstate] at harm
      split at harm <;> cases harm
    case beginDrain =>
      simp only [Tick.arm, hstate] at harm
      split at harm <;> cases harm
    case activate =>
      rw [State.goto_stage_self] at hidle
      cases hidle
    case complete =>
      unfold State.complete at hidle hw
      split at hidle
      · next v hv =>
        split at hidle
        · rw [State.goto_stage_self] at hidle
          cases hidle
        · next hover =>
          simp only [hv, if_neg hover] at hw
          obtain rfl := Option.some.inj (hv.symm.trans hw)
          exact absurd (.inr hactive) hover
      · next hnone =>
        simp only [hnone] at hw
        exact absurd (hnone.symm.trans hw) nofun
  · simp only [State.advance, hat]

/-- **Maintenance puts the platform back as it found it.** In every state of a fine run where no
window is open and a tick has looked since, the mode is one that serves clients, the one from
before the last window unless an operator set it, and no campaign waits for a completed window;
behind every tick over an active window clients are shut out. -/
theorem maintenance_puts_back (actions : List Action)
    (hfine : Run.Guarded step Fine start actions) :
    (Closed (actions.foldl step start) → (actions.foldl step start).looked = true →
        PutBack (actions.foldl step start)) ∧
      ∀ before i now seen after, actions = before ++ .advance i now seen :: after →
        ShutBehind (before.foldl step start)
          (step (before.foldl step start) (.advance i now seen)) i := by
  constructor
  · intro hclosed hlooked
    have hkept : Kept (actions.foldl step start) :=
      hfine.inv (fun _ _ h hf => h.step hf) kept_start
    exact hkept.putBack hclosed hlooked
  · rintro before i now seen after rfl
    have hf : Fine (before.foldl step start) (.advance i now seen) := hfine.at
    exact shut_behind hf

/-- One window, from its schedule to the tick that finds it closed, over one campaign. -/
def oneWindow : List Action :=
  [.route [5], .campaign (.create 1 5 9), .campaign (.launch 1),
    .schedule ⟨⟨"Database upgrade", 1000, 2000⟩, 60, 0⟩,
    .tick 0 1000 0 true, .advance 0 1000 .normal, .advance 0 1000 .normal, .advance 0 1000 .normal,
    .advance 0 1000 .normal, .tick 0 1015 0 true, .advance 0 1015 .normal,
    .advance 0 1015 .normal, .advance 0 1015 .normal, .tick 0 1500 0 true,
    .advance 0 1500 .maintenance, .tick 0 2000 0 true, .advance 0 2000 .maintenance,
    .advance 0 2000 .normal, .advance 0 2000 .normal, .advance 0 2000 .normal,
    .advance 0 2000 .normal, .tick 0 2015 0 true]

theorem oneWindow_fine : Run.Guarded step Fine start oneWindow := by
  refine ⟨trivial, trivial, trivial, ?schedule, ?drain, trivial, trivial, ?pause, trivial,
    ?activate, trivial, trivial, ?shed, ?active, ?seen, ?complete, ?restore, trivial, ?resume,
    trivial, trivial, ?look, trivial⟩
  case schedule => rintro (_ | j) <;> rfl
  case drain => rintro (_ | j) <;> rfl
  case pause => exact fun _ _ _ _ => ⟨_, rfl, .inl rfl⟩
  case activate => rintro (_ | j) <;> rfl
  case shed => exact ⟨_, rfl, rfl⟩
  case active => rintro (_ | j) <;> rfl
  case seen => exact fun _ => rfl
  case complete => rintro (_ | j) <;> rfl
  case restore =>
    rintro w hw _
    cases hw
    exact ⟨rfl, nofun⟩
  case resume =>
    intro r hr _
    cases List.mem_singleton.mp hr
    exact List.mem_singleton.mpr rfl
  case look => rintro (_ | j) <;> rfl

theorem oneWindow_put_back : PutBack (oneWindow.foldl step start) := by
  refine (maintenance_puts_back oneWindow oneWindow_fine).1 (fun k w hw => ?_) rfl
  cases k with
  | zero =>
    cases hw
    rfl
  | succ k => cases hw

/-- The worker that completes the window is lost before it restores the mode. -/
def lostBehindCompletion : List Action :=
  [.schedule ⟨⟨"Database upgrade", 1000, 2000⟩, 60, 0⟩,
    .tick 0 1000 0 true, .advance 0 1000 .normal, .advance 0 1000 .normal, .advance 0 1000 .normal,
    .tick 0 1015 0 true, .advance 0 1015 .normal, .advance 0 1015 .normal, .advance 0 1015 .normal,
    .tick 0 2000 0 true, .advance 0 2000 .maintenance, .stop 0, .tick 1 2015 0 true]

/-- No window is open, a tick has looked, and clients are still shut out. -/
theorem shut_out_for_good :
    ¬ ∀ actions : List Action, Closed (actions.foldl step start) →
      (actions.foldl step start).looked = true → PutBack (actions.foldl step start) := by
  intro h
  refine (h lostBehindCompletion (fun k w hw => ?_) rfl).mode rfl
  cases k with
  | zero =>
    cases hw
    rfl
  | succ k => cases hw

end Course

end Platform

end Calevate
