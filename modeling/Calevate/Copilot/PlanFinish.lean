import Calevate.Copilot.PlanRuns

/-!
# A plan to its end

A worker that is alone at an approved plan, whatever became of the workers before it, settles
every target still pending, each once and in the order of the plan, and then calls the plan done:
its batches end, however many targets there are and however many of them raise.
-/

namespace Calevate.Copilot

variable {ι υ : Type*}

/-- The pending targets, in the order of the plan. -/
def pendingIds (ts : List (PlanTarget ι)) : List ι :=
  (ts.filter fun t => t.status = .pending).map PlanTarget.targetId

theorem mem_pendingIds {ts : List (PlanTarget ι)} {i : ι} :
    i ∈ pendingIds ts ↔ ∃ t ∈ ts, t.targetId = i ∧ t.status = .pending := by
  rw [pendingIds, List.mem_map]
  constructor
  · rintro ⟨t, ht, rfl⟩
    obtain ⟨ht, hs⟩ := List.mem_filter.mp ht
    exact ⟨t, ht, rfl, of_decide_eq_true hs⟩
  · rintro ⟨t, ht, rfl, hs⟩
    exact ⟨t, List.mem_filter.mpr ⟨ht, decide_eq_true hs⟩, rfl⟩

theorem workers_goto {s : Run ι υ} {w : ℕ} {phase phase' : Phase ι}
    (hw : s.workers[w]? = some phase) :
    (s.workers.set w phase')[w]? = some phase' :=
  List.getElem?_set_self (List.getElem?_eq_some_iff.mp hw).1

theorem locks_set {w : ℕ} {phases : List (Phase ι)} (hlocks : phases.filterMap Phase.lock = [])
    {phase : Phase ι} (hphase : phase.lock = none) :
    (phases.set w phase).filterMap Phase.lock = [] :=
  List.sublist_nil.mp (hlocks ▸ filterMap_set_none hphase w)

variable [DecidableEq ι]
variable {s : Run ι υ} {fixed : List (ι × Bool)} {w : ℕ}

/-- What the action does with each target: its verdict, or a raise. -/
abbrev Action (ι : Type*) := ι → Option TargetVerdict

/-- `_run_target`. -/
def runTarget (w : ℕ) (act : Action ι) (target : ι) : List (Event υ) :=
  match act target with
  | some v => [.enter w, .settle w v]
  | none => [.enter w, .rollback w, .recordFailed w]

/-- A turn of the loop of `_run_each`. -/
def runBatch (w : ℕ) (act : Action ι) (batch : List ι) : List (Event υ) :=
  .next w :: batch.flatMap (runTarget w act) ++ [.heartbeat w]

/-- The loop, for at most so many turns. -/
def runEach [DecidableEq υ] (w : ℕ) (act : Action ι) : ℕ → Run ι υ → List (Event υ)
  | 0, _ => []
  | turns + 1, s =>
    let batch := s.free.take batchSize
    if batch = [] then [.next w, .finish w]
    else runBatch w act batch ++ runEach w act turns ((runBatch w act batch).foldl step s)

/-- `run_copilot_plan`, delivered to a worker and allowed to go on. -/
def runCopilotPlan [DecidableEq υ] (act : Action ι) (s : Run ι υ) : List (Event υ) :=
  let w := s.workers.length
  [.claim, .pass w] ++
    runEach w act (s.plan.targets.length + 1) ([.claim, .pass w].foldl step s)

/-- The status a target is left with. -/
def Action.verdict (act : Action ι) (target : ι) : TargetVerdict := (act target).getD .failed

/-- The targets of a batch, settled. -/
def settleAll (act : Action ι) (batch : List ι) (ts : List (PlanTarget ι)) : List (PlanTarget ι) :=
  ts.map fun t =>
    if t.targetId ∈ batch ∧ t.status = .pending then
      { t with status := (act.verdict t.targetId).status }
    else t

theorem free_eq (hlocks : s.locks = []) : s.free = pendingIds s.plan.targets := by
  rw [Run.free, pendingIds, hlocks]
  simp

theorem settleAll_nil (act : Action ι) (ts : List (PlanTarget ι)) : settleAll act [] ts = ts := by
  simp [settleAll]

/-- One target and then the others. -/
theorem settleAll_cons (act : Action ι) {target : ι} {rest : List ι} (hnot : target ∉ rest)
    (ts : List (PlanTarget ι)) :
    settleAll act rest (recordOutcome target (act.verdict target) ts) =
      settleAll act (target :: rest) ts := by
  unfold settleAll recordOutcome settleWhere
  rw [List.map_map]
  refine List.map_congr_left fun t _ => ?_
  have hv := verdict_ne_pending (act.verdict target)
  by_cases hid : t.targetId = target
  · subst hid
    by_cases hs : t.status = .pending
    · simp [hs, hnot, hv]
    · simp [hs]
  · simp [hid]

/-- What is left pending behind a batch. -/
theorem pendingIds_settleAll (act : Action ι) (batch : List ι) (ts : List (PlanTarget ι)) :
    pendingIds (settleAll act batch ts) = (pendingIds ts).filter (· ∉ batch) := by
  unfold pendingIds settleAll
  induction ts with
  | nil => rfl
  | cons t ts ih =>
    have hv := verdict_ne_pending (act.verdict t.targetId)
    rw [List.map_cons]
    by_cases hs : t.status = .pending
    · by_cases hmem : t.targetId ∈ batch
      · simpa [hs, hmem, hv] using ih
      · simpa [hs, hmem] using ih
    · simpa [hs] using ih

theorem settleAll_append (act : Action ι) (batch rest : List ι) (ts : List (PlanTarget ι)) :
    settleAll act rest (settleAll act batch ts) = settleAll act (batch ++ rest) ts := by
  unfold settleAll
  rw [List.map_map]
  refine List.map_congr_left fun t _ => ?_
  have hv := verdict_ne_pending (act.verdict t.targetId)
  by_cases hs : t.status = .pending
  · by_cases hmem : t.targetId ∈ batch
    · simp [hs, hmem, hv]
    · simp [hs, hmem]
  · simp [hs]

/-! ## A worker alone -/

/-- Where a worker's run has got to: the targets, the effects and its own phase are what changed. -/
def Run.after (s : Run ι υ) (w : ℕ) (act : Action ι) (batch : List ι) (phase : Phase ι) :
    Run ι υ where
  plan := { s.plan with targets := settleAll act batch s.plan.targets }
  workers := s.workers.set w phase
  approvals := s.approvals
  ran := s.ran ++ batch.filter fun i => (act i).isSome

variable [DecidableEq υ] {act : Action ι}

theorem step_worker {e : Event υ} {phase : Phase ι} (he : e.worker = some w)
    (hw : s.workers[w]? = some phase) : step s e = turn s w e phase := by
  cases e <;> simp only [Event.worker, Option.some.injEq, reduceCtorEq] at he <;> subst he <;>
    simp only [step, Event.worker, hw]

/-- **One target.** -/
theorem run_target {target : ι} {rest : List ι}
    (hw : s.workers[w]? = some (.batch (target :: rest))) (hlocks : s.locks = [])
    (hpending : target ∈ pendingIds s.plan.targets) :
    (runTarget w act target).foldl step s =
      { plan := { s.plan with
          targets := recordOutcome target (act.verdict target) s.plan.targets }
        workers := s.workers.set w (.batch rest)
        approvals := s.approvals
        ran := s.ran ++ if (act target).isSome then [target] else [] } := by
  have henter : step s (.enter w) = s.goto w (.inside target rest) := by
    rw [step_worker rfl hw]
    exact if_pos (free_eq hlocks ▸ hpending)
  have hinside : (s.goto w (.inside target rest)).workers[w]? = some (.inside target rest) :=
    workers_goto hw
  unfold runTarget Action.verdict
  cases hact : act target with
  | some v =>
    simp only [List.foldl_cons, List.foldl_nil, henter]
    rw [step_worker rfl hinside]
    simp [turn, Run.goto, List.set_set]
  | none =>
    have hfailing : (s.goto w (.failing target rest)).workers[w]? = some (.failing target rest) :=
      workers_goto hw
    have hback : step (s.goto w (.inside target rest)) (.rollback w) =
        s.goto w (.failing target rest) := by
      rw [step_worker rfl hinside]
      simp [turn, Run.goto, List.set_set]
    have hunlocked : (s.goto w (.failing target rest)).locks = [] := locks_set hlocks rfl
    simp only [List.foldl_cons, List.foldl_nil, henter, hback]
    rw [step_worker rfl hfailing]
    show (if target ∈ (s.goto w (.failing target rest)).locks then _ else _) = _
    rw [if_neg (by simp [hunlocked])]
    simp [Run.goto, List.set_set]

/-- **A batch**, each target of it once. -/
theorem run_batch {batch : List ι} (hw : s.workers[w]? = some (.batch batch))
    (hlocks : s.locks = []) (hnodup : batch.Nodup)
    (hpending : ∀ i ∈ batch, i ∈ pendingIds s.plan.targets) :
    (batch.flatMap (runTarget w act)).foldl step s = s.after w act batch (.batch []) := by
  induction batch generalizing s with
  | nil =>
    have hsame : s.workers.set w (.batch []) = s.workers := by
      obtain ⟨hlt, hget⟩ := List.getElem?_eq_some_iff.mp hw
      rw [← hget, List.set_getElem_self]
    simp [Run.after, settleAll_nil, hsame]
  | cons target rest ih =>
    obtain ⟨hnot, hnodup⟩ := List.nodup_cons.mp hnodup
    obtain ⟨s₁, hs₁⟩ : ∃ s₁, s₁ = (runTarget w act target).foldl step s := ⟨_, rfl⟩
    rw [List.flatMap_cons, List.foldl_append, ← hs₁]
    rw [run_target hw hlocks (hpending target (List.mem_cons_self ..))] at hs₁
    have hw₁ : s₁.workers[w]? = some (.batch rest) := by
      rw [hs₁]
      exact workers_goto hw
    have hlocks₁ : s₁.locks = [] := by
      rw [hs₁]
      exact locks_set hlocks rfl
    have hpending₁ : ∀ i ∈ rest, i ∈ pendingIds s₁.plan.targets := by
      -- the others are as they were
      intro i hi
      obtain ⟨t, ht, rfl, hs⟩ := mem_pendingIds.mp (hpending i (List.mem_cons_of_mem _ hi))
      have hother : t.targetId ≠ target := fun heq => hnot (heq ▸ hi)
      rw [hs₁]
      have hkept : t ∈ recordOutcome target (act.verdict target) s.plan.targets :=
        mem_settleWhere ht (decide_eq_false hother)
      exact mem_pendingIds.mpr ⟨t, hkept, rfl, hs⟩
    rw [ih hw₁ hlocks₁ hnodup hpending₁, hs₁]
    simp only [Run.after, settleAll_cons act hnot, List.set_set, List.append_assoc,
      List.filter_cons]
    congr 2
    cases (act target).isSome <;> rfl

theorem filter_notMem_take {l : List ι} (hnodup : l.Nodup) (n : ℕ) :
    l.filter (· ∉ l.take n) = l.drop n := by
  have hdisjoint : (l.take n).Disjoint (l.drop n) := List.disjoint_take_drop hnodup (Nat.le_refl n)
  have hsplit : l.filter (· ∉ l.take n) =
      (l.take n).filter (· ∉ l.take n) ++ (l.drop n).filter (· ∉ l.take n) := by
    rw [← List.filter_append, List.take_append_drop]
  have hnone : (l.take n).filter (· ∉ l.take n) = [] :=
    List.filter_eq_nil_iff.mpr fun i hi => by simpa using hi
  have hall : (l.drop n).filter (· ∉ l.take n) = l.drop n :=
    List.filter_eq_self.mpr fun i hi => by simpa using fun htake => hdisjoint htake hi
  rw [hsplit, hnone, hall, List.nil_append]

/-- A turn of the loop. -/
theorem run_turn {batch : List ι} (hw : s.workers[w]? = some .ready) (hlocks : s.locks = [])
    (hrunning : s.plan.status = .running) (hnodup : (pendingIds s.plan.targets).Nodup)
    (hbatch : (pendingIds s.plan.targets).take batchSize = batch) (hsome : batch ≠ []) :
    (runBatch w act batch).foldl step s = s.after w act batch .ready := by
  have hnext : step s (.next w) = s.goto w (.batch batch) := by
    rw [step_worker rfl hw]
    refine (if_neg (by simp [hrunning])).trans ?_
    rw [free_eq hlocks, hbatch]
    cases batch with
    | nil => exact absurd rfl hsome
    | cons target rest => rfl
  have hready : (s.goto w (.batch batch)).workers[w]? = some (.batch batch) := workers_goto hw
  have hrun : (batch.flatMap (runTarget w act)).foldl step (s.goto w (.batch batch)) =
      (s.goto w (.batch batch)).after w act batch (.batch []) :=
    run_batch hready (locks_set hlocks rfl) (hbatch ▸ hnodup.sublist (List.take_sublist _ _))
      fun i hi => List.mem_of_mem_take (hbatch ▸ hi)
  have hbeat : ((s.goto w (.batch batch)).after w act batch (.batch [])).workers[w]? =
      some (.batch []) := workers_goto hready
  rw [runBatch, List.cons_append, List.foldl_cons, hnext, List.foldl_append, hrun, List.foldl_cons,
    List.foldl_nil, step_worker rfl hbeat]
  simp [turn, Run.goto, Run.after, List.set_set]

/-- A run closed. -/
def Run.closed (s : Run ι υ) (w : ℕ) (act : Action ι) (batch : List ι) : Run ι υ :=
  { s.after w act batch .idle with
    plan := { s.plan with status := .done, targets := settleAll act batch s.plan.targets } }

/-- **The batches end**, and nothing is left pending behind them. -/
theorem run_each {turns : ℕ} (hw : s.workers[w]? = some .ready) (hlocks : s.locks = [])
    (hrunning : s.plan.status = .running) (hnodup : (pendingIds s.plan.targets).Nodup)
    (hturns : (pendingIds s.plan.targets).length < turns) :
    (runEach w act turns s).foldl step s = s.closed w act (pendingIds s.plan.targets) := by
  induction turns generalizing s with
  | zero => omega
  | succ turns ih =>
    obtain ⟨batch, hbatch⟩ : ∃ batch, (pendingIds s.plan.targets).take batchSize = batch := ⟨_, rfl⟩
    simp only [runEach, free_eq hlocks, hbatch]
    by_cases hnone : batch = []
    · have hempty : pendingIds s.plan.targets = [] := by
        rw [hnone] at hbatch
        simpa [batchSize] using hbatch
      have hnext : step s (.next w) = s.goto w .finishing := by
        rw [step_worker rfl hw]
        refine (if_neg (by simp [hrunning])).trans ?_
        rw [free_eq hlocks, hempty]
        rfl
      have hfinishing : (s.goto w .finishing).workers[w]? = some .finishing := workers_goto hw
      rw [if_pos hnone, List.foldl_cons, hnext, List.foldl_cons, List.foldl_nil,
        step_worker rfl hfinishing]
      simp [turn, Run.goto, finish, hrunning, Run.closed, Run.after, hempty, settleAll_nil,
        List.set_set]
    · have hturn : (runBatch w act batch).foldl step s = s.after w act batch .ready :=
        run_turn hw hlocks hrunning hnodup hbatch hnone
      have hleft : pendingIds (s.after w act batch .ready).plan.targets =
          (pendingIds s.plan.targets).drop batchSize := by
        rw [← filter_notMem_take hnodup, hbatch]
        exact pendingIds_settleAll act batch s.plan.targets
      have hshorter : ((pendingIds s.plan.targets).drop batchSize).length < turns := by
        have hpos : 0 < (pendingIds s.plan.targets).length := by
          refine List.length_pos_of_ne_nil fun hnil => hnone ?_
          rw [← hbatch, hnil, List.take_nil]
        rw [List.length_drop, batchSize]
        omega
      have hrest : (runEach w act turns (s.after w act batch .ready)).foldl step
          (s.after w act batch .ready) = (s.after w act batch .ready).closed w act
            (pendingIds (s.after w act batch .ready).plan.targets) :=
        ih (workers_goto hw) (locks_set hlocks rfl) hrunning
          (by rw [hleft]; exact hnodup.sublist (List.drop_sublist _ _))
          (by rw [hleft]; exact hshorter)
      rw [if_neg hnone, List.foldl_append, hturn, hrest, hleft]
      have hall : batch ++ (pendingIds s.plan.targets).drop batchSize =
          pendingIds s.plan.targets := by
        rw [← hbatch, List.take_append_drop]
      simp only [Run.closed, Run.after, settleAll_append, List.append_assoc,
        ← List.filter_append, hall, List.set_set]

/-- **A worker alone brings an approved plan to its end.** Whatever has happened to the plan, if it
is approved or running and no row is locked, a delivered job that is allowed to run settles every
target still pending: each once, in the order of the plan, with the action's verdict or as failed
where it raised, and the plan is done. -/
theorem plan_finished {userId : υ} {planHash : String} {expiresAt : ℕ} {prepared : List ι}
    {exclude : ι → Bool} {p : PlanRow ι υ}
    (hp : buildPlan userId planHash expiresAt prepared exclude = some p) (es : List (Event υ))
    (act : Action ι) {s : Run ι υ} (hs : s = es.foldl step (Run.start p))
    (happroved : s.plan.status = .approved ∨ s.plan.status = .running) (hlocks : s.locks = []) :
    let s' := (runCopilotPlan act s).foldl step s
    s'.plan.status = .done ∧ (∀ t ∈ s'.plan.targets, t.status ≠ .pending) ∧
      s'.plan.targets = settleAll act (pendingIds s.plan.targets) s.plan.targets ∧
      s'.ran = s.ran ++ (pendingIds s.plan.targets).filter fun i => (act i).isSome := by
  have hsound : Sound (p.targets.map PlanTarget.frozen) s := hs ▸ (sound_start hp).1.run es
  have hnodup : (pendingIds s.plan.targets).Nodup :=
    hsound.nodup_ids.sublist (List.filter_sublist.map _)
  have hclaim : ([.claim, .pass s.workers.length] : List (Event υ)).foldl step s =
      { s with
        plan := { s.plan with status := .running }
        workers := s.workers ++ [.ready] } := by
    have hclaimed : step s .claim =
        { s with
          plan := { s.plan with status := .running }
          workers := s.workers ++ [.claimed] } := by
      simp only [step, claimRun, if_pos happroved]
    have hw : (s.workers ++ [Phase.claimed])[s.workers.length]? = some .claimed := by simp
    rw [List.foldl_cons, hclaimed, List.foldl_cons, List.foldl_nil, step_worker rfl hw]
    simp [turn, Run.goto]
  obtain ⟨s₁, hs₁⟩ : ∃ s₁ : Run ι υ, s₁ = { s with
      plan := { s.plan with status := .running }
      workers := s.workers ++ [.ready] } := ⟨_, rfl⟩
  have hw₁ : s₁.workers[s.workers.length]? = some .ready := by simp [hs₁]
  have hlocks₁ : s₁.locks = [] := by
    simpa [hs₁, Run.locks, Phase.lock] using hlocks
  have hsame : s₁.plan.targets = s.plan.targets := by rw [hs₁]
  have hshort : (pendingIds s.plan.targets).length < s.plan.targets.length + 1 := by
    have hle : (s.plan.targets.filter fun t => t.status = .pending).length ≤
        s.plan.targets.length := List.length_filter_le _ _
    rw [pendingIds, List.length_map]
    omega
  have hrun : (runEach s.workers.length act (s.plan.targets.length + 1) s₁).foldl step s₁ =
      s₁.closed s.workers.length act (pendingIds s₁.plan.targets) :=
    run_each hw₁ hlocks₁ (by rw [hs₁]) (hsame ▸ hnodup) (hsame ▸ hshort)
  have hend : (runCopilotPlan act s).foldl step s =
      s₁.closed s.workers.length act (pendingIds s.plan.targets) := by
    rw [runCopilotPlan, List.foldl_append, hclaim, ← hs₁, hrun, hsame]
  have htargets : (s₁.closed s.workers.length act (pendingIds s.plan.targets)).plan.targets =
      settleAll act (pendingIds s.plan.targets) s.plan.targets := by
    rw [← hsame]
    rfl
  have hran : (s₁.closed s.workers.length act (pendingIds s.plan.targets)).ran =
      s.ran ++ (pendingIds s.plan.targets).filter fun i => (act i).isSome := by
    rw [hs₁]
    rfl
  rw [hend]
  refine ⟨rfl, fun t ht hpending => ?_, htargets, hran⟩
  -- what is pending afterwards was pending and in no batch
  have hmem : t.targetId ∈ pendingIds
      (settleAll act (pendingIds s.plan.targets) s.plan.targets) :=
    mem_pendingIds.mpr ⟨t, htargets ▸ ht, rfl, hpending⟩
  rw [pendingIds_settleAll] at hmem
  exact absurd (List.mem_filter.mp hmem).1 (by simpa using (List.mem_filter.mp hmem).2)

/-- The second target raises. -/
theorem plan_finished_resumed :
    let s : Run ℕ ℕ := ([.approve 1 "hash" 5, .claim, .pass 0, .next 0, .enter 0, .crash 0] :
      List (Event ℕ)).foldl step (Run.start threeTargets)
    let act : Action ℕ := fun i => if i = 7 then some .done else none
    let s' := (runCopilotPlan act s).foldl step s
    s'.plan.status = .done ∧ (∀ t ∈ s'.plan.targets, t.status ≠ .pending) ∧
      s'.plan.targets = settleAll act (pendingIds s.plan.targets) s.plan.targets ∧
      s'.ran = s.ran ++ (pendingIds s.plan.targets).filter fun i => (act i).isSome :=
  plan_finished built_threeTargets _ _ rfl (.inr (by decide)) (by decide)

end Calevate.Copilot
