import Calevate.Lib.Run
import Calevate.Campaigns.LineBudget
import Mathlib.Algebra.BigOperators.Group.List.Lemmas
import Mathlib.Data.List.Count
import Mathlib.Tactic.Linarith

/-!
# What a tick may spend

A slice makes no more dials than the rows it claimed, and counts those that were confirmed.
So the dials confirmed so far and the budget that is left stay within what was free when the
tick began, whatever was refused, failed or raised; and the campaigns of an account stay
within the share of its ceiling that it had free. A dial that was started but not confirmed
is not charged to the pool, and a call-back is not charged to the ceiling.
-/

namespace Calevate.Campaigns.LineBudget

open Lib

/-! ## A slice -/

namespace Slice

variable {s : Slice}

/-- What the slice counts as dialled is what it dialled and was confirmed. -/
def Tallied (s : Slice) : Prop := s.dials.count true = s.dialled

theorem Tallied.place (h : s.Tallied) : s.place.Tallied := by
  simp only [Tallied, Slice.place, List.count_append, List.count_cons_self, List.count_nil]
  rw [h]

theorem Tallied.startUnconfirmed (h : s.Tallied) (started : Bool) :
    (s.startUnconfirmed started).Tallied := by
  cases started with
  | false => exact h
  | true => simpa [Tallied, Slice.startUnconfirmed] using h

theorem Tallied.meetContact (h : s.Tallied) (turn : ContactTurn) :
    (s.meetContact turn).Tallied := by
  cases turn with
  | unconfirmed started => exact h.startUnconfirmed started
  | failed spent => cases spent <;> exact h
  | placed => exact h.place
  | _ => exact h

theorem Tallied.meetCallback (h : s.Tallied) (turn : CallbackTurn) :
    (s.meetCallback turn).Tallied := by
  cases turn with
  | unconfirmed started => exact h.startUnconfirmed started
  | placed => exact h.place
  | _ => exact h

theorem Tallied.dialContacts {linesFull : Bool} {turns : List (Turn ContactTurn)}
    (h : s.Tallied) : (s.dialContacts linesFull turns).Tallied := by
  induction turns generalizing s linesFull with
  | nil => exact h
  | cons turn turns ih =>
    have hmet : (if linesFull then s.block else s.meetContact turn.what).Tallied := by
      split
      · exact h
      · exact h.meetContact turn.what
    unfold Slice.dialContacts
    dsimp only
    split
    · exact hmet
    · exact ih hmet

theorem Tallied.dialCallbacks {turns : List (Turn CallbackTurn)} (h : s.Tallied) :
    (s.dialCallbacks turns).Tallied := by
  induction turns generalizing s with
  | nil => exact h
  | cons turn turns ih =>
    unfold Slice.dialCallbacks
    dsimp only
    split
    · exact h.meetCallback turn.what
    · exact ih (h.meetCallback turn.what)

theorem length_startUnconfirmed (started : Bool) :
    (s.startUnconfirmed started).dials.length ≤ s.dials.length + 1 := by
  cases started <;> simp [startUnconfirmed]

theorem length_meetContact (turn : ContactTurn) :
    (s.meetContact turn).dials.length ≤ s.dials.length + 1 := by
  cases turn with
  | unconfirmed started => exact length_startUnconfirmed started
  | failed spent => cases spent <;> exact Nat.le_succ _
  | placed => simp [meetContact, place]
  | _ => exact Nat.le_succ _

theorem length_meetCallback (turn : CallbackTurn) :
    (s.meetCallback turn).dials.length ≤ s.dials.length + 1 := by
  cases turn with
  | unconfirmed started => exact length_startUnconfirmed started
  | placed => simp [meetCallback, place]
  | _ => exact Nat.le_succ _

theorem length_dialContacts {linesFull : Bool} {turns : List (Turn ContactTurn)} :
    (s.dialContacts linesFull turns).dials.length ≤ s.dials.length + turns.length := by
  induction turns generalizing s linesFull with
  | nil => exact le_rfl
  | cons turn turns ih =>
    have hmet : (if linesFull then s.block else s.meetContact turn.what).dials.length ≤
        s.dials.length + 1 := by
      split
      · exact Nat.le_succ _
      · exact length_meetContact turn.what
    rw [List.length_cons]
    unfold dialContacts
    dsimp only
    split
    · exact hmet.trans (by omega)
    · exact ih.trans (by omega)

theorem length_dialCallbacks {turns : List (Turn CallbackTurn)} :
    (s.dialCallbacks turns).dials.length ≤ s.dials.length + turns.length := by
  induction turns generalizing s with
  | nil => exact le_rfl
  | cons turn turns ih =>
    have hmet := length_meetCallback (s := s) turn.what
    rw [List.length_cons]
    unfold dialCallbacks
    dsimp only
    split
    · exact hmet.trans (by omega)
    · exact ih.trans (by omega)

/-- No more confirmed dials than dials. -/
theorem Tallied.dialled_le (h : s.Tallied) : s.dialled ≤ s.dials.length := by
  rw [← h]
  exact List.count_le_length

end Slice

section Visits

variable (slots : ℤ)

theorem dispatchForCampaign_tallied (visit : CampaignVisit) :
    (dispatchForCampaign visit slots).Tallied := by
  have hempty : Slice.empty.Tallied := rfl
  cases visit with
  | raises => exact hempty
  | nothing => exact hempty
  | claims due closes => cases closes <;> exact hempty.dialContacts

theorem length_dispatchForCampaign (visit : CampaignVisit) :
    (dispatchForCampaign visit slots).dials.length ≤ slots.toNat := by
  cases visit with
  | raises => exact Nat.zero_le _
  | nothing => exact Nat.zero_le _
  | claims due closes =>
    have hloop : (Slice.empty.dialContacts false (due.take slots.toNat)).dials.length ≤
        slots.toNat := by
      refine (Slice.length_dialContacts).trans ?_
      simp [Slice.empty]
    cases closes <;> exact hloop

theorem dispatchDueCallbacks_tallied (visit : CallbackVisit) :
    (dispatchDueCallbacks visit slots).Tallied := by
  have hempty : Slice.empty.Tallied := rfl
  cases visit with
  | raises => exact hempty
  | claims settled due => exact hempty.dialCallbacks

theorem length_dispatchDueCallbacks (visit : CallbackVisit) :
    (dispatchDueCallbacks visit slots).dials.length ≤ (min slots maxPerTick).toNat := by
  cases visit with
  | raises => exact Nat.zero_le _
  | claims settled due =>
    refine (Slice.length_dialCallbacks).trans ?_
    simp [Slice.empty]

end Visits

/-! ## The plan -/

/-- The lines a list of slices gives an account. -/
def share (id : ℕ) (plans : List Planned) : ℕ :=
  (plans.map fun plan => if plan.tenantId = id then plan.slots.toNat else 0).sum

theorem share_cons (id : ℕ) (plan : Planned) (plans : List Planned) :
    share id (plan :: plans) =
      (if plan.tenantId = id then plan.slots.toNat else 0) + share id plans := rfl

theorem share_append (id : ℕ) (plans later : List Planned) :
    share id (plans ++ later) = share id plans + share id later := by
  simp [share]

theorem share_of_forall {id : ℕ} {plans : List Planned}
    (h : ∀ plan ∈ plans, plan.tenantId ≠ id) : share id plans = 0 := by
  apply List.sum_eq_zero
  intro lines hlines
  obtain ⟨plan, hplan, rfl⟩ := List.mem_map.mp hlines
  exact if_neg (h plan hplan)

/-- The account's budget is spent once across its campaigns. -/
theorem share_planCampaigns (id : ℕ) (budget : ℤ) (campaigns : List RunningCampaign) :
    (share id (planCampaigns id budget campaigns) : ℤ) ≤ max 0 budget := by
  induction campaigns generalizing budget with
  | nil => exact le_max_left ..
  | cons campaign campaigns ih =>
    unfold planCampaigns
    split
    · exact le_max_left ..
    · split
      · have hrest := ih (budget - min (campaign.concurrency : ℤ) budget)
        dsimp only
        rw [share_cons, if_pos rfl]
        push_cast
        omega
      · exact ih budget

theorem mem_planCampaigns {id : ℕ} {budget : ℤ} {campaigns : List RunningCampaign}
    {plan : Planned} (h : plan ∈ planCampaigns id budget campaigns) :
    plan.tenantId = id ∧ 0 ≤ plan.slots := by
  induction campaigns generalizing budget with
  | nil => cases h
  | cons campaign campaigns ih =>
    unfold planCampaigns at h
    split at h
    · cases h
    · split at h
      · rcases List.mem_cons.mp h with rfl | hlater
        · refine ⟨rfl, ?_⟩
          dsimp only
          omega
        · exact ih hlater
      · exact ih h

namespace TenantWork

variable {work : TenantWork} {pool : ℤ}

/-- The slices of an account are those its budget gave, or none. -/
theorem planned_eq (work : TenantWork) (pool : ℤ) :
    work.planned pool = [] ∨ ∃ campaigns,
      work.planned pool = planCampaigns work.tenantId
        (max 0 (work.ceiling pool - work.activeOutbound)) campaigns := by
  unfold planned
  split
  · cases hplanning : work.planning with
    | raises => simp [planTenant, hplanning]
    | reads started configured callLines campaigns =>
      have hplan : work.planTenant pool =
          if work.hasRunningCampaign ∨ (if work.hasDueSchedule then started else 0) ≠ 0 then
            some ((if work.hasDueSchedule then started else 0),
              planCampaigns work.tenantId (max 0 (work.ceiling pool - work.activeOutbound))
                campaigns)
          else some ((if work.hasDueSchedule then started else 0), []) := by
        simp only [planTenant, hplanning]
      by_cases hvisit : work.hasRunningCampaign ∨ (if work.hasDueSchedule then started else 0) ≠ 0
      · rw [hplan, if_pos hvisit]
        exact Or.inr ⟨campaigns, rfl⟩
      · rw [hplan, if_neg hvisit]
        exact Or.inl rfl
  · exact Or.inl rfl

theorem mem_planned {plan : Planned} (h : plan ∈ work.planned pool) :
    plan.tenantId = work.tenantId ∧ 0 ≤ plan.slots := by
  rcases work.planned_eq pool with hnone | ⟨campaigns, hplanned⟩
  · rw [hnone] at h
    cases h
  · rw [hplanned] at h
    exact mem_planCampaigns h

theorem share_planned (work : TenantWork) (pool : ℤ) :
    (share work.tenantId (work.planned pool) : ℤ) ≤
      max 0 (work.ceiling pool - work.activeOutbound) := by
  rcases work.planned_eq pool with hnone | ⟨campaigns, hplanned⟩
  · rw [hnone]
    exact le_max_left ..
  · rw [hplanned]
    exact (share_planCampaigns ..).trans_eq (max_eq_right (le_max_left ..))

/-- The call lines only narrow the ceiling of the plan. -/
theorem ceiling_le (work : TenantWork) (pool : ℤ) :
    work.ceiling pool ≤ tenantLineCeiling work.configured pool := by
  unfold ceiling configured
  split
  · exact le_max_left ..
  · exact min_le_left ..

end TenantWork

/-- An account has no slices but those it was planned itself. -/
theorem share_flatMap {pool : ℤ} {works : List TenantWork} {work : TenantWork}
    (hdistinct : (works.map (·.tenantId)).Nodup) (hwork : work ∈ works) :
    share work.tenantId (works.flatMap (·.planned pool)) =
      share work.tenantId (work.planned pool) := by
  induction works with
  | nil => cases hwork
  | cons first works ih =>
    rw [List.map_cons, List.nodup_cons] at hdistinct
    rw [List.flatMap_cons, share_append]
    rcases List.mem_cons.mp hwork with rfl | hlater
    · have hothers : share work.tenantId (works.flatMap (·.planned pool)) = 0 := by
        apply share_of_forall
        intro plan hplan hsame
        obtain ⟨other, hother, hplan⟩ := List.mem_flatMap.mp hplan
        apply hdistinct.1
        rw [← hsame, (TenantWork.mem_planned hplan).1]
        exact List.mem_map_of_mem hother
      rw [hothers, add_zero]
    · have hfirst : share work.tenantId (first.planned pool) = 0 := by
        apply share_of_forall
        intro plan hplan hsame
        apply hdistinct.1
        rw [← (TenantWork.mem_planned hplan).1, hsame]
        exact List.mem_map_of_mem hlater
      rw [hfirst, zero_add, ih hdistinct.2 hlater]

/-! ## The pool -/

namespace Spend

variable {s : Spend} {work : TenantWork} {plan : Planned} {budget : ℤ}

/-- The confirmed dials and what is left of the budget are within it. -/
structure Within (budget : ℤ) (s : Spend) : Prop where
  nonneg : 0 ≤ s.globalBudget
  spent : (s.dials.countP (·.confirmed) : ℤ) + s.globalBudget ≤ budget

theorem countP_log (p : Dial → Bool) (tenantId : ℕ) (callback : Bool) (slice : Slice) :
    (s.log tenantId callback slice).dials.countP p =
      s.dials.countP p +
        slice.dials.countP fun confirmed => p ⟨tenantId, callback, confirmed⟩ := by
  simp only [log, List.countP_append, List.countP_map]
  rfl

theorem confirmed_log {slice : Slice} (h : slice.Tallied) (tenantId : ℕ) (callback : Bool) :
    (s.log tenantId callback slice).dials.countP (·.confirmed) =
      s.dials.countP (·.confirmed) + slice.dialled := by
  rw [countP_log, ← h, List.count]
  congr 2
  funext confirmed
  cases confirmed <;> rfl

/-- What an account's call-backs add to the log. -/
theorem visitCallbacks_dials (h : work.hasDueCallback = true) :
    (s.visitCallbacks work).dials =
      (s.log work.tenantId true
        (dispatchDueCallbacks work.callbacks (max 0 s.globalBudget))).dials := by
  unfold visitCallbacks
  rw [if_pos h]
  dsimp only
  split <;> rfl

/-- What a campaign's slice adds to the log. -/
theorem visitCampaign_dials :
    (s.visitCampaign plan).dials =
      (s.log plan.tenantId false
        (dispatchForCampaign plan.visit (min plan.slots s.globalBudget))).dials := by
  unfold visitCampaign
  dsimp only
  split <;> rfl

/-- A visit costs what it dialled, and what it could have dialled where that is not known. -/
theorem visitCallbacks_globalBudget (h : work.hasDueCallback = true) (hs : 0 ≤ s.globalBudget) :
    0 ≤ (s.visitCallbacks work).globalBudget ∧
      (s.visitCallbacks work).globalBudget +
          (dispatchDueCallbacks work.callbacks (max 0 s.globalBudget)).dialled ≤
        s.globalBudget := by
  have hdialled :=
    (dispatchDueCallbacks_tallied (max 0 s.globalBudget) work.callbacks).dialled_le.trans
      (length_dispatchDueCallbacks (max 0 s.globalBudget) work.callbacks)
  unfold visitCallbacks
  rw [if_pos h]
  simp only [maxPerTick] at hdialled ⊢
  split
  · dsimp only [log, tenantFailed]
    omega
  · dsimp only [log]
    omega

/-- A slice costs what it dialled, and all of it where that is not known. -/
theorem visitCampaign_globalBudget (hslots : 0 ≤ plan.slots) (hs : 0 ≤ s.globalBudget) :
    0 ≤ (s.visitCampaign plan).globalBudget ∧
      (s.visitCampaign plan).globalBudget +
          (dispatchForCampaign plan.visit (min plan.slots s.globalBudget)).dialled ≤
        s.globalBudget := by
  have hdialled :=
    (dispatchForCampaign_tallied (min plan.slots s.globalBudget) plan.visit).dialled_le.trans
      (length_dispatchForCampaign (min plan.slots s.globalBudget) plan.visit)
  unfold visitCampaign
  dsimp only
  split
  · dsimp only [log, tenantFailed]
    omega
  · dsimp only [log]
    omega

theorem Within.visitCallbacks (h : s.Within budget) (work : TenantWork) :
    (s.visitCallbacks work).Within budget := by
  by_cases hdue : work.hasDueCallback = true
  · obtain ⟨hnonneg, hcost⟩ := visitCallbacks_globalBudget hdue h.nonneg
    refine ⟨hnonneg, ?_⟩
    rw [visitCallbacks_dials hdue, confirmed_log (dispatchDueCallbacks_tallied _ _)]
    have hspent := h.spent
    push_cast
    omega
  · rw [Spend.visitCallbacks, if_neg hdue]
    exact h

theorem Within.visitCampaign (h : s.Within budget) (hslots : 0 ≤ plan.slots) :
    (s.visitCampaign plan).Within budget := by
  obtain ⟨hnonneg, hcost⟩ := visitCampaign_globalBudget hslots h.nonneg
  refine ⟨hnonneg, ?_⟩
  rw [visitCampaign_dials, confirmed_log (dispatchForCampaign_tallied _ _)]
  have hspent := h.spent
  push_cast
  omega

theorem Within.visitCampaigns {plans : List Planned} (h : s.Within budget)
    (hslots : ∀ plan ∈ plans, 0 ≤ plan.slots) : (s.visitCampaigns plans).Within budget := by
  induction plans generalizing s with
  | nil => exact h
  | cons plan plans ih =>
    unfold Spend.visitCampaigns
    split
    · exact ⟨h.nonneg, h.spent⟩
    · exact ih (h.visitCampaign (hslots plan (List.mem_cons_self ..)))
        fun later hlater => hslots later (List.mem_cons_of_mem _ hlater)

/-! ## The ceilings -/

/-- The dials of a slice are all of its account and its kind. -/
theorem countP_log_of_forall {p : Dial → Bool} {tenantId : ℕ} {callback : Bool}
    (h : ∀ confirmed, p ⟨tenantId, callback, confirmed⟩ = false) (slice : Slice) :
    (s.log tenantId callback slice).dials.countP p = s.dials.countP p := by
  rw [countP_log]
  simp [h]

theorem countP_log_le (p : Dial → Bool) (tenantId : ℕ) (callback : Bool) (slice : Slice) :
    (s.log tenantId callback slice).dials.countP p ≤ s.dials.countP p + slice.dials.length := by
  rw [countP_log]
  exact Nat.add_le_add_left List.countP_le_length _

variable (id : ℕ)

theorem campaignDials_visitCallbacks :
    campaignDials id (s.visitCallbacks work).dials = campaignDials id s.dials := by
  by_cases hdue : work.hasDueCallback = true
  · rw [visitCallbacks_dials hdue]
    exact countP_log_of_forall (by simp) _
  · rw [visitCallbacks, if_neg hdue]

theorem callbackDials_visitCampaign :
    callbackDials id (s.visitCampaign plan).dials = callbackDials id s.dials := by
  rw [visitCampaign_dials]
  exact countP_log_of_forall (by simp) _

theorem callbackDials_visitCallbacks :
    callbackDials id (s.visitCallbacks work).dials ≤
      callbackDials id s.dials + if work.tenantId = id then 5 else 0 := by
  by_cases hdue : work.hasDueCallback = true
  · rw [visitCallbacks_dials hdue]
    by_cases hid : work.tenantId = id
    · have hlength := length_dispatchDueCallbacks (max 0 s.globalBudget) work.callbacks
      have hmost : (min (max 0 s.globalBudget) maxPerTick).toNat ≤ 5 := by
        simp only [maxPerTick]
        omega
      rw [if_pos hid]
      exact (countP_log_le ..).trans (Nat.add_le_add_left (hlength.trans hmost) _)
    · rw [if_neg hid]
      exact (countP_log_of_forall (by simp [hid]) _).le
  · rw [visitCallbacks, if_neg hdue]
    exact Nat.le_add_right ..

theorem campaignDials_visitCampaign :
    campaignDials id (s.visitCampaign plan).dials ≤
      campaignDials id s.dials + if plan.tenantId = id then plan.slots.toNat else 0 := by
  rw [visitCampaign_dials]
  by_cases hid : plan.tenantId = id
  · have hlength := length_dispatchForCampaign (min plan.slots s.globalBudget) plan.visit
    have hslots : (min plan.slots s.globalBudget).toNat ≤ plan.slots.toNat :=
      Int.toNat_le_toNat (min_le_left ..)
    rw [if_pos hid]
    exact (countP_log_le ..).trans (Nat.add_le_add_left (hlength.trans hslots) _)
  · rw [if_neg hid]
    exact (countP_log_of_forall (by simp [hid]) _).le

theorem campaignDials_callbackPass (works : List TenantWork) :
    campaignDials id (works.foldl visitCallbacks s).dials = campaignDials id s.dials := by
  induction works generalizing s with
  | nil => rfl
  | cons work works ih => exact ih.trans (campaignDials_visitCallbacks id)

theorem callbackDials_callbackPass (works : List TenantWork) :
    callbackDials id (works.foldl visitCallbacks s).dials ≤
      callbackDials id s.dials + 5 * (works.map (·.tenantId)).count id := by
  induction works generalizing s with
  | nil => exact le_rfl
  | cons work works ih =>
    have hvisit : callbackDials id (s.visitCallbacks work).dials ≤
        callbackDials id s.dials + if work.tenantId = id then 5 else 0 :=
      callbackDials_visitCallbacks id
    have hrest := ih (s := s.visitCallbacks work)
    rw [List.foldl_cons, List.map_cons, List.count_cons]
    by_cases hid : work.tenantId = id
    · rw [if_pos hid] at hvisit
      rw [if_pos (beq_iff_eq.mpr hid)]
      omega
    · rw [if_neg hid] at hvisit
      omega

theorem callbackDials_visitCampaigns (plans : List Planned) :
    callbackDials id (s.visitCampaigns plans).dials = callbackDials id s.dials := by
  induction plans generalizing s with
  | nil => rfl
  | cons plan plans ih =>
    unfold visitCampaigns
    split
    · rfl
    · exact ih.trans (callbackDials_visitCampaign id)

theorem campaignDials_visitCampaigns (plans : List Planned) :
    campaignDials id (s.visitCampaigns plans).dials ≤
      campaignDials id s.dials + share id plans := by
  induction plans generalizing s with
  | nil => exact le_rfl
  | cons plan plans ih =>
    unfold visitCampaigns
    split
    · exact Nat.le_add_right ..
    · have hvisit : campaignDials id (s.visitCampaign plan).dials ≤
          campaignDials id s.dials + if plan.tenantId = id then plan.slots.toNat else 0 :=
        campaignDials_visitCampaign id
      have hrest := ih (s := s.visitCampaign plan)
      rw [share_cons]
      omega

end Spend

/-! ## The tick -/

namespace Fleet

variable (fleet : Fleet) (pool : ℤ) (platform : Platform)

theorem running_slots {plan : Planned} (h : plan ∈ fleet.running pool) : 0 ≤ plan.slots := by
  obtain ⟨work, -, hplan⟩ := List.mem_flatMap.mp h
  exact (TenantWork.mem_planned hplan).2

theorem begin_within :
    (fleet.begin pool platform).Within (max 0 (pool - fleet.totalActive)) := by
  constructor
  · simp only [begin, globalBudget]
    split
    · exact le_rfl
    · exact le_max_left ..
  · simp only [begin, globalBudget, List.countP_nil, Nat.cast_zero, zero_add]
    split
    · exact le_max_left ..
    · exact le_rfl

theorem afterCallbacks_within :
    (fleet.afterCallbacks pool platform).Within (max 0 (pool - fleet.totalActive)) :=
  Run.foldl_inv (fun _ work h => h.visitCallbacks work) (fleet.begin_within pool platform)
    fleet.tenants

/-- The dials of the tick are those of its call-backs, or those and its campaigns'. -/
theorem dispatchFleet_dials :
    (fleet.dispatchFleet pool platform).dials = (fleet.afterCallbacks pool platform).dials ∨
      (fleet.dispatchFleet pool platform).dials =
        ((fleet.afterCallbacks pool platform).visitCampaigns (fleet.running pool)).dials := by
  unfold dispatchFleet
  dsimp only
  split
  · exact Or.inl rfl
  · split
    · exact Or.inl rfl
    · exact Or.inr rfl

/-- What the call-backs confirmed, and the campaigns after them, is within the pool. -/
theorem dispatchFleet_confirmed :
    ((fleet.dispatchFleet pool platform).dials.countP (·.confirmed) : ℤ) ≤
      max 0 (pool - fleet.totalActive) := by
  have hcallbacks := fleet.afterCallbacks_within pool platform
  have hcampaigns := hcallbacks.visitCampaigns fun plan hplan => fleet.running_slots pool hplan
  rcases fleet.dispatchFleet_dials pool platform with hdials | hdials
  · rw [hdials]
    exact (le_add_of_nonneg_right hcallbacks.nonneg).trans hcallbacks.spent
  · rw [hdials]
    exact (le_add_of_nonneg_right hcampaigns.nonneg).trans hcampaigns.spent

variable {fleet} {work : TenantWork}

theorem dispatchFleet_campaignDials (hwork : work ∈ fleet.tenants) :
    (campaignDials work.tenantId (fleet.dispatchFleet pool platform).dials : ℤ) ≤
      max 0 (work.ceiling pool - work.activeOutbound) := by
  have hcallbacks : campaignDials work.tenantId (fleet.afterCallbacks pool platform).dials = 0 :=
    Spend.campaignDials_callbackPass work.tenantId fleet.tenants
  rcases fleet.dispatchFleet_dials pool platform with hdials | hdials
  · rw [hdials, hcallbacks]
    exact le_max_left ..
  · have hcampaigns := Spend.campaignDials_visitCampaigns
      (s := fleet.afterCallbacks pool platform) work.tenantId (fleet.running pool)
    rw [hcallbacks, zero_add, running, share_flatMap fleet.distinct hwork] at hcampaigns
    rw [hdials]
    exact (Int.ofNat_le.mpr hcampaigns).trans (work.share_planned pool)

theorem dispatchFleet_callbackDials (hwork : work ∈ fleet.tenants) :
    callbackDials work.tenantId (fleet.dispatchFleet pool platform).dials ≤ 5 := by
  have hcount : callbackDials work.tenantId (fleet.afterCallbacks pool platform).dials ≤ 5 := by
    have hpass := Spend.callbackDials_callbackPass (s := fleet.begin pool platform)
      work.tenantId fleet.tenants
    rw [List.count_eq_one_of_mem fleet.distinct (List.mem_map_of_mem hwork)] at hpass
    exact hpass
  rcases fleet.dispatchFleet_dials pool platform with hdials | hdials
  · rwa [hdials]
  · rw [hdials, Spend.callbackDials_visitCampaigns]
    exact hcount

/-- **The dials a tick has confirmed, call-backs and campaigns together, are within what
the pool had left; an account's campaigns leave its calls under its ceiling, or as many as
they were, and its call-backs are at most `MAX_PER_TICK`.** -/
theorem tick_within_lines (fleet : Fleet) (cfg : LineSettings) (platform : Platform) :
    ((fleet.runTick cfg platform).dials.countP (·.confirmed) : ℤ) ≤
        max 0 (outboundLinePool cfg - fleet.totalActive) ∧
      ∀ work ∈ fleet.tenants,
        work.activeOutbound +
            (campaignDials work.tenantId (fleet.runTick cfg platform).dials : ℤ) ≤
          max (work.activeOutbound : ℤ)
            (tenantLineCeiling work.configured (outboundLinePool cfg)) ∧
        (callbackDials work.tenantId (fleet.runTick cfg platform).dials : ℤ) ≤ maxPerTick := by
  unfold runTick
  split
  · exact ⟨le_max_left .., fun work hwork => ⟨le_max_left .., Int.zero_le_ofNat 5⟩⟩
  · split
    · exact ⟨le_max_left .., fun work hwork => ⟨le_max_left .., Int.zero_le_ofNat 5⟩⟩
    · split
      · exact ⟨le_max_left .., fun work hwork => ⟨le_max_left .., Int.zero_le_ofNat 5⟩⟩
      · refine ⟨fleet.dispatchFleet_confirmed _ platform, fun work hwork => ⟨?_, ?_⟩⟩
        · have hcampaigns :=
            dispatchFleet_campaignDials (outboundLinePool cfg) platform hwork
          have hceiling := work.ceiling_le (outboundLinePool cfg)
          omega
        · exact Int.ofNat_le.mpr
            (dispatchFleet_callbackDials (outboundLinePool cfg) platform hwork)

/-- Three lines for outbound calls, and nothing in the way. -/
def threeLines : LineSettings := ⟨5, some 2, 0⟩

def openPlatform : Platform := ⟨false, true, false⟩

/-- One account, with two lines busy: a call-back whose dial is not confirmed and a campaign
contact behind it. -/
def unheard : Fleet where
  tenants := [{
    tenantId := 1
    activeOutbound := 2
    hasRunningCampaign := true
    hasDueSchedule := false
    hasDueCallback := true
    planning := .reads 0 none 10 [⟨1, 3, true, .claims [⟨.placed, false⟩] true⟩]
    callbacks := .claims 0 [⟨.unconfirmed true, false⟩] }]
  distinct := List.nodup_singleton 1

/-- One account with a ceiling of one line, and two call-backs due. -/
def promised : Fleet where
  tenants := [{
    tenantId := 1
    activeOutbound := 0
    hasRunningCampaign := true
    hasDueSchedule := false
    hasDueCallback := true
    planning := .reads 0 (some 1) 10 [⟨1, 3, true, .nothing⟩]
    callbacks := .claims 0 [⟨.placed, false⟩, ⟨.placed, false⟩] }]
  distinct := List.nodup_singleton 1

/-- A dial that is not confirmed is not charged to the pool, and call-backs are not charged
to their account's ceiling. -/
theorem lines_overspent :
    ¬ unheard.WithinPool threeLines openPlatform ∧
      ¬ promised.WithinCeilings threeLines openPlatform := by
  decide +kernel

end Fleet

end Calevate.Campaigns.LineBudget
