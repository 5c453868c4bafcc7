import Mathlib.Algebra.BigOperators.Group.List.Basic
import Mathlib.Algebra.Order.Floor.Ring
import Mathlib.Data.List.Dedup
import Mathlib.Data.Rat.Floor

/-!
# The lines one tick spends

`_dispatch_fleet` reads the lines in use once, gives every account's campaigns a share of
its own ceiling, and then spends what is left of the pool: call-backs first, account by
account, campaigns after them. What the tick meets on the way (which contacts are due, what
the checks find, what the phone system answers, which transaction raises) is data of the
fleet.

A call-back is not charged to its account's ceiling. It has the pool and `MAX_PER_TICK`.
-/

namespace Calevate.Campaigns.LineBudget

/-! ## The pool and the ceiling -/

/-- The settings the outbound pool comes from; `lines` is the ceiling of the engine, or
`carrier_concurrency` where it has none. -/
structure LineSettings where
  lines : ℤ
  inboundReservedLines : Option ℤ
  inboundReserveRatio : ℚ

/-- `inbound_line_reserve`. -/
def inboundLineReserve (concurrency : ℤ) (reservedLines : Option ℤ) (ratio : ℚ) : ℤ :=
  match reservedLines with
  | none => max 1 ⌈concurrency * ratio⌉
  | some reserved => max 1 (min reserved concurrency)

/-- `outbound_line_pool`. -/
def outboundLinePool (cfg : LineSettings) : ℤ :=
  max 0 (cfg.lines - inboundLineReserve cfg.lines cfg.inboundReservedLines cfg.inboundReserveRatio)

/-- `tenant_line_ceiling`. -/
def tenantLineCeiling (configured : Option ℤ) (pool : ℤ) : ℤ :=
  max 0 (min (configured.getD pool) pool)

/-! ## What a tick meets -/

/-- What becomes of a contact a campaign's slice comes to. `unconfirmed` is
`DialUnconfirmedError`, with whether the engine did start the call. -/
inductive ContactTurn where
  | stopped
  | settledBeforeDial
  | unconfirmed (started : Bool)
  | refusedOnOurSide (linesBusy : Bool)
  | failed (spent : Bool)
  | placed
  deriving DecidableEq, Repr

/-- What becomes of a claimed call-back. -/
inductive CallbackTurn where
  | stoodDown
  | deferred
  | blocked
  | unconfirmed (started : Bool)
  | placed
  deriving DecidableEq, Repr

/-- A turn's transaction, and whether something escapes it after that. -/
structure Turn (α : Type) where
  what : α
  raises : Bool
  deriving DecidableEq, Repr

/-- A campaign's slice: the claiming transaction raises, finds nothing it may dial (the
campaign is over, out of credit, blocked or complained about), or claims from the contacts
that are due, oldest first; `closes` is that the closing transaction commits. -/
inductive CampaignVisit where
  | raises
  | nothing
  | claims (due : List (Turn ContactTurn)) (closes : Bool)
  deriving DecidableEq, Repr

/-- An account's call-backs: the claiming transaction raises, or settles some and claims
from those that are due. -/
inductive CallbackVisit where
  | raises
  | claims (settled : ℕ) (due : List (Turn CallbackTurn))
  deriving DecidableEq, Repr

/-- A running campaign as the budget read returns it, and what its slice meets. -/
structure RunningCampaign where
  id : ℕ
  concurrency : ℕ
  windowOpen : Bool
  visit : CampaignVisit
  deriving DecidableEq, Repr

/-- The planning of an account: it raises, or starts some schedules and reads the plan's
`concurrency_ceiling`, the account's call lines and its running campaigns. -/
inductive Planning where
  | raises
  | reads (started : ℕ) (configured : Option ℤ) (callLines : ℤ) (campaigns : List RunningCampaign)
  deriving DecidableEq, Repr

/-- `TenantWork`, with what the tick will meet there. -/
structure TenantWork where
  tenantId : ℕ
  activeOutbound : ℕ
  hasRunningCampaign : Bool
  hasDueSchedule : Bool
  hasDueCallback : Bool
  planning : Planning
  callbacks : CallbackVisit
  deriving DecidableEq, Repr

/-- `get_platform_status` and the engine's hold-off. -/
structure Platform where
  outboundHalted : Bool
  acceptingNewWork : Bool
  dialBackoff : Bool
  deriving DecidableEq, Repr

/-- What `dispatch_scan()` returns: each account once. -/
structure Fleet where
  tenants : List TenantWork
  distinct : (tenants.map (·.tenantId)).Nodup

/-! ## Slices -/

/-- A call the phone system started; `confirmed` is that it told us so. -/
structure Dial where
  tenantId : ℕ
  callback : Bool
  confirmed : Bool
  deriving DecidableEq, Repr

/-- The campaign dials of an account. -/
def campaignDials (tenantId : ℕ) (dials : List Dial) : ℕ :=
  dials.countP fun dial => dial.tenantId = tenantId ∧ dial.callback = false

/-- The call-backs dialled for an account. -/
def callbackDials (tenantId : ℕ) (dials : List Dial) : ℕ :=
  dials.countP fun dial => dial.tenantId = tenantId ∧ dial.callback = true

/-- What a loop over claimed rows has counted, the dials it made (confirmed or not), and
whether it was left by an exception. -/
structure Slice where
  dialled : ℕ
  blocked : ℕ
  exhausted : ℕ
  dials : List Bool
  raised : Bool
  deriving DecidableEq, Repr

namespace Slice

def empty : Slice := ⟨0, 0, 0, [], false⟩

def block (s : Slice) : Slice := { s with blocked := s.blocked + 1 }

def exhaust (s : Slice) : Slice := { s with exhausted := s.exhausted + 1 }

def place (s : Slice) : Slice :=
  { s with dialled := s.dialled + 1, dials := s.dials ++ [true] }

/-- A call the engine started without telling us. -/
def startUnconfirmed (s : Slice) (started : Bool) : Slice :=
  if started then { s with dials := s.dials ++ [false] } else s

def escape (s : Slice) : Slice := { s with raised := true }

/-- One contact of a campaign. -/
def meetContact (s : Slice) : ContactTurn → Slice
  | .stopped => s.block
  | .settledBeforeDial => s.block
  | .unconfirmed started => (s.startUnconfirmed started).exhaust
  | .refusedOnOurSide _ => s.block
  | .failed spent => if spent then s.exhaust else s
  | .placed => s.place

/-- One call-back. -/
def meetCallback (s : Slice) : CallbackTurn → Slice
  | .stoodDown => s
  | .deferred => s
  | .blocked => s.block
  | .unconfirmed started => s.startUnconfirmed started
  | .placed => s.place

/-- The loop over the claimed contacts. Once the lines are full the rest are refused. -/
def dialContacts (s : Slice) : Bool → List (Turn ContactTurn) → Slice
  | _, [] => s
  | linesFull, turn :: turns =>
    let s := if linesFull then s.block else s.meetContact turn.what
    if turn.raises then s.escape
    else s.dialContacts (linesFull || turn.what = .refusedOnOurSide true) turns

/-- The loop over the claimed call-backs. -/
def dialCallbacks (s : Slice) : List (Turn CallbackTurn) → Slice
  | [] => s
  | turn :: turns =>
    let s := s.meetCallback turn.what
    if turn.raises then s.escape else s.dialCallbacks turns

end Slice

/-- `MAX_PER_TICK`. -/
def maxPerTick : ℤ := 5

/-- **`_dispatch_for_campaign`**. -/
def dispatchForCampaign (visit : CampaignVisit) (slots : ℤ) : Slice :=
  match visit with
  | .raises => Slice.empty.escape
  | .nothing => Slice.empty
  | .claims due closes =>
    let s := Slice.empty.dialContacts false (due.take slots.toNat)
    if closes then s else s.escape

/-- **`dispatch_due_callbacks`**. -/
def dispatchDueCallbacks (visit : CallbackVisit) (slots : ℤ) : Slice :=
  match visit with
  | .raises => Slice.empty.escape
  | .claims _ due => Slice.empty.dialCallbacks (due.take (min slots maxPerTick).toNat)

/-! ## Planning -/

/-- One campaign's slice of the tick. -/
structure Planned where
  tenantId : ℕ
  campaignId : ℕ
  slots : ℤ
  visit : CampaignVisit
  deriving DecidableEq, Repr

/-- The account's budget, spent once across its campaigns. -/
def planCampaigns (tenantId : ℕ) (tenantBudget : ℤ) : List RunningCampaign → List Planned
  | [] => []
  | campaign :: campaigns =>
    if tenantBudget ≤ 0 then []
    else if campaign.windowOpen then
      let slots := min (campaign.concurrency : ℤ) tenantBudget
      ⟨tenantId, campaign.id, slots, campaign.visit⟩ ::
        planCampaigns tenantId (tenantBudget - slots) campaigns
    else planCampaigns tenantId tenantBudget campaigns

namespace TenantWork

/-- The plan's `concurrency_ceiling`, where it could be read. -/
def configured (work : TenantWork) : Option ℤ :=
  match work.planning with
  | .raises => none
  | .reads _ configured _ _ => configured

/-- The lines the campaigns of the account may have between them. -/
def ceiling (work : TenantWork) (pool : ℤ) : ℤ :=
  match work.planning with
  | .raises => 0
  | .reads _ configured callLines _ => min (tenantLineCeiling configured pool) callLines

/-- **`_plan_tenant`**: `(started, planned slices)`, or nothing when it raises. -/
def planTenant (work : TenantWork) (pool : ℤ) : Option (ℕ × List Planned) :=
  match work.planning with
  | .raises => none
  | .reads started _ _ campaigns =>
    let startedHere := if work.hasDueSchedule then started else 0
    if work.hasRunningCampaign ∨ startedHere ≠ 0 then
      some (startedHere,
        planCampaigns work.tenantId (max 0 (work.ceiling pool - work.activeOutbound)) campaigns)
    else some (startedHere, [])

/-- The tick opens the account to plan it. -/
def plans (work : TenantWork) : Bool := work.hasRunningCampaign || work.hasDueSchedule

/-- What the planning loop takes from the account. -/
def planned (work : TenantWork) (pool : ℤ) : List Planned :=
  if work.plans then ((work.planTenant pool).map Prod.snd).getD [] else []

end TenantWork

/-! ## The tick -/

/-- `_TenantFailure`. -/
structure TenantFailure where
  tenantId : ℕ
  step : String
  deriving DecidableEq, Repr

/-- What the tick has left to spend, and what it did so far. -/
structure Spend where
  globalBudget : ℤ
  dials : List Dial
  failures : List TenantFailure
  callbacksDialled : ℕ
  dialled : ℕ
  blocked : ℕ
  exhausted : ℕ
  served : List ℕ
  starved : List ℕ
  deriving DecidableEq, Repr

namespace Spend

/-- The dials of a slice, as an account's. -/
def log (s : Spend) (tenantId : ℕ) (callback : Bool) (slice : Slice) : Spend :=
  { s with dials := s.dials ++ slice.dials.map fun confirmed => ⟨tenantId, callback, confirmed⟩ }

/-- `_tenant_failed`. -/
def tenantFailed (s : Spend) (tenantId : ℕ) (step : String) : Spend :=
  { s with failures := s.failures ++ [⟨tenantId, step⟩] }

/-- One account's call-backs. What a visit that raises has dialled is unknown, and it is
charged the most it could have taken. -/
def visitCallbacks (s : Spend) (work : TenantWork) : Spend :=
  if work.hasDueCallback then
    let slice := dispatchDueCallbacks work.callbacks (max 0 s.globalBudget)
    let s := s.log work.tenantId true slice
    if slice.raised then
      { s.tenantFailed work.tenantId "callbacks" with
        globalBudget := max 0 (s.globalBudget - min s.globalBudget maxPerTick) }
    else
      { s with
        callbacksDialled := s.callbacksDialled + slice.dialled
        globalBudget := max 0 (s.globalBudget - slice.dialled) }
  else s

/-- One campaign's slice. -/
def visitCampaign (s : Spend) (plan : Planned) : Spend :=
  let take := min plan.slots s.globalBudget
  let slice := dispatchForCampaign plan.visit take
  let s := { s.log plan.tenantId false slice with served := s.served ++ [plan.tenantId] }
  if slice.raised then
    { s.tenantFailed plan.tenantId "campaign" with globalBudget := s.globalBudget - take }
  else
    { s with
      dialled := s.dialled + slice.dialled
      blocked := s.blocked + slice.blocked
      exhausted := s.exhausted + slice.exhausted
      globalBudget := s.globalBudget - slice.dialled }

/-- The slices in order, until the budget is spent. The accounts behind that got nothing. -/
def visitCampaigns (s : Spend) : List Planned → Spend
  | [] => s
  | plan :: plans =>
    if s.globalBudget ≤ 0 then
      { s with
        starved := (((plan :: plans).map (·.tenantId)).filter (· ∉ s.served)).dedup }
    else (s.visitCampaign plan).visitCampaigns plans

end Spend

/-- What the tick returns. -/
inductive Verdict where
  | haltedByBigRedSwitch
  | pausedForMaintenance
  | noOutboundPool
  | noRunningCampaigns (started callbacks : ℕ)
  | poolSaturated (active callbacks : ℕ)
  | ran (dialled blocked exhausted started starved callbacks : ℕ)
  deriving DecidableEq, Repr

/-- A tick: its verdict, the dials it made in order, and the accounts it skipped. -/
structure TickResult where
  verdict : Verdict
  dials : List Dial
  failures : List TenantFailure
  deriving DecidableEq, Repr

namespace Fleet

/-- The lines in use, over the whole platform. -/
def totalActive (fleet : Fleet) : ℕ := (fleet.tenants.map (·.activeOutbound)).sum

/-- The planned slices, account by account. -/
def running (fleet : Fleet) (pool : ℤ) : List Planned :=
  fleet.tenants.flatMap (·.planned pool)

/-- The schedules the planning started. -/
def started (fleet : Fleet) (pool : ℤ) : ℕ :=
  (fleet.tenants.map fun work =>
    if work.plans then ((work.planTenant pool).map Prod.fst).getD 0 else 0).sum

/-- The accounts whose planning raised. -/
def planFailures (fleet : Fleet) (pool : ℤ) : List TenantFailure :=
  (fleet.tenants.filter fun work => work.plans && (work.planTenant pool).isNone).map
    fun work => ⟨work.tenantId, "plan"⟩

/-- What is left of the pool, or nothing while the engine holds dials off. -/
def globalBudget (fleet : Fleet) (pool : ℤ) (platform : Platform) : ℤ :=
  if platform.dialBackoff then 0 else max 0 (pool - fleet.totalActive)

/-- The tick before its first dial. -/
def begin (fleet : Fleet) (pool : ℤ) (platform : Platform) : Spend where
  globalBudget := fleet.globalBudget pool platform
  dials := []
  failures := fleet.planFailures pool
  callbacksDialled := 0
  dialled := 0
  blocked := 0
  exhausted := 0
  served := []
  starved := []

/-- The tick after its call-backs. -/
def afterCallbacks (fleet : Fleet) (pool : ℤ) (platform : Platform) : Spend :=
  fleet.tenants.foldl Spend.visitCallbacks (fleet.begin pool platform)

/-- **`_dispatch_fleet`**. -/
def dispatchFleet (fleet : Fleet) (pool : ℤ) (platform : Platform) : TickResult :=
  let s := fleet.afterCallbacks pool platform
  let running := fleet.running pool
  if running = [] then
    ⟨.noRunningCampaigns (fleet.started pool) s.callbacksDialled, s.dials, s.failures⟩
  else if s.globalBudget = 0 then
    ⟨.poolSaturated fleet.totalActive s.callbacksDialled, s.dials, s.failures⟩
  else
    let s := s.visitCampaigns running
    ⟨.ran s.dialled s.blocked s.exhausted (fleet.started pool) s.starved.length
      s.callbacksDialled, s.dials, s.failures⟩

/-- **`_run_tick`**. -/
def runTick (fleet : Fleet) (cfg : LineSettings) (platform : Platform) : TickResult :=
  if platform.outboundHalted then ⟨.haltedByBigRedSwitch, [], []⟩
  else if ¬ platform.acceptingNewWork then ⟨.pausedForMaintenance, [], []⟩
  else if outboundLinePool cfg ≤ 0 then ⟨.noOutboundPool, [], []⟩
  else fleet.dispatchFleet (outboundLinePool cfg) platform

/-! ## Keeping to the lines -/

/-- The dials of the tick are within what the pool had left. -/
def WithinPool (fleet : Fleet) (cfg : LineSettings) (platform : Platform) : Prop :=
  ((fleet.runTick cfg platform).dials.length : ℤ) ≤
    max 0 (outboundLinePool cfg - fleet.totalActive)

/-- Each account's active calls and its dials of the tick are within its ceiling. -/
def WithinCeilings (fleet : Fleet) (cfg : LineSettings) (platform : Platform) : Prop :=
  ∀ work ∈ fleet.tenants,
    work.activeOutbound +
        ((fleet.runTick cfg platform).dials.countP (·.tenantId = work.tenantId) : ℤ) ≤
      tenantLineCeiling work.configured (outboundLinePool cfg)

instance (fleet : Fleet) (cfg : LineSettings) (platform : Platform) :
    Decidable (fleet.WithinPool cfg platform) :=
  inferInstanceAs (Decidable (_ ≤ _))

instance (fleet : Fleet) (cfg : LineSettings) (platform : Platform) :
    Decidable (fleet.WithinCeilings cfg platform) :=
  inferInstanceAs (Decidable (∀ work ∈ fleet.tenants, _ ≤ _))

end Fleet

end Calevate.Campaigns.LineBudget
