import Calevate.Callbacks.Service
import Calevate.Lib.Run

/-!
# Call-backs under overlapping ticks

`dispatch_due_callbacks` claims what is due and commits, then comes to each call-back it
claimed in a transaction of its own. The machine moves by statements, so that any number of
ticks, bookings and cancellations take turns in any order; a tick may die at any point and
leave what it claimed. A *hold* is a claim its tick has not come to the end of.

What the checks before a dial find, what the phone system answers, and what becomes of
calls and campaigns is the environment's choice. Time passes between statements, and passes
paused for a call-back whose campaign is.
-/

namespace Calevate.Callbacks

open Lib

/-! ## What a tick says -/

/-- `PERSON_LEVEL_REFUSALS`. -/
def personLevelRefusals : List String :=
  ["dnc", "no_consent", "destination_not_india", "consent_expired", "no_consent_record",
    "destination_erased"]

/-- `TRIAL_DIAL_REFUSALS`. -/
def trialDialRefusals : List String :=
  ["trial_live_outbound_unavailable", "trial_ended", "trial_minutes_used", "trial_daily_cap"]

/-- `ENGINE_PERSON_REFUSALS`. -/
def enginePersonRefusals : List String := ["engine_recipient_opted_out", "engine_platform_dnc_block"]

/-- `STALE_CALLBACK_REASON`. -/
def staleCallbackReason : String :=
  "This follow-up moved on, so this call was not needed."

/-- `RETRY_NOT_NEEDED_REASON`. -/
def retryNotNeededReason : String := "They answered an earlier call, so this retry was not needed."

/-- `ON_A_CALL_REASON`. -/
def onACallReason : String := "They were still on a call with us; we will try again shortly."

/-- `CALLING_HOURS_RULE`. -/
def callingHoursRule : String := "calling_hours"

/-- `CALLING_HOURS_REASON`. -/
def callingHoursReason : String := "Outbound calls are only placed between 9:00 and 21:00 IST."

/-- `TRIAL_CALLBACK_REASON`. -/
def trialCallbackReason : String :=
  "Call backs are not placed during your free trial, so this caller was not rung back. " ++
    "Follow up with them yourself; call backs start once you add credit and verify your " ++
    "business."

/-- `UNCONFIRMED_REASON`. -/
def unconfirmedReason : String :=
  "We started this call and did not hear back from the phone system, so it may have " ++
    "gone through. We will not try again in case it rings them twice."

/-- `DIAL_FAILED_REASON`. -/
def dialFailedReason : String := "The phone system would not place this call."

/-- `OPTED_OUT_REASON`. -/
def optedOutReason : String :=
  "This number is marked as not to be called, so the call-back was not placed."

/-- `_WAIT_REFUSALS`. -/
def waitRefusals : List (String × String) :=
  [("carrier_lines_busy", "All our phone lines were busy; we will try again shortly."),
    (callingHoursRule, callingHoursReason)]

namespace Db

/-- What a refusal of the gate does. -/
def gateRefused (db : Db) (id : ℕ) (rule : String) (reason : Option String) (now : ℕ) : Db :=
  if rule ∈ personLevelRefusals then db.settle id .refused (some rule) reason none now
  else if rule ∈ trialDialRefusals then
    db.settle id .refused (some rule) (some trialCallbackReason) none now
  else db.defer id rule reason now

/-- What a refusal of the phone system does. -/
def engineRefused (db : Db) (id : ℕ) (code : String) (now : ℕ) : Db :=
  if code ∈ enginePersonRefusals then
    db.settle id .refused (some code) (some optedOutReason) none now
  else
    match waitRefusals.lookup code with
    | some reason => db.defer id code (some reason) now
    | none => db.defer id "dial_failed" (some dialFailedReason) now

end Db

/-! ## Ticks -/

/-- A claim a tick has not come to the end of, with the call it was dialled as. -/
structure Hold where
  tick : ℕ
  callback : DueCallback
  dial : Option ℕ
  deriving DecidableEq

structure World where
  db : Db
  holds : List Hold
  clock : ℕ

/-- What a tick finds when it comes to a call-back it does not dial. -/
inductive Finding where
  | stale
  | answered
  | onACall
  | gate (rule : String) (reason : Option String)
  | engine (code : String)

/-- What becomes of a dial. -/
inductive Answer where
  | placed
  | unconfirmed
  | refused (code : String)

inductive Action where
  | book (booking : Booking)
  | cancelForPhones (phones : List String) (reason : String)
  | settleDialled
  | callOff (only : Option ℕ)
  | hold
  | release (locked : List ℕ)
  | expire
  | claim (tick limit : ℕ) (locked : List ℕ)
  | decide (tick id : ℕ) (finding : Finding)
  | dial (tick id callId : ℕ) (campaignId : Option ℕ)
  | conclude (tick id : ℕ) (answer : Answer)
  | crash (tick : ℕ)
  | setCall (callId : ℕ) (call : Option PhoneCall)
  | setCampaign (campaignId : ℕ) (campaign : Option Campaign)
  | wait (d : ℕ)

namespace World

/-- An account without call-backs. -/
def empty : World := ⟨Db.empty, [], 0⟩

/-- The claim of a tick it has not dialled yet. -/
def undialled (w : World) (tick id : ℕ) : Option Hold :=
  w.holds.find? fun h => h.tick = tick ∧ h.callback.id = id ∧ h.dial = none

/-- The claim of a tick that waits for the phone system, and the call. -/
def dialled (w : World) (tick id : ℕ) : Option (Hold × ℕ) := do
  let h ← w.holds.find? fun h => h.tick = tick ∧ h.callback.id = id ∧ h.dial.isSome
  return (h, ← h.dial)

/-- The end of a claim. -/
def letGo (w : World) (tick id : ℕ) (db : Db) : World :=
  { w with db := db, holds := w.holds.filter fun h => ¬ (h.tick = tick ∧ h.callback.id = id) }

@[simp] theorem letGo_db (w : World) (tick id : ℕ) (db : Db) : (w.letGo tick id db).db = db := rfl

@[simp] theorem letGo_clock (w : World) (tick id : ℕ) (db : Db) :
    (w.letGo tick id db).clock = w.clock := rfl

/-- The claims a tick's claim adds. -/
def newHolds (w : World) (tick limit : ℕ) (locked : List ℕ) : List Hold :=
  (w.db.picked limit locked w.clock).map fun r => ⟨tick, w.db.due r, none⟩

/-- A tick comes to a call-back and does not dial it. -/
def decideOn (w : World) (h : Hold) : Finding → Db
  | .stale =>
    w.db.settle h.callback.id .cancelled none (some staleCallbackReason) none w.clock
  | .answered =>
    w.db.settle h.callback.id .cancelled none (some retryNotNeededReason) none w.clock
  | .onACall => w.db.defer h.callback.id "lead_on_a_call" (some onACallReason) w.clock
  | .gate rule reason =>
    match opensLater h.callback w.clock with
    | some opens =>
      w.db.deferToWindow h.callback.id opens callingHoursRule (some callingHoursReason) w.clock
    | none => w.db.gateRefused h.callback.id rule reason w.clock
  | .engine code =>
    match opensLater h.callback w.clock with
    | some opens =>
      w.db.deferToWindow h.callback.id opens callingHoursRule (some callingHoursReason) w.clock
    | none => w.db.engineRefused h.callback.id code w.clock

/-- The phone system answers a dial. -/
def concludeOn (w : World) (h : Hold) (callId : ℕ) : Answer → Db
  | .placed => w.db
  | .unconfirmed =>
    w.db.settle h.callback.id .failed none (some unconfirmedReason) (some callId) w.clock
  | .refused code => w.db.engineRefused h.callback.id code w.clock

/-- One statement, or nothing where it is nobody's turn. -/
def step (w : World) : Action → World
  | .book booking => { w with db := w.db.book booking w.clock }
  | .cancelForPhones phones reason => { w with db := w.db.cancelForPhones phones reason w.clock }
  | .settleDialled => { w with db := w.db.settleDialled w.clock }
  | .callOff only => { w with db := w.db.callOffForStoppedCampaigns only w.clock }
  | .hold => { w with db := w.db.holdForPausedCampaigns w.clock }
  | .release locked => { w with db := w.db.releaseResumed locked w.clock }
  | .expire => { w with db := w.db.expireStale w.clock }
  | .claim tick limit locked =>
    { w with
      db := w.db.claimDue tick limit locked w.clock
      holds := w.holds ++ w.newHolds tick limit locked }
  | .decide tick id finding =>
    match w.undialled tick id with
    | some h => w.letGo tick id (w.decideOn h finding)
    | none => w
  | .dial tick id callId campaignId =>
    match w.undialled tick id with
    | some h =>
      match opensLater h.callback w.clock with
      | some opens =>
        w.letGo tick id
          (w.db.deferToWindow h.callback.id opens callingHoursRule (some callingHoursReason)
            w.clock)
      | none =>
        if (w.db.calls callId).isSome then w
        else
          { w with
            db := w.db.linkCallbackToCall id callId campaignId w.clock
            holds := w.holds.map fun h' =>
              if h'.tick = tick ∧ h'.callback.id = id then { h' with dial := some callId }
              else h' }
    | none => w
  | .conclude tick id answer =>
    match w.dialled tick id with
    | some (h, callId) => w.letGo tick id (w.concludeOn h callId answer)
    | none => w
  | .crash tick => { w with holds := w.holds.filter fun h => h.tick ≠ tick }
  | .setCall callId call =>
    { w with db := { w.db with calls := Function.update w.db.calls callId call } }
  | .setCampaign campaignId campaign =>
    { w with db := { w.db with campaigns := Function.update w.db.campaigns campaignId campaign } }
  | .wait d =>
    { w with
      db := w.db.updateWhere (fun r => w.db.campaignIs r .paused) id
        fun _ => [.paused w.clock (w.clock + d)]
      clock := w.clock + d }

def run (actions : List Action) : World := actions.foldl step empty

/-- The passes before the dials, which a tick makes in one transaction. -/
def passes (tick limit : ℕ) (locked : List ℕ) : List Action :=
  [.settleDialled, .callOff none, .hold, .release locked, .expire, .claim tick limit locked]

end World

end Calevate.Callbacks
