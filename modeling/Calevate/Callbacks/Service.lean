import Calevate.Lib.Journal
import Calevate.Campaigns.CallingHours
import Calevate.Campaigns.Dispatch

/-!
# Promised call-backs

The statements of `callbacks.service` that write `scheduled_callbacks`, each as what it does
to the table. A call-back belongs to the campaign of the call it was promised on, and the
pause of that campaign holds it. The journal beside the table is what the statements did to
each row; no statement reads it. Instants are microseconds of UTC, and a statement runs at
one instant, which is its `now()` and the one it is handed.
-/

namespace Calevate.Callbacks

open Lib Lib.Calendar

/-! ## Rows -/

/-- `STATUSES`. -/
inductive CallbackStatus where
  | scheduled
  | dialing
  | completed
  | cancelled
  | refused
  | missed
  | failed
  deriving DecidableEq, Repr

/-- `LIVE_STATUSES`; the others are `TERMINAL_STATUSES`. -/
def CallbackStatus.live (status : CallbackStatus) : Bool :=
  status = .scheduled ∨ status = .dialing

/-- `GRACE`. -/
def grace : ℕ := 2 * hour

/-- `RETRY_AFTER`. -/
def retryAfter : ℕ := 5 * minute

/-- `STUCK_DIALING_AFTER`: the longest call and ten minutes. -/
def stuckDialingAfter : ℕ := 3600 * second + 10 * minute

/-- `MAX_NOTE`. -/
def maxNote : ℕ := 200

/-- `UNATTEMPTED_REASON`. -/
def unattemptedReason : String :=
  "We were not able to place this call in time. Nothing blocked it — it simply did not " ++
    "go out while it still made sense to."

/-- `CAMPAIGN_PAUSED_RULE`. -/
def campaignPausedRule : String := "campaign_paused"

/-- `CAMPAIGN_PAUSED_REASON`. -/
def campaignPausedReason : String :=
  "On hold while its campaign is paused. It will be called once the campaign resumes."

/-- `CAMPAIGN_STOPPED_RULE`. -/
def campaignStoppedRule : String := "campaign_stopped"

/-- `CAMPAIGN_STOPPED_REASON`. -/
def campaignStoppedReason : String := "Its campaign was stopped."

/-- A row of `scheduled_callbacks`. -/
structure Callback where
  id : ℕ
  agentId : ℕ
  sourceCallId : Option ℕ
  sourceExecutionId : String
  leadId : Option ℕ
  phone : String
  requestedAt : ℕ
  bookedAt : ℕ
  status : CallbackStatus
  attempts : ℤ
  nextAttemptAt : Option ℕ
  graceFrom : Option ℕ
  lastRefusalRule : Option String
  lastRefusalReason : Option String
  lastCallId : Option ℕ
  settledAt : Option ℕ
  note : Option String
  language : Option String
  createdAt : ℕ
  updatedAt : ℕ
  deriving DecidableEq

/-- Where the two hours count from. -/
def Callback.graceOrigin (r : Callback) : ℕ := max r.requestedAt (r.graceFrom.getD r.requestedAt)

/-- A row of `calls`, as far as a call-back reads it. -/
structure PhoneCall where
  campaignId : Option ℕ
  status : Campaigns.CallStatus
  deriving DecidableEq

/-- A row of `campaigns`, as far as a call-back reads it. -/
structure Campaign where
  status : Campaigns.CampaignStatus
  callingHours : Option Campaigns.CallingHours
  deriving DecidableEq

/-! ## The journal -/

/-- What was done to a call-back. -/
inductive Deed where
  | moved (requestedAt : ℕ)
  | claimed (tick at_ requestedAt : ℕ)
  | refunded
  | released (at_ : ℕ)
  | windowed (at_ : ℕ)
  | dialled (found : CallbackStatus)
  | paused (since until_ : ℕ)
  deriving DecidableEq

/-- An entry of the journal. -/
structure Entry where
  callback : ℕ
  deed : Deed
  deriving DecidableEq

/-! ## Arguments and answers -/

/-- What is booked: the arguments of `book`. -/
structure Booking where
  callbackId : ℕ
  agentId : ℕ
  sourceCallId : Option ℕ
  sourceExecutionId : String
  leadId : Option ℕ
  phone : String
  requestedAt : ℕ
  bookedAt : ℕ
  note : Option String
  language : Option String
  deriving DecidableEq

/-- `(text or None) and text[:n]`. -/
def clip (n : ℕ) (text : Option String) : Option String :=
  text.bind fun text => if text = "" then none else some (String.ofList (text.toList.take n))

/-- The row `_UPSERT` inserts. -/
def newCallback (b : Booking) (now : ℕ) : Callback where
  id := b.callbackId
  agentId := b.agentId
  sourceCallId := b.sourceCallId
  sourceExecutionId := b.sourceExecutionId
  leadId := b.leadId
  phone := b.phone
  requestedAt := b.requestedAt
  bookedAt := b.bookedAt
  status := .scheduled
  attempts := 0
  nextAttemptAt := none
  graceFrom := none
  lastRefusalRule := none
  lastRefusalReason := none
  lastCallId := none
  settledAt := none
  note := clip maxNote b.note
  language := clip 8 b.language
  createdAt := now
  updatedAt := now

/-- `DueCallback`. -/
structure DueCallback where
  id : ℕ
  agentId : ℕ
  leadId : Option ℕ
  phone : String
  requestedAt : ℕ
  note : Option String
  sourceExecutionId : String
  bookedAt : ℕ
  sourceCallId : Option ℕ
  graceFrom : Option ℕ
  campaignCallingHours : Option Campaigns.CallingHours
  deriving DecidableEq

/-- The opening `defer_to_window` waits for: of a released call-back, when its campaign's hours
are closed. -/
def opensLater (callback : DueCallback) (now : ℕ) : Option ℕ :=
  callback.graceFrom.bind fun _ =>
    let opens := Campaigns.firstDialNotBefore now callback.campaignCallingHours
    if opens ≤ now then none else some opens

/-- What `expire_stale` ends. -/
def stale (now : ℕ) (r : Callback) : Bool :=
  r.status = .scheduled ∧ r.graceOrigin + grace < now ∧
    r.lastRefusalRule ≠ some campaignPausedRule

/-- `ORDER BY requested_at, id`. -/
def sooner (r r' : Callback) : Bool :=
  r.requestedAt < r'.requestedAt ∨ (r.requestedAt = r'.requestedAt ∧ r.id ≤ r'.id)

/-! ## Statements -/

/-- The tables of an account. -/
structure Db where
  callbacks : Journal Callback Entry
  calls : ℕ → Option PhoneCall
  campaigns : ℕ → Option Campaign

namespace Db

def empty : Db := ⟨⟨[], []⟩, fun _ => none, fun _ => none⟩

/-- `UPDATE scheduled_callbacks SET f WHERE p`, with what it did to each row. -/
def updateWhere (db : Db) (p : Callback → Bool) (f : Callback → Callback)
    (deeds : Callback → List Deed) : Db :=
  { db with callbacks := db.callbacks.rewrite p f fun r => (deeds r).map fun d => ⟨r.id, d⟩ }

/-- The campaign of a call-back, through the call it was promised on. -/
def campaignIdOf (db : Db) (r : Callback) : Option ℕ := do
  let call ← r.sourceCallId
  (← db.calls call).campaignId

/-- See `campaignIdOf`. -/
def campaignOf (db : Db) (r : Callback) : Option Campaign := do
  db.campaigns (← db.campaignIdOf r)

def campaignIs (db : Db) (r : Callback) (status : Campaigns.CampaignStatus) : Bool :=
  (db.campaignOf r).any fun c => c.status = status

/-! ## Booking -/

/-- `book`. A key that is taken moves the promise, if it still waits and the booking is the
later word. A new key with an id that is taken is an error, and writes nothing. -/
def book (db : Db) (b : Booking) (now : ℕ) : Db :=
  if db.callbacks.rows.any fun r => r.sourceExecutionId = b.sourceExecutionId then
    db.updateWhere
      (fun r => r.sourceExecutionId = b.sourceExecutionId ∧ r.status = .scheduled ∧
        r.bookedAt < b.bookedAt)
      (fun r =>
        { r with
          requestedAt := b.requestedAt
          bookedAt := b.bookedAt
          note := clip maxNote b.note
          language := clip 8 b.language
          agentId := b.agentId
          sourceCallId := b.sourceCallId.or r.sourceCallId
          leadId := b.leadId.or r.leadId
          updatedAt := now })
      fun _ => [.moved b.requestedAt]
  else if db.callbacks.rows.any fun r => r.id = b.callbackId then db
  else { db with callbacks := db.callbacks.insert (newCallback b now) [] }

/-! ## The passes of a tick -/

/-- `expire_stale`. -/
def expireStale (db : Db) (now : ℕ) : Db :=
  db.updateWhere (stale now)
    (fun r =>
      { r with
        status := .missed
        settledAt := some now
        lastRefusalReason := some (r.lastRefusalReason.getD unattemptedReason)
        updatedAt := now })
    fun _ => []

/-- `hold_for_paused_campaigns`. -/
def holdForPausedCampaigns (db : Db) (now : ℕ) : Db :=
  db.updateWhere
    (fun r => r.status = .scheduled ∧ db.campaignIs r .paused ∧
      r.lastRefusalRule ≠ some campaignPausedRule)
    (fun r =>
      { r with
        lastRefusalRule := some campaignPausedRule
        lastRefusalReason := some campaignPausedReason
        updatedAt := now })
    fun _ => []

/-- When `release_resumed` puts a held call-back back in line. -/
def releaseAt (db : Db) (now : ℕ) (r : Callback) : ℕ :=
  Campaigns.firstDialNotBefore (max now r.requestedAt) ((db.campaignOf r).bind (·.callingHours))

/-- `release_resumed`. The rows another transaction holds are skipped. -/
def releaseResumed (db : Db) (locked : List ℕ) (now : ℕ) : Db :=
  db.updateWhere
    (fun r => r.status = .scheduled ∧ r.lastRefusalRule = some campaignPausedRule ∧
      db.campaignIs r .paused = false ∧ r.id ∉ locked)
    (fun r =>
      { r with
        graceFrom := some (db.releaseAt now r)
        nextAttemptAt := some (db.releaseAt now r)
        lastRefusalRule := none
        lastRefusalReason := none
        updatedAt := now })
    fun _ => [.released now]

/-- `call_off_for_stopped_campaigns`, for one campaign or for every one. -/
def callOffForStoppedCampaigns (db : Db) (only : Option ℕ) (now : ℕ) : Db :=
  db.updateWhere
    (fun r => r.status = .scheduled ∧ db.campaignIs r .cancelled ∧
      only.all fun c => db.campaignIdOf r = some c)
    (fun r =>
      { r with
        status := .cancelled
        settledAt := some now
        lastRefusalRule := some campaignStoppedRule
        lastRefusalReason := some campaignStoppedReason
        updatedAt := now })
    fun _ => []

/-- The status of the call a call-back was last dialled as. -/
def lastCallStatus (db : Db) (r : Callback) : Option Campaigns.CallStatus := do
  let call ← r.lastCallId
  return (← db.calls call).status

/-- The first arm of `settle_dialled`: a dial whose call ended. -/
def settleEnded (db : Db) (now : ℕ) : Db :=
  db.updateWhere
    (fun r => r.status = .dialing ∧ (db.lastCallStatus r).any Campaigns.CallStatus.terminal)
    (fun r =>
      { r with
        status := if db.lastCallStatus r = some .failed then .failed else .completed
        settledAt := some now
        updatedAt := now })
    fun _ => []

/-- The second: one that never reached an end. -/
def settleStuck (db : Db) (now : ℕ) : Db :=
  db.updateWhere (fun r => r.status = .dialing ∧ r.updatedAt + stuckDialingAfter < now)
    (fun r => { r with status := .failed, settledAt := some now, updatedAt := now })
    fun _ => []

/-- `settle_dialled`. -/
def settleDialled (db : Db) (now : ℕ) : Db := (db.settleEnded now).settleStuck now

/-! ## Claims -/

/-- What the claim returns of a row. -/
def due (db : Db) (r : Callback) : DueCallback where
  id := r.id
  agentId := r.agentId
  leadId := r.leadId
  phone := r.phone
  requestedAt := r.requestedAt
  note := r.note
  sourceExecutionId := r.sourceExecutionId
  bookedAt := r.bookedAt
  sourceCallId := r.sourceCallId
  graceFrom := r.graceFrom
  campaignCallingHours := (db.campaignOf r).bind (·.callingHours)

/-- The `WHERE` of the claim, on rows no other transaction holds. -/
def claimable (db : Db) (locked : List ℕ) (now : ℕ) (r : Callback) : Bool :=
  r.status = .scheduled ∧ r.requestedAt ≤ now ∧ (r.nextAttemptAt.all fun next => next ≤ now) ∧
    r.lastRefusalRule ≠ some campaignPausedRule ∧
    db.campaignIs r .paused = false ∧ db.campaignIs r .cancelled = false ∧ r.id ∉ locked

/-- The rows the claim picks. -/
def picked (db : Db) (limit : ℕ) (locked : List ℕ) (now : ℕ) : List Callback :=
  ((db.callbacks.rows.filter (db.claimable locked now)).mergeSort sooner).take limit

/-- **`claim_due`.** -/
def claimDue (db : Db) (tick limit : ℕ) (locked : List ℕ) (now : ℕ) : Db :=
  db.updateWhere (fun r => r.id ∈ (db.picked limit locked now).map (·.id))
    (fun r =>
      { r with
        status := .dialing
        attempts := r.attempts + 1
        lastRefusalRule := none
        lastRefusalReason := none
        updatedAt := now })
    fun r => [.claimed tick now r.requestedAt]

/-! ## What becomes of a claim -/

/-- `defer`. -/
def defer (db : Db) (id : ℕ) (rule : String) (reason : Option String) (now : ℕ) : Db :=
  db.updateWhere (fun r => r.id = id ∧ r.status = .dialing)
    (fun r =>
      { r with
        status := .scheduled
        attempts := r.attempts - 1
        nextAttemptAt := some (now + retryAfter)
        lastRefusalRule := some rule
        lastRefusalReason := reason
        updatedAt := now })
    fun _ => [.refunded]

/-- `defer_to_window`, to an opening there is. -/
def deferToWindow (db : Db) (id opens : ℕ) (rule : String) (reason : Option String) (now : ℕ) :
    Db :=
  db.updateWhere (fun r => r.id = id ∧ r.status = .dialing)
    (fun r =>
      { r with
        status := .scheduled
        attempts := r.attempts - 1
        nextAttemptAt := some opens
        graceFrom := some opens
        lastRefusalRule := some rule
        lastRefusalReason := reason
        updatedAt := now })
    fun _ => [.windowed now, .refunded]

/-- `settle`. A status that is no ending is an error, and writes nothing. -/
def settle (db : Db) (id : ℕ) (status : CallbackStatus) (rule reason : Option String)
    (callId : Option ℕ) (now : ℕ) : Db :=
  if status.live then db
  else
    db.updateWhere (fun r => r.id = id ∧ r.settledAt = none)
      (fun r =>
        { r with
          status := status
          settledAt := some now
          lastRefusalRule := rule.or r.lastRefusalRule
          lastRefusalReason := reason.or r.lastRefusalReason
          lastCallId := callId.or r.lastCallId
          updatedAt := now })
      fun _ => []

/-- `link_callback_to_call`, in the transaction that inserts the call. -/
def linkCallbackToCall (db : Db) (id callId : ℕ) (campaignId : Option ℕ) (now : ℕ) : Db :=
  { db.updateWhere (fun r => r.id = id)
      (fun r => { r with lastCallId := some callId, updatedAt := now })
      (fun r => [.dialled r.status]) with
    calls := Function.update db.calls callId (some ⟨campaignId, .queued⟩) }

/-- `cancel_for_phones`. -/
def cancelForPhones (db : Db) (phones : List String) (reason : String) (now : ℕ) : Db :=
  db.updateWhere (fun r => r.phone ∈ phones ∧ r.status = .scheduled)
    (fun r =>
      { r with
        status := .cancelled
        settledAt := some now
        lastRefusalReason := some reason
        updatedAt := now })
    fun _ => []

end Db

end Calevate.Callbacks
