import Calevate.Lib.Run
import Calevate.Campaigns.Contacts

/-!
# The dispatch ticks

Any number of ticks work on a campaign's contacts at once, and any of them can stop between
two commits. A tick's claim commits first; each claimed contact is then dialled in
transactions of its own. What one tick holds of a contact is a `Claim`, and it stays in the
contact's `Line` after the tick is through with it, newest first. A statement touches one
contact, or every contact a `WHERE` picks that is not locked by someone else.

A row is locked from a transaction's first write to its commit and the rows do not depend
on one another, so a transaction is the sequence of its statements' touches. `under`, the
marks and the charges are not in the database. They remember under which claim a call was
linked, and by which call a contact was judged.
-/

namespace Calevate.Campaigns

open Lib

/-! ## Calls and claims -/

/-- `CallStatus`. -/
inductive CallStatus where
  | queued
  | ringing
  | inProgress
  | completed
  | failed
  | noAnswer
  | busy
  | voicemail
  deriving DecidableEq, Repr

/-- `TERMINAL_STATUSES`. -/
def CallStatus.terminal : CallStatus → Bool
  | .completed | .failed | .noAnswer | .busy | .voicemail => true
  | _ => false

/-- A row of `calls` placed for the contact. `named` is that the vendor's id is stamped over
our own, and `under` the number of claims there had been when it was linked. -/
structure Call where
  status : CallStatus
  updatedAt : ℕ
  named : Bool
  under : ℕ
  deriving DecidableEq, Repr

/-- How far a tick is with a contact it claimed. -/
inductive Phase where
  | claimed
  | linked
  | done
  deriving DecidableEq, Repr

/-- A contact as the claiming statement returned it, and what its tick has done with it:
`call` is the call it handed to the dialler, `refunded` that its attempt was given back. -/
structure Claim where
  attempts : ℕ
  phone : String
  claimedAt : ℕ
  phase : Phase
  call : Option ℕ
  refunded : Bool
  deriving DecidableEq, Repr

/-- The tick may still write the contact. -/
def Claim.alive (claim : Claim) : Bool := claim.phase ≠ .done

/-- A contact judged by a call: the claims there had been when the call was linked, and when
it was judged. -/
structure Charge where
  under : ℕ
  claims : ℕ
  deriving DecidableEq, Repr

/-- A contact with the claims on it, newest first, the calls placed for it, the reads of
the reaper that it has not acted on, and what it was judged by. -/
structure Line where
  row : Contact
  claims : List Claim
  calls : List Call
  marks : List Charge
  charges : List Charge
  deriving DecidableEq, Repr

/-! ## The clocks -/

/-- `STUCK_DIALING_AFTER`. -/
def stuckDialingAfter : ℕ := 3600 + 10 * 60

/-- `UNANSWERED_SETTLE_AFTER`. -/
def unansweredSettleAfter : ℕ := 2 * 60

/-- `FAILED_SETTLE_AFTER`. -/
def failedSettleAfter : ℕ := 20 * 60

namespace Line

/-- A contact that was never tried. -/
def added (phone : String) : Line where
  row := .added phone
  claims := []
  calls := []
  marks := []
  charges := []

/-- Write the row. -/
def setRow (l : Line) (row : Contact) : Line := { l with row := row }

/-- Write the `k`-th newest claim. -/
def setClaim (l : Line) (k : ℕ) (f : Claim → Claim) : Line :=
  { l with claims := l.claims.modify k f }

/-- The tick is through with its contact. -/
def finish (l : Line) (k : ℕ) : Line := l.setClaim k fun claim => { claim with phase := .done }

/-- Write a call. -/
def setCall (l : Line) (c : ℕ) (f : Call → Call) : Line := { l with calls := l.calls.modify c f }

/-- The call the row points at. -/
def lastCall (l : Line) : Option Call := l.row.lastCallId.bind fun c => l.calls[c]?

/-- What a call is judged as. -/
def judged (l : Line) (call : Option Call) : List Charge :=
  call.toList.map fun call => ⟨call.under, l.claims.length⟩

/-! ## Claiming and dialling -/

/-- The claiming `UPDATE`, on this contact. -/
def claim (l : Line) (now : ℕ) : Line :=
  if l.row.claimable now then
    { l with
      row := l.row.claim now
      claims := ⟨l.row.attempts + 1, l.row.phone, now, .claimed, none, false⟩ :: l.claims }
  else l

/-- A settlement of the row, if it is still claimed. A refund gives back the attempt the
row's claim counted. -/
def settle (l : Line) (now : ℕ) (how : Settle) : Line :=
  if l.row.status = .dialing then
    let l := l.setRow (l.row.settle now how)
    if how = .personRefused then l else l.setClaim 0 fun claim => { claim with refunded := true }
  else l

/-- **`_refuse_contact`**, by the tick of a claim. -/
def refuseContact (l : Line) (now k : ℕ) (rule : String) : Line :=
  if l.claims[k]?.any Claim.alive then (l.settle now (settleOf rule)).finish k else l

/-- **`_link_contact_to_call`**: the intent row and the pointer to it commit together, or
neither does and the contact is left alone. -/
def linkContactToCall (l : Line) (now k : ℕ) : Line :=
  match l.claims[k]? with
  | none => l
  | some claim =>
    if claim.phase = .claimed then
      if l.row.status = .dialing ∧ l.row.phone = claim.phone then
        { l with
          row := { l.row with lastCallId := some l.calls.length }
          calls := l.calls ++ [⟨.queued, now, false, l.claims.length⟩]
          claims := l.claims.modify k fun claim =>
            { claim with phase := .linked, call := some l.calls.length } }
      else l.finish k
    else l

/-- `_close_unplaced_dial`. -/
def closeUnplacedDial (l : Line) (now k : ℕ) : Line :=
  match l.claims[k]? with
  | none => l
  | some claim =>
    match claim.call with
    | none => l
    | some c =>
      if claim.phase = .linked then
        l.setCall c fun call =>
          if call.status = .queued then { call with status := .failed, updatedAt := now } else call
      else l

/-- The dial was accepted; `_confirm_dial` may not stamp the vendor's id. -/
def placed (l : Line) (now k : ℕ) (stamped : Bool) : Line :=
  match l.claims[k]? with
  | none => l
  | some claim =>
    match claim.call with
    | none => l
    | some c =>
      if claim.phase = .linked then
        (l.setCall c fun call =>
          if stamped ∧ call.named = false then { call with named := true, updatedAt := now }
          else call).finish k
      else l

/-- `_settle_unconfirmed_dial`. -/
def settleUnconfirmedDial (l : Line) (k : ℕ) : Line :=
  if l.claims[k]?.any fun claim => claim.phase = .linked then
    (l.setRow (exhaustContact l.row)).finish k
  else l

/-- **`_record_failure`** on the row, on the evidence of a call or of none. -/
def recordFailure (l : Line) (policy : RetryPolicy) (now attempts : ℕ) (call : Option Call) :
    Line :=
  if l.row.status = .dialing then
    { l with
      row := Campaigns.recordFailure policy l.row attempts now
      charges := l.charges ++ l.judged call }
  else l

/-- The dial failed for a reason that may be the contact's. -/
def failDial (l : Line) (policy : RetryPolicy) (now k : ℕ) : Line :=
  match l.claims[k]? with
  | none => l
  | some claim =>
    if claim.alive then
      (l.recordFailure policy now claim.attempts (claim.call.bind fun c => l.calls[c]?)).finish k
    else l

/-! ## Settling what was dialled -/

/-- **`resolve_campaign_contact`.** -/
def resolveCampaignContact (l : Line) (policy : RetryPolicy) (now c : ℕ) (status : CallStatus) :
    Line :=
  if l.row.lastCallId = some c ∧ l.row.status = .dialing then
    if status = .completed then l.setRow (l.row.setStatus .connected)
    else l.recordFailure policy now l.row.attempts l.lastCall
  else l

/-- **`close_called_off_dial`** with `settle_recalled_contact`. -/
def closeCalledOffDial (l : Line) (now c : ℕ) (person : Bool) : Line :=
  if l.calls[c]?.any fun call => call.status = .queued ∨ call.status = .ringing then
    let l := l.setCall c fun call => { call with status := .failed, updatedAt := now }
    if l.row.lastCallId = some c then l.settle now (if person then .personRefused else .refunded)
    else l
  else l

/-- The status of a call, as `_upsert_call_row` writes it. -/
def upsertCallRow (l : Line) (now c : ℕ) (status : CallStatus) : Line :=
  l.setCall c fun call =>
    if call.status.terminal = false ∨ status = .completed then
      { call with status := status, updatedAt := now }
    else call

/-- `_UNANSWERED_DIALS_SQL`. -/
def unanswered (l : Line) (now : ℕ) : Bool :=
  l.row.status = .dialing ∧ l.lastCall.any fun call =>
    ((call.status = .busy ∨ call.status = .noAnswer) ∧
      call.updatedAt + unansweredSettleAfter < now) ∨
    (call.status = .failed ∧ call.updatedAt + failedSettleAfter < now)

/-- **`_settle_unanswered_dials`**, on this contact. -/
def settleUnansweredDial (l : Line) (policy : RetryPolicy) (now : ℕ) : Line :=
  if l.unanswered now then l.recordFailure policy now l.row.attempts l.lastCall else l

/-- Claimed longer ago than any call lasts. -/
def stuck (l : Line) (now : ℕ) : Bool :=
  l.row.status = .dialing ∧
    l.row.lastAttemptAt.any fun last => decide (last + stuckDialingAfter < now)

/-- Stuck behind a call the vendor never named. -/
def stranded (l : Line) (now : ℕ) : Bool :=
  l.stuck now ∧ l.lastCall.any fun call => call.named = false

/-- `_reap_stuck_dialing` reads the stranded contacts without locking them. -/
def readStranded (l : Line) (now : ℕ) : Line :=
  if l.stranded now then { l with marks := l.marks ++ l.judged l.lastCall } else l

/-- It exhausts them later, if they are still `dialing`. -/
def exhaustStranded (l : Line) (m : ℕ) : Line :=
  match l.marks[m]? with
  | none => l
  | some mark =>
    if l.row.status = .dialing then
      { l with
        row := exhaustContact l.row
        marks := l.marks.eraseIdx m
        charges := l.charges ++ [⟨mark.under, l.claims.length⟩] }
    else { l with marks := l.marks.eraseIdx m }

/-- The rest of `_reap_stuck_dialing`: the ladder, and no call is judged. -/
def reapStuckDialing (l : Line) (policy : RetryPolicy) (now : ℕ) : Line :=
  if l.stuck now then l.recordFailure policy now l.row.attempts none else l

end Line

/-! ## The schedule of events -/

/-- What a statement does to one contact; `k` is the tick whose claim is `k`-th newest. -/
inductive Touch where
  | claim
  | refuseContact (k : ℕ) (rule : String)
  | linkContactToCall (k : ℕ)
  | closeUnplacedDial (k : ℕ)
  | placed (k : ℕ) (stamped : Bool)
  | settleUnconfirmedDial (k : ℕ)
  | failDial (k : ℕ)
  | abandon (k : ℕ)
  | resolveCampaignContact (c : ℕ) (status : CallStatus)
  | closeCalledOffDial (c : ℕ) (person : Bool)
  | upsertCallRow (c : ℕ) (status : CallStatus)
  | settleUnansweredDial
  | readStranded
  | exhaustStranded (m : ℕ)
  | reapStuckDialing
  | scrubContact
  | suppressContact
  | eraseContact (suffix : String)
  deriving DecidableEq, Repr

/-- One touch of a contact. -/
def Line.touch (l : Line) (policy : RetryPolicy) (now : ℕ) : Touch → Line
  | .claim => l.claim now
  | .refuseContact k rule => l.refuseContact now k rule
  | .linkContactToCall k => l.linkContactToCall now k
  | .closeUnplacedDial k => l.closeUnplacedDial now k
  | .placed k stamped => l.placed now k stamped
  | .settleUnconfirmedDial k => l.settleUnconfirmedDial k
  | .failDial k => l.failDial policy now k
  -- the tick is cancelled, or its worker dies
  | .abandon k => l.finish k
  | .resolveCampaignContact c status => l.resolveCampaignContact policy now c status
  | .closeCalledOffDial c person => l.closeCalledOffDial now c person
  | .upsertCallRow c status => l.upsertCallRow now c status
  | .settleUnansweredDial => l.settleUnansweredDial policy now
  | .readStranded => l.readStranded now
  | .exhaustStranded m => l.exhaustStranded m
  | .reapStuckDialing => l.reapStuckDialing policy now
  | .scrubContact => l.setRow (Campaigns.scrubContact l.row)
  | .suppressContact => l.setRow (Campaigns.suppressContact l.row)
  | .eraseContact suffix => l.setRow (Campaigns.eraseContact l.row suffix)

/-- The dispatcher's own touches. -/
def Touch.dispatcher : Touch → Bool
  | .scrubContact | .suppressContact | .eraseContact _ => false
  | _ => true

/-- The database's clock and the contacts of the campaign, oldest first. -/
structure Dispatch where
  now : ℕ
  lines : List Line
  deriving DecidableEq, Repr

/-- A campaign without contacts. -/
def Dispatch.empty : Dispatch := ⟨0, []⟩

/-- What can happen next. `locked` are the contacts whose rows someone else holds. -/
inductive Event where
  | wait (seconds : ℕ)
  | addContact (phone : String)
  | claimContacts (slots : ℕ) (locked : List ℕ) (running : Bool)
  | settleUnansweredDials (locked : List ℕ)
  | reapStuckDialing (locked : List ℕ)
  | touch (i : ℕ) (t : Touch)
  deriving DecidableEq, Repr

namespace Dispatch

/-- The `picked` rows of the claiming statement. -/
def picked (s : Dispatch) (slots : ℕ) (locked : List ℕ) (running : Bool) : List ℕ :=
  if running then
    ((List.range s.lines.length).filter fun i =>
      i ∉ locked ∧ s.lines[i]?.any fun l => l.row.claimable s.now).take slots
  else []

/-- How an event touches the `i`-th contact. -/
def touches (s : Dispatch) : Event → ℕ → Option Touch
  | .wait _, _ => none
  | .addContact _, _ => none
  | .claimContacts slots locked running, i =>
    if i ∈ s.picked slots locked running then some .claim else none
  | .settleUnansweredDials locked, i => if i ∈ locked then none else some .settleUnansweredDial
  | .reapStuckDialing locked, i => if i ∈ locked then none else some .reapStuckDialing
  | .touch j t, i => if i = j then some t else none

/-- The contacts after an event has touched them. -/
def touched (policy : RetryPolicy) (s : Dispatch) (event : Event) : List Line :=
  s.lines.mapIdx fun i l =>
    match s.touches event i with
    | none => l
    | some t => l.touch policy s.now t

/-- One event. -/
def step (policy : RetryPolicy) (s : Dispatch) (event : Event) : Dispatch :=
  match event with
  | .wait seconds => { s with now := s.now + seconds }
  | .addContact phone =>
    if s.lines.any fun l => l.row.phone = phone then s
    else { s with lines := s.lines ++ [.added phone] }
  | event => { s with lines := s.touched policy event }

/-- The state a sequence of events leads to. -/
def run (policy : RetryPolicy) (events : List Event) : Dispatch := events.foldl (step policy) empty

end Dispatch

end Calevate.Campaigns
