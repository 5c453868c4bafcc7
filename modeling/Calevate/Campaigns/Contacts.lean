import Mathlib.Data.List.Basic

/-!
# A campaign's contacts

What the statements of the dispatcher do to one row of `campaign_contacts`. Every writer
that settles a claimed contact is guarded by its status alone (`_STILL_CLAIMED`): a row
that is `dialing` is moved on by whoever writes next, whichever claim it is that is alive.

Instants are seconds. `attempts - 1` is taken only of a row that is `dialing`, and a claim
has counted that row up, so the difference is the integer one.
-/

namespace Calevate.Campaigns

/-! ## The retry policy -/

/-- `MAX_RETRY_ATTEMPTS`. -/
def maxRetryAttempts : ℕ := 5

/-- `RETRY_GAP_CHOICES`, in minutes. -/
def retryGapChoices : List ℕ := [15, 30, 60, 120, 240, 1440]

/-- `campaign_retry_attempts_invalid` and `campaign_retry_gaps_invalid`. -/
inductive RetryProblem where
  | attemptsInvalid
  | gapsInvalid
  deriving DecidableEq, Repr

/-- The stored policy: `max_attempts` and `backoff_minutes`. -/
structure RetryPolicy where
  maxAttempts : ℕ
  backoffMinutes : List ℕ
  deriving DecidableEq, Repr

/-- **`validated_retry_policy`**: one gap for each retry, each from the menu. -/
def validatedRetryPolicy (maxAttempts : ℕ) (gaps : List ℕ) : Except RetryProblem RetryPolicy :=
  if ¬ (1 ≤ maxAttempts ∧ maxAttempts ≤ maxRetryAttempts) then .error .attemptsInvalid
  else if gaps.length ≠ maxAttempts - 1 ∨ ∃ gap ∈ gaps, gap ∉ retryGapChoices then
    .error .gapsInvalid
  else .ok { maxAttempts := maxAttempts, backoffMinutes := gaps }

/-- The gap `_record_failure` waits after this many attempts, in seconds. The source indexes
with `attempts - 1`, and index `-1` is the last entry. -/
def RetryPolicy.gap (policy : RetryPolicy) (attempts : ℕ) : ℕ :=
  let backoffs := if policy.backoffMinutes = [] then [30, 120] else policy.backoffMinutes
  let entry := if attempts = 0 then backoffs.length - 1
    else min (attempts - 1) (backoffs.length - 1)
  backoffs.getD entry 0 * 60

/-! ## The row -/

/-- `CONTACT_STATUSES`. -/
inductive ContactStatus where
  | pending
  | dialing
  | connected
  | noAnswer
  | failed
  | dncBlocked
  | completed
  deriving DecidableEq, Repr

/-- A row of `campaign_contacts`. -/
structure Contact where
  phone : String
  status : ContactStatus
  attempts : ℕ
  lastAttemptAt : Option ℕ
  nextAttemptAt : Option ℕ
  lastCallId : Option ℕ
  deriving DecidableEq, Repr

/-- A contact as `add_contacts` inserts it. -/
def Contact.added (phone : String) : Contact where
  phone := phone
  status := .pending
  attempts := 0
  lastAttemptAt := none
  nextAttemptAt := none
  lastCallId := none

/-- Due, as the claiming statement asks. -/
def Contact.claimable (c : Contact) (now : ℕ) : Bool :=
  c.status = .pending ∧ c.nextAttemptAt.all fun due => decide (due ≤ now)

/-- The claim: one attempt more, whatever call the row still points at. -/
def Contact.claim (c : Contact) (now : ℕ) : Contact :=
  { c with status := .dialing, attempts := c.attempts + 1, lastAttemptAt := some now }

/-- The row is finished with. -/
def Contact.setStatus (c : Contact) (status : ContactStatus) : Contact :=
  { c with status := status }

/-- Back to `pending`, to be tried again at an instant. -/
def Contact.retryAt (c : Contact) (attempts due : ℕ) : Contact :=
  { c with status := .pending, attempts := attempts, nextAttemptAt := some due }

/-! ## Refusals -/

/-- `PERSON_LEVEL_REFUSALS` and `ENGINE_PERSON_REFUSALS`. -/
def personRefusals : List String :=
  ["dnc", "no_consent", "destination_not_india", "consent_expired", "no_consent_record",
    "destination_erased", "engine_recipient_opted_out", "engine_platform_dnc_block"]

/-- `_LINE_LIMIT_RULES`. -/
def lineLimitRules : List String := ["carrier_lines_busy", "call_lines_busy"]

/-- `_SETTLE_PERSON_REFUSED`, `_SETTLE_LINE_WAIT` and `_SETTLE_REFUNDED`. -/
inductive Settle where
  | personRefused
  | lineWait
  | refunded
  deriving DecidableEq, Repr

/-- The settlement `_refuse_contact` picks for a rule. -/
def settleOf (rule : String) : Settle :=
  if rule ∈ personRefusals then .personRefused
  else if rule ∈ lineLimitRules then .lineWait
  else .refunded

/-- The `SET` clause of a settlement. -/
def Contact.settle (c : Contact) (now : ℕ) : Settle → Contact
  | .personRefused => c.setStatus .dncBlocked
  | .lineWait => c.retryAt (c.attempts - 1) (now + 60)
  | .refunded => c.retryAt (c.attempts - 1) (now + 30 * 60)

/-! ## The ladder -/

/-- `_exhaust_contact`. -/
def exhaustContact (c : Contact) : Contact :=
  if c.status = .dialing then c.setStatus .failed else c

/-- **`_record_failure`**, with the attempts its caller read. -/
def recordFailure (policy : RetryPolicy) (c : Contact) (attempts now : ℕ) : Contact :=
  if policy.maxAttempts ≤ attempts then exhaustContact c
  else if c.status = .dialing then c.retryAt c.attempts (now + policy.gap attempts)
  else c

/-! ## Writers outside the dispatcher -/

/-- The scrub of `launch_campaign`. -/
def scrubContact (c : Contact) : Contact :=
  if c.status = .pending then c.setStatus .dncBlocked else c

/-- The national preference scrub. -/
def suppressContact (c : Contact) : Contact :=
  if c.status = .pending ∨ c.status = .dialing then c.setStatus .dncBlocked else c

/-- `ANONYMIZED_PHONE[:9]`. -/
def anonymizedPhone : String := "+91000000"

/-- `_CAMPAIGN_CONTACT_ERASE_SQL`; `suffix` is the tail of the row's id. -/
def eraseContact (c : Contact) (suffix : String) : Contact :=
  if anonymizedPhone.toList.isPrefixOf c.phone.toList then c
  else
    { c with
      phone := anonymizedPhone ++ suffix
      status := .dncBlocked
      nextAttemptAt := none }

end Calevate.Campaigns
