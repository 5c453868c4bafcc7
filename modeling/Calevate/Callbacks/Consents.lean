import Calevate.Callbacks.Claims
import Mathlib.Data.List.Induction

/-!
# The consent of a promise

A caller who asks on a call to be rung back has agreed to that call. `book_callback_for` files
the promise and the consent in one transaction, and the dial gate reads the newest consent of
the number alone. The row is written only where what is on file would not last: it ends two
hours after the promised time, and never takes a permission away (`record_keeps`). A promise
that is dialled within its two hours keeps its consent (`callback_consent_stands`); a hold
released after a pause moves the two hours and not the consent.
-/

namespace Calevate.Callbacks

open Lib

/-! ## The ledger -/

/-- The purposes that are read here; the others are `other`. -/
inductive Purpose where
  | callback
  | marketing
  | other
  deriving DecidableEq, Repr

/-- `CONSENT_STATUSES`. -/
inductive ConsentStatus where
  | granted
  | declined
  | withdrawn
  deriving DecidableEq, Repr

/-- A row of `consent_ledger`; the rows stand in the order of their ids. -/
structure Consent where
  phone : String
  purpose : Purpose
  status : ConsentStatus
  capturedAt : ℕ
  expiresAt : Option ℕ
  deriving DecidableEq

/-- `RECONSENT_LOCKOUT_DAYS`. -/
def reconsentLockout : ℕ := 90 * Calendar.day

/-- `ORDER BY captured_at DESC, id DESC LIMIT 1`. -/
def newest (rows : List Consent) : Option Consent :=
  rows.foldl
    (fun best row =>
      match best with
      | none => some row
      | some b => if b.capturedAt ≤ row.capturedAt then some row else some b)
    none

/-- `latest_call_consent`. -/
def latestCallConsent (consents : List Consent) (phone : String) : Option Consent :=
  newest (consents.filter fun row => row.phone = phone ∧ row.purpose = .callback)

/-- The consent part of `person_level_refusal`, as the rule it refuses by. -/
def consentRefusal (requires : Bool) (consents : List Consent) (phone : String) (now : ℕ) :
    Option String :=
  match latestCallConsent consents phone with
  | none => if requires then some "no_consent_record" else none
  | some consent =>
    if consent.status ≠ .granted then some "no_consent"
    else if consent.expiresAt.any fun ends => ends ≤ now then some "consent_expired"
    else none

/-- A no of the last ninety days that no yes came after: `reask_locked_until`. -/
def reaskLocked (consents : List Consent) (phone : String) (now : ℕ) : Bool :=
  consents.any fun no =>
    no.phone = phone ∧ (no.purpose = .callback ∨ no.purpose = .marketing) ∧
      no.status ≠ .granted ∧ now < no.capturedAt + reconsentLockout ∧
      ¬ consents.any fun yes =>
        yes.phone = phone ∧ yes.purpose = .callback ∧ yes.status = .granted ∧
          no.capturedAt < yes.capturedAt

section Recording

variable (requires : Bool) (normalizePhone : String → Option String)

/-- What is on file would let the call through. -/
def covered (consents : List Consent) (phone : String) (lapsesAt : ℕ) : Bool :=
  match latestCallConsent consents phone with
  | none => !requires
  | some consent => consent.status = .granted ∧ consent.expiresAt.all fun ends => lapsesAt ≤ ends

/-- `record_call_consent`, of a yes spoken on a call. -/
def recordCallConsent (consents : List Consent) (rawPhone : String) (expiresAt now : ℕ) :
    Except String (List Consent) :=
  match normalizePhone rawPhone with
  | none => .error "consent_phone_invalid"
  | some phone =>
    if expiresAt ≤ now then .error "consent_expiry_in_past"
    else if reaskLocked consents phone now then .error "consent_reask_locked"
    else .ok (consents ++ [⟨phone, .callback, .granted, now, some expiresAt⟩])

/-- **`record_callback_request_consent`**. -/
def recordCallbackRequestConsent (consents : List Consent) (phone : String)
    (callbackAt now : ℕ) : Except String (List Consent) :=
  let lapsesAt := callbackAt + grace
  if covered requires consents phone lapsesAt then .ok consents
  else recordCallConsent normalizePhone consents phone lapsesAt now

end Recording

/-! ## What recording keeps -/

theorem newest_append (rows : List Consent) (row : Consent) :
    newest (rows ++ [row]) =
      match newest rows with
      | none => some row
      | some b => if b.capturedAt ≤ row.capturedAt then some row else some b := by
  rw [newest, List.foldl_append]
  rfl

theorem newest_mem {rows : List Consent} {b : Consent} (h : newest rows = some b) : b ∈ rows := by
  induction rows using List.reverseRecOn generalizing b with
  | nil => cases h
  | append_singleton rows row ih =>
    rw [newest_append] at h
    rw [List.mem_append, List.mem_singleton]
    split at h
    · exact .inr (Option.some.inj h).symm
    · rename_i b' hb'
      split at h
      · exact .inr (Option.some.inj h).symm
      · exact .inl (Option.some.inj h ▸ ih hb')

/-- A row that is captured last is the newest. -/
theorem newest_append_last {rows : List Consent} {row : Consent}
    (h : ∀ b ∈ rows, b.capturedAt ≤ row.capturedAt) : newest (rows ++ [row]) = some row := by
  rw [newest_append]
  split
  · rfl
  · rename_i b hb
    exact if_pos (h b (newest_mem hb))

variable {requires : Bool} {normalizePhone : String → Option String}
variable {consents consents' : List Consent} {phone : String} {callbackAt lapsesAt now : ℕ}

/-- Another number's row, or another purpose's, is not read. -/
theorem latestCallConsent_append_other {row : Consent}
    (h : ¬ (row.phone = phone ∧ row.purpose = .callback)) :
    latestCallConsent (consents ++ [row]) phone = latestCallConsent consents phone := by
  have hnone : [row].filter (fun row => row.phone = phone ∧ row.purpose = .callback) = [] := by
    simpa using h
  rw [latestCallConsent, List.filter_append, hnone, List.append_nil, latestCallConsent]

/-- A row of the number is read, or what was read before is. -/
theorem latestCallConsent_append {row : Consent}
    (h : row.phone = phone ∧ row.purpose = .callback) :
    latestCallConsent (consents ++ [row]) phone = some row ∨
      latestCallConsent (consents ++ [row]) phone = latestCallConsent consents phone := by
  have hself : [row].filter (fun row => row.phone = phone ∧ row.purpose = .callback) = [row] := by
    simpa using h
  rw [latestCallConsent, List.filter_append, hself, newest_append, latestCallConsent]
  split
  next hnone => exact .inl rfl
  next b hb =>
    split
    · exact .inl rfl
    · exact .inr hb.symm

/-- A permission with an end lasts until then. -/
theorem consentRefusal_of_grant {row : Consent}
    (h : latestCallConsent consents phone = some row) (hgranted : row.status = .granted)
    (hends : row.expiresAt = some lapsesAt) (t : ℕ) :
    consentRefusal requires consents phone t =
      if lapsesAt ≤ t then some "consent_expired" else none := by
  rw [consentRefusal, h]
  simp only [hgranted, hends, ne_eq, not_true_eq_false, if_false, Option.any_some,
    decide_eq_true_eq]

/-- What lets a call through until `lapsesAt` refuses none before. -/
theorem consentRefusal_of_covered (h : covered requires consents phone lapsesAt = true) {t : ℕ}
    (ht : t < lapsesAt) : consentRefusal requires consents phone t = none := by
  unfold covered at h
  unfold consentRefusal
  split
  next hnone =>
    rw [hnone] at h
    rw [if_neg (by simpa using h)]
  next consent hsome =>
    rw [hsome] at h
    simp only [decide_eq_true_eq] at h
    rw [if_neg (not_not.mpr h.1), if_neg]
    intro hends
    obtain ⟨ends, hends, hle⟩ := Option.any_eq_true .. |>.mp hends
    rw [hends] at h
    have hlapses : lapsesAt ≤ ends := by simpa using h.2
    have : ends ≤ t := by simpa using hle
    omega

/-- A permission that is not covered ends before. -/
theorem lt_of_not_covered (h : covered requires consents phone lapsesAt = false) {t : ℕ}
    (ht : consentRefusal requires consents phone t = none) : t < lapsesAt := by
  unfold covered at h
  unfold consentRefusal at ht
  split at ht
  next hnone =>
    rw [hnone] at h
    simp_all
  next consent hsome =>
    rw [hsome] at h
    split at ht
    · cases ht
    next hgranted =>
      split at ht
      · cases ht
      next hends =>
        rw [not_not] at hgranted
        cases hsome' : consent.expiresAt with
        | none => simp [hgranted, hsome'] at h
        | some ends =>
          simp only [hgranted, hsome', true_and, Option.all_some, decide_eq_true_eq,
            decide_eq_false_iff_not, not_le, Option.any_some] at h hends
          omega

/-- The row that a spoken yes files. -/
theorem recordCallConsent_ok {rawPhone : String}
    (h : recordCallConsent normalizePhone consents rawPhone lapsesAt now = .ok consents') :
    ∃ phone, normalizePhone rawPhone = some phone ∧
      consents' = consents ++ [⟨phone, .callback, .granted, now, some lapsesAt⟩] := by
  unfold recordCallConsent at h
  split at h
  · cases h
  next phone hphone =>
    split at h
    · cases h
    · split at h
      · cases h
      · exact ⟨phone, hphone, (Except.ok.inj h).symm⟩

/-- Before the row lapses it refuses nobody whom the older rows let through. -/
theorem consentRefusal_append_grant {who : String} {t : ℕ}
    (hkept : who = phone → t < lapsesAt)
    (h : consentRefusal requires consents who t = none) :
    consentRefusal requires (consents ++ [⟨phone, .callback, .granted, now, some lapsesAt⟩]) who
      t = none := by
  have hsame : ∀ consents' : List Consent,
      latestCallConsent consents' who = latestCallConsent consents who →
        consentRefusal requires consents' who t = none := by
    intro consents' hlatest
    rw [consentRefusal, hlatest]
    exact h
  by_cases hwho : who = phone
  · subst hwho
    let row : Consent := ⟨who, .callback, .granted, now, some lapsesAt⟩
    have hread : latestCallConsent (consents ++ [row]) who = some row ∨
        latestCallConsent (consents ++ [row]) who = latestCallConsent consents who :=
      latestCallConsent_append ⟨rfl, rfl⟩
    rcases hread with hnew | hold
    · rw [consentRefusal_of_grant hnew rfl rfl]
      exact if_neg (not_le.mpr (hkept rfl))
    · exact hsame _ hold
  · exact hsame _ (latestCallConsent_append_other fun hrow => hwho hrow.1.symm)

/-- **Recording a request takes no permission away.** -/
theorem record_keeps (hphone : normalizePhone phone = some phone)
    (h : recordCallbackRequestConsent requires normalizePhone consents phone callbackAt now =
      .ok consents') {who : String} {t : ℕ}
    (hpermits : consentRefusal requires consents who t = none) :
    consentRefusal requires consents' who t = none := by
  unfold recordCallbackRequestConsent at h
  dsimp only at h
  split at h
  · exact Except.ok.inj h ▸ hpermits
  next hcovered =>
    obtain ⟨phone', hphone', rfl⟩ := recordCallConsent_ok h
    obtain rfl := Option.some.inj (hphone.symm.trans hphone')
    refine consentRefusal_append_grant ?_ hpermits
    rintro rfl
    exact lt_of_not_covered (Bool.not_eq_true _ ▸ hcovered) hpermits

/-- The last row lets the call through until it lapses, and no longer. -/
theorem consentRefusal_grant_last (hpast : ∀ row ∈ consents, row.capturedAt ≤ now) (t : ℕ) :
    consentRefusal requires (consents ++ [⟨phone, .callback, .granted, now, some lapsesAt⟩]) phone
      t = if lapsesAt ≤ t then some "consent_expired" else none := by
  have hnew : latestCallConsent
      (consents ++ [⟨phone, .callback, .granted, now, some lapsesAt⟩]) phone =
        some ⟨phone, .callback, .granted, now, some lapsesAt⟩ := by
    have hself : [(⟨phone, .callback, .granted, now, some lapsesAt⟩ : Consent)].filter
        (fun row => row.phone = phone ∧ row.purpose = .callback) =
          [⟨phone, .callback, .granted, now, some lapsesAt⟩] := by simp
    rw [latestCallConsent, List.filter_append, hself]
    exact newest_append_last fun row hrow => hpast row (List.mem_of_mem_filter hrow)
  exact consentRefusal_of_grant hnew rfl rfl t

/-- **It lets the call through until two hours after the promised time**, and from then on
refuses it where it had to file a row. -/
theorem record_permits (hphone : normalizePhone phone = some phone)
    (hpast : ∀ row ∈ consents, row.capturedAt ≤ now)
    (h : recordCallbackRequestConsent requires normalizePhone consents phone callbackAt now =
      .ok consents') (t : ℕ) :
    (t < callbackAt + grace → consentRefusal requires consents' phone t = none) ∧
      (callbackAt + grace ≤ t → consents' ≠ consents →
        consentRefusal requires consents' phone t = some "consent_expired") := by
  unfold recordCallbackRequestConsent at h
  dsimp only at h
  split at h
  next hcovered =>
    obtain rfl := Except.ok.inj h
    exact ⟨consentRefusal_of_covered hcovered, fun _ hne => absurd rfl hne⟩
  · obtain ⟨phone', hphone', rfl⟩ := recordCallConsent_ok h
    obtain rfl := Option.some.inj (hphone.symm.trans hphone')
    rw [consentRefusal_grant_last hpast]
    exact ⟨fun ht => if_neg (not_le.mpr ht), fun ht _ => if_pos ht⟩

/-! ## Booking with consent -/

/-- `book` has an answer: the row was inserted or moved. -/
def Db.booked (db : Db) (b : Booking) : Bool :=
  if db.callbacks.rows.any fun r => r.sourceExecutionId = b.sourceExecutionId then
    db.callbacks.rows.any fun r =>
      r.sourceExecutionId = b.sourceExecutionId ∧ r.status = .scheduled ∧ r.bookedAt < b.bookedAt
  else !db.callbacks.rows.any fun r => r.id = b.callbackId

/-- An account's call-backs and the consents on its ledger. -/
structure Ledgered where
  world : World
  consents : List Consent

namespace Ledgered

inductive Action where
  /-- `book_callback_for`, past `callback_before_booking`. -/
  | bookCallbackFor (booking : Booking)
  /-- Another door files a consent, captured now or before. -/
  | file (row : Consent)
  | dispatch (action : Callbacks.Action)

section

variable (requires : Bool) (normalizePhone : String → Option String)

/-- **`book_callback_for`**. A refusal of the consent takes the booking back with it. -/
def bookCallbackFor (s : Ledgered) (b : Booking) : Ledgered :=
  if reaskLocked s.consents b.phone s.world.clock then s
  else if s.world.db.booked b then
    match recordCallbackRequestConsent requires normalizePhone s.consents b.phone b.requestedAt
      s.world.clock with
    | .error _ => s
    | .ok consents => ⟨s.world.step (.book b), consents⟩
  else s

def step (s : Ledgered) : Action → Ledgered
  | .bookCallbackFor b => s.bookCallbackFor requires normalizePhone b
  | .file row =>
    { s with
      consents := s.consents ++ [{ row with capturedAt := min row.capturedAt s.world.clock }] }
  | .dispatch a => { s with world := s.world.step a }

/-- An account without call-backs or consents. -/
def empty : Ledgered := ⟨World.empty, []⟩

def run (actions : List Action) : Ledgered :=
  actions.foldl (step requires normalizePhone) empty

end

/-- The tool books: it is asked outside a lockout, the row can be written, and so can the
consent. -/
def Books (requires : Bool) (normalizePhone : String → Option String) (s : Ledgered)
    (b : Booking) : Prop :=
  reaskLocked s.consents b.phone s.world.clock = false ∧ s.world.db.booked b = true ∧
    (recordCallbackRequestConsent requires normalizePhone s.consents b.phone b.requestedAt
      s.world.clock).isOk = true

instance (requires : Bool) (normalizePhone : String → Option String) (s : Ledgered)
    (b : Booking) : Decidable (s.Books requires normalizePhone b) :=
  inferInstanceAs (Decidable (_ ∧ _ ∧ _))

/-- The number is the one the promise is to, as the ledger writes numbers. -/
def Names (normalizePhone : String → Option String) (s : Ledgered) (b : Booking) : Prop :=
  normalizePhone b.phone = some b.phone ∧
    ∀ r ∈ s.world.db.callbacks.rows, r.sourceExecutionId = b.sourceExecutionId →
      r.phone = b.phone

/-- What may follow the booking of a promise: no other door files a consent for the number or
books the conversation, and its re-bookings name the number. -/
def Undisturbed (normalizePhone : String → Option String) (b : Booking) : Action → Prop
  | .bookCallbackFor b' =>
    normalizePhone b'.phone = some b'.phone ∧
      (b'.sourceExecutionId = b.sourceExecutionId → b'.phone = b.phone)
  | .file row => row.phone ≠ b.phone
  | .dispatch (.book b') => b'.sourceExecutionId ≠ b.sourceExecutionId
  | .dispatch _ => True

end Ledgered

/-! ## Promises and the claims of them -/

section Rows

variable {db db' : Db} {now : ℕ} {who : Who} {r r' : Callback} {deeds : List Deed}

/-- **Only a booking changes what was promised**, and only while it waits. -/
theorem Turn.promise (ht : Turn db now who r r' deeds)
    (hmoved : ∀ b, who = .booker b → r.status ≠ .scheduled) :
    r'.sourceExecutionId = r.sourceExecutionId ∧ r'.phone = r.phone ∧
      r'.requestedAt = r.requestedAt := by
  cases ht with
  | moved b note language agentId sourceCallId leadId hkey hs => exact absurd hs (hmoved b rfl)
  | _ => exact ⟨rfl, rfl, rfl⟩

/-- A booking moves the row of its conversation. -/
theorem Turn.booked_key {b : Booking} (ht : Turn db now (.booker b) r r' deeds) :
    r'.sourceExecutionId = b.sourceExecutionId := by
  cases ht with
  | moved _ note language agentId sourceCallId leadId hkey => exact hkey

/-- A row is as it was promised in a table before. -/
def Promised (db : Db) (r' : Callback) : Prop :=
  ∃ r ∈ db.callbacks.rows, r'.sourceExecutionId = r.sourceExecutionId ∧ r'.phone = r.phone ∧
    r'.requestedAt = r.requestedAt

/-- A turn of anybody but a booker promises nothing. -/
theorem Db.Turned.promised (ht : db.Turned now who db') (hwho : ∀ b, who ≠ .booker b)
    (hr' : r' ∈ db'.callbacks.rows) : Promised db r' := by
  obtain ⟨p, f, deeds, heq, -, hrow⟩ := ht
  rw [heq] at hr'
  rcases Journal.mem_rewrite.1 hr' with ⟨hr, -⟩ | ⟨r, hr, hp, rfl⟩
  · exact ⟨r', hr, rfl, rfl, rfl⟩
  · exact ⟨r, hr, (hrow r hr hp).promise fun b hb => absurd hb (hwho b)⟩

/-- What a booking that has an answer leaves: the other rows, and the one it promised. -/
theorem Db.book_rows {b : Booking}
    (hkeys : (db.callbacks.rows.map Callback.sourceExecutionId).Nodup)
    (hbooked : db.booked b = true) (hr' : r' ∈ (db.book b now).callbacks.rows) :
    (r' ∈ db.callbacks.rows ∧ r'.sourceExecutionId ≠ b.sourceExecutionId) ∨
      (r'.sourceExecutionId = b.sourceExecutionId ∧ r'.requestedAt = b.requestedAt ∧
        (r'.phone = b.phone ∨ ∃ r ∈ db.callbacks.rows,
          r.sourceExecutionId = b.sourceExecutionId ∧ r'.phone = r.phone)) := by
  unfold booked at hbooked
  unfold book at hr'
  split at hr'
  next hkey =>
    rw [if_pos hkey] at hbooked
    obtain ⟨r0, hr0, hp0⟩ := List.any_eq_true.1 hbooked
    rcases Journal.mem_rewrite.1 hr' with ⟨hr, hp⟩ | ⟨r, hr, hp, rfl⟩
    · refine .inl ⟨hr, fun hsame => ?_⟩
      have hr0' : r0 = r' := List.inj_on_of_nodup_map hkeys hr0 hr
        ((of_decide_eq_true hp0).1.trans hsame.symm)
      rw [hr0', hp] at hp0
      cases hp0
    · have hkey' := (of_decide_eq_true hp).1
      exact .inr ⟨hkey', rfl, .inr ⟨r, hr, hkey', rfl⟩⟩
  next hkey =>
    rw [if_neg hkey] at hbooked
    have hid : ¬ (db.callbacks.rows.any fun r => r.id = b.callbackId) = true := by
      simpa using hbooked
    rw [if_neg hid] at hr'
    rcases List.mem_append.1 hr' with hr | hnew
    · refine .inl ⟨hr, fun hsame => hkey ?_⟩
      exact List.any_eq_true.2 ⟨r', hr, decide_eq_true hsame⟩
    · rw [List.mem_singleton.1 hnew]
      exact .inr ⟨rfl, rfl, .inl rfl⟩

end Rows

namespace World

variable {w : World}

/-- Nothing but a booking promises a time. -/
theorem step_promised (h : w.Sound) {a : Callbacks.Action} (hbook : ∀ b, a ≠ .book b)
    {r' : Callback} (hr' : r' ∈ (w.step a).db.callbacks.rows) : Promised w.db r' := by
  cases a with
  | book b => exact absurd rfl (hbook b)
  | cancelForPhones phones reason =>
    exact (Db.cancelForPhones_turned ..).promised (by rintro _ ⟨⟩) hr'
  | settleDialled =>
    obtain ⟨r, hr, hkey, hphone, hrequested⟩ :=
      (Db.settleStuck_turned ..).promised (by rintro _ ⟨⟩) hr'
    obtain ⟨r0, hr0, hkey0, hphone0, hrequested0⟩ :=
      (Db.settleEnded_turned ..).promised (by rintro _ ⟨⟩) hr
    exact ⟨r0, hr0, hkey.trans hkey0, hphone.trans hphone0, hrequested.trans hrequested0⟩
  | callOff only => exact (Db.callOff_turned ..).promised (by rintro _ ⟨⟩) hr'
  | hold => exact (Db.holdForPausedCampaigns_turned ..).promised (by rintro _ ⟨⟩) hr'
  | release locked => exact (Db.releaseResumed_turned ..).promised (by rintro _ ⟨⟩) hr'
  | expire => exact (Db.expireStale_turned ..).promised (by rintro _ ⟨⟩) hr'
  | claim tick limit locked =>
    exact (Db.claimDue_turned h.table.keys tick limit locked).promised (by rintro _ ⟨⟩) hr'
  | decide tick id finding =>
    exact (w.decide_turned tick id finding).promised (w.turnOf_decide tick id finding).not_booker
      hr'
  | dial tick id callId campaignId =>
    exact (dial_turned h tick id callId campaignId).promised
      (w.turnOf_dial tick id callId campaignId).not_booker hr'
  | conclude tick id answer =>
    cases hfind : w.dialled tick id with
    | none =>
      simp only [step, hfind] at hr'
      exact ⟨r', hr', rfl, rfl, rfl⟩
    | some found =>
      obtain ⟨k, callId⟩ := found
      obtain ⟨-, -, rfl⟩ := dialled_mem hfind
      simp only [step, hfind] at hr'
      exact (w.concludeOn_turned k callId answer).promised (by rintro _ ⟨⟩) hr'
  | crash tick => exact ⟨r', hr', rfl, rfl, rfl⟩
  | setCall callId call => exact ⟨r', hr', rfl, rfl, rfl⟩
  | setCampaign campaignId campaign => exact ⟨r', hr', rfl, rfl, rfl⟩
  | wait d => exact (Db.paused_turned ..).promised (by rintro _ ⟨⟩) hr'

/-- What a tick read of a row is what the row holds. -/
def Read (r : Callback) (callback : DueCallback) : Prop :=
  r.id = callback.id ∧ r.sourceExecutionId = callback.sourceExecutionId ∧
    r.phone = callback.phone ∧ r.requestedAt = callback.requestedAt

/-- A claim nobody has come to the end of has its row, as the tick read it. -/
def Linked (w : World) : Prop :=
  ∀ k ∈ w.holds, ∃ r ∈ w.db.callbacks.rows, Read r k.callback ∧ r.status.ringing = true

/-- A step that claims nothing reads nothing. -/
theorem step_callbacks {a : Callbacks.Action}
    (ha : ∀ tick limit locked, a ≠ .claim tick limit locked) {k : Hold} (hk : k ∈ (w.step a).holds) : ∃ k' ∈ w.holds, k.callback = k'.callback := by
  cases a with
  | claim tick limit locked => exact absurd rfl (ha tick limit locked)
  | decide tick id finding =>
    cases hfind : w.undialled tick id with
    | none => exact ⟨k, by simpa [step, hfind] using hk, rfl⟩
    | some k' =>
      simp only [step, hfind, letGo] at hk
      exact ⟨k, List.mem_of_mem_filter hk, rfl⟩
  | dial tick id callId campaignId =>
    cases hfind : w.undialled tick id with
    | none => exact ⟨k, by simpa [step, hfind] using hk, rfl⟩
    | some k' =>
      cases hopens : opensLater k'.callback w.clock with
      | some opens =>
        simp only [step, hfind, hopens, letGo] at hk
        exact ⟨k, List.mem_of_mem_filter hk, rfl⟩
      | none =>
        simp only [step, hfind, hopens] at hk
        split at hk
        · exact ⟨k, hk, rfl⟩
        · obtain ⟨k0, hk0, rfl⟩ := List.mem_map.1 hk
          refine ⟨k0, hk0, ?_⟩
          split <;> rfl
  | conclude tick id answer =>
    cases hfind : w.dialled tick id with
    | none => exact ⟨k, by simpa [step, hfind] using hk, rfl⟩
    | some found =>
      simp only [step, hfind, letGo] at hk
      exact ⟨k, List.mem_of_mem_filter hk, rfl⟩
  | crash tick => exact ⟨k, List.mem_of_mem_filter hk, rfl⟩
  | _ => exact ⟨k, hk, rfl⟩

/-- A row goes on as a tick read it while no tick has its last turn on it. -/
theorem Linked.row (h : w.Sound) (hl : w.Linked) {k : Hold} (hk : k ∈ w.holds)
    (a : Callbacks.Action)
    (hnot : ∀ callback waits, w.turnOf a = .holder callback waits → callback.id ≠ k.callback.id) :
    ∃ r ∈ (w.step a).db.callbacks.rows, Read r k.callback ∧ r.status.ringing = true := by
  obtain ⟨r, hr, hread, hringing⟩ := hl k hk
  have hT : ∀ db0 r1 r2 deeds es, Turn db0 w.clock (w.turnOf a) r1 r2 deeds → Counted es r1 →
      (Read r1 k.callback ∧ r1.status.ringing = true) →
        (Read r2 k.callback ∧ r2.status.ringing = true) := by
    rintro db0 r1 r2 deeds es hturn - ⟨⟨hid, hkey, hphone, hrequested⟩, hring⟩
    have hwaits : r1.status ≠ .scheduled := by
      intro hs
      rw [hs] at hring
      cases hring
    obtain ⟨hkey', hphone', hrequested'⟩ := hturn.promise fun _ _ => hwaits
    refine ⟨⟨hturn.id_eq.trans hid, hkey'.trans hkey, hphone'.trans hphone,
      hrequested'.trans hrequested⟩, hturn.ringing_stays ?_ hring⟩
    rw [hid]
    exact hnot
  obtain ⟨r', hr', -, hread', hringing'⟩ := (step_moves h a).successor h.table
    (fun _ _ _ _ _ hturn hR => hR.turn hturn) (fun b => Counted.new b w.clock) hT hr
    ⟨hread, hringing⟩
  exact ⟨r', hr', hread', hringing'⟩

/-- **One step keeps the claims and the rows together.** -/
theorem step_linked (h : w.Sound) (hl : w.Linked) (a : Callbacks.Action) : (w.step a).Linked := by
  intro k hk
  by_cases hclaim : ∃ tick limit locked, a = .claim tick limit locked
  · obtain ⟨tick, limit, locked, rfl⟩ := hclaim
    rcases List.mem_append.1 hk with hold | hnew
    · exact hl.row h hold _ (by simp [turnOf])
    · obtain ⟨r, hr, rfl⟩ := List.mem_map.1 hnew
      have hpick : decide (r.id ∈ (w.db.picked limit locked w.clock).map Callback.id) = true := by
        simpa using ⟨r, hr, rfl⟩
      refine ⟨_, List.mem_map_of_mem (Db.mem_picked hr).1, ?_⟩
      rw [if_pos hpick]
      exact ⟨⟨rfl, rfl, rfl, rfl⟩, rfl⟩
  · have ha : ∀ tick limit locked, a ≠ .claim tick limit locked := by
      rintro tick limit locked rfl
      exact hclaim ⟨tick, limit, locked, rfl⟩
    obtain ⟨k', hk', hsame⟩ := step_callbacks ha hk
    have hfree := (h.step_held (turnOf_ne_claimer ha)).2 _ (List.mem_map_of_mem hk)
    rw [hsame] at hfree ⊢
    exact hl.row h hk' a fun callback waits hwho => hfree callback waits hwho

end World

/-! ## Runs -/

namespace Ledgered

variable {requires : Bool} {normalizePhone : String → Option String} {s : Ledgered}
variable {b : Booking}

/-- **The invariant of a run.** -/
structure Lawful (s : Ledgered) : Prop where
  sound : s.world.Sound
  linked : s.world.Linked
  past : ∀ row ∈ s.consents, row.capturedAt ≤ s.world.clock

/-- What was promised in a conversation, was promised to the number, and the number's consent
lasts for two hours from the promised time. -/
def Agreed (requires : Bool) (b : Booking) (s : Ledgered) : Prop :=
  ∀ r ∈ s.world.db.callbacks.rows, r.sourceExecutionId = b.sourceExecutionId →
    r.phone = b.phone ∧
      ∀ t < r.requestedAt + grace, consentRefusal requires s.consents b.phone t = none

/-- A booking by the tool writes nothing, or both rows. -/
theorem bookCallbackFor_cases (requires : Bool) (normalizePhone : String → Option String)
    (s : Ledgered) (b : Booking) :
    (s.bookCallbackFor requires normalizePhone b = s ∧ ¬ s.Books requires normalizePhone b) ∨
      ∃ consents, s.world.db.booked b = true ∧
        recordCallbackRequestConsent requires normalizePhone s.consents b.phone b.requestedAt
          s.world.clock = .ok consents ∧
        s.bookCallbackFor requires normalizePhone b = ⟨s.world.step (.book b), consents⟩ := by
  unfold bookCallbackFor Books
  split
  next hlocked => exact .inl ⟨rfl, fun h => by rw [hlocked] at h; cases h.1⟩
  · split
    next hbooked =>
      split
      next e herror => exact .inl ⟨rfl, fun h => by rw [herror] at h; cases h.2.2⟩
      next consents hok => exact .inr ⟨consents, hbooked, hok, rfl⟩
    next hbooked => exact .inl ⟨rfl, fun h => hbooked h.2.1⟩

/-- What the tool files is captured now. -/
theorem record_past {consents' : List Consent} {phone : String} {callbackAt now : ℕ}
    {consents : List Consent} (hpast : ∀ row ∈ consents, row.capturedAt ≤ now)
    (h : recordCallbackRequestConsent requires normalizePhone consents phone callbackAt now =
      .ok consents') : ∀ row ∈ consents', row.capturedAt ≤ now := by
  unfold recordCallbackRequestConsent at h
  dsimp only at h
  split at h
  · exact Except.ok.inj h ▸ hpast
  · obtain ⟨phone', -, rfl⟩ := recordCallConsent_ok h
    intro row hrow
    rcases List.mem_append.1 hrow with hrow | hrow
    · exact hpast row hrow
    · rw [List.mem_singleton.1 hrow]

theorem clock_le_step (w : World) (a : Callbacks.Action) : w.clock ≤ (w.step a).clock := by
  cases a with
  | decide tick id finding =>
    simp only [World.step]
    split <;> exact Nat.le_refl _
  | dial tick id callId campaignId =>
    simp only [World.step]
    split
    · split
      · exact Nat.le_refl _
      · split <;> exact Nat.le_refl _
    · exact Nat.le_refl _
  | conclude tick id answer =>
    simp only [World.step]
    split <;> exact Nat.le_refl _
  | wait d => exact Nat.le_add_right _ _
  | _ => exact Nat.le_refl _

theorem empty_lawful : empty.Lawful :=
  ⟨World.empty_sound, fun _ hk => (nomatch hk), fun _ hrow => (nomatch hrow)⟩

theorem step_lawful (h : s.Lawful) (a : Action) :
    (s.step requires normalizePhone a).Lawful := by
  cases a with
  | bookCallbackFor b =>
    rcases s.bookCallbackFor_cases requires normalizePhone b with
      ⟨hsame, -⟩ | ⟨consents, -, hrecord, heq⟩
    · rw [step, hsame]
      exact h
    · have hsound := World.step_sound h.sound (.book b)
      have hlinked := World.step_linked h.sound h.linked (.book b)
      rw [step, heq]
      exact ⟨hsound, hlinked, record_past h.past hrecord⟩
  | file row =>
    refine ⟨h.sound, h.linked, fun row' hrow' => ?_⟩
    rcases List.mem_append.1 hrow' with hold | hnew
    · exact h.past row' hold
    · rw [List.mem_singleton.1 hnew]
      exact Nat.min_le_right _ _
  | dispatch a =>
    refine ⟨World.step_sound h.sound _, World.step_linked h.sound h.linked _, ?_⟩
    intro row hrow
    exact (h.past row hrow).trans (clock_le_step _ a)

theorem run_lawful (actions : List Action) : (run requires normalizePhone actions).Lawful :=
  @Run.foldl_inv _ _ (step requires normalizePhone) Lawful (fun _ a h => step_lawful h a) empty
    empty_lawful actions

/-- **The tool's booking is agreed.** -/
theorem books_agreed (h : s.Lawful) (hbooks : s.Books requires normalizePhone b)
    (hnames : s.Names normalizePhone b) :
    (s.step requires normalizePhone (.bookCallbackFor b)).Agreed requires b := by
  rcases s.bookCallbackFor_cases requires normalizePhone b with
    ⟨-, hnot⟩ | ⟨consents, hbooked, hrecord, heq⟩
  · exact absurd hbooks hnot
  · rw [step, heq]
    intro r' hr' hkey
    rcases Db.book_rows h.sound.keys hbooked hr' with ⟨-, hother⟩ | ⟨-, hrequested, hphone⟩
    · exact absurd hkey hother
    · refine ⟨?_, fun t ht =>
        (record_permits hnames.1 h.past hrecord t).1 (hrequested ▸ ht)⟩
      rcases hphone with hphone | ⟨r, hr, hkey', hphone⟩
      · exact hphone
      · exact hphone.trans (hnames.2 r hr hkey')

/-- **One step keeps what was agreed**, if it does not disturb it. -/
theorem step_agreed (h : s.Lawful) (hagreed : s.Agreed requires b) {a : Action}
    (hundisturbed : Undisturbed normalizePhone b a) :
    (s.step requires normalizePhone a).Agreed requires b := by
  cases a with
  | bookCallbackFor b' =>
    obtain ⟨hphone', hsame⟩ := hundisturbed
    rcases s.bookCallbackFor_cases requires normalizePhone b' with
      ⟨heq, -⟩ | ⟨consents, hbooked, hrecord, heq⟩
    · rw [step, heq]
      exact hagreed
    · rw [step, heq]
      intro r' hr' hkey
      rcases Db.book_rows h.sound.keys hbooked hr' with ⟨hold, -⟩ | ⟨hkey', hrequested, hphone⟩
      · -- another conversation's request takes no permission away
        obtain ⟨hphone, hstands⟩ := hagreed r' hold hkey
        exact ⟨hphone, fun t ht => record_keeps hphone' hrecord (hstands t ht)⟩
      · have hname := hsame (hkey'.symm.trans hkey)
        refine ⟨?_, fun t ht => ?_⟩
        · rcases hphone with hphone | ⟨r, hr, hkey'', hphone⟩
          · exact hphone.trans hname
          · exact hphone.trans (hagreed r hr (hkey''.trans (hkey'.symm.trans hkey))).1
        · rw [← hname]
          exact (record_permits hphone' h.past hrecord t).1 (hrequested ▸ ht)
  | file row =>
    intro r' hr' hkey
    obtain ⟨hphone, hstands⟩ := hagreed r' hr' hkey
    have hlatest : latestCallConsent (s.step requires normalizePhone (.file row)).consents b.phone =
        latestCallConsent s.consents b.phone :=
      latestCallConsent_append_other fun hrow => hundisturbed hrow.1
    refine ⟨hphone, fun t ht => ?_⟩
    have hpermits := hstands t ht
    rw [consentRefusal] at hpermits ⊢
    rw [hlatest]
    exact hpermits
  | dispatch a =>
    intro r' hr' hkey
    by_cases hbook : ∃ b', a = .book b'
    · obtain ⟨b', rfl⟩ := hbook
      rcases s.world.db.book_cases b' s.world.clock with ht | ⟨-, -, hinsert⟩
      · obtain ⟨p, f, deeds, heq, -, hrow⟩ := ht
        have hr'' : r' ∈ (s.world.db.updateWhere p f deeds).callbacks.rows := heq ▸ hr'
        rcases Journal.mem_rewrite.1 hr'' with ⟨hr, -⟩ | ⟨r, hr, hp, rfl⟩
        · exact hagreed r' hr hkey
        · exact absurd ((hrow r hr hp).booked_key.symm.trans hkey) hundisturbed
      · have hr'' : r' ∈ (s.world.db.callbacks.insert (newCallback b' s.world.clock) []).rows :=
          hinsert ▸ hr'
        rcases List.mem_append.1 hr'' with hr | hnew
        · exact hagreed r' hr hkey
        · rw [List.mem_singleton.1 hnew] at hkey
          exact absurd hkey hundisturbed
    · obtain ⟨r, hr, hkey', hphone, hrequested⟩ := World.step_promised h.sound
        (fun b' hb' => hbook ⟨b', hb'⟩) hr'
      obtain ⟨hphone', hstands⟩ := hagreed r hr (hkey'.symm.trans hkey)
      exact ⟨hphone.trans hphone', fun t ht => hstands t (hrequested ▸ ht)⟩

/-- So does a run of such steps. -/
theorem foldl_agreed {after : List Action} (h : s.Lawful) (hagreed : s.Agreed requires b)
    (hundisturbed : ∀ a ∈ after, Undisturbed normalizePhone b a) :
    (after.foldl (step requires normalizePhone) s).Lawful ∧
      (after.foldl (step requires normalizePhone) s).Agreed requires b := by
  induction after generalizing s with
  | nil => exact ⟨h, hagreed⟩
  | cons a after ih =>
    rw [List.forall_mem_cons] at hundisturbed
    exact ih (step_lawful h a) (step_agreed h hagreed hundisturbed.1) hundisturbed.2

/-- A claim of what was agreed is let through until two hours after the promised time. -/
theorem Agreed.claim (h : s.Lawful) (hagreed : s.Agreed requires b) {k : Hold}
    (hk : k ∈ s.world.holds) (hkey : k.callback.sourceExecutionId = b.sourceExecutionId)
    {t : ℕ} (ht : t < k.callback.requestedAt + grace) :
    consentRefusal requires s.consents k.callback.phone t = none := by
  obtain ⟨r, hr, ⟨-, hkey', hphone, hrequested⟩, -⟩ := h.linked k hk
  obtain ⟨hnumber, hstands⟩ := hagreed r hr (hkey'.trans hkey)
  rw [← hphone, hnumber]
  exact hstands t (hrequested ▸ ht)

/-- **A promised call keeps its consent for two hours from its time**, and a request takes no
permission away. -/
theorem callback_consent_stands (requires : Bool) (normalizePhone : String → Option String) :
    (∀ consents phone callbackAt now consents' who t, normalizePhone phone = some phone →
      recordCallbackRequestConsent requires normalizePhone consents phone callbackAt now =
        .ok consents' →
      consentRefusal requires consents who t = none →
        consentRefusal requires consents' who t = none) ∧
    ∀ before b after, (run requires normalizePhone before).Books requires normalizePhone b →
      (run requires normalizePhone before).Names normalizePhone b →
      (∀ a ∈ after, Undisturbed normalizePhone b a) →
      let s := run requires normalizePhone (before ++ .bookCallbackFor b :: after)
      ∀ k ∈ s.world.holds, k.callback.sourceExecutionId = b.sourceExecutionId →
        s.world.clock < k.callback.requestedAt + grace →
          consentRefusal requires s.consents k.callback.phone s.world.clock = none := by
  refine ⟨fun consents phone callbackAt now consents' who t hphone hrecord hpermits =>
    record_keeps hphone hrecord hpermits, ?_⟩
  intro before b after hbooks hnames hundisturbed s k hk hkey ht
  have hbegan : s = after.foldl (step requires normalizePhone)
      ((run requires normalizePhone before).step requires normalizePhone (.bookCallbackFor b)) := by
    simp only [s, run, List.foldl_append, List.foldl_cons]
  have hlawful : (run requires normalizePhone before).Lawful := run_lawful before
  obtain ⟨hs, hagreed⟩ := foldl_agreed (step_lawful hlawful (.bookCallbackFor b))
    (books_agreed hlawful hbooks hnames) hundisturbed
  rw [← hbegan] at hs hagreed
  exact hagreed.claim hs hk hkey ht

/-! ## A pause over the two hours -/

/-- Ten in the morning of India. -/
def tenOClock : ℕ := 4 * Calendar.hour + 30 * Calendar.minute

/-- A call-back for ten o'clock, asked for on a campaign's call. -/
def askedForTen : Booking where
  callbackId := 1
  agentId := 1
  sourceCallId := some 1
  sourceExecutionId := "call"
  leadId := none
  phone := "+919000000000"
  requestedAt := tenOClock
  bookedAt := 0
  note := none
  language := none

def campaignRuns : List Action :=
  [.dispatch (.setCampaign 1 (some ⟨.running, none⟩)),
    .dispatch (.setCall 1 (some ⟨some 1, .completed⟩))]

/-- The campaign is paused until one o'clock, and the call-back is claimed then. -/
def pausedToOne : List Action :=
  [.dispatch (.setCampaign 1 (some ⟨.paused, none⟩)), .dispatch (.wait tenOClock)] ++
    (World.passes 1 5 []).map .dispatch ++
    [.dispatch (.wait (3 * Calendar.hour)),
      .dispatch (.setCampaign 1 (some ⟨.running, none⟩))] ++
    (World.passes 2 5 []).map .dispatch

/-- **The gate then finds that the consent has lapsed.** -/
theorem pausedToOne_lapsed :
    ¬ ∀ (requires : Bool) (normalizePhone : String → Option String) (before : List Action)
        (b : Booking) (after : List Action),
      (run requires normalizePhone before).Books requires normalizePhone b →
      (run requires normalizePhone before).Names normalizePhone b →
      (∀ a ∈ after, Undisturbed normalizePhone b a) →
      let s := run requires normalizePhone (before ++ .bookCallbackFor b :: after)
      ∀ k ∈ s.world.holds, k.callback.sourceExecutionId = b.sourceExecutionId →
        consentRefusal requires s.consents k.callback.phone s.world.clock = none := by
  have hlapsed : ∃ k ∈ (run true some (campaignRuns ++ .bookCallbackFor askedForTen ::
      pausedToOne)).world.holds, k.callback.sourceExecutionId = askedForTen.sourceExecutionId ∧
        consentRefusal true (run true some (campaignRuns ++ .bookCallbackFor askedForTen ::
          pausedToOne)).consents k.callback.phone (run true some (campaignRuns ++
            .bookCallbackFor askedForTen :: pausedToOne)).world.clock ≠ none := by
    decide +kernel
  have hbooks : (run true some campaignRuns).Books true some askedForTen := by decide +kernel
  have hundisturbed : ∀ a ∈ pausedToOne, Undisturbed some askedForTen a := by
    simp [pausedToOne, World.passes, Undisturbed]
  obtain ⟨k, hk, hkey, hrefused⟩ := hlapsed
  intro hall
  exact hrefused (hall true some campaignRuns askedForTen pausedToOne hbooks
    ⟨rfl, fun r hr => (nomatch hr)⟩ hundisturbed k hk hkey)

end Ledgered

end Calevate.Callbacks
