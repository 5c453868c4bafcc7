import Calevate.Lib.Arrivals
import Calevate.Lib.Table
import Calevate.Pipeline.CallRows
import Mathlib.Data.Int.Notation
import Mathlib.Order.Lattice
import Mathlib.Data.List.Dedup

/-!
# The lead behind a person's calls

One lead is kept for each number an agent spoke to. A finished call is filed under it once,
whichever order the calls' pipelines finish in and however often one is run again; the statement
compares the call with the lead's current first and last call and with the calls already
filed, and merges what the caller answered into what the lead holds.
-/

namespace Calevate.Pipeline

abbrev CallId := ℕ

/-- A JSON object, each value as its text. -/
abbrev Data := String → Option String

/-- `data || new`. -/
def Data.merge (old new : Data) : Data := fun key => (new key).or (old key)

/-- `leads.source`. -/
inductive LeadSource where
  | inboundCall
  | webhook
  | campaign
  | manual
  | testCall
  | outboundCall
  deriving DecidableEq, Repr

/-- A call's row, and what its pipeline files of it. The numbers are as `_party_e164` reads
them, and `callbackNumber` the one a caller gave. -/
structure Call where
  id : CallId
  agentId : ℕ
  direction : Direction
  fromE164 : Option String := none
  toE164 : Option String := none
  startedAt : Option ℤ := none
  createdAt : ℤ
  trialCall : Bool := false
  campaign : Bool := false
  forwardingTest : Bool := false
  callerIdHidden : Bool := false
  callbackNumber : Option String := none
  data : Data := fun _ => none
  schemaVersion : ℕ

namespace Call

/-- `COALESCE(started_at, created_at)`. -/
def time (c : Call) : ℤ := c.startedAt.getD c.createdAt

/-- Whose lead the call is: the other party, or the number a hidden caller gave; our own
forwarding test is nobody's. -/
def caller (c : Call) : Option String :=
  match c.direction with
  | .inbound => c.fromE164.bind fun party => own party
  | .outbound => c.toE164.bind fun party => own party
where
  own (party : String) : Option String :=
    if c.forwardingTest then none
    else if c.callerIdHidden then c.callbackNumber
    else some party

/-- `(phone_e164, agent_id)` of the call's lead, in its tenant. -/
def leadKey (c : Call) : Option (String × ℕ) := c.caller.map fun phone => (phone, c.agentId)

/-- `_lead_source`. -/
def leadSource (c : Call) : LeadSource :=
  if c.trialCall then .testCall
  else match c.direction with
    | .inbound => .inboundCall
    | .outbound => if c.campaign then .campaign else .outboundCall

/-- `data.get("name") or data.get("caller_name")`. -/
def name (c : Call) : Option String :=
  match c.data "name" with
  | some heard => if heard = "" then c.data "caller_name" else some heard
  | none => c.data "caller_name"

end Call

/-- A lead's row. -/
structure Lead where
  name : Option String
  source : LeadSource
  data : Data
  schemaVersion : Option ℕ := none
  firstCallId : Option CallId := none
  lastCallId : Option CallId := none
  callCount : ℕ := 0
  isRepeatCaller : Bool := false

/-- `_CALL_AT`. -/
def callAt (calls : List Call) (ref : Option CallId) : Option ℤ :=
  ref.bind fun id => (Lib.Table.findKey Call.id id calls).map Call.time

namespace Lead

/-- `_LEAD_CALL_IS_LATEST`. -/
def callIsLatest (calls : List Call) (lead : Lead) (c : Call) : Bool :=
  lead.lastCallId = none || lead.lastCallId = some c.id ||
    match callAt calls (some c.id), callAt calls lead.lastCallId with
    | none, _ => true
    | some _, none => true
    | some mine, some theirs => theirs ≤ mine

/-- `_LEAD_CALL_IS_EARLIEST`. -/
def callIsEarliest (calls : List Call) (lead : Lead) (c : Call) : Bool :=
  match callAt calls (some c.id), callAt calls lead.firstCallId with
  | none, _ => false
  | some _, none => false
  | some mine, some theirs => mine < theirs

/-- `_LEAD_CALL_FILED`, of the calls with a `call` event on the lead. -/
def callFiled (filed : List CallId) (lead : Lead) (c : Call) : Bool :=
  lead.lastCallId = some c.id || c.id ∈ filed

/-- The row `_upsert_lead` inserts. -/
def ofCall (c : Call) : Lead where
  name := c.name
  source := c.leadSource
  data := c.data
  schemaVersion := some c.schemaVersion
  firstCallId := some c.id
  lastCallId := some c.id
  callCount := 1
  isRepeatCaller := false

/-- The row `_upsert_lead` writes over a lead that is there, `linked` being the calls whose
`lead_id` it is. -/
def refile (calls : List Call) (filed : List CallId) (linked : List Call) (lead : Lead)
    (c : Call) : Lead where
  data := if lead.callIsLatest calls c then lead.data.merge c.data else c.data.merge lead.data
  schemaVersion :=
    if lead.callIsLatest calls c then some c.schemaVersion else lead.schemaVersion
  name := lead.name.or c.name
  lastCallId := if lead.callIsLatest calls c then some c.id else lead.lastCallId
  firstCallId := if lead.callIsEarliest calls c then some c.id else lead.firstCallId
  callCount := lead.callCount + if lead.callFiled filed c then 0 else 1
  isRepeatCaller := lead.isRepeatCaller ||
    (!c.trialCall && !lead.callFiled filed c &&
      linked.any fun pc => !pc.trialCall && decide (pc.id ≠ c.id))
  source :=
    if lead.source = .testCall ∧ c.leadSource ≠ .testCall then c.leadSource else lead.source

end Lead

/-- What is kept under one number of one agent: the lead, the calls with a `call` event on its
timeline, and the calls whose `lead_id` it is. -/
structure Shelf where
  lead : Option Lead := none
  filed : List CallId := []
  linked : List Call := []

/-- **`_upsert_lead`** of a call of this number. -/
def Shelf.upsertLead (calls : List Call) (shelf : Shelf) (c : Call) : Shelf where
  lead := some (match shelf.lead with
    | none => .ofCall c
    | some lead => lead.refile calls shelf.filed shelf.linked c)
  filed := if c.id ∈ shelf.filed then shelf.filed else shelf.filed ++ [c.id]
  linked := c :: shelf.linked

/-- `_link_dial_to_lead`. -/
def Shelf.linkDial (shelf : Shelf) (c : Call) : Shelf :=
  if shelf.lead.isSome then { shelf with linked := c :: shelf.linked } else shelf

/-- A tenant's leads, by number and agent. -/
abbrev Leads := String × ℕ → Shelf

/-- What happens to a call: its pipeline files it, or its dial is linked to the lead it was
placed to. -/
inductive Filing where
  | upsert (c : Call)
  | link (c : Call)

namespace Filing

def call : Filing → Call
  | upsert c => c
  | link c => c

/-- What a filing does on its own shelf. -/
def onShelf (calls : List Call) (shelf : Shelf) : Filing → Shelf
  | upsert c => shelf.upsertLead calls c
  | link c => shelf.linkDial c

end Filing

/-- One filing: on the shelf of the call's lead, and on no other. -/
def Leads.step (calls : List Call) (leads : Leads) (f : Filing) : Leads :=
  match f.call.leadKey with
  | none => leads
  | some key => Function.update leads key (f.onShelf calls (leads key))

/-- The filings of one number's calls. -/
def filingsOf (key : String × ℕ) (filings : List Filing) : List Filing :=
  filings.filter fun f => f.call.leadKey = some key

/-- The calls that were filed, in the order they were, each time they were. -/
def upserted (filings : List Filing) : List Call :=
  filings.filterMap fun
    | .upsert c => some c
    | .link _ => none

/-- A number's shelf is moved by its own calls only. -/
theorem run_shelf (calls : List Call) (leads : Leads) (filings : List Filing)
    (key : String × ℕ) :
    (filings.foldl (Leads.step calls) leads) key =
      (filingsOf key filings).foldl (Filing.onShelf calls) (leads key) := by
  induction filings generalizing leads with
  | nil => rfl
  | cons f filings ih =>
    rw [List.foldl_cons, ih, filingsOf, filingsOf]
    by_cases hkey : f.call.leadKey = some key
    · rw [List.filter_cons_of_pos (by simpa using hkey), List.foldl_cons]
      simp [Leads.step, hkey]
    · rw [List.filter_cons_of_neg (by simpa using hkey)]
      have hsame : Leads.step calls leads f key = leads key := by
        unfold Leads.step
        cases hother : f.call.leadKey with
        | none => rfl
        | some other =>
          refine Function.update_of_ne ?_ _ _
          rintro rfl
          exact hkey hother
      rw [hsame]

/-! ## What a filing compares -/

section Rows

open Lib.Arrivals

variable {calls order : List Call} {shelf : Shelf} {lead : Lead} {c : Call}

theorem callAt_of_mem (hids : (calls.map Call.id).Nodup) (hc : c ∈ calls) :
    callAt calls (some c.id) = some c.time := by
  rw [callAt, Option.bind_some, Lib.Table.findKey_of_mem hids hc, Option.map_some]

theorem Call.eq_of_id (hids : (calls.map Call.id).Nodup) {d : Call} (hc : c ∈ calls)
    (hd : d ∈ calls) (h : c.id = d.id) : c = d :=
  List.inj_on_of_nodup_map hids hc hd h

/-- Two calls of these are real ones. -/
def Returned (order linked : List Call) : Prop :=
  ∃ c ∈ order, ∃ d ∈ linked, c.id ≠ d.id ∧ c.trialCall = false ∧ d.trialCall = false

theorem Returned.mono {order' linked linked' : List Call} (h : Returned order linked)
    (horder : ∀ d ∈ order, d ∈ order') (hlinked : ∀ d ∈ linked, d ∈ linked') :
    Returned order' linked' := by
  obtain ⟨a, ha, b, hb, hne, hreal⟩ := h
  exact ⟨a, horder a ha, b, hlinked b hb, hne, hreal⟩

/-- What a shelf keeps of the calls filed on it, in the order they were. -/
structure Kept (order : List Call) (shelf : Shelf) (lead : Lead) : Prop where
  row : shelf.lead = some lead
  filed : ∀ id, id ∈ shelf.filed ↔ id ∈ order.map Call.id
  nodup : shelf.filed.Nodup
  count : lead.callCount = shelf.filed.length
  last : ∃ c, Newest Call.time order c ∧ lead.lastCallId = some c.id ∧
    lead.schemaVersion = some c.schemaVersion
  first : ∃ c, Oldest Call.time order c ∧ lead.firstCallId = some c.id
  linked : ∀ c ∈ order, c ∈ shelf.linked
  returned : lead.isRepeatCaller = true → Returned order shelf.linked
  repeats : Returned order order → lead.isRepeatCaller = true
  data : ∀ key, lead.data key = kept Call.time (fun c => c.data key) order

namespace Kept

theorem latest_iff (h : Kept order shelf lead) (hids : (calls.map Call.id).Nodup)
    (hrows : ∀ d ∈ order, d ∈ calls) (hc : c ∈ calls) :
    lead.callIsLatest calls c = true ↔ ∀ d ∈ order, d.time ≤ c.time := by
  obtain ⟨last, hnewest, hlast, -⟩ := h.last
  have hiff : (∀ d ∈ order, d.time ≤ c.time) ↔ last.time ≤ c.time :=
    ⟨fun hall => hall last hnewest.1, fun hle d hd => le_trans (hnewest.2 d hd) hle⟩
  rw [hiff, Lead.callIsLatest, hlast, callAt_of_mem hids hc,
    callAt_of_mem hids (hrows last hnewest.1)]
  by_cases hsame : last.id = c.id
  · simp [Call.eq_of_id hids (hrows last hnewest.1) hc hsame]
  · simp [hsame]

theorem earliest_iff (h : Kept order shelf lead) (hids : (calls.map Call.id).Nodup)
    (hrows : ∀ d ∈ order, d ∈ calls) (hc : c ∈ calls) :
    lead.callIsEarliest calls c = true ↔ ∀ d ∈ order, c.time < d.time := by
  obtain ⟨first, holdest, hfirst⟩ := h.first
  have hiff : (∀ d ∈ order, c.time < d.time) ↔ c.time < first.time :=
    ⟨fun hall => hall first holdest.1, fun hlt d hd => lt_of_lt_of_le hlt (holdest.2 d hd)⟩
  rw [hiff, Lead.callIsEarliest, hfirst, callAt_of_mem hids hc,
    callAt_of_mem hids (hrows first holdest.1)]
  simp

theorem filed_iff (h : Kept order shelf lead) :
    lead.callFiled shelf.filed c = true ↔ c.id ∈ order.map Call.id := by
  obtain ⟨last, hnewest, hlast, -⟩ := h.last
  simp only [Lead.callFiled, hlast, h.filed, Bool.or_eq_true, decide_eq_true_eq,
    Option.some.injEq, or_iff_right_iff_imp]
  rintro heq
  exact heq ▸ List.mem_map_of_mem hnewest.1

/-- A call that was filed is one of the calls. -/
theorem mem_of_filed (hids : (calls.map Call.id).Nodup) (hrows : ∀ d ∈ order, d ∈ calls)
    (hc : c ∈ calls) (hfiled : c.id ∈ order.map Call.id) : c ∈ order := by
  obtain ⟨d, hd, hid⟩ := List.mem_map.mp hfiled
  rwa [Call.eq_of_id hids hc (hrows d hd) hid.symm]

/-- The first call filed on a shelf makes the lead. -/
theorem ofCall (h : shelf = {}) : Kept [c] (shelf.upsertLead calls c) (.ofCall c) := by
  subst h
  constructor
  case row => rfl
  case filed => simp [Shelf.upsertLead]
  case nodup => simp [Shelf.upsertLead]
  case count => rfl
  case last => exact ⟨c, ⟨by simp, by simp⟩, rfl, rfl⟩
  case first => exact ⟨c, ⟨by simp, by simp⟩, rfl⟩
  case linked => simp [Shelf.upsertLead]
  case returned => simp [Lead.ofCall]
  case repeats =>
    rintro ⟨a, ha, b, hb, hne, -⟩
    rw [List.mem_singleton.mp ha, List.mem_singleton.mp hb] at hne
    exact absurd rfl hne
  case data =>
    intro key
    simp [Lead.ofCall, kept, keptFrom]

theorem mem_concat_of_mem {d : Call} (hd : d ∈ order) : d ∈ order ++ [c] :=
  List.mem_append_left _ hd

/-- A real call that comes where another real one is linked makes a repeat caller, unless it
was filed before. -/
theorem refile_repeats (h : Kept order shelf lead) (hids : (calls.map Call.id).Nodup)
    (hrows : ∀ d ∈ order, d ∈ calls) (hc : c ∈ calls)
    (hreal : Returned (order ++ [c]) (order ++ [c])) :
    (lead.refile calls shelf.filed shelf.linked c).isRepeatCaller = true := by
  simp only [Lead.refile, Bool.or_eq_true, Bool.and_eq_true, Bool.not_eq_true',
    List.any_eq_true, decide_eq_true_eq]
  by_cases hfiled : c.id ∈ order.map Call.id
  · -- It is one of them already.
    have hmem : ∀ d ∈ order ++ [c], d ∈ order := by
      intro d hd
      rcases List.mem_append.mp hd with hd | hd
      · exact hd
      · rw [List.mem_singleton.mp hd]
        exact mem_of_filed hids hrows hc hfiled
    exact .inl (h.repeats (hreal.mono hmem hmem))
  have hfresh : lead.callFiled shelf.filed c = false :=
    Bool.eq_false_iff.mpr fun hyes => hfiled (h.filed_iff.mp hyes)
  have hwith : ∀ d ∈ order, c.id ≠ d.id → c.trialCall = false → d.trialCall = false →
      lead.isRepeatCaller = true ∨
        (c.trialCall = false ∧ lead.callFiled shelf.filed c = false) ∧
          ∃ pc ∈ shelf.linked, pc.trialCall = false ∧ pc.id ≠ c.id :=
    fun d hd hne hc hd' => .inr ⟨⟨hc, hfresh⟩, d, h.linked d hd, hd', hne.symm⟩
  obtain ⟨a, ha, b, hb, hne, hrealA, hrealB⟩ := hreal
  rcases List.mem_append.mp ha with ha | ha <;> rcases List.mem_append.mp hb with hb | hb
  · exact .inl (h.repeats ⟨a, ha, b, hb, hne, hrealA, hrealB⟩)
  · rw [List.mem_singleton.mp hb] at hne hrealB
    exact hwith a ha hne.symm hrealB hrealA
  · rw [List.mem_singleton.mp ha] at hne hrealA
    exact hwith b hb hne hrealA hrealB
  · rw [List.mem_singleton.mp ha, List.mem_singleton.mp hb] at hne
    exact absurd rfl hne

/-- **One more call filed on a shelf**, new or run again. -/
theorem refile (h : Kept order shelf lead) (hids : (calls.map Call.id).Nodup)
    (hrows : ∀ d ∈ order, d ∈ calls) (hc : c ∈ calls) :
    Kept (order ++ [c]) (shelf.upsertLead calls c)
      (lead.refile calls shelf.filed shelf.linked c) := by
  have hlatest := h.latest_iff hids hrows hc
  have hearliest := h.earliest_iff hids hrows hc
  constructor
  case row => simp [Shelf.upsertLead, h.row]
  case filed =>
    intro id
    simp only [Shelf.upsertLead, List.map_append, List.map_cons, List.map_nil,
      List.mem_append, List.mem_singleton, ← h.filed]
    split
    · next hmem =>
      refine ⟨.inl, ?_⟩
      rintro (hid | rfl)
      · exact hid
      · exact hmem
    · simp
  case nodup =>
    simp only [Shelf.upsertLead]
    split
    · exact h.nodup
    · next hnew => exact List.nodup_append.mpr ⟨h.nodup, List.nodup_singleton _, by
        intro a ha b hb heq
        rw [heq, List.mem_singleton.mp hb] at ha
        exact hnew ha⟩
  case count =>
    simp only [Shelf.upsertLead, Lead.refile, h.count]
    by_cases hfiled : c.id ∈ order.map Call.id
    · rw [if_pos (h.filed_iff.mpr hfiled), if_pos ((h.filed _).mpr hfiled)]
      omega
    · rw [if_neg (fun hyes => hfiled (h.filed_iff.mp hyes)),
        if_neg (fun hyes => hfiled ((h.filed _).mp hyes)), List.length_append,
        List.length_singleton]
  case last =>
    obtain ⟨last, hnewest, hlast, hversion⟩ := h.last
    by_cases hlate : ∀ d ∈ order, d.time ≤ c.time
    · exact ⟨c, newest_concat.mpr (.inr ⟨rfl, hlate⟩), by simp [Lead.refile, hlatest.mpr hlate],
        by simp [Lead.refile, hlatest.mpr hlate]⟩
    · have hnot : lead.callIsLatest calls c = false :=
        Bool.eq_false_iff.mpr fun hyes => hlate (hlatest.mp hyes)
      have hle : c.time ≤ last.time := le_of_not_ge fun hge =>
        hlate fun d hd => le_trans (hnewest.2 d hd) hge
      exact ⟨last, newest_concat.mpr (.inl ⟨hnewest, hle⟩), by simp [Lead.refile, hnot, hlast],
        by simp [Lead.refile, hnot, hversion]⟩
  case first =>
    obtain ⟨first, holdest, hfirst⟩ := h.first
    by_cases hearly : ∀ d ∈ order, c.time < d.time
    · refine ⟨c, ⟨by simp, fun d hd => ?_⟩, by simp [Lead.refile, hearliest.mpr hearly]⟩
      rcases List.mem_append.mp hd with hd | hd
      · exact le_of_lt (hearly d hd)
      · rw [List.mem_singleton.mp hd]
    · have hnot : lead.callIsEarliest calls c = false :=
        Bool.eq_false_iff.mpr fun hyes => hearly (hearliest.mp hyes)
      have hle : first.time ≤ c.time := le_of_not_gt fun hlt =>
        hearly fun d hd => lt_of_lt_of_le hlt (holdest.2 d hd)
      refine ⟨first, ⟨mem_concat_of_mem holdest.1, fun d hd => ?_⟩,
        by simp [Lead.refile, hnot, hfirst]⟩
      rcases List.mem_append.mp hd with hd | hd
      · exact holdest.2 d hd
      · rwa [List.mem_singleton.mp hd]
  case linked =>
    intro d hd
    rcases List.mem_append.mp hd with hd | hd
    · exact List.mem_cons_of_mem _ (h.linked d hd)
    · rw [List.mem_singleton.mp hd]
      exact List.mem_cons_self
  case returned =>
    intro hrepeat
    simp only [Lead.refile, Bool.or_eq_true, Bool.and_eq_true, Bool.not_eq_true',
      List.any_eq_true, decide_eq_true_eq] at hrepeat
    obtain hold | ⟨⟨hreal, -⟩, pc, hpc, hpcReal, hne⟩ := hrepeat
    · exact (h.returned hold).mono (fun d => mem_concat_of_mem)
        (fun d => List.mem_cons_of_mem _)
    · exact ⟨c, by simp, pc, List.mem_cons_of_mem _ hpc, hne.symm, hreal, hpcReal⟩
  case repeats => exact h.refile_repeats hids hrows hc
  case data =>
    intro key
    rw [kept_concat]
    by_cases hlate : ∀ d ∈ order, d.time ≤ c.time
    · rw [if_pos hlate]
      simp [Lead.refile, hlatest.mpr hlate, Data.merge, h.data]
    · have hnot : lead.callIsLatest calls c = false :=
        Bool.eq_false_iff.mpr fun hyes => hlate (hlatest.mp hyes)
      rw [if_neg hlate]
      simp [Lead.refile, hnot, Data.merge, h.data]

/-- A dial linked to the lead changes nothing of it. -/
theorem linkDial (h : Kept order shelf lead) : Kept order (shelf.linkDial c) lead := by
  have hshelf : shelf.linkDial c = { shelf with linked := c :: shelf.linked } := by
    simp [Shelf.linkDial, h.row]
  rw [hshelf]
  exact { h with
    linked := fun d hd => List.mem_cons_of_mem _ (h.linked d hd)
    returned := fun hrepeat =>
      (h.returned hrepeat).mono (fun _ hd => hd) (fun _ => List.mem_cons_of_mem _) }

end Kept

/-! ## Whole runs -/

theorem upserted_concat (filings : List Filing) (f : Filing) :
    upserted (filings ++ [f]) = upserted filings ++ upserted [f] := by
  simp [upserted]

theorem mem_upserted {filings : List Filing} (hc : c ∈ upserted filings) :
    .upsert c ∈ filings := by
  obtain ⟨f, hf, hcall⟩ := List.mem_filterMap.mp hc
  cases f with
  | upsert d => rwa [← Option.some.inj hcall]
  | link d => cases hcall

/-- What a run leaves on a shelf that was empty: nothing, or a lead that keeps the calls
filed. -/
def Keeps (filings : List Filing) (shelf : Shelf) : Prop :=
  (upserted filings = [] ∧ shelf = {}) ∨ ∃ lead, Kept (upserted filings) shelf lead

/-- A linked call is filed, or only linked. -/
def Linked (filings : List Filing) (shelf : Shelf) : Prop :=
  ∀ c ∈ shelf.linked, c ∈ upserted filings ∨ .link c ∈ filings

/-- **One number's calls, filed and linked in any order**, on an empty shelf. -/
theorem run_keeps (hids : (calls.map Call.id).Nodup) {filings : List Filing}
    (hrows : ∀ f ∈ filings, f.call ∈ calls) :
    Keeps filings (filings.foldl (Filing.onShelf calls) {}) ∧
      Linked filings (filings.foldl (Filing.onShelf calls) {}) := by
  induction filings using List.reverseRecOn with
  | nil => exact ⟨.inl ⟨rfl, rfl⟩, fun c hc => absurd hc List.not_mem_nil⟩
  | append_singleton filings f ih =>
    obtain ⟨hkeeps, hlinked⟩ := ih fun f hf => hrows f (List.mem_append_left _ hf)
    have hold : ∀ d ∈ upserted filings, d ∈ calls := fun d hd =>
      hrows _ (List.mem_append_left _ (mem_upserted hd))
    have hnew : f.call ∈ calls := hrows f (by simp)
    rw [List.foldl_append, List.foldl_cons, List.foldl_nil]
    generalize filings.foldl (Filing.onShelf calls) {} = shelf at hkeeps hlinked
    have hbefore : ∀ c ∈ shelf.linked,
        c ∈ upserted (filings ++ [f]) ∨ .link c ∈ filings ++ [f] := by
      intro c hc
      rw [upserted_concat]
      exact (hlinked c hc).imp (List.mem_append_left _) (List.mem_append_left _)
    cases f with
    | upsert c =>
      have horder : upserted (filings ++ [.upsert c]) = upserted filings ++ [c] :=
        upserted_concat filings _
      refine ⟨.inr ?_, fun d hd => ?_⟩
      · rw [horder]
        obtain ⟨hnone, hempty⟩ | ⟨lead, hkept⟩ := hkeeps
        · rw [hnone]
          exact ⟨_, Kept.ofCall hempty⟩
        · exact ⟨_, hkept.refile hids hold hnew⟩
      · rcases List.mem_cons.mp hd with rfl | hd
        · rw [horder]
          exact .inl (by simp)
        · exact hbefore d hd
    | link c =>
      have horder : upserted (filings ++ [.link c]) = upserted filings := by
        rw [upserted_concat]
        exact List.append_nil _
      refine ⟨?_, fun d hd => ?_⟩
      · rw [Keeps, horder]
        obtain ⟨hnone, hempty⟩ | ⟨lead, hkept⟩ := hkeeps
        · exact .inl ⟨hnone, by subst hempty; rfl⟩
        · exact .inr ⟨lead, hkept.linkDial⟩
      · simp only [Filing.onShelf, Shelf.linkDial] at hd
        split at hd
        · rcases List.mem_cons.mp hd with rfl | hd
          · exact .inr (by simp)
          · exact hbefore d hd
        · exact hbefore d hd

/-- No call is filed on it yet: there is no lead, or one that came another way. -/
structure Shelf.Unfiled (shelf : Shelf) : Prop where
  filed : shelf.filed = []
  linked : shelf.linked = []
  lead : ∀ lead ∈ shelf.lead, lead.firstCallId = none ∧ lead.lastCallId = none ∧
    lead.callCount = 0 ∧ lead.isRepeatCaller = false

/-- A lead without a first call never gets one. -/
theorem run_first_none {shelf : Shelf} {lead : Lead} (hlead : shelf.lead = some lead)
    (hfirst : lead.firstCallId = none) (filings : List Filing) :
    ∃ lead', (filings.foldl (Filing.onShelf calls) shelf).lead = some lead' ∧
      lead'.firstCallId = none := by
  induction filings generalizing shelf lead with
  | nil => exact ⟨lead, hlead, hfirst⟩
  | cons f filings ih =>
    rw [List.foldl_cons]
    cases f with
    | upsert c =>
      have hrefiled : (shelf.upsertLead calls c).lead =
          some (lead.refile calls shelf.filed shelf.linked c) := by
        simp [Shelf.upsertLead, hlead]
      have hnot : lead.callIsEarliest calls c = false := by
        simp only [Lead.callIsEarliest, hfirst, callAt, Option.bind_none]
        split <;> simp_all
      exact ih hrefiled (by simp [Lead.refile, hnot, hfirst])
    | link c =>
      have hlinked : (shelf.linkDial c).lead = some lead := by
        unfold Shelf.linkDial
        split <;> exact hlead
      exact ih hlinked hfirst

/-- What a lead is, of the calls filed under it and whatever their order. -/
def Gathered (order : List Call) (shelf : Shelf) : Prop :=
  ∃ lead, shelf.lead = some lead ∧
    lead.callCount = (order.map Call.id).dedup.length ∧
    (∃ c, Newest Call.time order c ∧ lead.lastCallId = some c.id ∧
      lead.schemaVersion = some c.schemaVersion) ∧
    (∃ c, Oldest Call.time order c ∧ lead.firstCallId = some c.id) ∧
    (lead.isRepeatCaller = true ↔ Returned order order) ∧
    ∀ key w, LastWord Call.time (fun c => c.data key) order w → lead.data key = w.data key

/-- All of it but the answers holds of a lead whose calls made it. -/
theorem Kept.gathered_iff (h : Kept order shelf lead) (hlinked : ∀ c ∈ shelf.linked, c ∈ order)
    (htimes : Distinct Call.time order) :
    Gathered order shelf ↔
      ∀ key s w, Stands Call.time (fun c => c.data key) order s →
        LastWord Call.time (fun c => c.data key) order w → s.data key = w.data key := by
  have hdata : (∀ key w, LastWord Call.time (fun c => c.data key) order w →
      lead.data key = w.data key) ↔ ∀ key s w, Stands Call.time (fun c => c.data key) order s →
        LastWord Call.time (fun c => c.data key) order w → s.data key = w.data key :=
    forall_congr' fun key => by
      rw [h.data]
      exact kept_lastWord_iff htimes
  rw [← hdata]
  constructor
  · rintro ⟨lead', hlead', -, -, -, -, hwords⟩
    rw [h.row] at hlead'
    rwa [Option.some.inj hlead']
  · intro hwords
    refine ⟨lead, h.row, ?_, h.last, h.first, ⟨fun hrepeat => ?_, h.repeats⟩, hwords⟩
    · rw [h.count]
      refine (List.perm_ext_iff_of_nodup h.nodup (List.nodup_dedup _)).mpr
        (fun id => ?_) |>.length_eq
      rw [h.filed, List.mem_dedup]
    · exact (h.returned hrepeat).mono (fun _ hd => hd) hlinked

/-- **A lead is what its calls make it, whatever order they are filed in, just where they made
it and, for each detail, the call whose answer stands says what the latest to answer says.** -/
theorem lead_gathered_iff {leads : Leads} {key : String × ℕ} {filings : List Filing}
    (hids : (calls.map Call.id).Nodup) (hrows : ∀ f ∈ filings, f.call ∈ calls)
    (hstart : (leads key).Unfiled)
    (hlinks : ∀ c, .link c ∈ filingsOf key filings → c ∈ upserted (filingsOf key filings))
    (htimes : Distinct Call.time (upserted (filingsOf key filings)))
    (hsome : upserted (filingsOf key filings) ≠ []) :
    Gathered (upserted (filingsOf key filings))
        ((filings.foldl (Leads.step calls) leads) key) ↔
      (leads key).lead = none ∧
        ∀ k s w, Stands Call.time (fun c => c.data k) (upserted (filingsOf key filings)) s →
          LastWord Call.time (fun c => c.data k) (upserted (filingsOf key filings)) w →
          s.data k = w.data k := by
  rw [run_shelf]
  cases hlead : (leads key).lead with
  | some lead =>
    obtain ⟨lead', hlead', hnone⟩ := @run_first_none calls _ _ hlead
      (hstart.lead lead hlead).1 (filingsOf key filings)
    simp only [reduceCtorEq, false_and, iff_false]
    rintro ⟨lead'', hlead'', -, -, ⟨c, -, hfirst⟩, -⟩
    rw [hlead'] at hlead''
    rw [← Option.some.inj hlead'', hnone] at hfirst
    cases hfirst
  | none =>
    have hempty : leads key = {} := by
      rw [show leads key = ⟨(leads key).lead, (leads key).filed, (leads key).linked⟩ from rfl,
        hlead, hstart.filed, hstart.linked]
    have hown : ∀ f ∈ filingsOf key filings, f.call ∈ calls := fun f hf =>
      hrows f (List.mem_filter.mp hf).1
    obtain ⟨⟨hnil, -⟩ | ⟨lead, hkept⟩, hlinked⟩ := run_keeps hids hown
    · exact absurd hnil hsome
    · rw [hempty, hkept.gathered_iff (fun c hc => (hlinked c hc).elim id (hlinks c)) htimes]
      simp

end Rows

/-- A caller's call in which the budget was or was not said. -/
def budgetCall (id : CallId) (time : ℤ) (budget : Option String) : Call where
  id := id
  agentId := 1
  direction := .inbound
  fromE164 := some "+919800000001"
  createdAt := time
  data := fun key => if key = "budget" then budget else none
  schemaVersion := 1

/-- The number of `budgetCall`, at its agent. -/
def budgetKey : String × ℕ := ("+919800000001", 1)

/-- The second call, filed between two filings of the third, which answered nothing. -/
def lateFilings : List Filing :=
  [.upsert (budgetCall 3 30 none), .upsert (budgetCall 2 20 (some "20 lakh")),
    .upsert (budgetCall 3 30 none)]

theorem lateFilings_order : upserted (filingsOf budgetKey lateFilings) =
    [budgetCall 3 30 none, budgetCall 2 20 (some "20 lakh"), budgetCall 3 30 none] := rfl

/-- It still gives its answer. -/
theorem lateAnswer_gathered :
    Gathered (upserted (filingsOf budgetKey lateFilings))
      ((lateFilings.foldl (Leads.step [budgetCall 2 20 (some "20 lakh"), budgetCall 3 30 none])
        fun _ => {}) budgetKey) := by
  have hanswer : ∀ k, ∀ c ∈ upserted (filingsOf budgetKey lateFilings), c.data k ≠ none →
      c = budgetCall 2 20 (some "20 lakh") := by
    intro k c hc hyes
    simp only [lateFilings_order, List.mem_cons, List.not_mem_nil, or_false] at hc
    rcases hc with rfl | rfl | rfl
    · simp [budgetCall] at hyes
    · rfl
    · simp [budgetCall] at hyes
  refine (lead_gathered_iff (by decide) ?_ ⟨rfl, rfl, by simp⟩ ?_ ?_ ?_).mpr
    ⟨rfl, fun k s w hs hw => ?_⟩
  · simp [lateFilings, Filing.call]
  · intro c hc
    have hlinks := (List.mem_filter.mp hc).1
    simp [lateFilings] at hlinks
  · intro c hc d hd htime
    simp only [lateFilings_order, List.mem_cons, List.not_mem_nil, or_false] at hc hd
    rcases hc with rfl | rfl | rfl <;> rcases hd with rfl | rfl | rfl <;>
      first
        | rfl
        | exact absurd htime (by decide)
  · rw [lateFilings_order]
    exact List.cons_ne_nil _ _
  · rw [hanswer k s hs.mem hs.1, hanswer k w hw.1 hw.2.1]

/-- The third call filed first, then the first, then the second, which corrected it. -/
def olderFilings : List Filing :=
  [.upsert (budgetCall 3 30 none), .upsert (budgetCall 1 10 (some "10 lakh")),
    .upsert (budgetCall 2 20 (some "20 lakh"))]

/-- The first call's answer stands. -/
theorem olderAnswer_stands :
    ¬ Gathered (upserted (filingsOf budgetKey olderFilings))
      ((olderFilings.foldl (Leads.step [budgetCall 1 10 (some "10 lakh"),
        budgetCall 2 20 (some "20 lakh"), budgetCall 3 30 none]) fun _ => {}) budgetKey) := by
  have horder : upserted (filingsOf budgetKey olderFilings) =
    [budgetCall 3 30 none, budgetCall 1 10 (some "10 lakh"),
      budgetCall 2 20 (some "20 lakh")] := rfl
  rintro ⟨lead, hlead, -, -, -, -, hwords⟩
  have hword := hwords "budget" (budgetCall 2 20 (some "20 lakh")) ?_
  · have hkept := congrArg (Option.map fun l => l.data "budget") hlead
    rw [Option.map_some, hword] at hkept
    exact absurd hkept (by decide +kernel)
  · refine ⟨by simp [horder], by decide, fun c hc hyes => ?_⟩
    simp only [horder, List.mem_cons, List.not_mem_nil, or_false] at hc
    rcases hc with rfl | rfl | rfl
    · simp [budgetCall] at hyes
    · decide
    · decide

end Calevate.Pipeline
