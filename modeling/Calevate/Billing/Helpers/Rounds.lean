import Calevate.Billing.Wallet

/-!
# Helpers — the rounds of a dispute

A dispute's money is the ledger rows under its references, one hold and one release for
each round. The lemmas here say which rows those are, that no other writer makes one, and
what appending rows does to a dispute whose references they carry or do not carry.
-/

namespace Calevate

namespace Billing

open Lib

/-! ## References -/

/-- Every round a dispute can have, oldest first. -/
def allRounds : List String := roundSuffixes (some "arbitration")

theorem roundSuffixes_subset (phase : Option String) : ∀ s ∈ roundSuffixes phase, s ∈ allRounds := by
  unfold roundSuffixes phaseSuffixes
  split <;> simp [allRounds, roundSuffixes, phaseSuffixes]

theorem ownRound_mem (d : DisputeFacts) : d.ownRound ∈ roundSuffixes d.phase :=
  List.getLast_mem _

theorem ownRound_mem_allRounds (d : DisputeFacts) : d.ownRound ∈ allRounds :=
  roundSuffixes_subset _ _ (ownRound_mem d)

theorem append_left_cancel {p s t : String} : p ++ s = p ++ t ↔ s = t := by
  constructor
  · intro h
    have := congrArg String.toList h
    rw [String.toList_append, String.toList_append] at this
    exact String.toList_inj.mp (List.append_cancel_left this)
  · rintro rfl
    rfl

theorem disputeHoldRef_eq (id s : String) : disputeHoldRef id s = "dispute_hold:" ++ (id ++ s) :=
  String.append_assoc

theorem disputeReleaseRef_eq (id s : String) :
    disputeReleaseRef id s = "dispute_release:" ++ (id ++ s) :=
  String.append_assoc

theorem disputeHoldRef_inj {id id' s s' : String} :
    disputeHoldRef id s = disputeHoldRef id' s' ↔ id ++ s = id' ++ s' := by
  rw [disputeHoldRef_eq, disputeHoldRef_eq, append_left_cancel]

theorem disputeReleaseRef_inj {id id' s s' : String} :
    disputeReleaseRef id s = disputeReleaseRef id' s' ↔ id ++ s = id' ++ s' := by
  rw [disputeReleaseRef_eq, disputeReleaseRef_eq, append_left_cancel]

theorem disputeHoldRef_ne_releaseRef (id s id' s' : String) :
    disputeHoldRef id s ≠ disputeReleaseRef id' s' := by
  intro h
  rw [disputeHoldRef_eq, disputeReleaseRef_eq] at h
  have := congrArg String.toList h
  simp [String.toList_append] at this

/-- A reference of a correction, a lapse or a re-price starts otherwise. -/
theorem adjustmentPrefix_ne {p : String} (hp : p ∈ adjustmentPrefixes) (t id s : String) :
    p ++ t ≠ disputeHoldRef id s ∧ p ++ t ≠ disputeReleaseRef id s := by
  rw [disputeHoldRef_eq, disputeReleaseRef_eq]
  simp only [adjustmentPrefixes, List.mem_cons, List.not_mem_nil, or_false] at hp
  constructor <;> intro h <;> have := congrArg String.toList h <;>
    rcases hp with rfl | rfl | rfl | rfl <;> simp [String.toList_append] at this

/-! ## The rows of a dispute -/

/-- The row is a hold or a release of this dispute. -/
def Entry.OfDispute (e : Entry) (disputeId : String) : Prop :=
  e.reason = .adjustment ∧ ∃ s ∈ allRounds,
    e.ref = some (disputeHoldRef disputeId s) ∨ e.ref = some (disputeReleaseRef disputeId s)

instance (e : Entry) (disputeId : String) : Decidable (e.OfDispute disputeId) :=
  inferInstanceAs (Decidable (_ ∧ _))

theorem Entry.Plain.not_ofDispute {e : Entry} (h : e.Plain) (id : String) : ¬ e.OfDispute id := by
  rintro ⟨hreason, s, -, href⟩
  obtain ⟨p, hp, t, hpt⟩ := h.adjustment hreason
  obtain ⟨hhold, hrel⟩ := adjustmentPrefix_ne hp t id s
  rw [hpt, Option.some.injEq, Option.some.injEq] at href
  exact href.elim hhold hrel

/-- What a row moved, with the lapsed credit its hold gave back by rows of their own. -/
def Entry.netDelta (e : Entry) : ℤ := e.delta + e.entryMeta.expiryRestatedInr.getD 0

/-- **The net ledger effect of a dispute.** -/
def Account.disputeNet (a : Account) (disputeId : String) : ℤ :=
  ((a.ledger.filter fun e => e.OfDispute disputeId).map Entry.netDelta).sum

/-! ## Appending rows -/

section Append

variable {a a' : Account} {rows : List Entry} {id : String}

theorem findEntryByRef_append {reason : CreditReason} {ref : String}
    (hl : a'.ledger = a.ledger ++ rows) (hrows : ∀ e ∈ rows, ¬ (e.reason = reason ∧ e.ref = some ref)) :
    a'.findEntryByRef reason ref = a.findEntryByRef reason ref := by
  have hnil : rows.filter (fun e => e.reason = reason ∧ e.ref = some ref) = [] := by
    rw [List.filter_eq_nil_iff]
    intro e he
    simpa using hrows e he
  unfold Account.findEntryByRef
  rw [hl, List.filter_append, hnil, List.append_nil]

theorem disputeNet_append (hl : a'.ledger = a.ledger ++ rows) :
    a'.disputeNet id = a.disputeNet id +
      ((rows.filter fun e => e.OfDispute id).map Entry.netDelta).sum := by
  unfold Account.disputeNet
  rw [hl, List.filter_append, List.map_append, List.sum_append]

/-- The rounds and the money of a dispute are as they were. -/
structure SameRounds (a a' : Account) (id : String) : Prop where
  hold : ∀ s ∈ allRounds, a'.findEntryByRef .adjustment (disputeHoldRef id s) =
    a.findEntryByRef .adjustment (disputeHoldRef id s)
  release : ∀ s ∈ allRounds, a'.findEntryByRef .adjustment (disputeReleaseRef id s) =
    a.findEntryByRef .adjustment (disputeReleaseRef id s)
  net : a'.disputeNet id = a.disputeNet id

/-- Rows that are not the dispute's leave it alone. -/
theorem sameRounds_of_append (hl : a'.ledger = a.ledger ++ rows)
    (hrows : ∀ e ∈ rows, ¬ e.OfDispute id) : SameRounds a a' id where
  hold := by
    intro s hs
    apply findEntryByRef_append hl
    rintro e he ⟨hreason, href⟩
    exact hrows e he ⟨hreason, s, hs, Or.inl href⟩
  release := by
    intro s hs
    apply findEntryByRef_append hl
    rintro e he ⟨hreason, href⟩
    exact hrows e he ⟨hreason, s, hs, Or.inr href⟩
  net := by
    have hnil : rows.filter (fun e => e.OfDispute id) = [] := by
      rw [List.filter_eq_nil_iff]
      intro e he
      simpa using hrows e he
    rw [disputeNet_append hl, hnil]
    simp

theorem SameRounds.roundHeld (h : SameRounds a a' id) {s : String} (hs : s ∈ allRounds) :
    a'.roundHeld id s = a.roundHeld id s := by
  unfold Account.roundHeld
  rw [h.hold s hs]

theorem SameRounds.roundOpen (h : SameRounds a a' id) {s : String} (hs : s ∈ allRounds) :
    a'.roundOpen id s = a.roundOpen id s := by
  unfold Account.roundOpen Account.roundReleased
  rw [h.roundHeld hs, h.release s hs]

/-- Writing the disputes' own rows leaves every dispute's money alone. -/
theorem sameRounds_setDisputes (disputes : List Dispute) :
    SameRounds a (a.setDisputes disputes) id :=
  ⟨fun _ _ => rfl, fun _ _ => rfl, rfl⟩

end Append

/-! ## Idle and taken -/

/-- Nothing of the dispute is held. -/
structure Idle (a : Account) (id : String) : Prop where
  closed : ∀ s ∈ allRounds, a.roundOpen id s = false
  net : a.disputeNet id = 0

/-- One round of the dispute is held, and what its hold took is what the ledger is down. -/
structure TakenBy (a : Account) (id s : String) (amount : ℤ) (e : Entry) : Prop where
  round : s ∈ allRounds
  isOpen : a.roundOpen id s = true
  only : ∀ t ∈ allRounds, a.roundOpen id t = true → t = s
  row : a.findEntryByRef .adjustment (disputeHoldRef id s) = some e
  delta : e.delta = -amount
  net : a.disputeNet id = -e.heldAmount

theorem Idle.same {a a' : Account} {id : String} (h : Idle a id) (hs : SameRounds a a' id) :
    Idle a' id :=
  ⟨fun s hs' => by rw [hs.roundOpen hs', h.closed s hs'], by rw [hs.net, h.net]⟩

theorem TakenBy.same {a a' : Account} {id s : String} {amount : ℤ} {e : Entry}
    (h : TakenBy a id s amount e) (hs : SameRounds a a' id) : TakenBy a' id s amount e where
  round := h.round
  isOpen := by rw [hs.roundOpen h.round, h.isOpen]
  only := by
    intro t ht ho
    rw [hs.roundOpen ht] at ho
    exact h.only t ht ho
  row := by rw [hs.hold s h.round, h.row]
  delta := h.delta
  net := by rw [hs.net, h.net]

theorem roundOpen_of_held {a : Account} {id s : String} (h : a.roundHeld id s = true)
    (hr : a.roundReleased id s = false) : a.roundOpen id s = true := by
  unfold Account.roundOpen
  rw [h, hr]
  rfl

/-- **A hold placed on an idle dispute takes it.** -/
theorem Idle.holds {a a' : Account} {d : DisputeFacts} (h : Idle a d.disputeId)
    (hfresh : a.roundReleased d.disputeId d.ownRound = false) (hh : Holds d a a') :
    ∃ e, TakenBy a' d.disputeId d.ownRound d.amountInr e := by
  obtain ⟨b, rows, e, restated, δ, hm, -, hplain, hsum, hrow, rfl⟩ := hh
  refine ⟨e, ?_⟩
  suffices ht : TakenBy b d.disputeId d.ownRound d.amountInr e from
    ht.same (sameRounds_setDisputes _)
  have hmem : e ∈ b.ledger := by
    rw [hm.ledger]
    simp
  have hfind : b.findEntryByRef .adjustment (disputeHoldRef d.disputeId d.ownRound) = some e :=
    (findEntryByRef_some_iff hm.books.ledger).mpr ⟨hmem, hrow.reason, hrow.ref⟩
  have hown := ownRound_mem_allRounds d
  have hplainNet : rows.filter (fun x => x.OfDispute d.disputeId) = [] := by
    rw [List.filter_eq_nil_iff]
    intro x hx
    simpa using (hplain x hx).not_ofDispute d.disputeId
  have hOf : e.OfDispute d.disputeId := ⟨hrow.reason, _, hown, Or.inl hrow.ref⟩
  -- a release's reference is not the hold's, and a round's is not another round's
  have hrelease : ∀ t, b.roundReleased d.disputeId t = a.roundReleased d.disputeId t := by
    intro t
    unfold Account.roundReleased
    rw [findEntryByRef_append hm.ledger]
    rintro x hx ⟨hreason, href⟩
    rcases List.mem_append.mp hx with hx | hx
    · obtain ⟨p, hp, u, hu⟩ := (hplain x hx).adjustment hreason
      rw [hu, Option.some.injEq] at href
      exact (adjustmentPrefix_ne hp u d.disputeId t).2 href
    · obtain rfl := List.mem_singleton.mp hx
      rw [hrow.ref, Option.some.injEq] at href
      exact disputeHoldRef_ne_releaseRef _ _ _ _ href
  have hother : ∀ t, t ≠ d.ownRound → b.roundHeld d.disputeId t = a.roundHeld d.disputeId t := by
    intro t hne
    unfold Account.roundHeld
    rw [findEntryByRef_append hm.ledger]
    rintro x hx ⟨hreason, href⟩
    rcases List.mem_append.mp hx with hx | hx
    · obtain ⟨p, hp, u, hu⟩ := (hplain x hx).adjustment hreason
      rw [hu, Option.some.injEq] at href
      exact (adjustmentPrefix_ne hp u d.disputeId t).1 href
    · obtain rfl := List.mem_singleton.mp hx
      rw [hrow.ref, Option.some.injEq, disputeHoldRef_inj, append_left_cancel] at href
      exact hne href.symm
  refine ⟨hown, ?_, ?_, hfind, hrow.delta, ?_⟩
  · apply roundOpen_of_held
    · unfold Account.roundHeld
      rw [hfind]
      rfl
    · rw [hrelease, hfresh]
  · intro t ht hopen
    by_contra hne
    have hclosed := h.closed t ht
    unfold Account.roundOpen at hopen hclosed
    rw [hrelease, hother t hne, hclosed] at hopen
    cases hopen
  · rw [disputeNet_append hm.ledger, h.net, List.filter_append, hplainNet]
    have : ([e].filter fun x => x.OfDispute d.disputeId) = [e] := by simp [hOf]
    rw [List.nil_append, this, List.map_singleton, List.sum_singleton, Entry.netDelta, hrow.delta,
      hrow.lapse, hrow.held]
    omega

/-- **A release of the round that is held leaves the dispute idle.** -/
theorem TakenBy.releases {a a' : Account} {d : DisputeFacts} {s : String} {amount : ℤ} {e : Entry}
    (h : TakenBy a d.disputeId s amount e) (hr : Releases d s a a') : Idle a' d.disputeId := by
  obtain ⟨held, r, δ, hfind, hm, -, hdelta, hreason, href, hnone⟩ := hr
  obtain rfl : held = e := by
    rw [h.row] at hfind
    exact (Option.some.inj hfind).symm
  have hOf : r.OfDispute d.disputeId := ⟨hreason, s, h.round, Or.inr href⟩
  have hheld : ∀ t, a'.roundHeld d.disputeId t = a.roundHeld d.disputeId t := by
    intro t
    unfold Account.roundHeld
    rw [findEntryByRef_append hm.ledger]
    rintro x hx ⟨-, hx'⟩
    obtain rfl := List.mem_singleton.mp hx
    rw [href, Option.some.injEq] at hx'
    exact disputeHoldRef_ne_releaseRef _ _ _ _ hx'.symm
  have hother : ∀ t, t ≠ s → a'.roundReleased d.disputeId t = a.roundReleased d.disputeId t := by
    intro t hne
    unfold Account.roundReleased
    rw [findEntryByRef_append hm.ledger]
    rintro x hx ⟨-, hx'⟩
    obtain rfl := List.mem_singleton.mp hx
    rw [href, Option.some.injEq, disputeReleaseRef_inj, append_left_cancel] at hx'
    exact hne hx'.symm
  have hdone : a'.roundReleased d.disputeId s = true := by
    unfold Account.roundReleased
    rw [isSome_findEntryByRef hm.books.ledger]
    exact ⟨r, by rw [hm.ledger]; simp, hreason, href⟩
  refine ⟨?_, ?_⟩
  · intro t ht
    by_cases hts : t = s
    · subst hts
      unfold Account.roundOpen
      rw [hdone]
      simp
    · by_contra hopen
      rw [Bool.not_eq_false] at hopen
      have hopen' : a.roundOpen d.disputeId t = true := by
        unfold Account.roundOpen at hopen ⊢
        rwa [hheld, hother t hts] at hopen
      exact hts (h.only t ht hopen')
  · rw [disputeNet_append hm.ledger, h.net]
    have : ([r].filter fun x => x.OfDispute d.disputeId) = [r] := by simp [hOf]
    rw [this, List.map_singleton, List.sum_singleton, Entry.netDelta, hdelta, hnone]
    simp

end Billing

end Calevate
