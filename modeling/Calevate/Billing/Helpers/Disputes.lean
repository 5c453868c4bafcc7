import Calevate.Billing.Helpers.Operations
import Calevate.Billing.Disputes

/-!
# Helpers — disputes

What a hold and a release do to the books. A hold appends the rows that give back what a
lapse had taken and then its own, and a release appends one row for what the hold took;
the lots move with both. The dispute's own row is outside the books, so writing it changes
no balance.
-/

namespace Calevate

namespace Billing

open Lib

/-! ## Lookups by reference -/

/-- The key of a ledger row is its own, so a lookup finds exactly the row that has it. -/
theorem findEntryByRef_some_iff {a : Account} (ha : LedgerOk a) {reason : CreditReason}
    {ref : String} {e : Entry} :
    a.findEntryByRef reason ref = some e ↔ e ∈ a.ledger ∧ e.reason = reason ∧ e.ref = some ref := by
  constructor
  · intro h
    have hmem := newestOf_mem h
    simpa using hmem
  · rintro ⟨hmem, hreason, href⟩
    have hfil : e ∈ a.ledger.filter fun f => f.reason = reason ∧ f.ref = some ref := by
      simp [hmem, hreason, href]
    cases hnew : a.findEntryByRef reason ref with
    | none =>
      rw [Account.findEntryByRef, newestOf_eq_none] at hnew
      rw [hnew] at hfil
      cases hfil
    | some f =>
      have hf := newestOf_mem hnew
      simp only [List.mem_filter, decide_eq_true_eq] at hf
      obtain ⟨hfmem, hfreason, hfref⟩ := hf
      by_contra hne
      have hne' : e ≠ f := fun h => hne (by rw [h])
      have : Std.Symm fun x y : Entry => ¬ (x.reason = y.reason ∧ x.ref = y.ref ∧ x.ref.isSome) :=
        ⟨fun x y h h' => h ⟨h'.1.symm, h'.2.1.symm, h'.2.1 ▸ h'.2.2⟩⟩
      exact ha.keys.forall hmem hfmem hne' ⟨hreason.trans hfreason.symm, href.trans hfref.symm, by rw [href]; rfl⟩

theorem isSome_findEntryByRef {a : Account} (ha : LedgerOk a) {reason : CreditReason}
    {ref : String} :
    (a.findEntryByRef reason ref).isSome ↔
      ∃ e ∈ a.ledger, e.reason = reason ∧ e.ref = some ref := by
  rw [Option.isSome_iff_exists]
  simp only [findEntryByRef_some_iff ha]

/-! ## The dispute's own row -/

theorem BooksOk.setDisputes {a : Account} (ha : BooksOk a) (disputes : List Dispute) :
    BooksOk (a.setDisputes disputes) :=
  ⟨⟨ha.ledger.stamped, ha.ledger.stamped_le, ha.ledger.ids, ha.ledger.ids_lt, ha.ledger.keys,
    ha.ledger.chain⟩, ⟨ha.lots.ids, ha.lots.ids_lt, ha.lots.sound, ha.lots.entries⟩⟩

section SetDisputes

variable {a : Account} {disputes : List Dispute}

@[simp] theorem setDisputes_held : (a.setDisputes disputes).held = a.held := rfl
@[simp] theorem setDisputes_balance : (a.setDisputes disputes).balance = a.balance := rfl
@[simp] theorem setDisputes_ledger : (a.setDisputes disputes).ledger = a.ledger := rfl
@[simp] theorem setDisputes_disputes : (a.setDisputes disputes).disputes = disputes := rfl
@[simp] theorem setDisputes_feePayments :
    (a.setDisputes disputes).feePayments = a.feePayments := rfl
@[simp] theorem setDisputes_refundIntents :
    (a.setDisputes disputes).refundIntents = a.refundIntents := rfl

end SetDisputes

section Money

variable {a a' : Account} {d : DisputeFacts} {ctx : Ctx}

/-! ## A hold -/

/-- The row a hold writes, with the lapsed credit it was met from. -/
structure HoldRow (d : DisputeFacts) (restated : ℤ) (e : Entry) : Prop where
  delta : e.delta = -d.amountInr
  reason : e.reason = .adjustment
  ref : e.ref = some (disputeHoldRef d.disputeId d.ownRound)
  lapse : e.entryMeta.expiryRestatedInr.getD 0 = restated
  held : e.heldAmount = d.amountInr - restated
  held_nonneg : 0 ≤ e.heldAmount

/-- **What placing a hold does.** -/
def Holds (d : DisputeFacts) (a a' : Account) : Prop :=
  ∃ b rows e restated δ, Moves a b (rows ++ [e]) δ ∧ Level a (rows ++ [e]) δ ∧
    (∀ x ∈ rows, x.Plain) ∧ deltaSum rows = restated ∧ HoldRow d restated e ∧
    a' = b.setDisputes (Table.updateKey Dispute.disputeId d.disputeId
      (fun row => { row with holdInr := d.amountInr }) b.disputes)

theorem setHoldInr_ok {disputeId : String} {amount : ℤ} {u : Unit}
    (h : setHoldInr disputeId amount a = .ok (u, a')) :
    a' = a.setDisputes (Table.updateKey Dispute.disputeId disputeId
      (fun row => { row with holdInr := amount }) a.disputes) := by
  unfold setHoldInr at h
  obtain ⟨_, _, hget, h⟩ := Tx.bind_ok.mp h
  cases Tx.get_ok.mp hget
  cases Tx.set_ok.mp h
  rfl

theorem writeHold_ok {paid : Option Entry} {u : Unit} (ha : BooksOk a)
    (h : writeHold d paid a = .ok (u, a')) : Holds d a a' := by
  unfold writeHold at h
  simp only [Tx.bind_ok] at h
  obtain ⟨removal, a₁, hlots, _, a₂, hrow, hset⟩ := h
  have hpos : 0 < d.amountInr := paiseToInr_pos d.paise
  obtain ⟨rows, δ, hm, hplain, hlevel, hsum, hnn, hle⟩ := removal_moves ha hpos hlots hrow
  have habs : |(-d.amountInr)| = d.amountInr := by
    rw [abs_neg, abs_of_pos hpos]
  -- a hold met by no lapsed credit carries no key, which reads back as nothing restated
  have hmeta : (if 0 < removal.expiryRestatedInr then some removal.expiryRestatedInr
      else none).getD 0 = removal.expiryRestatedInr := by
    split_ifs
    · rfl
    · simp only [Option.getD_none]
      omega
  have hheld : |(-d.amountInr)| - (if 0 < removal.expiryRestatedInr then
      some removal.expiryRestatedInr else none).getD 0 = d.amountInr - removal.expiryRestatedInr := by
    rw [habs, hmeta]
  exact ⟨a₂, rows, _, removal.expiryRestatedInr, δ, hm, hlevel, hplain, hsum,
    ⟨rfl, rfl, rfl, hmeta, hheld, hheld.ge.trans' (by omega)⟩, setHoldInr_ok hset⟩

/-- **A hold is placed or it is not**, and when it is not, its own round is held already,
or an earlier one still is, or the payment is a platform fee. -/
theorem hold_ok {placed : Bool} (ha : BooksOk a) (h : hold d a = .ok (placed, a')) :
    (placed = false ∧ a' = a ∧
      (a.roundHeld d.disputeId d.ownRound ∨
        (roundSuffixes d.phase).any (a.roundOpen d.disputeId) ∨
        d.paymentId ∈ a.feePayments)) ∨
    (placed = true ∧ ¬ a.roundHeld d.disputeId d.ownRound ∧
      ¬ (roundSuffixes d.phase).any (a.roundOpen d.disputeId) ∧ Holds d a a') := by
  unfold hold at h
  obtain ⟨_, _, hget, h⟩ := Tx.bind_ok.mp h
  cases Tx.get_ok.mp hget
  rcases Tx.ite_ok.mp h with ⟨hskip, h⟩ | ⟨hgo, h⟩
  · cases Tx.pure_ok.mp h
    exact Or.inl ⟨rfl, rfl, hskip.imp_right Or.inl⟩
  · rcases Tx.ite_ok.mp h with ⟨hfee, h⟩ | ⟨-, h⟩
    · cases Tx.pure_ok.mp h
      exact Or.inl ⟨rfl, rfl, Or.inr (Or.inr hfee.2)⟩
    · obtain ⟨_, _, hwrite, h⟩ := Tx.bind_ok.mp h
      cases Tx.pure_ok.mp h
      rw [not_or] at hgo
      exact Or.inr ⟨rfl, hgo.1, hgo.2, writeHold_ok ha hwrite⟩

/-! ## A release -/

/-- **What releasing a round does.** -/
def Releases (d : DisputeFacts) (suffix : String) (a a' : Account) : Prop :=
  ∃ held e δ, a.findEntryByRef .adjustment (disputeHoldRef d.disputeId suffix) = some held ∧
    Moves a a' [e] δ ∧ (0 ≤ held.heldAmount → Level a [e] δ) ∧ e.delta = held.heldAmount ∧ e.reason = .adjustment ∧
    e.ref = some (disputeReleaseRef d.disputeId suffix) ∧
    e.entryMeta.expiryRestatedInr = none

theorem writeRelease_ok {suffix : String} {u : Unit} (ha : BooksOk a)
    (h : writeRelease ctx d suffix a = .ok (u, a')) : Releases d suffix a a' := by
  unfold writeRelease at h
  simp only [Tx.bind_ok, Tx.get_ok, Tx.ofOption_ok, Tx.pure_ok] at h
  obtain ⟨_, _, h₁, held, _, ⟨_, hfind, h₂⟩, b, a₁, hrow, _, _, h₃, released, _, ⟨_, -, h₄⟩,
    _, _, hlot, h₅⟩ := h
  cases h₁
  cases h₂
  cases h₃
  cases h₄
  cases h₅
  obtain ⟨rows, δ, hm, hlevel, ⟨-, hz, -⟩ | rfl⟩ := credit_moves ha hrow hlot
  · cases hz
  · exact ⟨held, _, δ, hfind, hm, hlevel, rfl, rfl, rfl, rfl⟩

/-- **A release gives back the newest round still taken**, or there is none. -/
theorem release_ok {done : Bool} (ha : BooksOk a) (h : release ctx d a = .ok (done, a')) :
    (done = false ∧ a' = a ∧ (roundSuffixes d.phase).filter (a.roundOpen d.disputeId) = []) ∨
    (done = true ∧ ∃ suffix,
      ((roundSuffixes d.phase).filter (a.roundOpen d.disputeId)).getLast? = some suffix ∧
      Releases d suffix a a') := by
  unfold release at h
  obtain ⟨_, _, hget, h⟩ := Tx.bind_ok.mp h
  cases Tx.get_ok.mp hget
  cases hlast : ((roundSuffixes d.phase).filter (a.roundOpen d.disputeId)).getLast? with
  | none =>
    simp only [hlast] at h
    cases Tx.pure_ok.mp h
    exact Or.inl ⟨rfl, rfl, List.getLast?_eq_none_iff.mp hlast⟩
  | some suffix =>
    simp only [hlast] at h
    obtain ⟨_, _, hwrite, h⟩ := Tx.bind_ok.mp h
    cases Tx.pure_ok.mp h
    exact Or.inr ⟨rfl, suffix, rfl, writeRelease_ok ha hwrite⟩

/-! ## One event -/

/-- The disputes after the row of an event is written. -/
def recordedDisputes (disputes : List Dispute) (d : DisputeFacts) : List Dispute :=
  match Table.findKey Dispute.disputeId d.disputeId disputes with
  | none => disputes ++ [
      { disputeId := d.disputeId, paymentId := d.paymentId, amountInr := d.amountInr,
        status := d.status, phase := d.phase, holdInr := 0 }]
  | some _ => Table.updateKey Dispute.disputeId d.disputeId
      (fun row => { row with status := d.status, phase := d.phase.or row.phase }) disputes

theorem recordDispute_ok {u : Unit} (h : recordDispute (a.findDispute d.disputeId) d a = .ok (u, a')) :
    a' = a.setDisputes (recordedDisputes a.disputes d) := by
  unfold recordDispute at h
  obtain ⟨_, _, hget, h⟩ := Tx.bind_ok.mp h
  cases Tx.get_ok.mp hget
  unfold recordedDisputes
  cases hfind : Table.findKey Dispute.disputeId d.disputeId a.disputes with
  | none =>
    rw [Account.findDispute, hfind] at h
    cases Tx.set_ok.mp h
    rfl
  | some row =>
    rw [Account.findDispute, hfind] at h
    cases Tx.set_ok.mp h
    rfl

/-- The statuses in which the money is taken. -/
def DisputeStatus.takes : DisputeStatus → Bool
  | .open | .underReview | .lost => true
  | .won | .closed => false

/-- **What the money half of an event does**: an event that takes the money holds it or
finds a reason not to, and an outcome for the client releases the newest open round. -/
theorem moveDisputeMoney_ok {o : DisputeOutcome} (h : moveDisputeMoney ctx d a = .ok (o, a')) :
    (d.status.takes = true ∧ ∃ placed, hold d a = .ok (placed, a')) ∨
    (d.status.takes = false ∧ ∃ done, release ctx d a = .ok (done, a')) := by
  unfold moveDisputeMoney at h
  cases hs : d.status <;> simp only [hs] at h <;>
    obtain ⟨r, _, hr, h⟩ := Tx.bind_ok.mp h <;> cases Tx.pure_ok.mp h
  · exact Or.inl ⟨rfl, r, hr⟩
  · exact Or.inl ⟨rfl, r, hr⟩
  · exact Or.inr ⟨rfl, r, hr⟩
  · exact Or.inl ⟨rfl, r, hr⟩
  · exact Or.inr ⟨rfl, r, hr⟩

/-- **What one event does**: nothing when it is stale, else its row and then its money. -/
theorem applyDisputeEvent_ok {o : DisputeOutcome} (h : applyDisputeEvent ctx d a = .ok (o, a')) :
    (staleEvent (a.findDispute d.disputeId) d = true ∧ a' = a) ∨
    (staleEvent (a.findDispute d.disputeId) d = false ∧
      moveDisputeMoney ctx d (a.setDisputes (recordedDisputes a.disputes d)) = .ok (o, a')) := by
  unfold applyDisputeEvent at h
  obtain ⟨_, _, hget, h⟩ := Tx.bind_ok.mp h
  cases Tx.get_ok.mp hget
  rcases Tx.ite_ok.mp h with ⟨hstale, h⟩ | ⟨hfresh, h⟩
  · cases Tx.pure_ok.mp h
    exact Or.inl ⟨hstale, rfl⟩
  · obtain ⟨_, _, hrec, h⟩ := Tx.bind_ok.mp h
    obtain rfl := recordDispute_ok hrec
    exact Or.inr ⟨by simpa using hfresh, h⟩

theorem applyDisputeEvent_books {o : DisputeOutcome} (ha : BooksOk a)
    (h : applyDisputeEvent ctx d a = .ok (o, a')) : BooksOk a' := by
  rcases applyDisputeEvent_ok h with ⟨-, rfl⟩ | ⟨-, hmoney⟩
  · exact ha
  · have hb := ha.setDisputes (recordedDisputes a.disputes d)
    rcases moveDisputeMoney_ok hmoney with ⟨-, placed, hhold⟩ | ⟨-, done, hrel⟩
    · rcases hold_ok hb hhold with ⟨-, rfl, -⟩ | ⟨-, -, -, b, _, _, _, _, hm, -, -, -, -, rfl⟩
      · exact hb
      · exact hm.books.setDisputes _
    · rcases release_ok hb hrel with ⟨-, rfl, -⟩ | ⟨-, suffix, -, _, _, _, -, hm, -⟩
      · exact hb
      · exact hm.books

end Money

end Billing

end Calevate
