import Calevate.Billing.Helpers.Rounds

/-!
# Dispute money follows dispute status

While a dispute is open or lost its money is off the wallet, and once it is won or closed
the money is back. `MoneyFollows` says so of one dispute's row.

It does not hold of every run. The rounds an event looks at stop at its own phase, so an
event of an earlier phase that arrives late does not see a later round's hold: it holds the
money a second time, or records an outcome and releases nothing. And a round is held once,
so a dispute lost after it was won in the same phase takes nothing. `InOrder` is the state
of the rounds in which neither happens, and `disputeMoney_follows_status` is that a run
whose events all find it keeps `MoneyFollows` throughout, whatever other operations run
between them.
-/

namespace Calevate

namespace Billing

open Lib

/-! ## What is claimed, and when it holds -/

/-- **The money of a dispute is where its status says.** A status that takes the money has
one hold on the ledger, of the row's `hold_inr`, and the ledger is down by what that hold
took; or the dispute is over a platform fee, which never reached the wallet. Any other
status has left the ledger level. -/
def MoneyFollows (ops : List Op) (a : Account) (row : Dispute) : Prop :=
  (row.status.takes = true →
    (∃ s e, TakenBy a row.disputeId s row.holdInr e) ∨
    (a.disputeNet row.disputeId = 0 ∧ ∃ ctx d, Op.dispute ctx d ∈ ops ∧
      d.disputeId = row.disputeId ∧ d.paymentId ∈ a.feePayments)) ∧
  (row.status.takes = false → a.disputeNet row.disputeId = 0)

/-- A round of a later phase than the event's is held. -/
def laterOpen (a : Account) (d : DisputeFacts) : Bool :=
  allRounds.any fun s => decide (s ∉ roundSuffixes d.phase) && a.roundOpen d.disputeId s

/-- The event finds the dispute's rounds in order. An outcome for the client finds no later
round held. An event that takes the money finds a later round held only if its own was held
before, and its own round released only if another is held. -/
def roundsInOrder (a : Account) (d : DisputeFacts) : Bool :=
  if d.status.takes then
    (!laterOpen a d || a.roundHeld d.disputeId d.ownRound) &&
    (!a.roundReleased d.disputeId d.ownRound || allRounds.any (a.roundOpen d.disputeId))
  else !laterOpen a d

/-- The disputes of an account. -/
def Account.disputeIds (a : Account) : List String := a.disputes.map Dispute.disputeId

/-- No other dispute's ledger references are this one's. -/
def refsApart (ids : List String) (disputeId : String) : Prop :=
  ∀ i ∈ ids, i ≠ disputeId → ∀ s ∈ allRounds, ∀ t ∈ allRounds, i ++ s ≠ disputeId ++ t

instance (ids : List String) (disputeId : String) : Decidable (refsApart ids disputeId) :=
  inferInstanceAs (Decidable (∀ i ∈ ids, _))

/-- **The condition on one operation**: a dispute event that is applied finds its rounds in
order and its references its own. -/
def InOrder (a : Account) : Op → Prop
  | .dispute _ d => refsApart a.disputeIds d.disputeId ∧
      (staleEvent (a.findDispute d.disputeId) d = false → roundsInOrder a d = true)
  | _ => True

instance (a : Account) (o : Op) : Decidable (InOrder a o) := by
  cases o <;> unfold InOrder <;> infer_instance

/-! ## The invariant -/

/-- Where one dispute stands: taken or idle, by its status. -/
def Stands (ops : List Op) (a : Account) (row : Dispute) : Prop :=
  (row.status.takes = true ∧ ∃ s e, TakenBy a row.disputeId s row.holdInr e) ∨
  (row.status.takes = true ∧ Idle a row.disputeId ∧ ∃ ctx d, Op.dispute ctx d ∈ ops ∧
    d.disputeId = row.disputeId ∧ d.paymentId ∈ a.feePayments) ∨
  (row.status.takes = false ∧ Idle a row.disputeId)

theorem Stands.moneyFollows {ops : List Op} {a : Account} {row : Dispute}
    (h : Stands ops a row) : MoneyFollows ops a row := by
  rcases h with ⟨ht, hs⟩ | ⟨ht, hi, hf⟩ | ⟨ht, hi⟩
  · exact ⟨fun _ => Or.inl hs, by simp [ht]⟩
  · exact ⟨fun _ => Or.inr ⟨hi.net, hf⟩, by simp [ht]⟩
  · exact ⟨by simp [ht], fun _ => hi.net⟩

theorem Stands.same {ops ops' : List Op} {a a' : Account} {row : Dispute} (h : Stands ops a row)
    (hs : SameRounds a a' row.disputeId) (hops : ops ⊆ ops')
    (hfee : a.feePayments ⊆ a'.feePayments) : Stands ops' a' row := by
  rcases h with ⟨ht, s, e, htk⟩ | ⟨ht, hi, ctx, d, hmem, hid, hpay⟩ | ⟨ht, hi⟩
  · exact Or.inl ⟨ht, s, e, htk.same hs⟩
  · exact Or.inr (Or.inl ⟨ht, hi.same hs, ctx, d, hops hmem, hid, hfee hpay⟩)
  · exact Or.inr (Or.inr ⟨ht, hi.same hs⟩)

/-- Each dispute has one row and references of its own, and every row on the ledger is some
dispute's or no dispute's. -/
structure RefsOk (a : Account) : Prop where
  books : BooksOk a
  ids : a.disputeIds.Nodup
  apart : ∀ i ∈ a.disputeIds, refsApart a.disputeIds i
  rows : ∀ e ∈ a.ledger, e.Plain ∨ ∃ i ∈ a.disputeIds, e.OfDispute i

/-- The invariant of a run whose events are in order. -/
structure DisputesOk (ops : List Op) (a : Account) : Prop extends RefsOk a where
  stands : ∀ row ∈ a.disputes, Stands ops a row

theorem disputesOk_empty : DisputesOk [] {} where
  books := booksOk_empty
  ids := List.nodup_nil
  apart := by intro i hi; cases hi
  rows := by intro e he; cases he
  stands := by intro row hrow; cases hrow

/-- Rows of known disputes and of none keep the references in order. -/
theorem RefsOk.append {a a' : Account} {rows : List Entry} (h : RefsOk a) (hb : BooksOk a')
    (hl : a'.ledger = a.ledger ++ rows) (hids : a'.disputeIds = a.disputeIds)
    (hrows : ∀ e ∈ rows, e.Plain ∨ ∃ i ∈ a.disputeIds, e.OfDispute i) : RefsOk a' where
  books := hb
  ids := by rw [hids]; exact h.ids
  apart := by rw [hids]; exact h.apart
  rows := by
    intro e he
    rw [hl] at he
    rw [hids]
    rcases List.mem_append.mp he with he | he
    · exact h.rows e he
    · exact hrows e he

/-- A row of one dispute is none of another's. -/
theorem refsApart.not_ofDispute {ids : List String} {i j : String} {e : Entry}
    (h : refsApart ids j) (hi : i ∈ ids) (hne : i ≠ j) (he : e.OfDispute i) : ¬ e.OfDispute j := by
  rintro ⟨-, t, ht, href'⟩
  obtain ⟨-, s, hs, href⟩ := he
  have happ := h i hi hne s hs t ht
  rcases href with href | href <;> rcases href' with href' | href' <;>
    rw [href, Option.some.injEq] at href'
  · exact happ (disputeHoldRef_inj.mp href')
  · exact disputeHoldRef_ne_releaseRef _ _ _ _ href'
  · exact disputeHoldRef_ne_releaseRef _ _ _ _ href'.symm
  · exact happ (disputeReleaseRef_inj.mp href')

/-! ## One event -/

section Event

variable {ops : List Op} {a a' : Account} {d : DisputeFacts} {ctx : Ctx}

/-- The account once the event's own row is written. -/
def Account.recordedFor (a : Account) (d : DisputeFacts) : Account :=
  a.setDisputes (recordedDisputes a.disputes d)

theorem disputeIds_recordedFor :
    (d.disputeId ∉ a.disputeIds ∧ (a.recordedFor d).disputeIds = a.disputeIds ++ [d.disputeId]) ∨
    (d.disputeId ∈ a.disputeIds ∧ (a.recordedFor d).disputeIds = a.disputeIds) := by
  unfold Account.disputeIds Account.recordedFor recordedDisputes
  cases hfind : Table.findKey Dispute.disputeId d.disputeId a.disputes with
  | none =>
    refine Or.inl ⟨?_, by simp⟩
    intro hmem
    obtain ⟨row, hrow, hid⟩ := List.mem_map.mp hmem
    exact Table.findKey_eq_none.mp hfind row hrow hid
  | some old =>
    obtain ⟨hold, hid⟩ := Table.findKey_some hfind
    refine Or.inr ⟨hid ▸ List.mem_map_of_mem hold, ?_⟩
    exact Table.map_updateKey fun _ _ _ => rfl

/-- A dispute with no row yet has no money on the ledger. -/
theorem RefsOk.idle_of_new (h : RefsOk a) (happ : refsApart a.disputeIds d.disputeId)
    (hnew : d.disputeId ∉ a.disputeIds) : Idle a d.disputeId := by
  have hnone : ∀ e ∈ a.ledger, ¬ e.OfDispute d.disputeId := by
    intro e he hOf
    rcases h.rows e he with hp | ⟨i, hi, hOf'⟩
    · exact hp.not_ofDispute _ hOf
    · -- the row would carry the references of two disputes
      have hne : i ≠ d.disputeId := fun heq => hnew (heq ▸ hi)
      exact happ.not_ofDispute hi hne hOf' hOf
  have hs : SameRounds ({} : Account) a d.disputeId := sameRounds_of_append (by simp) hnone
  exact Idle.same ⟨fun _ _ => rfl, rfl⟩ hs

theorem RefsOk.recordedFor (h : RefsOk a) (happ : refsApart a.disputeIds d.disputeId) :
    RefsOk (a.recordedFor d) ∧ d.disputeId ∈ (a.recordedFor d).disputeIds := by
  have hb : BooksOk (a.recordedFor d) := h.books.setDisputes _
  rcases disputeIds_recordedFor (a := a) (d := d) with ⟨hnew, hids⟩ | ⟨hmem, hids⟩
  · refine ⟨⟨hb, ?_, ?_, ?_⟩, by rw [hids]; simp⟩
    · rw [hids, List.nodup_append]
      refine ⟨h.ids, List.nodup_singleton _, ?_⟩
      intro x hx y hy hxy
      obtain rfl := List.mem_singleton.mp hy
      exact hnew (hxy ▸ hx)
    · rw [hids]
      intro i hi j hj hne s hs t ht
      rcases List.mem_append.mp hi with hi | hi <;> rcases List.mem_append.mp hj with hj | hj
      · exact h.apart i hi j hj hne s hs t ht
      · obtain rfl := List.mem_singleton.mp hj
        exact (happ i hi (Ne.symm hne) t ht s hs).symm
      · obtain rfl := List.mem_singleton.mp hi
        exact happ j hj hne s hs t ht
      · obtain rfl := List.mem_singleton.mp hi
        exact absurd (List.mem_singleton.mp hj) hne
    · intro e he
      rw [hids]
      refine (h.rows e he).imp_right ?_
      rintro ⟨i, hi, hOf⟩
      exact ⟨i, List.mem_append_left _ hi, hOf⟩
  · refine ⟨⟨hb, by rw [hids]; exact h.ids, by rw [hids]; exact h.apart, ?_⟩, by rwa [hids]⟩
    rw [hids]
    exact h.rows

/-- Where the event's dispute stands before its money moves: wherever the last event left
it, under the status this one brings. -/
theorem DisputesOk.before (h : DisputesOk ops a) (happ : refsApart a.disputeIds d.disputeId)
    {row : Dispute} (hrow : row ∈ (a.recordedFor d).disputes) (hid : row.disputeId = d.disputeId) :
    row.status = d.status ∧
      ((∃ s e, TakenBy a d.disputeId s row.holdInr e) ∨ Idle a d.disputeId) := by
  unfold Account.recordedFor recordedDisputes at hrow
  rw [setDisputes_disputes] at hrow
  cases hfind : Table.findKey Dispute.disputeId d.disputeId a.disputes with
  | none =>
    rw [hfind] at hrow
    have hnew := Table.findKey_eq_none.mp hfind
    rcases List.mem_append.mp hrow with hrow | hrow
    · exact absurd hid (hnew row hrow)
    · obtain rfl := List.mem_singleton.mp hrow
      refine ⟨rfl, Or.inr (h.idle_of_new happ ?_)⟩
      intro hmem
      obtain ⟨x, hx, hxid⟩ := List.mem_map.mp hmem
      exact hnew x hx hxid
  | some old =>
    rw [hfind] at hrow
    rcases Table.mem_updateKey.mp hrow with ⟨-, hne⟩ | ⟨x, hx, hxid, rfl⟩
    · exact absurd hid hne
    · refine ⟨rfl, ?_⟩
      have hstands := h.stands x hx
      unfold Stands at hstands
      rw [hxid] at hstands
      rcases hstands with ⟨-, htk⟩ | ⟨-, hi, -⟩ | ⟨-, hi⟩
      · exact Or.inl htk
      · exact Or.inr hi
      · exact Or.inr hi

/-- A row of another dispute is the one that was there. -/
theorem mem_of_recordedFor {row : Dispute} (hrow : row ∈ (a.recordedFor d).disputes)
    (hne : row.disputeId ≠ d.disputeId) : row ∈ a.disputes := by
  unfold Account.recordedFor recordedDisputes at hrow
  rw [setDisputes_disputes] at hrow
  cases hfind : Table.findKey Dispute.disputeId d.disputeId a.disputes with
  | none =>
    rw [hfind] at hrow
    rcases List.mem_append.mp hrow with hrow | hrow
    · exact hrow
    · obtain rfl := List.mem_singleton.mp hrow
      exact absurd rfl hne
  | some old =>
    rw [hfind] at hrow
    rcases Table.mem_updateKey.mp hrow with ⟨hmem, -⟩ | ⟨x, hx, hxid, rfl⟩
    · exact hmem
    · exact absurd hxid hne

/-! ## Its money -/

/-- A later round that is held is seen by `laterOpen`. -/
theorem laterOpen_of_taken {s : String} {amount : ℤ} {e : Entry}
    (h : TakenBy a d.disputeId s amount e) (hs : s ∉ roundSuffixes d.phase) :
    laterOpen a d = true := by
  unfold laterOpen
  rw [List.any_eq_true]
  exact ⟨s, h.round, by simp [hs, h.isOpen]⟩

/-- An idle dispute has no round open. -/
theorem Idle.not_any (h : Idle a d.disputeId) {l : List String} (hl : ∀ s ∈ l, s ∈ allRounds) :
    l.any (a.roundOpen d.disputeId) = false := by
  rw [List.any_eq_false]
  intro s hs
  rw [h.closed s (hl s hs)]
  decide

/-- In order, an idle dispute's own round was not released under an event that takes it. -/
theorem Idle.own_not_released (h : Idle a d.disputeId) (ht : d.status.takes = true)
    (ho : roundsInOrder a d = true) : a.roundReleased d.disputeId d.ownRound = false := by
  unfold roundsInOrder at ho
  rw [if_pos ht, h.not_any (fun _ hs => hs)] at ho
  simpa using (Bool.and_eq_true_iff.mp ho).2

/-- **A hold is not placed on an idle dispute only for a platform fee.** -/
theorem fee_of_not_placed (ht : d.status.takes = true) (ho : roundsInOrder a d = true)
    (hwhy : a.roundHeld d.disputeId d.ownRound ∨
      (roundSuffixes d.phase).any (a.roundOpen d.disputeId) ∨ d.paymentId ∈ a.feePayments)
    (hi : Idle a d.disputeId) : d.paymentId ∈ a.feePayments := by
  have hnot := hi.own_not_released ht ho
  rcases hwhy with hheld | hany | hfee
  · have := hi.closed _ (ownRound_mem_allRounds d)
    rw [roundOpen_of_held hheld hnot] at this
    cases this
  · rw [hi.not_any (roundSuffixes_subset _)] at hany
    cases hany
  · exact hfee

/-- **A hold is not placed on a dispute that is taken.** -/
theorem not_taken_of_placed {s : String} {amount : ℤ} {e : Entry} (ht : d.status.takes = true)
    (ho : roundsInOrder a d = true) (hown : ¬ a.roundHeld d.disputeId d.ownRound)
    (hany : ¬ (roundSuffixes d.phase).any (a.roundOpen d.disputeId))
    (htk : TakenBy a d.disputeId s amount e) : False := by
  by_cases hs : s ∈ roundSuffixes d.phase
  · exact hany (List.any_eq_true.mpr ⟨s, hs, htk.isOpen⟩)
  · unfold roundsInOrder at ho
    rw [if_pos ht, laterOpen_of_taken htk hs] at ho
    simp only [Bool.not_true, Bool.false_or, Bool.and_eq_true] at ho
    exact hown ho.1

/-- **A release finds the round that is held.** -/
theorem TakenBy.mem_of_inOrder {s : String} {amount : ℤ} {e : Entry} (ht : d.status.takes = false)
    (ho : roundsInOrder a d = true) (htk : TakenBy a d.disputeId s amount e) :
    s ∈ (roundSuffixes d.phase).filter (a.roundOpen d.disputeId) := by
  refine List.mem_filter.mpr ⟨?_, htk.isOpen⟩
  by_contra hs
  unfold roundsInOrder at ho
  rw [if_neg (by simp [ht]), laterOpen_of_taken htk hs] at ho
  cases ho

/-- The rows of the other disputes stand where they stood. -/
theorem DisputesOk.others (h : DisputesOk ops a) {o : Op} {row : Dispute} {rows : List Entry}
    (happ : refsApart a.disputeIds d.disputeId)
    (hrow : row ∈ (a.recordedFor d).disputes) (hne : row.disputeId ≠ d.disputeId)
    (hl : a'.ledger = a.ledger ++ rows) (hfee : a.feePayments ⊆ a'.feePayments)
    (hrows : ∀ e ∈ rows, e.Plain ∨ e.OfDispute d.disputeId) : Stands (ops ++ [o]) a' row := by
  have hold := mem_of_recordedFor hrow hne
  have hrefs := h.toRefsOk.recordedFor happ
  have hmem : row.disputeId ∈ (a.recordedFor d).disputeIds := List.mem_map_of_mem hrow
  have hs : SameRounds a a' row.disputeId := by
    refine sameRounds_of_append hl ?_
    intro e he
    rcases hrows e he with hp | hd
    · exact hp.not_ofDispute _
    · exact (hrefs.1.apart _ hmem).not_ofDispute hrefs.2 (Ne.symm hne) hd
  exact (h.stands row hold).same hs (List.subset_append_left _ _) hfee

/-- An event that takes the money. -/
theorem DisputesOk.hold_step (h : DisputesOk ops a) (happ : refsApart a.disputeIds d.disputeId)
    (ht : d.status.takes = true) (ho : roundsInOrder a d = true) {placed : Bool}
    (hhold : hold d (a.recordedFor d) = .ok (placed, a')) :
    DisputesOk (ops ++ [.dispute ctx d]) a' := by
  have hrefs := h.toRefsOk.recordedFor happ
  have hsame : SameRounds a (a.recordedFor d) d.disputeId := sameRounds_setDisputes _
  have hlast : Op.dispute ctx d ∈ ops ++ [.dispute ctx d] := by simp
  rcases hold_ok hrefs.1.books hhold with ⟨-, rfl, hwhy⟩ | ⟨-, hown, hany, hh⟩
  · refine ⟨hrefs.1, ?_⟩
    intro row hrow
    by_cases hid : row.disputeId = d.disputeId
    · obtain ⟨hst, ⟨s, e, htk⟩ | hi⟩ := h.before happ hrow hid
      · exact Or.inl ⟨by rw [hst, ht], s, e, by rw [hid]; exact htk.same hsame⟩
      · refine Or.inr (Or.inl ⟨by rw [hst, ht], by rw [hid]; exact hi.same hsame, ctx, d, hlast,
          hid.symm, ?_⟩)
        exact fee_of_not_placed ht ho hwhy (hi.same hsame)
    · exact h.others happ hrow hid (List.append_nil _).symm (fun _ hx => hx) (by simp)
  · have hidle : Idle a d.disputeId := by
      obtain ⟨row, hrow, hid⟩ := List.mem_map.mp hrefs.2
      rcases (h.before happ hrow hid).2 with ⟨s, e, htk⟩ | hi
      · exact (not_taken_of_placed ht ho hown hany htk).elim
      · exact hi
    have hrel := hidle.own_not_released ht ho
    obtain ⟨e, htk⟩ := (hidle.same hsame).holds hrel hh
    obtain ⟨b, rows, r, restated, δ, hm, -, hplain, -, hrow, rfl⟩ := hh
    have hOf : r.OfDispute d.disputeId :=
      ⟨hrow.reason, _, ownRound_mem_allRounds d, Or.inl hrow.ref⟩
    have hrows : ∀ x ∈ rows ++ [r], x.Plain ∨ x.OfDispute d.disputeId := by
      intro x hx
      rcases List.mem_append.mp hx with hx | hx
      · exact Or.inl (hplain x hx)
      · obtain rfl := List.mem_singleton.mp hx
        exact Or.inr hOf
    have hdis : b.disputes = (a.recordedFor d).disputes := hm.disputes
    refine ⟨?_, ?_⟩
    · refine hrefs.1.append (hm.books.setDisputes _) hm.ledger ?_
        fun x hx => (hrows x hx).imp_right fun hx => ⟨_, hrefs.2, hx⟩
      unfold Account.disputeIds
      rw [setDisputes_disputes, ← hdis]
      exact Table.map_updateKey fun _ _ _ => rfl
    · intro row hmem
      rw [setDisputes_disputes, hdis] at hmem
      rcases Table.mem_updateKey.mp hmem with ⟨hold, hne⟩ | ⟨x, hx, hxid, rfl⟩
      · exact h.others happ hold hne hm.ledger hm.fees_subset hrows
      · have hst := (h.before happ hx hxid).1
        refine Or.inl ⟨by rw [← ht, ← hst], d.ownRound, e, ?_⟩
        show TakenBy _ x.disputeId d.ownRound d.amountInr e
        rwa [hxid]

/-- An event that gives it back. -/
theorem DisputesOk.release_step (h : DisputesOk ops a) (happ : refsApart a.disputeIds d.disputeId)
    (ht : d.status.takes = false) (ho : roundsInOrder a d = true) {done : Bool} {o : Op}
    (hrel : release ctx d (a.recordedFor d) = .ok (done, a')) : DisputesOk (ops ++ [o]) a' := by
  have hrefs := h.toRefsOk.recordedFor happ
  have hsame : SameRounds a (a.recordedFor d) d.disputeId := sameRounds_setDisputes _
  rcases release_ok hrefs.1.books hrel with ⟨-, rfl, hnone⟩ | ⟨-, s, hlast, hr⟩
  · refine ⟨hrefs.1, ?_⟩
    intro row hrow
    by_cases hid : row.disputeId = d.disputeId
    · obtain ⟨hst, ⟨s, e, htk⟩ | hi⟩ := h.before happ hrow hid
      · have := htk.mem_of_inOrder ht ho
        rw [show (roundSuffixes d.phase).filter (a.roundOpen d.disputeId) = [] from hnone] at this
        cases this
      · exact Or.inr (Or.inr ⟨by rw [hst, ht], by rw [hid]; exact hi.same hsame⟩)
    · exact h.others happ hrow hid (List.append_nil _).symm (fun _ hx => hx) (by simp)
  · have hopen := List.mem_filter.mp (List.mem_of_getLast? hlast)
    have hs := roundSuffixes_subset _ _ hopen.1
    have hidle : Idle a' d.disputeId := by
      obtain ⟨row, hrow, hid⟩ := List.mem_map.mp hrefs.2
      rcases (h.before happ hrow hid).2 with ⟨t, e, htk⟩ | hi
      · obtain rfl := htk.only s hs hopen.2
        exact (htk.same hsame).releases hr
      · have := hi.closed s hs
        rw [show a.roundOpen d.disputeId s = true from hopen.2] at this
        cases this
    obtain ⟨held, r, δ, -, hm, -, -, hreason, href, -⟩ := hr
    have hrows : ∀ x ∈ [r], x.Plain ∨ x.OfDispute d.disputeId := by
      intro x hx
      obtain rfl := List.mem_singleton.mp hx
      exact Or.inr ⟨hreason, s, hs, Or.inr href⟩
    refine ⟨?_, ?_⟩
    · refine hrefs.1.append hm.books hm.ledger ?_
        fun x hx => (hrows x hx).imp_right fun hx => ⟨_, hrefs.2, hx⟩
      unfold Account.disputeIds
      rw [hm.disputes]
    · intro row hmem
      rw [hm.disputes] at hmem
      by_cases hid : row.disputeId = d.disputeId
      · have hst := (h.before happ hmem hid).1
        exact Or.inr (Or.inr ⟨by rw [hst, ht], by rw [hid]; exact hidle⟩)
      · exact h.others happ hmem hid hm.ledger hm.fees_subset hrows

/-- **One event in order keeps the invariant.** -/
theorem DisputesOk.event_step (h : DisputesOk ops a) (ho : InOrder a (.dispute ctx d))
    {outcome : DisputeOutcome} (hev : applyDisputeEvent ctx d a = .ok (outcome, a')) :
    DisputesOk (ops ++ [.dispute ctx d]) a' := by
  rcases applyDisputeEvent_ok hev with ⟨-, rfl⟩ | ⟨hfresh, hmoney⟩
  · refine ⟨h.toRefsOk, ?_⟩
    intro row hrow
    exact (h.stands row hrow).same ⟨fun _ _ => rfl, fun _ _ => rfl, rfl⟩
      (List.subset_append_left _ _) (fun _ hx => hx)
  · have horder := ho.2 hfresh
    rcases moveDisputeMoney_ok hmoney with ⟨ht, placed, hhold⟩ | ⟨ht, done, hrel⟩
    · exact h.hold_step ho.1 ht horder hhold
    · exact h.release_step ho.1 ht horder hrel

end Event

/-! ## Whole runs -/

/-- Rows that are no dispute's keep the invariant. -/
theorem DisputesOk.plain {ops ops' : List Op} {a a' : Account} {rows : List Entry}
    (h : DisputesOk ops a) (hb : BooksOk a') (hl : a'.ledger = a.ledger ++ rows)
    (hd : a'.disputes = a.disputes) (hplain : ∀ e ∈ rows, e.Plain) (hops : ops ⊆ ops')
    (hfee : a.feePayments ⊆ a'.feePayments) : DisputesOk ops' a' := by
  refine ⟨h.toRefsOk.append hb hl ?_ fun e he => Or.inl (hplain e he), ?_⟩
  · unfold Account.disputeIds
    rw [hd]
  · intro row hrow
    rw [hd] at hrow
    exact (h.stands row hrow).same
      (sameRounds_of_append hl fun e he => (hplain e he).not_ofDispute _) hops hfee

/-- **One operation in order keeps the invariant.** -/
theorem DisputesOk.step {ops : List Op} {a : Account} {o : Op} (h : DisputesOk ops a)
    (ho : InOrder a o) : DisputesOk (ops ++ [o]) (o.step a) := by
  have hsub : ops ⊆ ops ++ [o] := List.subset_append_left _ _
  unfold Op.step
  cases htx : o.tx a with
  | error e =>
    rw [Tx.commit_of_error htx]
    exact h.plain h.books (List.append_nil _).symm rfl (by simp) hsub (fun _ hx => hx)
  | ok r =>
    rw [Tx.commit_of_ok htx]
    rcases Op.settles h.books htx with ⟨rows, d, hm, hplain, -⟩ | ⟨ctx, d, outcome, rfl, hd⟩ |
      ⟨hb, hl, -, hd, -, hfee⟩
    · exact h.plain hm.books hm.ledger hm.disputes hplain hsub hm.fees_subset
    · exact h.event_step ho hd
    · exact h.plain hb (by rw [hl, List.append_nil]) hd (by simp) hsub hfee

/-- A dispute's net effect is its own: an event moves the balance by what it moves it. -/
theorem applyDisputeEvent_net {a a' : Account} {ctx : Ctx} {d : DisputeFacts}
    {outcome : DisputeOutcome} (ha : BooksOk a)
    (h : applyDisputeEvent ctx d a = .ok (outcome, a')) :
    a'.balance - a.balance = a'.disputeNet d.disputeId - a.disputeNet d.disputeId := by
  rcases applyDisputeEvent_ok h with ⟨-, rfl⟩ | ⟨-, hmoney⟩
  · omega
  · have hb : BooksOk (a.recordedFor d) := ha.setDisputes _
    have hbal : (a.recordedFor d).balance = a.balance := rfl
    have hnet : (a.recordedFor d).disputeNet d.disputeId = a.disputeNet d.disputeId := rfl
    rcases moveDisputeMoney_ok hmoney with ⟨-, placed, hhold⟩ | ⟨-, done, hrel⟩
    · rcases hold_ok hb hhold with ⟨-, rfl, -⟩ | ⟨-, -, -, hh⟩
      · show (a.recordedFor d).balance - _ = (a.recordedFor d).disputeNet _ - _
        omega
      · obtain ⟨b, rows, e, restated, δ, hm, -, hplain, hsum, hrow, rfl⟩ := hh
        have hOf : e.OfDispute d.disputeId :=
          ⟨hrow.reason, _, ownRound_mem_allRounds d, Or.inl hrow.ref⟩
        have hplainNet : rows.filter (fun x => x.OfDispute d.disputeId) = [] := by
          rw [List.filter_eq_nil_iff]
          intro x hx
          simpa using (hplain x hx).not_ofDispute d.disputeId
        show b.balance - _ = b.disputeNet _ - _
        rw [hm.balance hb, disputeNet_append hm.ledger, List.filter_append, hplainNet,
          List.filter_singleton, decide_eq_true hOf, deltaSum_append, hsum, hbal, hnet]
        simp [Entry.netDelta, hrow.lapse]
        omega
    · rcases release_ok hb hrel with ⟨-, rfl, -⟩ | ⟨-, s, hlast, hr⟩
      · show (a.recordedFor d).balance - _ = (a.recordedFor d).disputeNet _ - _
        omega
      · obtain ⟨held, r, δ, -, hm, -, -, hreason, href, hnone⟩ := hr
        have hs := roundSuffixes_subset _ _ (List.mem_filter.mp (List.mem_of_getLast? hlast)).1
        have hOf : r.OfDispute d.disputeId := ⟨hreason, s, hs, Or.inr href⟩
        rw [hm.balance hb, disputeNet_append hm.ledger, List.filter_singleton,
          decide_eq_true hOf, hbal, hnet]
        simp [Entry.netDelta, hnone]

/-- **Dispute money follows dispute status** in every run whose dispute events are in order,
with any other operations between them. The net is the dispute's own: an event moves the
wallet's balance by what it moves the net. And in every run at all no round is held twice or
released twice. -/
theorem disputeMoney_follows_status (ops : List Op) :
    (Run.Guarded Op.step InOrder {} ops →
      ∀ row ∈ (runOps ops {}).disputes, MoneyFollows ops (runOps ops {}) row) ∧
    (∀ ctx d outcome a', applyDisputeEvent ctx d (runOps ops {}) = .ok (outcome, a') →
      a'.balance - (runOps ops {}).balance =
        a'.disputeNet d.disputeId - (runOps ops {}).disputeNet d.disputeId) ∧
    (∀ disputeId suffix,
      ((runOps ops {}).ledger.filter fun e => e.reason = .adjustment ∧
        e.ref = some (disputeHoldRef disputeId suffix)).length ≤ 1 ∧
      ((runOps ops {}).ledger.filter fun e => e.reason = .adjustment ∧
        e.ref = some (disputeReleaseRef disputeId suffix)).length ≤ 1) := by
  refine ⟨?_, ?_, ?_⟩
  · intro hg row hrow
    have h : DisputesOk ops (runOps ops {}) :=
      Run.Guarded.inv_seen (fun _ _ _ h ho => h.step ho) disputesOk_empty hg
    exact (h.stands row hrow).moneyFollows
  · intro ctx d outcome a' h
    exact applyDisputeEvent_net (walletOk_empty.run ops).books h
  · intro disputeId suffix
    have hl := (walletOk_empty.run ops).books.ledger
    exact ⟨hl.key_once _ _, hl.key_once _ _⟩

/-- A dispute that is won, challenged again and lost. -/
def challengedAgain : List Op :=
  [.dispute onePackCtx ⟨"disp_1", "pay_1", 50000, .open, some "chargeback"⟩,
   .dispute onePackCtx ⟨"disp_1", "pay_1", 50000, .won, some "chargeback"⟩,
   .dispute onePackCtx ⟨"disp_1", "pay_1", 50000, .underReview, some "pre_arbitration"⟩,
   .dispute onePackCtx ⟨"disp_1", "pay_1", 50000, .lost, some "pre_arbitration"⟩]

theorem challengedAgain_follows :
    Run.Guarded Op.step InOrder {} challengedAgain ∧
    ∀ row ∈ (runOps challengedAgain {}).disputes,
      MoneyFollows challengedAgain (runOps challengedAgain {}) row :=
  ⟨by decide +kernel, (disputeMoney_follows_status _).1 (by decide +kernel)⟩

/-- A dispute whose second challenge is delivered before its first. -/
def deliveredLate : List Op :=
  [.dispute onePackCtx ⟨"disp_1", "pay_1", 50000, .open, some "pre_arbitration"⟩,
   .dispute onePackCtx ⟨"disp_1", "pay_1", 50000, .open, some "chargeback"⟩]

/-- **A late event of an earlier phase takes the money twice.** -/
theorem deliveredLate_holds_twice :
    ¬ ∀ ops, ∀ row ∈ (runOps ops {}).disputes, MoneyFollows ops (runOps ops {}) row := by
  intro h
  have hrow : (⟨"disp_1", "pay_1", 5000000, .open, some "chargeback", 5000000⟩ : Dispute) ∈
      (runOps deliveredLate {}).disputes := by decide +kernel
  have htwice : (runOps deliveredLate {}).roundOpen "disp_1" "" = true ∧
      (runOps deliveredLate {}).roundOpen "disp_1" ":pre_arbitration" = true ∧
      (runOps deliveredLate {}).disputeNet "disp_1" = -10000000 := by decide +kernel
  obtain ⟨hfirst, hsecond, hnet⟩ := htwice
  rcases (h _ _ hrow).1 rfl with ⟨s, e, htk⟩ | ⟨hzero, -⟩
  · have hs := htk.only "" (by simp [allRounds, roundSuffixes]) hfirst
    have ht := htk.only ":pre_arbitration" (by simp [allRounds, roundSuffixes, phaseSuffixes]) hsecond
    rw [← hs] at ht
    exact absurd ht (by decide)
  · rw [hnet] at hzero
    cases hzero

end Billing

end Calevate
