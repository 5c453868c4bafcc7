import Calevate.Billing.Helpers.Figures

/-!
# What left the wallet, and what landed

The wallet screen, the daily series and the credit-usage page read one window of the ledger
through the same select list: five outgoing buckets and the credit added, and the wallet
screen a seventh column beside them, the money refunded. The filters know the reason, the sign
and `meta.kind` of a row and nothing of the writers; that they take the window apart without a
gap or an overlap is a fact about what the writers write (`Entry.Wrote`).
-/

namespace Calevate

namespace Billing

open Lib

/-! ## The columns -/

/-- The columns of `read_runway`'s query, the first five those of `DRAWDOWN_BUCKETS_SQL`. -/
inductive Column
  | calls | aiAssist | adjustments | rental | expired | added | refunded
  deriving DecidableEq, Repr

namespace Column

/-- Every column, in the order of the select list. -/
def all : List Column := [.calls, .aiAssist, .adjustments, .rental, .expired, .added, .refunded]

/-- `DRAWDOWN_BUCKETS_SQL`. -/
def buckets : List Column := [.calls, .aiAssist, .adjustments, .rental, .expired]

/-- The `FILTER (WHERE …)` of the column. -/
def counts (e : Entry) : Column → Bool
  | .calls => decide (e.delta < 0 ∧ e.reason = .usage ∧
      e.entryMeta.kind ≠ some .aiAssistOverage ∧ e.entryMeta.kind ≠ some .numberRental)
  | .aiAssist => decide (e.delta < 0 ∧ e.reason = .usage ∧
      e.entryMeta.kind = some .aiAssistOverage)
  | .adjustments => decide (e.delta < 0 ∧ e.reason = .adjustment ∧
      e.entryMeta.kind ≠ some .creditExpiry)
  | .rental => decide (e.delta < 0 ∧ e.reason = .usage ∧ e.entryMeta.kind = some .numberRental)
  | .expired => decide (e.delta < 0 ∧ e.reason = .adjustment ∧
      e.entryMeta.kind = some .creditExpiry)
  | .added => decide (0 < e.delta ∧
      e.reason ∈ [CreditReason.topup, .bonus, .adjustment, .grant])
  | .refunded => decide (e.delta < 0 ∧ e.reason = .refund)

/-- What the column sums of a row: the delta of what landed, and minus the delta of the rest. -/
def figure (e : Entry) : Column → ℤ
  | .added => e.delta
  | _ => -e.delta

/-- `COALESCE(SUM(…) FILTER (WHERE …), 0)`. -/
def sum (rows : List Entry) (c : Column) : ℤ := ((rows.filter c.counts).map c.figure).sum

end Column

/-- The rows of a window, `start` and `stop` open where they are absent. -/
def Account.window (a : Account) (start stop : Option ℕ) : List Entry :=
  a.ledger.filter fun e => (∀ t, start = some t → t ≤ e.occurredAt) ∧
    ∀ t, stop = some t → e.occurredAt < t

/-- The part of a bonus that a refund took back. -/
def Entry.isClawback (e : Entry) : Bool := decide (e.delta < 0 ∧ e.reason = .bonus)

/-! ## One row -/

/-- What the writers write: credit lands under four reasons and leaves under four. -/
theorem Entry.Wrote.signed {e : Entry} (h : e.Wrote) :
    (0 < e.delta → e.reason ∈ [CreditReason.topup, .bonus, .adjustment, .grant]) ∧
      (e.delta < 0 → e.reason ∈ [CreditReason.usage, .adjustment, .refund, .bonus]) := by
  cases h with
  | inflow w amount sign paid row =>
    rw [row.1, row.2.1]
    exact ⟨fun _ => by cases w <;> simp [Inflow.reason], fun hneg => by omega⟩
  | outflow w amount pos removal within row =>
    rw [row.1, row.2.1]
    exact ⟨fun hpos => by omega, fun _ => by cases w <;> simp [Outflow.reason]⟩
  | usage ref splits kind pos row =>
    rw [row.1, row.2.1]
    exact ⟨fun hpos => by omega, fun _ => by simp⟩
  | expiry lotId amount pos row =>
    rw [row.1, row.2.1]
    exact ⟨fun hpos => by omega, fun _ => by simp⟩
  | restatedLapse lotId amount pos row =>
    obtain ⟨fresh, -, hrow⟩ := row
    rw [hrow.1, hrow.2.1]
    exact ⟨fun _ => by simp, fun hneg => by omega⟩
  | marker lotId packId marks delta ref unrestated =>
    rw [delta]
    exact ⟨fun hpos => by omega, fun hneg => by omega⟩

section OneRow

variable {e : Entry}

/-- A row that landed is counted as credit added and nowhere else. -/
theorem Entry.Wrote.columns_of_pos (h : e.Wrote) (hpos : 0 < e.delta) :
    Column.all.filter (Column.counts e) = [.added] := by
  have hneg : ¬ e.delta < 0 := by omega
  have hreason := h.signed.1 hpos
  simp only [Column.all, Column.counts, List.filter_cons, List.filter_nil, hneg, hpos, hreason,
    false_and, true_and, decide_false, decide_true, Bool.false_eq_true, if_false, if_true]

/-- The one column of a row that left. -/
def Entry.column (e : Entry) : Column :=
  match e.reason with
  | .adjustment => if e.entryMeta.kind = some .creditExpiry then .expired else .adjustments
  | .refund => .refunded
  | _ =>
    if e.entryMeta.kind = some .aiAssistOverage then .aiAssist
    else if e.entryMeta.kind = some .numberRental then .rental
    else .calls

/-- **A row that left is counted once**, a clawed-back bonus apart. -/
theorem Entry.Wrote.columns_of_neg (h : e.Wrote) (hneg : e.delta < 0)
    (hkept : e.isClawback = false) : Column.all.filter (Column.counts e) = [e.column] := by
  have hpos : ¬ 0 < e.delta := by omega
  have hreason := h.signed.2 hneg
  have hbonus : e.reason ≠ .bonus := by
    simpa [Entry.isClawback, hneg] using hkept
  simp only [List.mem_cons, List.not_mem_nil, or_false, hbonus] at hreason
  rcases hreason with hr | hr | hr
  · by_cases hai : e.entryMeta.kind = some .aiAssistOverage
    · simp [Column.all, Column.counts, Entry.column, hneg, hpos, hr, hai]
    · by_cases hrent : e.entryMeta.kind = some .numberRental
      · simp [Column.all, Column.counts, Entry.column, hneg, hpos, hr, hrent]
      · simp [Column.all, Column.counts, Entry.column, hneg, hpos, hr, hai, hrent]
  · by_cases hexp : e.entryMeta.kind = some .creditExpiry
    · simp [Column.all, Column.counts, Entry.column, hneg, hpos, hr, hexp]
    · simp [Column.all, Column.counts, Entry.column, hneg, hpos, hr, hexp]
  · simp [Column.all, Column.counts, Entry.column, hneg, hpos, hr]

/-- What one row puts into a column. -/
def Column.share (e : Entry) (c : Column) : ℤ := if c.counts e then c.figure e else 0

theorem Column.share_of_filter {c : Column} (h : Column.all.filter (Column.counts e) = [c])
    (d : Column) : d.share e = if d = c then d.figure e else 0 := by
  have hmem : d ∈ Column.all := by cases d <;> simp [Column.all]
  have hiff : d.counts e = true ↔ d = c := by
    have hfilter : d ∈ Column.all.filter (Column.counts e) ↔ d = c := by
      rw [h, List.mem_singleton]
    rwa [List.mem_filter, and_iff_right hmem] at hfilter
  unfold Column.share
  by_cases hd : d = c
  · rw [if_pos hd, if_pos (hiff.mpr hd)]
  · rw [if_neg hd, if_neg fun ht => hd (hiff.mp ht)]

/-- **The columns take a row apart**: what it puts into them is its delta. -/
theorem Entry.Wrote.shares (h : e.Wrote) :
    Column.share e .added - (Column.buckets.map (Column.share e)).sum - Column.share e .refunded =
      if e.isClawback then 0 else e.delta := by
  have hnone : (∀ c, Column.counts e c = false) → Column.share e .added -
      (Column.buckets.map (Column.share e)).sum - Column.share e .refunded = 0 := by
    intro hc
    simp [Column.buckets, Column.share, hc]
  rcases lt_trichotomy e.delta 0 with hneg | hzero | hpos
  · by_cases hclaw : e.isClawback = true
    · -- no column has a negative bonus
      have hbonus : e.reason = .bonus := by
        simpa [Entry.isClawback, hneg] using hclaw
      rw [if_pos hclaw]
      apply hnone
      intro c
      cases c <;> simp [Column.counts, hbonus, hneg.le]
    · rw [if_neg hclaw]
      have hkept : e.isClawback = false := by simpa using hclaw
      have hshare := Column.share_of_filter (h.columns_of_neg hneg hkept)
      have hne : e.column ≠ .added := by
        unfold Entry.column
        split <;> (try split) <;> (try split) <;> simp
      simp only [Column.buckets, List.map_cons, List.map_nil, List.sum_cons, List.sum_nil, hshare]
      cases hcol : e.column with
      | added => exact absurd hcol hne
      | calls => simp [Column.figure]
      | aiAssist => simp [Column.figure]
      | adjustments => simp [Column.figure]
      | rental => simp [Column.figure]
      | expired => simp [Column.figure]
      | refunded => simp [Column.figure]
  · have hkept : e.isClawback = false := by simp [Entry.isClawback, hzero]
    rw [if_neg (by simp [hkept]), hzero]
    apply hnone
    intro c
    cases c <;> simp [Column.counts, hzero]
  · have hkept : e.isClawback = false := by
      simp [Entry.isClawback, not_lt.mpr hpos.le]
    have hshare := Column.share_of_filter (h.columns_of_pos hpos)
    rw [if_neg (by simp [hkept])]
    simp [Column.buckets, hshare, Column.figure]

end OneRow

/-! ## A window -/

theorem Column.sum_cons (e : Entry) (rows : List Entry) (c : Column) :
    Column.sum (e :: rows) c = Column.share e c + Column.sum rows c := by
  unfold Column.sum Column.share
  by_cases h : c.counts e = true <;> simp [h]

/-- **The columns take any rows apart.** -/
theorem columns_add_up {rows : List Entry} (h : ∀ e ∈ rows, e.Wrote) :
    ((rows.filter fun e => !e.isClawback).map Entry.delta).sum =
      Column.sum rows .added - (Column.buckets.map (Column.sum rows)).sum -
        Column.sum rows .refunded := by
  induction rows with
  | nil => simp [Column.sum, Column.buckets]
  | cons e rows ih =>
    have hrow := (h e List.mem_cons_self).shares
    have hrest := ih fun f hf => h f (List.mem_cons_of_mem _ hf)
    simp only [Column.buckets, List.map_cons, List.map_nil, List.sum_cons, List.sum_nil] at hrow hrest
    simp only [Column.buckets, List.map_cons, List.map_nil, List.sum_cons, List.sum_nil,
      Column.sum_cons]
    by_cases hclaw : e.isClawback = true
    · rw [if_pos hclaw] at hrow
      rw [List.filter_cons_of_neg (by simp [hclaw])]
      omega
    · rw [if_neg hclaw] at hrow
      rw [List.filter_cons_of_pos (by simp [hclaw]), List.map_cons, List.sum_cons]
      omega

/-- **The wallet's movements add up.** For every reachable ledger and every window: a bonus
clawed back apart, the deltas of the window are the credit added less the five buckets less
what was refunded; every row that landed is counted once, as credit added; and every row that
left, once, in one of the other columns. -/
theorem wallet_movement_identity (ops : List Op) (start stop : Option ℕ) :
    ((((runOps ops {}).window start stop).filter fun e => !e.isClawback).map Entry.delta).sum =
      Column.sum ((runOps ops {}).window start stop) .added -
        (Column.buckets.map (Column.sum ((runOps ops {}).window start stop))).sum -
        Column.sum ((runOps ops {}).window start stop) .refunded ∧
    ∀ e ∈ (runOps ops {}).window start stop,
      (0 < e.delta → Column.all.filter (Column.counts e) = [.added]) ∧
      (e.delta < 0 → e.isClawback = false →
        ∃ c, c ≠ Column.added ∧ Column.all.filter (Column.counts e) = [c]) := by
  have hw : ∀ e ∈ (runOps ops {}).window start stop, e.Wrote := fun e he =>
    (wrote_of_run ops).2 e (List.mem_of_mem_filter he)
  refine ⟨columns_add_up hw, fun e he => ⟨(hw e he).columns_of_pos, fun hneg hkept => ?_⟩⟩
  refine ⟨e.column, ?_, (hw e he).columns_of_neg hneg hkept⟩
  unfold Entry.column
  split <;> (try split) <;> (try split) <;> simp

/-- A payment of four hundred rupees, one hundred and fifty of them refunded. -/
def partlyRefunded : List Op :=
  [.capture onePackCtx ⟨"pay_1", 40000, none⟩, .refund ⟨"rfnd_1", "pay_1", 15000⟩]

/-- **Refunds are in no bucket**: they have a column of their own, so the credit added less the
buckets is not what the balance moved by. -/
theorem partlyRefunded_not_in_buckets :
    ¬ ∀ (ops : List Op) (start stop : Option ℕ),
      (((runOps ops {}).window start stop).map Entry.delta).sum =
        Column.sum ((runOps ops {}).window start stop) .added -
          (Column.buckets.map (Column.sum ((runOps ops {}).window start stop))).sum := by
  intro h
  have := h partlyRefunded none none
  revert this
  decide +kernel

end Billing

end Calevate
