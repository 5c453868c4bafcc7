import Mathlib.Algebra.BigOperators.Ring.List
import Calevate.Billing.Statement
import Calevate.Billing.Helpers.Figures

/-!
# What the statement's lines come to

Every split of a call debit belongs on one line, by its voice and rate or, where it bought
no minutes, on the upgrade's (`StoredSplit.line`). `lineCredits` adds the credits of a line
over the debits themselves, with no query between; the lines the code prints are shown to
carry those figures and no others (`StatementOf`), and what they come to follows from that
alone.

The lines are rounded one by one and the total once, so they add to it as far as their
roundings do (`RoundsTogether`).
-/

namespace Calevate

namespace Billing

open Lib

/-! ## Which line -/

/-- A line by what it is for. -/
inductive LineKey
  | calls (tier : VoiceTier) (inrPerMin : ℤ)
  | upgrade
  deriving DecidableEq

/-- The line a split belongs on; none for a rung that cannot be placed. -/
def StoredSplit.line (s : StoredSplit) : Option LineKey :=
  match s.call with
  | none => some .upgrade
  | some c => (storedVoiceTier c.voiceTier).map fun tier => .calls tier c.inrPerMin

/-- What a printed line is for, off its text. -/
def StatementLine.key (l : StatementLine) : LineKey :=
  match l.description with
  | .callMinutes tier _ unitInr => .calls tier unitInr
  | .modelUpgrade => .upgrade

/-- A split's credits under its line. -/
def StoredSplit.lineItem (s : StoredSplit) : Option (LineKey × ℕ) :=
  s.line.map fun k => (k, s.credits)

/-- Every split of the debits under its line. -/
def lineItems (debits : List LedgerRow) : List (LineKey × ℕ) :=
  (debits.flatMap LedgerRow.lots).filterMap StoredSplit.lineItem

/-- The credits of a line. -/
def lineCredits (debits : List LedgerRow) (k : LineKey) : ℕ :=
  Tally.sumOn (· = k) id (lineItems debits)

/-- The lines the debits call for. -/
def lineKeys (debits : List LedgerRow) : List LineKey :=
  ((lineItems debits).map Prod.fst).dedup

/-- What was drawn by all the debits. -/
def drawn (debits : List LedgerRow) : ℕ := (debits.map LedgerRow.debit).sum

/-- How far credits stand above the nearest paisa, or below it. -/
def overPaisa (credits : ℕ) : ℤ := credits - toPaise credits

/-- Together the lines stand less than half a paisa above the paise they are rounded to,
and no more than half a paisa below. -/
def RoundsTogether (debits : List LedgerRow) : Prop :=
  -50 ≤ ((lineKeys debits).map fun k => overPaisa (lineCredits debits k)).sum ∧
    ((lineKeys debits).map fun k => overPaisa (lineCredits debits k)).sum < 50

/-- Every rung on the debits is one this build can place. -/
def Placed (debits : List LedgerRow) : Prop :=
  ∀ e ∈ debits, ∀ s ∈ e.lots, s.line ≠ none

theorem Placed.splits {debits : List LedgerRow} (h : Placed debits) :
    ∀ s ∈ debits.flatMap LedgerRow.lots, s.line ≠ none := by
  intro s hs
  obtain ⟨e, he, hse⟩ := List.mem_flatMap.mp hs
  exact h e he s hse

/-- **The lines a statement prints**: one for each line of half a paisa or more, at the
credits of that line. -/
structure StatementOf (debits : List LedgerRow) (lines : List StatementLine) : Prop where
  once : (lines.map StatementLine.key).Nodup
  printed : ∀ k, k ∈ lines.map StatementLine.key ↔ 50 ≤ lineCredits debits k
  amount : ∀ l ∈ lines, l.amountInr = toPaise (lineCredits debits l.key : ℕ)

/-! ## Rounding to paise -/

theorem toPaise_natCast (n : ℕ) : toPaise (n : ℕ) = ((n + 50) / 100 * 100 : ℕ) := by
  have hfloor : ⌊(n : ℚ) / 100 + 1 / 2⌋ = ((n + 50) / 100 : ℕ) := by
    have hdiv : (n : ℚ) / 100 + 1 / 2 = ((n + 50 : ℕ) : ℚ) / (100 : ℕ) := by
      push_cast
      ring
    rw [hdiv, Rat.floor_natCast_div_natCast]
    rfl
  rw [toPaise, Dec.roundHalfUp, if_pos (by positivity), hfloor]
  push_cast
  ring

theorem toPaise_eq_zero (n : ℕ) : toPaise (n : ℕ) = 0 ↔ n < 50 := by
  rw [toPaise_natCast]
  omega

/-- The parts rounded to paise add to the whole rounded to paise, as long as what they
stand over adds to less than half a paisa and no less than half a paisa below. -/
theorem sum_toPaise {cs : List ℕ} (hlo : -50 ≤ (cs.map overPaisa).sum)
    (hhi : (cs.map overPaisa).sum < 50) :
    (cs.map fun c => toPaise (c : ℕ)).sum = toPaise (cs.sum : ℕ) := by
  have hsplit : (cs.map fun c => toPaise (c : ℕ)).sum = cs.sum - (cs.map overPaisa).sum := by
    clear hlo hhi
    induction cs with
    | nil => rfl
    | cons c cs ih =>
      simp only [List.map_cons, List.sum_cons, ih, overPaisa, Nat.cast_add]
      ring
  have hwhole : (100 : ℤ) ∣ (cs.map fun c => toPaise (c : ℕ)).sum := by
    apply List.dvd_sum
    intro x hx
    obtain ⟨c, -, rfl⟩ := List.mem_map.mp hx
    exact Dvd.intro_left _ rfl
  rw [toPaise_natCast]
  omega

/-! ## What the query and the dictionary keep -/

/-- Rows with no call on them hold nothing the query groups. -/
theorem grouped_callDebits (rows : List LedgerRow) :
    (rows.flatMap LedgerRow.lots).filterMap StoredSplit.grouped =
      ((rows.filter LedgerRow.isCall).flatMap LedgerRow.lots).filterMap StoredSplit.grouped := by
  induction rows with
  | nil => rfl
  | cons e rows ih =>
    rw [List.flatMap_cons, List.filterMap_append, ih]
    by_cases he : e.isCall = true
    · rw [List.filter_cons_of_pos he, List.flatMap_cons, List.filterMap_append]
    · rw [List.filter_cons_of_neg he, List.filterMap_eq_nil_iff.mpr, List.nil_append]
      intro s hs
      have hnone : s.call.isSome ≠ true := by
        intro hsome
        exact he (List.any_eq_true.mpr ⟨s, hs, hsome⟩)
      rw [StoredSplit.grouped, Option.not_isSome_iff_eq_none.mp hnone]
      rfl

/-- The rung of a stored spelling, where it has one. -/
def rungOf (stored : String) : VoiceTier := (storedVoiceTier stored).getD .value

/-- A group of the query under the key it is merged by. -/
def mergeKey (k : String × ℤ) : VoiceTier × ℤ := (rungOf k.1, k.2)

/-- The dictionary of groups that can all be placed. -/
def mergedOf (groups : List ((String × ℤ) × (ℚ × ℕ))) : Merged :=
  Tally.tally addSplits (0, 0) (groups.map fun row => (mergeKey row.1, row.2))

/-- **The loop refuses a rung it cannot place, and otherwise files every group.** -/
theorem merge_cases (m : BillingMonth) (groups : List ((String × ℤ) × (ℚ × ℕ))) :
    (∃ row ∈ groups, storedVoiceTier row.1.1 = none ∧
      groups.foldlM (mergeRow m) [] = .error (unplacedRung m row.1.1)) ∨
    ((∀ row ∈ groups, storedVoiceTier row.1.1 ≠ none) ∧
      groups.foldlM (mergeRow m) [] = .ok (mergedOf groups)) := by
  -- the induction adds a group at the end, where the loop goes on from its last dictionary
  induction groups using List.reverseRecOn with
  | nil => exact .inr ⟨by simp, rfl⟩
  | append_singleton groups row ih =>
    rw [List.foldlM_append]
    rcases ih with ⟨bad, hbad, hnone, herr⟩ | ⟨hall, hok⟩
    · left
      refine ⟨bad, List.mem_append_left _ hbad, hnone, ?_⟩
      rw [herr]
      rfl
    · rw [hok]
      cases hrow : storedVoiceTier row.1.1 with
      | none =>
        left
        refine ⟨row, by simp, hrow, ?_⟩
        simp [bind, Except.bind, mergeRow, hrow]
      | some tier =>
        right
        constructor
        · intro r hr
          rcases List.mem_append.mp hr with hr | hr
          · exact hall r hr
          · rw [List.mem_singleton.mp hr, hrow]
            simp
        · have hkey : mergeKey row.1 = (tier, row.1.2) := by simp [mergeKey, rungOf, hrow]
          have hlast : mergedOf (groups ++ [row]) =
              Tally.file addSplits (0, 0) (tier, row.1.2) row.2 (mergedOf groups) := by
            rw [mergedOf, List.map_append, List.map_singleton, Tally.tally_append, hkey]
            rfl
          rw [hlast]
          simp [bind, Except.bind, pure, Except.pure, mergeRow, hrow]

/-- The credits filed under a rung and rate are those of the splits at them. -/
theorem merged_sumOn {splits : List StoredSplit} (hall : ∀ s ∈ splits, s.line ≠ none)
    (tier : VoiceTier) (rate : ℤ) :
    Tally.sumOn (fun k => mergeKey k = (tier, rate)) Prod.snd
        (splits.filterMap StoredSplit.grouped) =
      Tally.sumOn (· = LineKey.calls tier rate) id (splits.filterMap StoredSplit.lineItem) := by
  induction splits with
  | nil => rfl
  | cons s splits ih =>
    have ih' := ih fun q hq => hall q (List.mem_cons_of_mem s hq)
    have hs := hall s (by simp)
    cases hcall : s.call with
    | none =>
      have hg : s.grouped = none := by rw [StoredSplit.grouped, hcall]; rfl
      have hl : s.lineItem = some (.upgrade, s.credits) := by
        rw [StoredSplit.lineItem, StoredSplit.line, hcall]
        rfl
      rw [List.filterMap_cons_none hg, List.filterMap_cons_some hl, Tally.sumOn_cons, ih',
        if_neg (by simp), zero_add]
    | some c =>
      cases htier : storedVoiceTier c.voiceTier with
      | none => exact absurd (by rw [StoredSplit.line, hcall]; simp [htier]) hs
      | some t =>
        have hg : s.grouped = some ((c.voiceTier, c.inrPerMin), (c.minutes, s.credits)) := by
          rw [StoredSplit.grouped, hcall]
          rfl
        have hl : s.lineItem = some (.calls t c.inrPerMin, s.credits) := by
          rw [StoredSplit.lineItem, StoredSplit.line, hcall]
          simp [htier]
        rw [List.filterMap_cons_some hg, List.filterMap_cons_some hl, Tally.sumOn_cons,
          Tally.sumOn_cons, ih']
        simp [mergeKey, rungOf, htier]

theorem sumOn_perm {κ β : Type} {pick : κ → Prop} [DecidablePred pick] {φ : β → ℕ}
    {s t : List (κ × β)} (h : s.Perm t) : Tally.sumOn pick φ s = Tally.sumOn pick φ t :=
  (h.map _).sum_eq

section Lines

variable {events : List UsageEvent} {m : BillingMonth} {ledger : List LedgerRow}

/-- What the query grouped are the call debits' splits. -/
theorem callLineSplits_perm : (callLineSplits events m ledger).Perm
    (Tally.tally (fun b a => (b.1 + a.1, b.2 + a.2)) (0, 0)
      (((callDebits events m ledger).flatMap LedgerRow.lots).filterMap StoredSplit.grouped)) := by
  rw [callLineSplits, grouped_callDebits]
  exact List.perm_insertionSort _ _

/-- The groups' rungs are the rungs of the debits. -/
theorem exists_split_of_group {row : (String × ℤ) × (ℚ × ℕ)}
    (h : row ∈ callLineSplits events m ledger) :
    ∃ e ∈ callDebits events m ledger, ∃ s ∈ e.lots, ∃ c, s.call = some c ∧
      c.voiceTier = row.1.1 := by
  have hlabel := List.mem_map_of_mem (f := Prod.fst) (callLineSplits_perm.mem_iff.mp h)
  rw [Tally.mem_tally_labels] at hlabel
  obtain ⟨item, hitem, hrow⟩ := List.mem_map.mp hlabel
  obtain ⟨s, hs, hgrouped⟩ := List.mem_filterMap.mp hitem
  obtain ⟨e, he, hse⟩ := List.mem_flatMap.mp hs
  obtain ⟨c, hc, rfl⟩ := Option.map_eq_some_iff.mp hgrouped
  exact ⟨e, he, s, hse, c, hc, by rw [← hrow]⟩

theorem exists_group_of_split {e : LedgerRow} (he : e ∈ callDebits events m ledger)
    {s : StoredSplit} (hs : s ∈ e.lots) {c : CallPart} (hc : s.call = some c) :
    ∃ row ∈ callLineSplits events m ledger, row.1.1 = c.voiceTier := by
  have hitem : ((c.voiceTier, c.inrPerMin), (c.minutes, s.credits)) ∈
      ((callDebits events m ledger).flatMap LedgerRow.lots).filterMap StoredSplit.grouped := by
    rw [List.mem_filterMap]
    exact ⟨s, List.mem_flatMap.mpr ⟨e, he, hs⟩, by rw [StoredSplit.grouped, hc]; rfl⟩
  have hlabel := List.mem_map_of_mem (f := Prod.fst) hitem
  rw [← Tally.mem_tally_labels (fun b a => (b.1 + a.1, b.2 + a.2)) (0, 0)] at hlabel
  obtain ⟨row, hrow, hkey⟩ := List.mem_map.mp hlabel
  exact ⟨row, callLineSplits_perm.mem_iff.mpr hrow, by rw [hkey]⟩

/-- The groups can all be placed exactly when the debits can. -/
theorem placed_iff : Placed (callDebits events m ledger) ↔
    ∀ row ∈ callLineSplits events m ledger, storedVoiceTier row.1.1 ≠ none := by
  constructor
  · intro hp row hrow
    obtain ⟨e, he, s, hs, c, hc, hname⟩ := exists_split_of_group hrow
    have hline := hp e he s hs
    rw [StoredSplit.line, hc] at hline
    intro hnone
    rw [← hname] at hnone
    exact hline (by simp [hnone])
  · intro hall e he s hs
    cases hc : s.call with
    | none => simp [StoredSplit.line, hc]
    | some c =>
      obtain ⟨row, hrow, hname⟩ := exists_group_of_split he hs hc
      have := hall row hrow
      rw [hname] at this
      simpa [StoredSplit.line, hc] using this

/-- The dictionary's credits at a rung and rate are the line's. -/
theorem merged_credits (hp : Placed (callDebits events m ledger)) (tier : VoiceTier) (rate : ℤ) :
    Tally.sumOn (· = (tier, rate)) Prod.snd (mergedOf (callLineSplits events m ledger)) =
      lineCredits (callDebits events m ledger) (.calls tier rate) := by
  have hmerge : ∀ items : List ((VoiceTier × ℤ) × (ℚ × ℕ)),
      Tally.sumOn (· = (tier, rate)) Prod.snd (Tally.tally addSplits (0, 0) items) =
        Tally.sumOn (· = (tier, rate)) Prod.snd items := by
    intro items
    apply Tally.sumOn_tally
    · intro b a
      rfl
    · rfl
  have hgroup : ∀ items : List ((String × ℤ) × (ℚ × ℕ)),
      Tally.sumOn (fun k => mergeKey k = (tier, rate)) Prod.snd
          (Tally.tally (fun b a : ℚ × ℕ => (b.1 + a.1, b.2 + a.2)) (0, 0) items) =
        Tally.sumOn (fun k => mergeKey k = (tier, rate)) Prod.snd items := by
    intro items
    apply Tally.sumOn_tally
    · intro b a
      rfl
    · rfl
  rw [mergedOf, hmerge, Tally.sumOn_relabel, sumOn_perm callLineSplits_perm, hgroup,
    merged_sumOn hp.splits]
  rfl

/-- What bought no minutes is the upgrade's. -/
theorem extra_credits :
    callExtraInr events m ledger = lineCredits (callDebits events m ledger) .upgrade := by
  rw [callExtraInr, lineCredits, lineItems]
  induction (callDebits events m ledger).flatMap LedgerRow.lots with
  | nil => rfl
  | cons s splits ih =>
    cases hcall : s.call with
    | none =>
      have hl : s.lineItem = some (.upgrade, s.credits) := by
        rw [StoredSplit.lineItem, StoredSplit.line, hcall]
        rfl
      rw [List.filter_cons_of_pos (by simp [hcall]), List.map_cons, List.sum_cons, ih,
        List.filterMap_cons_some hl, Tally.sumOn_cons, if_pos rfl, id]
    | some c =>
      rw [List.filter_cons_of_neg (by simp [hcall]), ih]
      cases hl : s.lineItem with
      | none => rw [List.filterMap_cons_none hl]
      | some item =>
        have hne : item.1 ≠ .upgrade := by
          rw [StoredSplit.lineItem, StoredSplit.line, hcall] at hl
          simp only [Option.map_map, Option.map_eq_some_iff] at hl
          obtain ⟨tier, -, rfl⟩ := hl
          simp
        rw [List.filterMap_cons_some hl, Tally.sumOn_cons, if_neg hne, zero_add]

/-! ## The lines -/

/-- The key of a dictionary item's line. -/
def itemKey (item : (VoiceTier × ℤ) × (ℚ × ℕ)) : LineKey := .calls item.1.1 item.1.2

theorem callLine_some {item : (VoiceTier × ℤ) × (ℚ × ℕ)} {l : StatementLine}
    (h : callLine item = some l) :
    50 ≤ item.2.2 ∧ l.key = itemKey item ∧ l.amountInr = toPaise (item.2.2 : ℕ) := by
  rw [callLine] at h
  split at h
  · cases h
  · rename_i hne
    rw [toPaise_eq_zero] at hne
    cases h
    exact ⟨by omega, rfl, rfl⟩

theorem callLine_of_le {item : (VoiceTier × ℤ) × (ℚ × ℕ)} (h : 50 ≤ item.2.2) :
    ∃ l, callLine item = some l := by
  have hne : toPaise (item.2.2 : ℕ) ≠ 0 := by
    rw [Ne, toPaise_eq_zero]
    omega
  exact ⟨_, if_neg hne⟩

theorem callLines_sublist (items : Merged) :
    ((items.filterMap callLine).map StatementLine.key).Sublist (items.map itemKey) := by
  induction items with
  | nil => simp
  | cons item items ih =>
    cases hl : callLine item with
    | none =>
      rw [List.filterMap_cons_none hl]
      exact ih.trans (List.sublist_cons_self _ _)
    | some l =>
      rw [List.filterMap_cons_some hl, List.map_cons, List.map_cons, (callLine_some hl).2.1]
      exact ih.cons_cons _

theorem upgradeLine_eq {extra : ℕ} {l : StatementLine} (h : l ∈ (upgradeLine extra).toList) :
    50 ≤ extra ∧ l.key = .upgrade ∧ l.amountInr = toPaise (extra : ℕ) := by
  rw [Option.mem_toList, upgradeLine] at h
  split at h
  · cases h
  · rename_i hne
    rw [toPaise_eq_zero] at hne
    cases h
    exact ⟨by omega, rfl, rfl⟩

theorem upgradeLine_of_le {extra : ℕ} (h : 50 ≤ extra) :
    ∃ l, l ∈ (upgradeLine extra).toList := by
  have hne : toPaise (extra : ℕ) ≠ 0 := by
    rw [Ne, toPaise_eq_zero]
    omega
  exact ⟨_, Option.mem_toList.mpr (if_neg hne)⟩

/-- An item of the dictionary holds its line's credits. -/
theorem item_credits (hp : Placed (callDebits events m ledger))
    {item : (VoiceTier × ℤ) × (ℚ × ℕ)} (h : item ∈ mergedOf (callLineSplits events m ledger)) :
    item.2.2 = lineCredits (callDebits events m ledger) (itemKey item) := by
  rw [itemKey, ← merged_credits hp]
  exact (Tally.sumOn_label (Tally.tally_nodup _ _ _) h).symm

/-- **The lines printed are the statement of the debits.** -/
theorem statementOf_lines (hp : Placed (callDebits events m ledger)) :
    StatementOf (callDebits events m ledger)
      (((mergedOf (callLineSplits events m ledger)).insertionSort lineBefore).filterMap callLine ++
        (upgradeLine (callExtraInr events m ledger)).toList) := by
  have hmem : ∀ item, item ∈ (mergedOf (callLineSplits events m ledger)).insertionSort lineBefore ↔
      item ∈ mergedOf (callLineSplits events m ledger) :=
    fun item => List.mem_insertionSort _
  constructor
  case once =>
    rw [List.map_append, List.nodup_append]
    refine ⟨?_, ?_, ?_⟩
    · refine (callLines_sublist _).nodup ?_
      have hkeys : itemKey = (fun k : VoiceTier × ℤ => LineKey.calls k.1 k.2) ∘ Prod.fst := rfl
      rw [((List.perm_insertionSort lineBefore _).map itemKey).nodup_iff, hkeys, ← List.map_map]
      refine (Tally.tally_nodup _ _ _).map ?_
      rintro ⟨t, r⟩ ⟨t', r'⟩ heq
      simpa using heq
    · cases upgradeLine (callExtraInr events m ledger) <;> simp
    · intro k hk k' hk' heq
      obtain ⟨l, hl, rfl⟩ := List.mem_map.mp hk
      obtain ⟨item, -, hitem⟩ := List.mem_filterMap.mp hl
      obtain ⟨l', hl', rfl⟩ := List.mem_map.mp hk'
      rw [(callLine_some hitem).2.1, (upgradeLine_eq hl').2.1] at heq
      cases heq
  case printed =>
    intro k
    rw [List.map_append, List.mem_append]
    constructor
    · rintro (hk | hk)
      · obtain ⟨l, hl, rfl⟩ := List.mem_map.mp hk
        obtain ⟨item, hi, hitem⟩ := List.mem_filterMap.mp hl
        obtain ⟨hle, hkey, -⟩ := callLine_some hitem
        rw [hkey, ← item_credits hp ((hmem item).mp hi)]
        exact hle
      · obtain ⟨l, hl, rfl⟩ := List.mem_map.mp hk
        obtain ⟨hle, hkey, -⟩ := upgradeLine_eq hl
        rw [hkey, ← extra_credits]
        exact hle
    · intro hle
      cases k with
      | upgrade =>
        rw [← extra_credits] at hle
        obtain ⟨l, hl⟩ := upgradeLine_of_le hle
        exact .inr (List.mem_map.mpr ⟨l, hl, (upgradeLine_eq hl).2.1⟩)
      | calls tier rate =>
        have hin : ∃ item ∈ mergedOf (callLineSplits events m ledger), item.1 = (tier, rate) := by
          by_contra hnone
          push Not at hnone
          rw [← merged_credits hp, Tally.sumOn_eq_zero _ hnone] at hle
          omega
        obtain ⟨item, hi, hkey⟩ := hin
        have hik : itemKey item = .calls tier rate := by rw [itemKey, hkey]
        rw [← hik, ← item_credits hp hi] at hle
        obtain ⟨l, hl⟩ := callLine_of_le hle
        refine .inl (List.mem_map.mpr ⟨l, List.mem_filterMap.mpr ⟨item, (hmem item).mpr hi, hl⟩, ?_⟩)
        rw [(callLine_some hl).2.1, hik]
  case amount =>
    intro l hl
    rcases List.mem_append.mp hl with hl | hl
    · obtain ⟨item, hi, hitem⟩ := List.mem_filterMap.mp hl
      obtain ⟨-, hkey, hamt⟩ := callLine_some hitem
      rw [hamt, hkey, ← item_credits hp ((hmem item).mp hi)]
    · obtain ⟨-, hkey, hamt⟩ := upgradeLine_eq hl
      rw [hamt, hkey, ← extra_credits]

end Lines

/-! ## What they add to -/

theorem lineItem_sum {splits : List StoredSplit} (hall : ∀ s ∈ splits, s.line ≠ none) :
    ((splits.filterMap StoredSplit.lineItem).map fun p => id p.2).sum =
      (splits.map StoredSplit.credits).sum := by
  induction splits with
  | nil => rfl
  | cons s splits ih =>
    obtain ⟨k, hk⟩ := Option.ne_none_iff_exists'.mp (hall s (by simp))
    have hl : s.lineItem = some (k, s.credits) := by
      rw [StoredSplit.lineItem, hk]
      rfl
    rw [List.filterMap_cons_some hl, List.map_cons, List.sum_cons,
      ih fun q hq => hall q (List.mem_cons_of_mem s hq)]
    rfl

theorem drawn_eq (debits : List LedgerRow) :
    drawn debits = ((debits.flatMap LedgerRow.lots).map StoredSplit.credits).sum := by
  induction debits with
  | nil => rfl
  | cons e debits ih =>
    rw [List.flatMap_cons, List.map_append, List.sum_append, ← ih]
    rfl

theorem lineItems_sum {debits : List LedgerRow} (hp : Placed debits) :
    ((lineItems debits).map fun p => id p.2).sum = drawn debits := by
  rw [drawn_eq, lineItems]
  exact lineItem_sum hp.splits

/-- The lines the debits call for hold all that was drawn. -/
theorem lineCredits_sum {debits : List LedgerRow} (hp : Placed debits) :
    ((lineKeys debits).map (lineCredits debits)).sum = drawn debits := by
  rw [← lineItems_sum hp]
  apply Tally.sum_sumOn (List.nodup_dedup _)
  intro p hpm
  exact List.mem_dedup.mpr (List.mem_map_of_mem hpm)

theorem mem_lineKeys {debits : List LedgerRow} {k : LineKey} (h : 50 ≤ lineCredits debits k) :
    k ∈ lineKeys debits := by
  by_contra hnot
  have hzero : lineCredits debits k = 0 := by
    apply Tally.sumOn_eq_zero
    intro p hp hpk
    exact hnot (List.mem_dedup.mpr (hpk ▸ List.mem_map_of_mem hp))
  omega

namespace StatementOf

variable {debits : List LedgerRow} {lines : List StatementLine}

/-- The printed lines are those of half a paisa or more. -/
theorem keys_perm (h : StatementOf debits lines) : (lines.map StatementLine.key).Perm
    ((lineKeys debits).filter fun k => 50 ≤ lineCredits debits k) := by
  have hnd : (lineKeys debits).Nodup := List.nodup_dedup _
  rw [List.perm_ext_iff_of_nodup h.once (hnd.filter _)]
  intro k
  rw [h.printed k, List.mem_filter, decide_eq_true_eq]
  exact ⟨fun hle => ⟨mem_lineKeys hle, hle⟩, fun hk => hk.2⟩

/-- Lines too small to print come to nothing. -/
theorem sum_eq (h : StatementOf debits lines) : (lines.map StatementLine.amountInr).sum =
    (((lineKeys debits).map (lineCredits debits)).map fun c => toPaise (c : ℕ)).sum := by
  have hamounts : lines.map StatementLine.amountInr =
      (lines.map StatementLine.key).map fun k => toPaise (lineCredits debits k : ℕ) := by
    rw [List.map_map]
    exact List.map_congr_left h.amount
  rw [hamounts, (h.keys_perm.map _).sum_eq, List.map_map]
  induction lineKeys debits with
  | nil => rfl
  | cons k ks ih =>
    by_cases hk : 50 ≤ lineCredits debits k
    · rw [List.filter_cons_of_pos (by simpa using hk), List.map_cons, List.sum_cons, ih]
      rfl
    · have hzero : toPaise (lineCredits debits k : ℕ) = 0 := by
        rw [toPaise_eq_zero]
        omega
      rw [List.filter_cons_of_neg (by simpa using hk), ih, List.map_cons, List.sum_cons,
        Function.comp_apply, hzero, zero_add]

theorem sum_eq_total (h : StatementOf debits lines) (hp : Placed debits)
    (hr : RoundsTogether debits) :
    (lines.map StatementLine.amountInr).sum = toPaise (drawn debits : ℕ) := by
  rw [h.sum_eq, ← lineCredits_sum hp]
  apply sum_toPaise
  · rw [List.map_map]
    exact hr.1
  · rw [List.map_map]
    exact hr.2

theorem count_key (h : StatementOf debits lines) (k : LineKey) :
    lines.countP (fun l => l.key = k) = if lineCredits debits k < 50 then 0 else 1 := by
  have hcount : lines.countP (fun l => l.key = k) = (lines.map StatementLine.key).count k := by
    rw [List.count, List.countP_map]
    rfl
  rw [hcount]
  split
  · rename_i hlt
    apply List.count_eq_zero_of_not_mem
    rw [h.printed k]
    omega
  · rename_i hge
    exact List.count_eq_one_of_mem h.once ((h.printed k).mpr (by omega))

end StatementOf

/-- **The statement, line by line.** A month with a rung that cannot be placed is refused.
Otherwise every split of every call debit belongs on one line, printed once unless the
line's credits are less than half a paisa; a line's amount is its credits to the paisa; and
the lines add to what the debits drew, to the paisa, when they round together. -/
theorem prepaid_statement_by_line (events : List UsageEvent) (m : BillingMonth)
    (ledger : List LedgerRow) :
    (∃ e ∈ callDebits events m ledger, ∃ s ∈ e.lots, ∃ c, s.call = some c ∧
      storedVoiceTier c.voiceTier = none ∧
      prepaidCallStatementLines events m ledger = .error (unplacedRung m c.voiceTier)) ∨
    ∃ lines, prepaidCallStatementLines events m ledger = .ok lines ∧
      (∀ e ∈ callDebits events m ledger, ∀ s ∈ e.lots, ∃ k, s.line = some k ∧
        lines.countP (fun l => l.key = k) =
          if lineCredits (callDebits events m ledger) k < 50 then 0 else 1) ∧
      (∀ l ∈ lines, l.amountInr = toPaise (lineCredits (callDebits events m ledger) l.key : ℕ)) ∧
      (RoundsTogether (callDebits events m ledger) →
        (lines.map StatementLine.amountInr).sum =
          toPaise (drawn (callDebits events m ledger) : ℕ)) := by
  rcases merge_cases m (callLineSplits events m ledger) with
    ⟨row, hrow, hnone, herr⟩ | ⟨hall, hok⟩
  · obtain ⟨e, he, s, hs, c, hc, hname⟩ := exists_split_of_group hrow
    refine .inl ⟨e, he, s, hs, c, hc, hname ▸ hnone, ?_⟩
    rw [prepaidCallStatementLines, herr, hname]
    rfl
  · have hp : Placed (callDebits events m ledger) := (placed_iff).mpr hall
    have hst := statementOf_lines hp
    refine .inr ⟨_, ?_, ?_, hst.amount, hst.sum_eq_total hp⟩
    · rw [prepaidCallStatementLines, hok]
      rfl
    · intro e he s hs
      obtain ⟨k, hk⟩ := Option.ne_none_iff_exists'.mp (hp e he s hs)
      exact ⟨k, hk, hst.count_key k⟩

/-- A statement that adds up to the paisa and prints the credits of every debit once. -/
def AddsUp (events : List UsageEvent) (m : BillingMonth) (ledger : List LedgerRow) : Prop :=
  ∃ lines, prepaidCallStatementLines events m ledger = .ok lines ∧
    (lines.map StatementLine.amountInr).sum = toPaise (drawn (callDebits events m ledger) : ℕ) ∧
    ∀ e ∈ callDebits events m ledger, ∀ s ∈ e.lots, 0 < s.credits →
      ∃ k, s.line = some k ∧ lines.countP (fun l => l.key = k) = 1

/-- One call of ten minutes at four rupees, begun on the last 0.0040 of a lot at six. -/
def remnantCall : LedgerRow where
  reason := .usage
  ref := some "call"
  occurredAt := 150
  lots := [⟨some 1, 40, some ⟨0, 60000, "clear"⟩⟩, ⟨some 2, 400000, some ⟨10, 40000, "clear"⟩⟩]

/-- Its remnant is on no line. -/
theorem remnant_on_no_line : ¬ AddsUp [⟨"call", 120⟩] ⟨"2026-09", 100, 200⟩ [remnantCall] := by
  have hlines : prepaidCallStatementLines [⟨"call", 120⟩] ⟨"2026-09", 100, 200⟩ [remnantCall] =
      .ok [⟨.callMinutes .value 1000 40000, 1000, 40000, 400000⟩] := by decide +kernel
  rintro ⟨lines, hok, -, honce⟩
  rw [hlines] at hok
  cases hok
  obtain ⟨k, hk, hcount⟩ := honce remnantCall (by decide +kernel)
    ⟨some 1, 40, some ⟨0, 60000, "clear"⟩⟩ (by decide +kernel) (by decide)
  have hkey : k = .calls .value 60000 := by
    have hline : StoredSplit.line ⟨some 1, 40, some ⟨0, 60000, "clear"⟩⟩ =
        some (.calls .value 60000) := by decide +kernel
    rw [hline] at hk
    exact (Option.some.inj hk).symm
  rw [hkey] at hcount
  revert hcount
  decide

end Billing

end Calevate
