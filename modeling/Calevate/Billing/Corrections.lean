import Calevate.Billing.Helpers.Figures

/-!
# Corrections of an entry

An operator takes back part of an entry under a reference made of the entry and the amount, any
number of times and with other amounts, and may correct a correction. A payment recorded short
is restated upwards under references of its own. What is left to take back is recomputed from
the rows that name the entry, so the bound of `corrections_within_entry` rests on three facts:
a row names only an entry that was there before it, no other writer sets that name, and a
restatement never takes anything back.
-/

namespace Calevate

namespace Billing

open Lib

/-! ## What was taken back -/

/-- The row corrects this entry: an adjustment that names it, or a restatement of the payment
it records. -/
def Entry.Corrects (e target : Entry) : Prop :=
  (e.reason = .adjustment ∧ e.entryMeta.correctsEntryId = some target.id) ∨
    (target.reason = .topup ∧ e.entryMeta.kind = some .topupRestatement ∧
      e.entryMeta.paymentRef = target.ref)

instance (e target : Entry) : Decidable (e.Corrects target) :=
  inferInstanceAs (Decidable (_ ∨ _))

/-- The accepted corrections of an entry in the reversing direction, summed. -/
def Account.reversingInr (a : Account) (target : Entry) : ℤ :=
  ((a.ledger.filter fun e => e.Corrects target ∧ e.delta * target.delta < 0).map
    fun e => |e.delta|).sum

/-- What these rows take back of an entry, by the name they carry. -/
def reversedIn (rows : List Entry) (entryId : ℕ) : ℤ :=
  ((rows.filter fun e => e.reason = .adjustment ∧
    e.entryMeta.correctsEntryId = some entryId).map fun e => |e.delta|).sum

theorem reversedInr_eq (a : Account) (i : ℕ) : a.reversedInr i = reversedIn a.ledger i := rfl

section ReversedIn

variable {r s : List Entry} {e : Entry} {i : ℕ}

@[simp] theorem reversedIn_append : reversedIn (r ++ s) i = reversedIn r i + reversedIn s i := by
  simp [reversedIn]

theorem reversedIn_eq_zero (h : ∀ e ∈ r, e.entryMeta.correctsEntryId ≠ some i) :
    reversedIn r i = 0 := by
  have hnil : r.filter (fun e => e.reason = .adjustment ∧
      e.entryMeta.correctsEntryId = some i) = [] := by
    rw [List.filter_eq_nil_iff]
    intro e he
    simp [h e he]
  rw [reversedIn, hnil]
  rfl

theorem reversedIn_singleton_le : reversedIn [e] i ≤ |e.delta| := by
  unfold reversedIn
  rw [List.filter_cons]
  split
  · simp
  · simp

end ReversedIn

/-! ## The invariant -/

/-- **Corrections stay within the entries they name.** -/
structure CorrectionsOk (a : Account) : Prop where
  named : ∀ e ∈ a.ledger, ∀ i, e.entryMeta.correctsEntryId = some i →
    ∃ t ∈ a.ledger, t.id = i ∧ e.delta * t.delta < 0
  within : ∀ t ∈ a.ledger, a.reversedInr t.id ≤ |t.delta|

section Step

variable {a a' : Account}

/-- Rows that name no entry, beside others, keep the bounds. -/
theorem CorrectionsOk.append {rows : List Entry} (h : CorrectionsOk a) (hb : LedgerOk a')
    (hledger : a'.ledger = a.ledger ++ rows)
    (hnamed : ∀ e ∈ rows, ∀ i, e.entryMeta.correctsEntryId = some i →
      ∃ t ∈ a.ledger, t.id = i ∧ e.delta * t.delta < 0)
    (hroom : ∀ t ∈ a.ledger, reversedIn rows t.id ≤ |t.delta| - a.reversedInr t.id) :
    CorrectionsOk a' := by
  have hold : ∀ e ∈ a.ledger, e ∈ a'.ledger := by
    intro e he
    rw [hledger]
    exact List.mem_append_left _ he
  refine ⟨fun e he i hi => ?_, fun t ht => ?_⟩
  · rw [hledger] at he
    rcases List.mem_append.mp he with he | he
    · obtain ⟨t, ht, htid, hsign⟩ := h.named e he i hi
      exact ⟨t, hold t ht, htid, hsign⟩
    · obtain ⟨t, ht, htid, hsign⟩ := hnamed e he i hi
      exact ⟨t, hold t ht, htid, hsign⟩
  · rw [reversedInr_eq, hledger, reversedIn_append]
    rw [hledger] at ht
    rcases List.mem_append.mp ht with ht | ht
    · have := hroom t ht
      rw [reversedInr_eq] at this
      omega
    · -- nothing names an entry that was just written
      have hnot : ∀ u ∈ a.ledger, u.id ≠ t.id := fun u hu => hb.id_ne_of_append hledger hu ht
      have h₁ : reversedIn a.ledger t.id = 0 := by
        apply reversedIn_eq_zero
        intro e he hi
        obtain ⟨u, hu, huid, -⟩ := h.named e he t.id hi
        exact hnot u hu huid
      have h₂ : reversedIn rows t.id = 0 := by
        apply reversedIn_eq_zero
        intro e he hi
        obtain ⟨u, hu, huid, -⟩ := hnamed e he t.id hi
        exact hnot u hu huid
      have := abs_nonneg t.delta
      omega

/-- The rows of the other writers name no entry. -/
theorem CorrectionsOk.plain {rows : List Entry} (h : CorrectionsOk a) (hb : LedgerOk a')
    (hledger : a'.ledger = a.ledger ++ rows)
    (hnone : ∀ e ∈ rows, e.entryMeta.correctsEntryId = none) : CorrectionsOk a' := by
  refine h.append hb hledger ?_ ?_
  · intro e he i hi
    rw [hnone e he] at hi
    cases hi
  · intro t ht
    have hzero : reversedIn rows t.id = 0 := by
      apply reversedIn_eq_zero
      intro e he
      rw [hnone e he]
      simp
    have := h.within t ht
    omega

/-- A correction of an entry, no larger than what is left of it. -/
theorem CorrectionsOk.correction {rows : List Entry} {e target : Entry} {amount : ℤ}
    (h : CorrectionsOk a) (ha : LedgerOk a) (hb : LedgerOk a')
    (hledger : a'.ledger = a.ledger ++ (rows ++ [e]))
    (hnone : ∀ f ∈ rows, f.entryMeta.correctsEntryId = none) (htarget : target ∈ a.ledger)
    (hname : e.entryMeta.correctsEntryId = some target.id)
    (hsize : |e.delta| = amount) (hsign : e.delta * target.delta < 0)
    (hroom : amount ≤ a.reversibleInr target) : CorrectionsOk a' := by
  have hrows : ∀ i, reversedIn rows i = 0 := by
    intro i
    apply reversedIn_eq_zero
    intro f hf
    rw [hnone f hf]
    simp
  refine h.append hb hledger ?_ ?_
  · intro f hf i hi
    rcases List.mem_append.mp hf with hf | hf
    · rw [hnone f hf] at hi
      cases hi
    · rw [List.mem_singleton.mp hf] at hi ⊢
      exact ⟨target, htarget, Option.some.inj (hname.symm.trans hi), hsign⟩
  · intro t ht
    have hwithin := h.within t ht
    rw [reversedIn_append, hrows, zero_add]
    by_cases hid : t.id = target.id
    · obtain rfl := ha.eq_of_id ht htarget hid
      have := @reversedIn_singleton_le e t.id
      unfold Account.reversibleInr at hroom
      omega
    · rw [reversedIn_eq_zero]
      · omega
      · intro f hf hi
        rw [List.mem_singleton.mp hf, hname] at hi
        exact hid (Option.some.inj hi).symm

theorem CorrectionsOk.step (h : CorrectionsOk a) (ha : BooksOk a) (hf : Figures a a') :
    CorrectionsOk a' := by
  cases hf with
  | idle effect => exact h.plain effect.books.ledger effect.ledger (by simp)
  | inflow w amount got target e a₁ allowed row id steps ledger lots within effect lands =>
    have hone : w.rowMeta.correctsEntryId = none → CorrectionsOk a' := by
      intro hnone
      refine h.plain effect.books.ledger effect.ledger fun f hf => ?_
      rw [List.mem_singleton.mp hf, row.2.2.2]
      exact hnone
    cases w with
    | correction t x =>
      obtain ⟨rfl, hpos, hmem, hneg, hroom⟩ := allowed
      refine @CorrectionsOk.correction a a' [] e t _ h ha.ledger effect.books.ledger effect.ledger
        (by simp) hmem (by rw [row.2.2.2]; rfl) (by rw [row.1, abs_of_pos hpos]) ?_ hroom
      rw [row.1]
      exact mul_neg_of_pos_of_neg hpos hneg
    | topup ref => exact hone rfl
    | packBonus paymentId => exact hone rfl
    | grant reference => exact hone rfl
    | restatement paymentRef corrected => exact hone rfl
    | release disputeId suffix paymentId => exact hone rfl
  | outflow w amount pos allowed removal e rows row names nonneg figure total effect lapse =>
    have hrows : ∀ f ∈ rows, f.entryMeta.correctsEntryId = none := by
      intro f hf
      rcases lapse with ⟨rfl, -⟩ | ⟨l, g, -, rfl, -, fresh, -, hg⟩
      · cases hf
      · rw [List.mem_singleton.mp hf, hg.2.2.2]
    have hone : (w.rowMeta removal).correctsEntryId = none → CorrectionsOk a' := by
      intro hnone
      refine h.plain effect.books.ledger effect.ledger fun f hf => ?_
      rcases List.mem_append.mp hf with hf | hf
      · exact hrows f hf
      · rw [List.mem_singleton.mp hf, row.2.2.2]
        exact hnone
    cases w with
    | correction t x =>
      obtain ⟨rfl, hmem, hup, hroom⟩ := allowed
      refine h.correction ha.ledger effect.books.ledger effect.ledger hrows hmem
        (by rw [row.2.2.2]; rfl) (by rw [row.1, abs_neg, abs_of_pos pos]) ?_ hroom
      rw [row.1]
      exact mul_neg_of_neg_of_pos (by omega) hup
    | refund event => exact hone rfl
    | clawback event grant => exact hone rfl
    | hold facts => exact hone rfl
  | usage ref splits kind e pos row names nonneg effect =>
    refine h.plain effect.books.ledger effect.ledger fun f hf => ?_
    rw [List.mem_singleton.mp hf, row.2.2.2]
  | expiry l e mem pos dated free row effect =>
    refine h.plain effect.books.ledger effect.ledger fun f hf => ?_
    rw [List.mem_singleton.mp hf, row.2.2.2]
  | resold l closed fresh e packId ref pair only effect =>
    refine h.plain effect.books.ledger effect.ledger fun f hf => ?_
    rw [List.mem_singleton.mp hf]
    exact only.2.1

theorem CorrectionsOk.run (ops : List Op) :
    BooksOk (runOps ops {}) ∧ CorrectionsOk (runOps ops {}) :=
  runOps_figures (fun _ _ ha _ hf h => h.step ha hf) booksOk_empty ⟨by simp, by simp⟩ ops

end Step

/-! ## The result -/

section Result

variable {a : Account}

/-- A payment and what restates it add credit. -/
theorem Entry.Wrote.topup_pos {e : Entry} (h : e.Wrote) (hreason : e.reason = .topup) :
    0 < e.delta := by
  cases h with
  | inflow w amount sign paid row =>
    rw [row.2.1] at hreason
    rw [row.1]
    exact paid (by rw [hreason]; simp)
  | outflow w amount pos removal within row =>
    rw [row.2.1] at hreason
    cases w <;> cases hreason
  | usage ref splits kind pos row =>
    rw [row.2.1] at hreason
    cases hreason
  | expiry lotId amount pos row =>
    rw [row.2.1] at hreason
    cases hreason
  | restatedLapse lotId amount pos row =>
    obtain ⟨fresh, -, hrow⟩ := row
    rw [hrow.2.1] at hreason
    cases hreason
  | marker lotId packId marks delta ref unrestated =>
    rw [marks.1] at hreason
    cases hreason

/-- A row that restates a payment is a payment's row. -/
theorem Entry.Wrote.restatement_topup {e : Entry} (h : e.Wrote)
    (hkind : e.entryMeta.kind = some .topupRestatement) : e.reason = .topup := by
  cases h with
  | inflow w amount sign paid row =>
    rw [row.2.2.2] at hkind
    rw [row.2.1]
    cases w <;> simp [Inflow.rowMeta, Inflow.reason] at hkind ⊢
  | outflow w amount pos removal within row =>
    rw [row.2.2.2] at hkind
    cases w <;> simp [Outflow.rowMeta] at hkind
  | usage ref splits kind pos row =>
    rw [row.2.2.2] at hkind
    cases kind <;> simp [UsageKind.metaKind] at hkind
  | expiry lotId amount pos row =>
    rw [row.2.2.2] at hkind
    cases hkind
  | restatedLapse lotId amount pos row =>
    obtain ⟨fresh, -, hrow⟩ := row
    rw [hrow.2.2.2] at hkind
    cases hkind
  | marker lotId packId marks delta ref unrestated =>
    rw [marks.2.1] at hkind
    cases hkind

/-- **What corrections took back is what their names say**: a restatement takes nothing back,
and a row that names an entry always goes against it. -/
theorem CorrectionsOk.reversingInr_eq (h : CorrectionsOk a) (ha : LedgerOk a)
    (hw : ∀ e ∈ a.ledger, e.Wrote) {target : Entry} (ht : target ∈ a.ledger) :
    a.reversingInr target = a.reversedInr target.id := by
  unfold Account.reversingInr Account.reversedInr
  congr 2
  apply List.filter_congr
  intro e he
  rw [decide_eq_decide]
  constructor
  · rintro ⟨hname | ⟨hreason, hkind, -⟩, hsign⟩
    · exact hname
    · have h₁ := (hw target ht).topup_pos hreason
      have h₂ := (hw e he).topup_pos ((hw e he).restatement_topup hkind)
      have := mul_pos h₂ h₁
      omega
  · rintro hname
    obtain ⟨t, htm, htid, hsign⟩ := h.named e he target.id hname.2
    obtain rfl := ha.eq_of_id htm ht htid
    exact ⟨Or.inl hname, hsign⟩

/-- **A correction past what is left is refused**, or it is one already accepted and does
nothing. -/
theorem recordAdjustment_refused (ha : LedgerOk a) {target : Entry} (ht : target ∈ a.ledger)
    {ctx : Ctx} {paise : ℤ} (hpos : 0 < paise)
    (hroom : a.reversibleInr target < ofPaise paise) :
    recordAdjustment ctx target.id paise a =
        .error (if target.delta = 0 then .entryMovedNothing else .adjustmentExceedsEntry) ∨
      (a.findEntryByRef .adjustment (adjustmentRef target.id (ofPaise paise))).isSome ∧
        recordAdjustment ctx target.id paise a = .ok ((), a) := by
  have hfind : Table.findKey Entry.id target.id a.ledger = some target := by
    refine Table.findKey_of_mem ?_ ht
    rw [List.Nodup, List.pairwise_map]
    exact ha.ids.imp fun hlt => by omega
  have hamount : ¬ ofPaise paise ≤ 0 := by
    unfold ofPaise
    omega
  by_cases hzero : target.delta = 0
  · left
    simp only [recordAdjustment, if_neg hamount, Tx.bind_error, Tx.get_ok,
      Tx.get_error, false_or, Tx.ofOption_ok, hzero, if_true]
    exact ⟨_, _, rfl, Or.inr ⟨target, _, ⟨target, hfind, rfl⟩, by
      rw [if_pos hzero]; exact Tx.throw_error.mpr rfl⟩⟩
  · by_cases hkey : (a.findEntryByRef .adjustment (adjustmentRef target.id (ofPaise paise))).isSome
    · right
      refine ⟨hkey, ?_⟩
      simp only [recordAdjustment, if_neg hamount, Tx.bind_ok, Tx.get_ok, Tx.ofOption_ok]
      refine ⟨_, _, rfl, target, _, ⟨target, hfind, rfl⟩, ?_⟩
      rw [if_neg hzero, if_pos hkey]
      exact Tx.pure_ok.mpr rfl
    · left
      simp only [recordAdjustment, if_neg hamount, Tx.bind_error, Tx.get_ok,
        Tx.get_error, false_or, Tx.ofOption_ok, hzero, if_false]
      refine ⟨_, _, rfl, Or.inr ⟨target, _, ⟨target, hfind, rfl⟩, ?_⟩⟩
      rw [if_neg hzero, if_neg hkey, if_pos hroom]
      exact Tx.throw_error.mpr rfl

/-- A restatement that adds nothing does nothing. -/
theorem restate_step_of_le {ctx : Ctx} {ref : String} {paise credited : ℤ}
    (hpaid : a.recordedPayment ref = some credited) (hle : ofPaise paise ≤ credited) :
    (Op.restate ctx ref paise).step a = a := by
  unfold Op.step
  cases htx : (Op.restate ctx ref paise).tx a with
  | error e => exact Tx.commit_of_error htx
  | ok r =>
    rw [Tx.commit_of_ok htx]
    simp only [Op.tx, recordRestatement, Tx.ite_ok, Tx.bind_ok, Tx.get_ok, Tx.ofOption_ok,
      Tx.throw_ok, Tx.pure_ok, and_false, false_or] at htx
    obtain ⟨-, _, _, h₁, _, _, ⟨_, hcredited, h₂⟩, h⟩ := htx
    cases h₁
    cases h₂
    rcases h with ⟨-, h⟩ | ⟨-, hincrease, -⟩
    · cases h
      rfl
    · rw [hpaid] at hcredited
      cases hcredited
      exact absurd hle hincrease

end Result

/-- **Corrections stay within the entry they correct.** In every reachable state and for every
entry of the ledger: its accepted corrections in the reversing direction, adjustments and
restatements alike, sum to no more than it moved; an adjustment that would pass that is
refused, unless it is one accepted before and delivered again, and leaves the account as it
was; and so does a restatement that would not raise its payment. -/
theorem corrections_within_entry (ops : List Op) :
    ∀ target ∈ (runOps ops {}).ledger,
      (runOps ops {}).reversingInr target ≤ |target.delta| ∧
      (∀ ctx paise, 0 < paise →
        |target.delta| < (runOps ops {}).reversingInr target + ofPaise paise →
        (recordAdjustment ctx target.id paise (runOps ops {}) =
            .error (if target.delta = 0 then .entryMovedNothing else .adjustmentExceedsEntry) ∨
          ((runOps ops {}).findEntryByRef .adjustment
              (adjustmentRef target.id (ofPaise paise))).isSome ∧
            recordAdjustment ctx target.id paise (runOps ops {}) = .ok ((), runOps ops {})) ∧
        (Op.adjust ctx target.id paise).step (runOps ops {}) = runOps ops {}) ∧
      ∀ ctx ref credited paise, (runOps ops {}).recordedPayment ref = some credited →
        ofPaise paise ≤ credited →
        (Op.restate ctx ref paise).step (runOps ops {}) = runOps ops {} := by
  obtain ⟨ha, hc⟩ := CorrectionsOk.run ops
  have hw := (wrote_of_run ops).2
  generalize runOps ops {} = a at ha hc hw
  intro target ht
  rw [hc.reversingInr_eq ha.ledger hw ht]
  refine ⟨hc.within target ht, fun ctx paise hpos hover => ?_, ?_⟩
  · have hroom : a.reversibleInr target < ofPaise paise := by
      have hamount : 0 < ofPaise paise := by
        unfold ofPaise
        omega
      unfold Account.reversibleInr
      omega
    have hout := @recordAdjustment_refused a ha.ledger target ht ctx paise hpos hroom
    refine ⟨hout, ?_⟩
    rcases hout with herr | ⟨-, hok⟩
    · exact Tx.commit_of_error (m := Op.tx (.adjust ctx target.id paise)) herr
    · exact Tx.commit_of_ok (m := Op.tx (.adjust ctx target.id paise)) hok
  · intro ctx ref credited paise hpaid hle
    exact restate_step_of_le hpaid hle

/-- A hundred rupees recorded, and sixty of them corrected. -/
def correctedOnce : List Op :=
  [.topup onePackCtx 10000 "utr-1" none, .adjust onePackCtx 0 6000]

theorem correctedOnce_ledger : (runOps correctedOnce {}).ledger ≠ [] := by decide +kernel

/-- Fifty more are refused: forty are left. -/
theorem corrections_within_entry_fifty_more :
    (Op.adjust onePackCtx ((runOps correctedOnce {}).ledger.head correctedOnce_ledger).id
      5000).step (runOps correctedOnce {}) = runOps correctedOnce {} :=
  ((corrections_within_entry correctedOnce _ (List.head_mem correctedOnce_ledger)).2.1
    onePackCtx 5000 (by decide) (by decide +kernel)).2

end Billing

end Calevate
