import Calevate.Billing.Helpers.Effects

/-!
# Helpers — the movements in figures

`Figures` says once what a movement can do: the rows it wrote, as their writer wrote them, and
what it took from each lot. `Movement.figures` proves it of every movement, and what a whole
run keeps (who wrote a row, which ids a row can name, that a lapsed lot stays empty) is then a
case for each.
-/

namespace Calevate

namespace Billing

open Lib

/-! ## Monotone columns -/

section Monotone

variable {a a' : Account}

theorem LotStep.mono (h : LotStep a a') : a.nextId ≤ a'.nextId ∧ a.clock ≤ a'.clock := by
  cases h with
  | still ledger lots clock nextId => exact ⟨nextId, clock⟩
  | row e ledger lots plain clock nextId => exact ⟨nextId, clock⟩
  | opened l ledger lots stamp later entry clock nextId => exact ⟨nextId, clock⟩
  | spent l l' swap terms less => exact ⟨swap.only.nextId, swap.only.clock⟩
  | restated l l' entryId swap terms purchase => exact ⟨swap.only.nextId, swap.only.clock⟩
  | resold l closed fresh e pair => exact ⟨pair.nextId, pair.clock⟩

/-- A lot is never dropped and keeps its terms; a lot that was not there is younger than every
id given out before. -/
def Keeps (a a' : Account) : Prop :=
  (∀ l ∈ a.lots, ∃ l' ∈ a'.lots, l'.terms = l.terms) ∧
    ∀ l' ∈ a'.lots, (∃ l ∈ a.lots, l'.terms = l.terms) ∨ a.nextId ≤ l'.id

theorem Replaces.keeps {l l' : Lot} (h : Replaces a a' l l') (hok : LotsOk a)
    (hterms : l'.terms = l.terms) : Keeps a a' := by
  refine ⟨fun k hk => ?_, fun k' hk' => Or.inl ?_⟩
  · by_cases hid : k.id = l.id
    · obtain rfl := List.inj_on_of_nodup_map hok.ids hk h.mem hid
      exact ⟨l', h.mem_new, hterms⟩
    · exact ⟨k, h.mem_of_ne hk hid, rfl⟩
  · rw [h.lots] at hk'
    rcases Table.mem_updateKey.mp hk' with ⟨hk, -⟩ | ⟨-, -, -, rfl⟩
    · exact ⟨k', hk, rfl⟩
    · exact ⟨l, h.mem, hterms⟩

theorem Resold.keeps {l closed fresh : Lot} {e : Entry} (h : Resold a a' l closed fresh e)
    (hok : LotsOk a) : Keeps a a' := by
  refine ⟨fun k hk => ?_, fun k' hk' => ?_⟩
  · by_cases hid : k.id = l.id
    · obtain rfl := List.inj_on_of_nodup_map hok.ids hk h.mem hid
      refine ⟨closed, ?_, h.terms⟩
      rw [h.lots]
      exact List.mem_append_left _ (Table.mem_updateKey.mpr (Or.inr ⟨k, hk, rfl, rfl⟩))
    · refine ⟨k, ?_, rfl⟩
      rw [h.lots]
      exact List.mem_append_left _ (Table.mem_updateKey.mpr (Or.inl ⟨hk, hid⟩))
  · rw [h.lots] at hk'
    rcases List.mem_append.mp hk' with hk' | hk'
    · rcases Table.mem_updateKey.mp hk' with ⟨hk, -⟩ | ⟨-, -, -, rfl⟩
      · exact Or.inl ⟨k', hk, rfl⟩
      · exact Or.inl ⟨l, h.mem, h.terms⟩
    · rw [List.mem_singleton.mp hk']
      exact Or.inr h.later

theorem LotStep.keeps (h : LotStep a a') (hok : LotsOk a) : Keeps a a' := by
  have hsame : a'.lots = a.lots → Keeps a a' := by
    intro hl
    unfold Keeps
    rw [hl]
    exact ⟨fun l hl => ⟨l, hl, rfl⟩, fun l hl => Or.inl ⟨l, hl, rfl⟩⟩
  cases h with
  | still ledger lots clock nextId => exact hsame lots
  | row e ledger lots plain clock nextId => exact hsame lots
  | opened l ledger lots stamp later entry clock nextId =>
    unfold Keeps
    rw [lots]
    refine ⟨fun k hk => ⟨k, List.mem_append_left _ hk, rfl⟩, fun k hk => ?_⟩
    rcases List.mem_append.mp hk with hk | hk
    · exact Or.inl ⟨k, hk, rfl⟩
    · rw [List.mem_singleton.mp hk]
      exact Or.inr later
  | spent l l' swap terms less => exact swap.keeps hok terms
  | restated l l' entryId swap terms purchase => exact swap.keeps hok terms
  | resold l closed fresh e pair => exact pair.keeps hok

/-- **Ids and the clock only grow, and lots only come.** -/
theorem LotSteps.keeps (ha : BooksOk a) (h : LotSteps a a') :
    (a.nextId ≤ a'.nextId ∧ a.clock ≤ a'.clock) ∧ Keeps a a' := by
  induction h with
  | refl => exact ⟨⟨le_refl _, le_refl _⟩, fun l hl => ⟨l, hl, rfl⟩, fun l hl => Or.inl ⟨l, hl, rfl⟩⟩
  | tail hfirst hlast ih =>
    obtain ⟨hmono, hfor, hback⟩ := ih
    have hm := hlast.2.mono
    obtain ⟨hfor', hback'⟩ := hlast.2.keeps (LotSteps.books hfirst ha).lots
    refine ⟨⟨hmono.1.trans hm.1, hmono.2.trans hm.2⟩, fun l hl => ?_, fun l hl => ?_⟩
    · obtain ⟨k, hk, hkt⟩ := hfor l hl
      obtain ⟨m, hmem, hmt⟩ := hfor' k hk
      exact ⟨m, hmem, hmt.trans hkt⟩
    · rcases hback' l hl with ⟨k, hk, hkt⟩ | hnew
      · rcases hback k hk with ⟨m, hmem, hmt⟩ | hnew
        · exact Or.inl ⟨m, hmem, hkt.trans hmt⟩
        · refine Or.inr ?_
          have : l.id = k.id := congrArg LotTerms.id hkt
          omega
      · exact Or.inr (hmono.1.trans hnew)

end Monotone

/-! ## The ids a row names -/

/-- Every lot and every entry the row names has an id below this one. -/
structure Entry.Below (e : Entry) (n : ℕ) : Prop where
  lot : ∀ i, e.entryMeta.lotId = some i → i < n
  corrects : ∀ i, e.entryMeta.correctsEntryId = some i → i < n
  splits : ∀ s ∈ e.entryMeta.lots, ∀ i, s.lotId = some i → i < n

theorem Entry.Below.mono {e : Entry} {m n : ℕ} (h : e.Below m) (hmn : m ≤ n) : e.Below n :=
  ⟨fun i hi => (h.lot i hi).trans_le hmn, fun i hi => (h.corrects i hi).trans_le hmn,
    fun s hs i hi => (h.splits s hs i hi).trans_le hmn⟩

section Names

variable {a a' : Account}

theorem consume_below {demand : LotDemand} {splits : List LotSplit} (ha : BooksOk a)
    (h : consume demand a = .ok (splits, a')) :
    ∀ s ∈ splits, ∀ i, s.lotId = some i → i < a'.nextId := by
  intro s hs i hi
  obtain ⟨l, hl, rfl⟩ := consume_names ha h s hs i hi
  exact (ha.lots.ids_lt l hl).trans_le (LotSteps.keeps ha (consume_steps ha h)).1.1

theorem RemovalPath.below {lot : Option Lot} {amount : ℤ} {r : CreditRemoval}
    (h : RemovalPath a a' lot amount r) (ha : BooksOk a) (hpos : 0 < amount) :
    ∀ s ∈ r.splits, ∀ i, s.lotId = some i → i < a'.nextId := by
  cases h with
  | lapsed lapse a₁ pos figure given rest =>
    obtain ⟨-, -, rows, heff, -⟩ := restateLapseOf_effect ha hpos given
    rcases rest with ⟨-, hs, -⟩ | ⟨-, hcons⟩
    · rw [hs]
      simp
    · exact consume_below heff.books hcons
  | own l found none small figure restated a₁ swap rest =>
    obtain ⟨-, -, -, -, -, hb, -⟩ := adjustLot_swap ha swap
    rcases rest with ⟨-, hs, -⟩ | ⟨-, hcons⟩
    · rw [hs]
      simp
    · exact consume_below hb hcons
  | queue none large figure debit => exact consume_below ha debit

theorem recordUsageFromLots_below {ref : String} {demand : LotDemand} {extra : ℚ} {neg : Bool}
    {kind : UsageKind} {r : LotDebit} (ha : BooksOk a)
    (h : recordUsageFromLots ref demand extra neg kind a = .ok (r, a')) :
    ∀ s ∈ r.splits, ∀ i, s.lotId = some i → i < a'.nextId := by
  unfold recordUsageFromLots at h
  obtain ⟨_, _, hget, h⟩ := Tx.bind_ok.mp h
  cases Tx.get_ok.mp hget
  rcases Tx.ite_ok.mp h with ⟨-, h⟩ | ⟨-, h⟩
  · cases Tx.pure_ok.mp h
    simp
  · obtain ⟨calls, a₁, hcalls, h⟩ := Tx.bind_ok.mp h
    obtain ⟨extras, a₂, hextras, h⟩ := Tx.bind_ok.mp h
    have h₁ := consume_steps ha hcalls
    have hb₁ := h₁.books ha
    have h₂ := consumeExtra_steps hb₁ hextras
    have hcallsBelow := consume_below ha hcalls
    have hextrasBelow : ∀ s ∈ extras, ∀ i, s.lotId = some i → i < a₂.nextId := by
      unfold consumeExtra at hextras
      rcases Tx.ite_ok.mp hextras with ⟨-, hextras⟩ | ⟨-, hextras⟩
      · exact consume_below hb₁ hextras
      · cases Tx.pure_ok.mp hextras
        simp
    have hmono := (LotSteps.keeps hb₁ h₂).1.1
    rcases Tx.ite_ok.mp h with ⟨-, h⟩ | ⟨-, h⟩
    · cases Tx.pure_ok.mp h
      simp
    · obtain ⟨_, a₃, hrec, h⟩ := Tx.bind_ok.mp h
      cases Tx.pure_ok.mp h
      have hrow := recordEntry_steps (LotSteps.books (h₁.trans h₂) ha) kind.metaKind_ne.1 hrec
      have hlast := (LotSteps.keeps (LotSteps.books (h₁.trans h₂) ha) hrow).1.1
      intro s hs i hi
      rcases List.mem_append.mp hs with hs | hs
      · have := hcallsBelow s hs i hi
        omega
      · have := hextrasBelow s hs i hi
        omega

end Names

/-! ## One movement -/

/-- **A movement in figures**: the rows it wrote, as their writer wrote them, and what it took
from each lot. -/
inductive Figures (a a' : Account) : Prop
  | idle (effect : Effect a a' [] fun _ => 0)
  | inflow (w : Inflow) (amountInr got : ℤ) (target : ℕ) (e : Entry) (a₁ : Account)
      (allowed : w.Allowed a amountInr)
      (row : e.Carries amountInr w.reason (some w.ref) w.rowMeta) (id : e.id = a.nextId)
      (steps : LotSteps a a₁) (ledger : a₁.ledger = a.ledger ++ [e]) (lots : a₁.lots = a.lots)
      (within : 0 ≤ got ∧ got ≤ max amountInr 0)
      (effect : Effect a a' [e] fun i => if i = target then -got else 0)
      (lands : 0 < got → a.nextId < target ∧ (∀ k ∈ a.lots, k.id ≠ target) ∧
          (∀ k ∈ a'.lots, k.id = target → k.ledgerEntryId = e.id) ∨
        ∃ l, w.restates a₁ = some l ∧ target = l.id ∧
          ∀ k, a₁.readLot l.id = some k → a₁.lapsed k = false)
  | outflow (w : Outflow) (amountInr : ℤ) (pos : 0 < amountInr) (allowed : w.Allowed a amountInr)
      (removal : CreditRemoval) (e : Entry) (rows : List Entry)
      (row : e.Carries (-amountInr) w.reason (some w.ref) (w.rowMeta removal))
      (names : ∀ s ∈ removal.splits, ∀ i, s.lotId = some i → i < a'.nextId)
      (nonneg : ∀ s ∈ removal.splits, 0 ≤ s.credits)
      (figure : removal.expiryRestatedInr =
        max (min amountInr (a.unrestated (a.correctedLot (w.reverses a)))) 0)
      (total : amountInr = removal.expiryRestatedInr +
        a.fromOwnLot (a.correctedLot (w.reverses a)) amountInr + creditsOf removal.splits)
      (effect : Effect a a' (rows ++ [e]) fun i => ownTake (a.correctedLot (w.reverses a))
        (a.fromOwnLot (a.correctedLot (w.reverses a)) amountInr) i + splitsOf removal.splits i)
      (lapse : (rows = [] ∧ removal.expiryRestatedInr = 0) ∨
        ∃ l f, a.correctedLot (w.reverses a) = some l ∧ rows = [f] ∧
          0 < removal.expiryRestatedInr ∧ f.RestatesLapse l.id removal.expiryRestatedInr)
  | usage (ref : String) (splits : List LotSplit) (kind : UsageKind) (e : Entry)
      (pos : 0 < creditsOf splits)
      (row : e.Carries (-creditsOf splits) .usage (some ref)
        { kind := kind.metaKind, lots := splits })
      (names : ∀ s ∈ splits, ∀ i, s.lotId = some i → i < a'.nextId)
      (nonneg : ∀ s ∈ splits, 0 ≤ s.credits) (effect : Effect a a' [e] (splitsOf splits))
  | expiry (l : Lot) (e : Entry) (mem : l ∈ a.lots) (pos : 0 < l.creditsRemaining)
      (dated : l.expiresAt ≠ none)
      (free : a.findEntryByRef .adjustment (creditExpiryRef l.id) = none)
      (row : e.Carries (-l.creditsRemaining) .adjustment (some (creditExpiryRef l.id))
        { kind := some .creditExpiry, lotId := some l.id })
      (effect : Effect a a' [e] fun i => if i = l.id then l.creditsRemaining else 0)
  | resold (l closed fresh : Lot) (e : Entry) (packId : String)
      (ref : e.ref = some (lotRepriceRef l.id packId)) (pair : Resold a a' l closed fresh e)
      (only : e.entryMeta.lots = [] ∧ e.entryMeta.correctsEntryId = none ∧
        e.entryMeta.expiryRestatedInr = none)
      (effect : Effect a a' [e] fun i => if i = l.id then l.creditsRemaining
        else if i = fresh.id then -l.creditsRemaining else 0)

theorem Movement.figures {a a' : Account} (ha : BooksOk a) (h : Movement a a') :
    Figures a a' := by
  have hb := h.books ha
  cases h with
  | inflow w amount neg zero allowed b a₁ row written found ctx rates source packId overrideId r
      lot =>
    rcases inflow_effect ha row found lot with
      rfl | ⟨e, got, target, hrow, hid, hledger, hlots, hgot, hmax, heff, hlands⟩
    · exact .idle (Effect.refl ha)
    · exact .inflow w amount got target e a₁ allowed hrow hid
        (recordEntry_steps ha w.kind_ne row) hledger hlots ⟨hgot, hmax⟩ heff hlands
  | outflow w amount pos allowed removal a₁ lots b row =>
    have hpath := removeCreditFromLots_path ha pos lots
    obtain ⟨hfig, htotal, rows, heff, hrows⟩ := removeCreditFromLots_effect ha pos lots
    have hrow := recordEntry_effect heff.books (by omega) row
    have hmono := (LotSteps.keeps heff.books (recordEntry_steps heff.books (w.kind_ne removal) row)).1.1
    exact .outflow w amount pos allowed removal _ rows ⟨rfl, rfl, rfl, rfl⟩
      (fun s hs i hi => (hpath.below ha pos s hs i hi).trans_le hmono) (hpath.splits_nonneg ha pos)
      hfig htotal ((heff.trans hrow).congr rfl (by simp)) hrows
  | usage ref demand extra neg kind r charge =>
    rcases recordUsageFromLots_effect ha charge with heff | ⟨e, heff, hnn, hpos, hrow⟩
    · exact .idle heff
    · exact .usage ref r.splits kind e hpos hrow (recordUsageFromLots_below ha charge) hnn heff
  | expiry lotId now r lapse =>
    rcases expireLot_effect ha lapse with
      rfl | ⟨l, hl, e, rfl, hpos, hdated, hfree, hrow, heff⟩
    · exact .idle (Effect.refl ha)
    · exact .expiry l e hl hpos hdated hfree hrow heff
  | reprice ctx lotId pack r sale =>
    rcases repriceLot_resold ha sale with
      ⟨-, rfl⟩ | ⟨l, closed, fresh, e, hpair, rfl, -, -, href, honly, -⟩
    · exact .idle (Effect.refl ha)
    · exact .resold l closed fresh e pack.packId href hpair honly (hpair.effect ha hb)
  | beside ledger lots clock nextId =>
    refine .idle ⟨hb, by rw [ledger, List.append_nil], fun i => ?_⟩
    rw [remainingOf_of_lots_eq lots, sub_zero]

/-- A movement appends to the ledger. -/
theorem Figures.ledger_grows {a a' : Account} (h : Figures a a') : a.ledger <+: a'.ledger := by
  cases h with
  | idle effect => exact ⟨_, effect.ledger.symm⟩
  | inflow w amount got target e a₁ allowed row id steps ledger lots within effect lands =>
    exact ⟨_, effect.ledger.symm⟩
  | outflow w amount pos allowed removal e rows row names nonneg figure total effect lapse =>
    exact ⟨_, effect.ledger.symm⟩
  | usage ref splits kind e pos row names nonneg effect => exact ⟨_, effect.ledger.symm⟩
  | expiry l e mem pos dated free row effect => exact ⟨_, effect.ledger.symm⟩
  | resold l closed fresh e packId ref pair only effect => exact ⟨_, effect.ledger.symm⟩

/-- **Every movement of a run, in figures.** What each keeps, the run keeps. -/
theorem runOps_figures {Inv : Account → Prop}
    (hstep : ∀ a a', BooksOk a → Movement a a' → Figures a a' → Inv a → Inv a')
    {a : Account} (ha : BooksOk a) (h : Inv a) (ops : List Op) :
    BooksOk (runOps ops a) ∧ Inv (runOps ops a) := by
  refine @runOps_inv (fun s => BooksOk s ∧ Inv s) ?_ a ⟨ha, h⟩ ops
  rintro s s' hm ⟨hs, hinv⟩
  exact ⟨hm.books hs, hstep s s' hs hm (hm.figures hs) hinv⟩

/-! ## Who wrote a row -/

/-- A row as its writer wrote it. -/
inductive Entry.Wrote (e : Entry) : Prop
  | inflow (w : Inflow) (amountInr : ℤ) (sign : 0 ≤ amountInr)
      (paid : w.reason ≠ .adjustment → 0 < amountInr)
      (row : e.Carries amountInr w.reason (some w.ref) w.rowMeta)
  | outflow (w : Outflow) (amountInr : ℤ) (pos : 0 < amountInr) (removal : CreditRemoval)
      (within : removal.expiryRestatedInr ≤ amountInr)
      (row : e.Carries (-amountInr) w.reason (some w.ref) (w.rowMeta removal))
  | usage (ref : String) (splits : List LotSplit) (kind : UsageKind) (pos : 0 < creditsOf splits)
      (row : e.Carries (-creditsOf splits) .usage (some ref)
        { kind := kind.metaKind, lots := splits })
      (nonneg : ∀ s ∈ splits, 0 ≤ s.credits)
  | expiry (lotId : ℕ) (amountInr : ℤ) (pos : 0 < amountInr)
      (row : e.Carries (-amountInr) .adjustment (some (creditExpiryRef lotId))
        { kind := some .creditExpiry, lotId := some lotId })
  | restatedLapse (lotId : ℕ) (amountInr : ℤ) (pos : 0 < amountInr)
      (row : e.RestatesLapse lotId amountInr)
  | marker (lotId : ℕ) (packId : String) (marks : e.Marks lotId) (delta : e.delta = 0)
      (ref : e.ref = some (lotRepriceRef lotId packId))
      (unrestated : e.entryMeta.expiryRestatedInr = none)

/-- No hold is met from more lapsed credit than it took. -/
theorem Entry.Wrote.held_nonneg {e : Entry} (h : e.Wrote) : 0 ≤ e.heldAmount := by
  have hplain : e.entryMeta.expiryRestatedInr = none → 0 ≤ e.heldAmount := by
    intro hnone
    unfold Entry.heldAmount
    rw [hnone]
    simp
  cases h with
  | inflow w amount sign paid row =>
    apply hplain
    rw [row.2.2.2]
    cases w <;> rfl
  | outflow w amount pos removal within row =>
    cases w with
    | hold facts =>
      unfold Entry.heldAmount
      rw [row.1, row.2.2.2]
      simp only [Outflow.rowMeta, abs_neg, abs_of_pos pos]
      split
      · simp only [Option.getD_some]
        omega
      · simp only [Option.getD_none]
        omega
    | refund event =>
      apply hplain
      rw [row.2.2.2]
      rfl
    | clawback event grant =>
      apply hplain
      rw [row.2.2.2]
      rfl
    | correction target x =>
      apply hplain
      rw [row.2.2.2]
      rfl
  | usage ref splits kind pos row =>
    apply hplain
    rw [row.2.2.2]
  | expiry lotId amount pos row =>
    apply hplain
    rw [row.2.2.2]
  | restatedLapse lotId amount pos row =>
    obtain ⟨fresh, -, hrow⟩ := row
    apply hplain
    rw [hrow.2.2.2]
  | marker lotId packId marks delta ref unrestated => exact hplain unrestated

/-- What arrives is not less than nothing, and only a release may be nothing. -/
theorem Inflow.Allowed.sign {a : Account} {w : Inflow} {amount : ℤ} (h : w.Allowed a amount)
    (ha : BooksOk a) (hall : ∀ e ∈ a.ledger, e.Wrote) :
    0 ≤ amount ∧ (w.reason ≠ .adjustment → 0 < amount) := by
  cases w with
  | release disputeId suffix paymentId =>
    -- what is given back is what the hold took
    obtain ⟨held, rfl, hfind⟩ := h
    have hmem := ((findEntryByRef_some_iff ha.ledger).mp hfind).1
    exact ⟨(hall held hmem).held_nonneg, fun hne => absurd rfl hne⟩
  | correction target x =>
    obtain ⟨rfl, hpos, -⟩ := h
    exact ⟨hpos.le, fun _ => hpos⟩
  | topup ref => exact ⟨le_of_lt h, fun _ => h⟩
  | packBonus paymentId => exact ⟨le_of_lt h, fun _ => h⟩
  | grant reference => exact ⟨le_of_lt h, fun _ => h⟩
  | restatement paymentRef corrected => exact ⟨le_of_lt h, fun _ => h⟩

/-- **Every row has one of the writers**, if those already there have. -/
theorem Figures.wrote {a a' : Account} (h : Figures a a') (ha : BooksOk a)
    (hall : ∀ e ∈ a.ledger, e.Wrote) :
    ∃ rows, a'.ledger = a.ledger ++ rows ∧ ∀ e ∈ rows, e.Wrote := by
  have hone : ∀ {e : Entry}, e.Wrote → ∀ f ∈ [e], f.Wrote := by
    intro e he f hf
    rwa [List.mem_singleton.mp hf]
  cases h with
  | idle effect => exact ⟨[], effect.ledger, by simp⟩
  | inflow w amount got target e a₁ allowed row id steps ledger lots within effect lands =>
    have hsign := allowed.sign ha hall
    exact ⟨[e], effect.ledger, hone (.inflow w amount hsign.1 hsign.2 row)⟩
  | outflow w amount pos allowed removal e rows row names nonneg figure total effect lapse =>
    refine ⟨rows ++ [e], effect.ledger, fun f hf => ?_⟩
    rcases List.mem_append.mp hf with hf | hf
    · rcases lapse with ⟨rfl, -⟩ | ⟨l, g, -, rfl, hpos, hg⟩
      · cases hf
      · rw [List.mem_singleton.mp hf]
        exact .restatedLapse l.id _ hpos hg
    · rw [List.mem_singleton.mp hf]
      exact .outflow w amount pos removal (by omega) row
  | usage ref splits kind e pos row names nonneg effect =>
    exact ⟨[e], effect.ledger, hone (.usage ref splits kind pos row nonneg)⟩
  | expiry l e mem pos dated free row effect =>
    exact ⟨[e], effect.ledger, hone (.expiry l.id _ pos row)⟩
  | resold l closed fresh e packId ref pair only effect =>
    exact ⟨[e], effect.ledger, hone (.marker l.id packId pair.marks pair.delta ref only.2.2)⟩

/-- Every row of every reachable ledger has one of the writers. -/
theorem wrote_of_run (ops : List Op) :
    BooksOk (runOps ops {}) ∧ ∀ e ∈ (runOps ops {}).ledger, e.Wrote := by
  refine @runOps_figures (fun a => ∀ e ∈ a.ledger, e.Wrote) ?_ {} booksOk_empty (by simp) ops
  intro a a' ha _ hf hall
  obtain ⟨rows, hledger, hrows⟩ := hf.wrote ha hall
  rw [hledger]
  intro e he
  rcases List.mem_append.mp he with he | he
  · exact hall e he
  · exact hrows e he

end Billing

end Calevate
