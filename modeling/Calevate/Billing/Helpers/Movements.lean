import Calevate.Billing.Wallet
import Mathlib.Logic.Relation

/-!
# Helpers — the movements

Every operation of the wallet is a handful of movements: a row and the lots it credits, lots
taken back and the row that says so, a charge, a lapse, a re-price, or a write that leaves
both books alone. `Op.movements` cuts each operation into them once, with the writer's own
row and with what it checked first, and the later results about runs are proved one movement
at a time.
-/

namespace Calevate

namespace Billing

open Lib

/-! ## Writers that add credit -/

/-- A writer that adds credit, by what its row is keyed under. -/
inductive Inflow
  | topup (ref : String)
  | packBonus (paymentId : String)
  | grant (reference : String)
  | correction (target : Entry) (amountInr : ℤ)
  | restatement (paymentRef : String) (correctedInr : ℤ)
  | release (disputeId suffix paymentId : String)

namespace Inflow

/-- The reason of its row. -/
def reason : Inflow → CreditReason
  | .topup _ => .topup
  | .packBonus _ => .bonus
  | .grant _ => .grant
  | .correction _ _ => .adjustment
  | .restatement _ _ => .topup
  | .release _ _ _ => .adjustment

/-- The reference of its row. -/
def ref : Inflow → String
  | .topup ref => ref
  | .packBonus paymentId => paymentId
  | .grant reference => grantRef reference
  | .correction target amount => adjustmentRef target.id amount
  | .restatement paymentRef corrected => restatementRef paymentRef corrected
  | .release disputeId suffix _ => disputeReleaseRef disputeId suffix

/-- The meta of its row. -/
def rowMeta : Inflow → EntryMeta
  | .topup _ => {}
  | .packBonus _ => { kind := some .creditPackBonus }
  | .grant _ => { kind := some .operatorGrant }
  | .correction target _ => { kind := some .operatorAdjustment, correctsEntryId := some target.id }
  | .restatement paymentRef _ => { kind := some .topupRestatement, paymentRef := some paymentRef }
  | .release _ _ paymentId => { kind := some .disputeRelease, paymentRef := some paymentId }

/-- The lot it restates: the one that holds the payment's purchase now. -/
def restates (b : Account) : Inflow → Option Lot
  | .restatement paymentRef _ => (b.findTopup paymentRef).bind fun e => b.purchaseLotOfEntry e.id
  | .release _ _ paymentId => (b.findTopup paymentId).bind fun e => b.purchaseLotOfEntry e.id
  | _ => none

/-- What the writer has checked before it writes. -/
def Allowed (a : Account) (amountInr : ℤ) : Inflow → Prop
  | .correction target amount => amount = amountInr ∧ 0 < amount ∧ target ∈ a.ledger ∧
      target.delta < 0 ∧ amount ≤ a.reversibleInr target
  | .release disputeId suffix _ => ∃ held, amountInr = held.heldAmount ∧
      a.findEntryByRef .adjustment (disputeHoldRef disputeId suffix) = some held
  | _ => 0 < amountInr

end Inflow

/-! ## Writers that take credit back -/

/-- A writer that takes credit back, by what it reverses. -/
inductive Outflow
  | refund (event : RefundEvent)
  | clawback (event : RefundEvent) (grant : Entry)
  | correction (target : Entry) (amountInr : ℤ)
  | hold (facts : DisputeFacts)

namespace Outflow

/-- The reason of its row. -/
def reason : Outflow → CreditReason
  | .refund _ => .refund
  | .clawback _ _ => .bonus
  | .correction _ _ => .adjustment
  | .hold _ => .adjustment

/-- The reference of its row. -/
def ref : Outflow → String
  | .refund event => event.refundId
  | .clawback event _ => event.refundId
  | .correction target amount => adjustmentRef target.id amount
  | .hold facts => disputeHoldRef facts.disputeId facts.ownRound

/-- The meta of its row. -/
def rowMeta (removal : CreditRemoval) : Outflow → EntryMeta
  | .refund event => { paymentRef := some event.paymentId, lots := removal.splits }
  | .clawback event _ =>
    { kind := some .creditPackBonusClawback, paymentRef := some event.paymentId,
      lots := removal.splits }
  | .correction target _ =>
    { kind := some .operatorAdjustment, correctsEntryId := some target.id,
      lots := removal.splits }
  | .hold facts =>
    { kind := some .disputeHold, paymentRef := some facts.paymentId, lots := removal.splits,
      expiryRestatedInr :=
        if 0 < removal.expiryRestatedInr then some removal.expiryRestatedInr else none }

/-- The entry it reverses, where the wallet has one. -/
def reverses (a : Account) : Outflow → Option ℕ
  | .refund event => (a.findTopup event.paymentId).map Entry.id
  | .clawback _ grant => some grant.id
  | .correction target _ => some target.id
  | .hold facts => (a.findTopup facts.paymentId).map Entry.id

/-- What the writer has checked before it writes. -/
def Allowed (a : Account) (amountInr : ℤ) : Outflow → Prop
  | .refund event => amountInr = event.amountInr
  | .clawback event grant => a.findEntryByRef .bonus event.paymentId = some grant
  | .correction target amount => amount = amountInr ∧ target ∈ a.ledger ∧ 0 < target.delta ∧
      amount ≤ a.reversibleInr target
  | .hold facts => amountInr = facts.amountInr

end Outflow

/-! ## One movement -/

/-- **What an operation is made of.** -/
inductive Movement (a a' : Account) : Prop
  | inflow (w : Inflow) (amountInr : ℤ) (neg zero : Bool) (allowed : w.Allowed a amountInr)
      (b : Balance) (a₁ : Account)
      (row : recordEntry amountInr w.reason (some w.ref) w.rowMeta neg zero a = .ok (b, a₁))
      (written : Entry) (found : a₁.findEntryByRef w.reason w.ref = some written)
      (ctx : Ctx) (rates : LotRates) (source : LotSource) (packId overrideId : Option String)
      (r : CreditedLot)
      (lot : applyCreditToLots ctx amountInr b.amountInr rates source packId written.id
        ((w.restates a₁).map Lot.id) overrideId a₁ = .ok (r, a'))
  | outflow (w : Outflow) (amountInr : ℤ) (pos : 0 < amountInr) (allowed : w.Allowed a amountInr)
      (removal : CreditRemoval) (a₁ : Account)
      (lots : removeCreditFromLots (w.reverses a) amountInr a = .ok (removal, a₁)) (b : Balance)
      (row : recordEntry (-amountInr) w.reason (some w.ref) (w.rowMeta removal) true false a₁ =
        .ok (b, a'))
  | usage (ref : String) (demand : LotDemand) (extraInr : ℚ) (neg : Bool) (kind : UsageKind)
      (r : LotDebit) (charge : recordUsageFromLots ref demand extraInr neg kind a = .ok (r, a'))
  | expiry (lotId now : ℕ) (r : Option ℤ) (lapse : expireLot lotId now a = .ok (r, a'))
  | reprice (ctx : Ctx) (lotId : ℕ) (pack : CreditPack) (r : Option RepricedLot)
      (sale : repriceLot ctx lotId pack a = .ok (r, a'))
  | beside (ledger : a'.ledger = a.ledger) (lots : a'.lots = a.lots) (clock : a.clock ≤ a'.clock)
      (nextId : a'.nextId = a.nextId)

/-- A run of movements. -/
abbrev Movements : Account → Account → Prop := Relation.ReflTransGen Movement

theorem Movements.one {a a' : Account} (h : Movement a a') : Movements a a' :=
  Relation.ReflTransGen.single h

theorem Movements.setDisputes (a : Account) (disputes : List Dispute) :
    Movements a (a.setDisputes disputes) :=
  Movements.one (.beside rfl rfl (le_refl _) rfl)

section Operations

variable {a a' : Account} {ctx : Ctx} {u : Unit}

/-! ## Payments and grants -/

theorem recordTopup_movements {paise : ℤ} {ref : String} {ratesOf : Option String}
    (h : recordTopup ctx paise ref ratesOf a = .ok (u, a')) : Movements a a' := by
  unfold recordTopup at h
  rcases Tx.ite_ok.mp h with ⟨-, h⟩ | ⟨hpos, h⟩
  · exact (Tx.throw_ok.mp h).elim
  · obtain ⟨override, _, hov, h⟩ := Tx.bind_ok.mp h
    obtain rfl := overridePack_ok hov
    obtain ⟨_, _, hget, h⟩ := Tx.bind_ok.mp h
    cases Tx.get_ok.mp hget
    cases hfind : a.findTopup ref with
    | some existing =>
      simp only [hfind] at h
      rcases Tx.ite_ok.mp h with ⟨-, h⟩ | ⟨-, h⟩
      · obtain rfl := refuseConflictingOverride_ok h
        exact .refl
      · exact (Tx.throw_ok.mp h).elim
    | none =>
      simp only [hfind, creditTopup, Tx.bind_ok, Tx.get_ok, Tx.ofOption_ok, Tx.pure_ok] at h
      obtain ⟨_, _, ⟨b, a₁, hrow, _, _, h₁, written, _, ⟨_, hw, h₂⟩, hlot⟩, h₃⟩ := h
      cases h₁
      cases h₂
      cases h₃
      exact Movements.one (.inflow (.topup ref) _ _ _ (by simpa [Inflow.Allowed] using hpos) b a₁
        hrow written hw _ _ _ _ _ _ hlot)

theorem grantPackBonus_movements {paymentId : String} {pack : CreditPack}
    (h : grantPackBonus ctx paymentId pack a = .ok (u, a')) : Movements a a' := by
  unfold grantPackBonus at h
  rcases Tx.ite_ok.mp h with ⟨-, h⟩ | ⟨hpos, h⟩
  · cases Tx.pure_ok.mp h
    exact .refl
  · obtain ⟨_, _, hget, h⟩ := Tx.bind_ok.mp h
    cases Tx.get_ok.mp hget
    rcases Tx.ite_ok.mp h with ⟨-, h⟩ | ⟨-, h⟩
    · cases Tx.pure_ok.mp h
      exact .refl
    · simp only [Tx.bind_ok, Tx.get_ok, Tx.ofOption_ok, Tx.pure_ok] at h
      obtain ⟨b, a₁, hrow, _, _, h₁, written, _, ⟨_, hw, h₂⟩, _, _, hlot, h₃⟩ := h
      cases h₁
      cases h₂
      cases h₃
      exact Movements.one (.inflow (.packBonus paymentId) _ _ _
        (by simpa [Inflow.Allowed] using hpos) b a₁ hrow written hw _ _ _ _ _ _ hlot)

theorem creditCapturedPayment_movements {payment : CapturedPayment}
    (h : creditCapturedPayment ctx payment a = .ok (u, a')) : Movements a a' := by
  unfold creditCapturedPayment at h
  obtain ⟨_, _, hget, h⟩ := Tx.bind_ok.mp h
  cases Tx.get_ok.mp hget
  cases hfind : a.findTopup payment.paymentId with
  | some existing =>
    simp only [hfind] at h
    rcases Tx.ite_ok.mp h with ⟨-, h⟩ | ⟨-, h⟩
    · cases Tx.pure_ok.mp h
      exact .refl
    · exact (Tx.throw_ok.mp h).elim
  | none =>
    simp only [hfind, creditNewPayment, Tx.bind_ok, Tx.get_ok, Tx.ofOption_ok] at h
    obtain ⟨b, a₁, hrow, _, _, h₁, written, _, ⟨_, hw, h₂⟩, _, a₂, hlot, h⟩ := h
    cases h₁
    cases h₂
    have hpaid : Movements a a₂ := Movements.one (.inflow (.topup payment.paymentId) _ _ _
      (paiseToInr_pos payment.paise) b a₁ hrow written hw _ _ _ _ _ _ hlot)
    cases hpack : ctx.card.packPaidFor payment.packId (paiseToInr payment.paise) with
    | none =>
      rw [hpack] at h
      cases Tx.pure_ok.mp h
      exact hpaid
    | some pack =>
      rw [hpack] at h
      exact hpaid.trans (grantPackBonus_movements h)

theorem recordGrant_movements {paise : ℤ} {confirmation : Option ℤ} {reference : String}
    (h : recordGrant ctx paise confirmation reference a = .ok (u, a')) : Movements a a' := by
  unfold recordGrant at h
  obtain ⟨_, _, hcheck, h⟩ := Tx.bind_ok.mp h
  obtain ⟨rfl, hmin⟩ := checkGrantAmount_ok hcheck
  obtain ⟨_, _, hget, h⟩ := Tx.bind_ok.mp h
  cases Tx.get_ok.mp hget
  cases hfind : a.findEntryByRef .grant (grantRef reference) with
  | some existing =>
    simp only [hfind] at h
    rcases Tx.ite_ok.mp h with ⟨-, h⟩ | ⟨-, h⟩
    · cases Tx.pure_ok.mp h
      exact .refl
    · exact (Tx.throw_ok.mp h).elim
  | none =>
    simp only [hfind, Tx.bind_ok, Tx.get_ok, Tx.ofOption_ok, Tx.pure_ok] at h
    obtain ⟨b, a₁, hrow, _, _, h₁, written, _, ⟨_, hw, h₂⟩, _, _, hlot, h₃⟩ := h
    cases h₁
    cases h₂
    cases h₃
    have hpos : 0 < ofPaise paise := by
      unfold ofPaise
      omega
    exact Movements.one (.inflow (.grant reference) _ _ _ hpos b a₁ hrow written hw _ _ _ _ _ _
      hlot)

/-! ## Corrections -/

theorem recordAdjustment_movements {entryId : ℕ} {paise : ℤ}
    (h : recordAdjustment ctx entryId paise a = .ok (u, a')) : Movements a a' := by
  unfold recordAdjustment at h
  simp only [Tx.ite_ok, Tx.bind_ok, Tx.get_ok, Tx.ofOption_ok, Tx.throw_ok, Tx.pure_ok,
    and_false, false_or] at h
  obtain ⟨hpos, _, _, h₁, target, _, ⟨_, htarget, h₂⟩, hmoved, h⟩ := h
  cases h₁
  cases h₂
  obtain ⟨hmem, -⟩ := Table.findKey_some htarget
  rcases h with ⟨-, h⟩ | ⟨-, hroom, h⟩
  · cases h
    exact .refl
  · unfold writeAdjustment at h
    rcases Tx.ite_ok.mp h with ⟨hup, h⟩ | ⟨hdown, h⟩
    · simp only [Tx.bind_ok, Tx.pure_ok] at h
      obtain ⟨removal, a₁, hlots, _, _, hrow, h₃⟩ := h
      cases h₃
      exact Movements.one (.outflow (.correction target (ofPaise paise)) _ (by omega)
        ⟨rfl, hmem, hup, by omega⟩ removal a₁ hlots _ hrow)
    · simp only [Tx.bind_ok, Tx.get_ok, Tx.ofOption_ok, Tx.pure_ok] at h
      obtain ⟨b, a₁, hrow, _, _, h₃, written, _, ⟨_, hw, h₄⟩, _, _, hlot, h₅⟩ := h
      cases h₃
      cases h₄
      cases h₅
      exact Movements.one (.inflow (.correction target (ofPaise paise)) _ _ _
        ⟨rfl, by omega, hmem, by omega, by omega⟩ b a₁ hrow written hw _ _ _ _ _ _ hlot)

theorem recordRestatement_movements {paymentRef : String} {paise : ℤ}
    (h : recordRestatement ctx paymentRef paise a = .ok (u, a')) : Movements a a' := by
  unfold recordRestatement at h
  simp only [Tx.ite_ok, Tx.bind_ok, Tx.get_ok, Tx.ofOption_ok, Tx.throw_ok, Tx.pure_ok,
    and_false, false_or] at h
  obtain ⟨-, _, _, h₁, credited, _, ⟨_, -, h₂⟩, h⟩ := h
  cases h₁
  cases h₂
  rcases h with ⟨-, h⟩ | ⟨-, hincrease, h⟩
  · cases h
    exact .refl
  · simp only [writeRestatement, Tx.bind_ok, Tx.get_ok, Tx.ofOption_ok, Tx.pure_ok] at h
    obtain ⟨b, a₁, hrow, _, _, h₃, written, _, ⟨_, hw, h₄⟩, anchor, _, ⟨_, hanchor, h₅⟩, _, _,
      hlot, h₆⟩ := h
    cases h₃
    cases h₄
    cases h₅
    cases h₆
    have hrest : (Inflow.restatement paymentRef (ofPaise paise)).restates a₁ =
        a₁.purchaseLotOfEntry anchor.id := by
      simp only [Inflow.restates, hanchor, Option.bind_some]
    rw [← hrest] at hlot
    have hpos : 0 < ofPaise paise - credited := by omega
    exact Movements.one (.inflow (.restatement paymentRef (ofPaise paise)) _ _ _ hpos b a₁ hrow
      written hw _ _ _ _ _ _ hlot)

/-! ## Refunds -/

theorem clawBackPackBonus_movements {refund : RefundEvent}
    (h : clawBackPackBonus refund a = .ok (u, a')) : Movements a a' := by
  unfold clawBackPackBonus at h
  obtain ⟨_, _, hget, h⟩ := Tx.bind_ok.mp h
  cases Tx.get_ok.mp hget
  cases hpaid : a.findTopup refund.paymentId with
  | none =>
    simp only [hpaid] at h
    cases Tx.pure_ok.mp h
    exact .refl
  | some paid =>
    cases hgrant : a.findEntryByRef .bonus refund.paymentId with
    | none =>
      simp only [hpaid, hgrant] at h
      cases Tx.pure_ok.mp h
      exact .refl
    | some grant =>
      simp only [hpaid, hgrant] at h
      rcases Tx.ite_ok.mp h with ⟨-, h⟩ | ⟨hdue, h⟩
      · cases Tx.pure_ok.mp h
        exact .refl
      · simp only [writeClawback, Tx.bind_ok, Tx.pure_ok] at h
        obtain ⟨removal, a₁, hlots, _, _, hrow, h₁⟩ := h
        cases h₁
        exact Movements.one (.outflow (.clawback refund grant) _ (by omega) hgrant removal a₁
          hlots _ hrow)

theorem creditRefund_movements {refund : RefundEvent}
    (h : creditRefund refund a = .ok (u, a')) : Movements a a' := by
  unfold creditRefund at h
  obtain ⟨_, _, hget, h⟩ := Tx.bind_ok.mp h
  cases Tx.get_ok.mp hget
  cases hfind : a.findEntryByRef .refund refund.refundId with
  | some existing =>
    simp only [hfind] at h
    rcases Tx.ite_ok.mp h with ⟨-, h⟩ | ⟨-, h⟩
    · cases Tx.pure_ok.mp h
      exact .refl
    · exact (Tx.throw_ok.mp h).elim
  | none =>
    simp only [hfind, writeRefund, Tx.bind_ok, Tx.get_ok] at h
    obtain ⟨_, _, h₁, removal, a₁, hlots, _, a₂, hrow, hclaw⟩ := h
    cases h₁
    have hrefund : Movements a a₂ := Movements.one (.outflow (.refund refund) _
      (paiseToInr_pos refund.paise) rfl removal a₁ hlots _ hrow)
    exact hrefund.trans (clawBackPackBonus_movements hclaw)

/-! ## Disputes -/

theorem writeHold_movements {d : DisputeFacts}
    (h : writeHold d (a.findTopup d.paymentId) a = .ok (u, a')) : Movements a a' := by
  unfold writeHold at h
  simp only [Tx.bind_ok] at h
  obtain ⟨removal, a₁, hlots, _, a₂, hrow, hset⟩ := h
  obtain rfl := setHoldInr_ok hset
  have hheld : Movements a a₂ := Movements.one (.outflow (.hold d) _ (paiseToInr_pos d.paise)
    rfl removal a₁ hlots _ hrow)
  exact hheld.trans (Movements.setDisputes _ _)

theorem writeRelease_movements {d : DisputeFacts} {suffix : String}
    (h : writeRelease ctx d suffix a = .ok (u, a')) : Movements a a' := by
  unfold writeRelease at h
  simp only [Tx.bind_ok, Tx.get_ok, Tx.ofOption_ok, Tx.pure_ok] at h
  obtain ⟨_, _, h₁, held, _, ⟨_, hfind, h₂⟩, b, a₁, hrow, _, _, h₃, released, _, ⟨_, hw, h₄⟩,
    _, _, hlot, h₅⟩ := h
  cases h₁
  cases h₂
  cases h₃
  cases h₄
  cases h₅
  exact Movements.one (.inflow (.release d.disputeId suffix d.paymentId) _ _ _ ⟨held, rfl, hfind⟩
    b a₁ hrow released hw _ _ _ _ _ _ hlot)

theorem applyDisputeEvent_movements {d : DisputeFacts} {o : DisputeOutcome}
    (h : applyDisputeEvent ctx d a = .ok (o, a')) : Movements a a' := by
  rcases applyDisputeEvent_ok h with ⟨-, rfl⟩ | ⟨-, hmoney⟩
  · exact .refl
  · refine (Movements.setDisputes a (recordedDisputes a.disputes d)).trans ?_
    rcases moveDisputeMoney_ok hmoney with ⟨-, placed, hhold⟩ | ⟨-, done, hrel⟩
    · unfold hold at hhold
      simp only [Tx.bind_ok, Tx.get_ok, Tx.ite_ok, Tx.pure_ok] at hhold
      obtain ⟨_, _, h₁, ⟨-, h₂⟩ | ⟨-, ⟨-, h₂⟩ | ⟨-, _, _, hwrite, h₂⟩⟩⟩ := hhold
      · cases h₁
        cases h₂
        exact .refl
      · cases h₁
        cases h₂
        exact .refl
      · cases h₁
        cases h₂
        exact writeHold_movements hwrite
    · unfold release at hrel
      obtain ⟨_, _, hget, hrel⟩ := Tx.bind_ok.mp hrel
      cases Tx.get_ok.mp hget
      cases hlast : ((roundSuffixes d.phase).filter ((a.setDisputes (recordedDisputes a.disputes
          d)).roundOpen d.disputeId)).getLast? with
      | none =>
        simp only [hlast] at hrel
        cases Tx.pure_ok.mp hrel
        exact .refl
      | some suffix =>
        simp only [hlast] at hrel
        obtain ⟨_, _, hwrite, hrel⟩ := Tx.bind_ok.mp hrel
        cases Tx.pure_ok.mp hrel
        exact writeRelease_movements hwrite

end Operations

/-- **Every operation is a run of movements.** -/
theorem Op.movements {o : Op} {a a' : Account} {u : Unit} (h : o.tx a = .ok (u, a')) :
    Movements a a' := by
  cases o with
  | topup ctx paise ref ratesOf => exact recordTopup_movements h
  | capture ctx payment => exact creditCapturedPayment_movements h
  | grant ctx paise confirmation reference => exact recordGrant_movements h
  | usage ref demand extra neg kind =>
    obtain ⟨_, _, hu, h⟩ := Tx.bind_ok.mp h
    cases Tx.pure_ok.mp h
    exact Movements.one (.usage _ _ _ _ _ _ hu)
  | call callId minutes tier fallback extra =>
    obtain ⟨_, _, hu, h⟩ := Tx.bind_ok.mp h
    cases Tx.pure_ok.mp h
    unfold chargeForCall at hu
    rcases Tx.ite_ok.mp hu with ⟨-, hu⟩ | ⟨-, hu⟩
    · cases Tx.pure_ok.mp hu
      exact .refl
    · obtain ⟨_, _, hcharge, hu⟩ := Tx.bind_ok.mp hu
      cases Tx.pure_ok.mp hu
      exact Movements.one (.usage _ _ _ _ _ _ hcharge)
  | adjust ctx entryId paise => exact recordAdjustment_movements h
  | restate ctx paymentRef paise => exact recordRestatement_movements h
  | refund event => exact creditRefund_movements h
  | dispute ctx facts =>
    obtain ⟨_, _, hd, h⟩ := Tx.bind_ok.mp h
    cases Tx.pure_ok.mp h
    exact applyDisputeEvent_movements hd
  | expire lotId now =>
    obtain ⟨_, _, hu, h⟩ := Tx.bind_ok.mp h
    cases Tx.pure_ok.mp h
    exact Movements.one (.expiry _ _ _ hu)
  | reprice ctx lotId pack =>
    obtain ⟨_, _, hu, h⟩ := Tx.bind_ok.mp h
    cases Tx.pure_ok.mp h
    exact Movements.one (.reprice _ _ _ _ hu)
  | feePaid ref =>
    cases Tx.modify_ok.mp h
    exact Movements.one (.beside rfl rfl (le_refl _) rfl)
  | alertLine amount =>
    cases Tx.modify_ok.mp h
    exact Movements.one (.beside rfl rfl (le_refl _) rfl)
  | wait ticks =>
    cases Tx.modify_ok.mp h
    exact Movements.one (.beside rfl rfl (Nat.le_add_right _ _) rfl)

/-- What the operation leaves behind is reached by movements, also when it is refused. -/
theorem Op.step_movements (o : Op) (a : Account) : Movements a (o.step a) := by
  unfold Op.step
  cases htx : o.tx a with
  | error e => rw [Tx.commit_of_error htx]
  | ok r =>
    rw [Tx.commit_of_ok htx]
    exact Op.movements htx

/-- What every movement keeps, a run of them keeps. -/
theorem Movements.inv {Inv : Account → Prop} (hstep : ∀ a a', Movement a a' → Inv a → Inv a')
    {a a' : Account} (h : Inv a) (hm : Movements a a') : Inv a' := by
  induction hm with
  | refl => exact h
  | tail _ hlast ih => exact hstep _ _ hlast ih

/-- And so does a run of operations. -/
theorem runOps_inv {Inv : Account → Prop} (hstep : ∀ a a', Movement a a' → Inv a → Inv a')
    {a : Account} (h : Inv a) (ops : List Op) : Inv (runOps ops a) :=
  Run.foldl_inv (fun s o hs => Movements.inv hstep hs (o.step_movements s)) h ops

end Billing

end Calevate
