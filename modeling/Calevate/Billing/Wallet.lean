import Calevate.Billing.Helpers.Disputes
import Calevate.Lib.Run

/-!
# The wallet over whole runs

A client's credit is kept twice, on the ledger and in the lots. Here is what holds of the
pair after any run of the operations that move it, in any order, with refusals and replays
between them: the two agree (`lots_agree_with_balance`), and the ledger is a chain whose
newest balance is the sum of every delta (`ledger_chain`).

A run is a list of operations, each committed or rolled back whole. The tenant's advisory
lock is taken before an operation's first read, so no two of them interleave; what happens
to the lots without it is `Billing.Contention`.
-/

namespace Calevate

namespace Billing

open Lib

/-- One transaction of the credit code, or the world moving on beside it. -/
inductive Op
  | topup (ctx : Ctx) (paise : ℤ) (ref : String) (ratesOfPackId : Option String)
  | capture (ctx : Ctx) (payment : CapturedPayment)
  | grant (ctx : Ctx) (paise : ℤ) (confirmation : Option ℤ) (reference : String)
  | usage (ref : String) (demand : LotDemand) (extraInr : ℚ) (allowNegative : Bool)
      (kind : UsageKind := .call)
  | call (callId : ℕ) (minutes : ℚ) (tier : VoiceTier) (fallback : LotRates) (extraInr : ℚ)
  | adjust (ctx : Ctx) (correctsEntryId : ℕ) (paise : ℤ)
  | restate (ctx : Ctx) (paymentRef : String) (correctedPaise : ℤ)
  | refund (event : RefundEvent)
  | dispute (ctx : Ctx) (facts : DisputeFacts)
  | expire (lotId now : ℕ)
  | reprice (ctx : Ctx) (lotId : ℕ) (pack : CreditPack)
  /-- A platform fee settled through the gateway. -/
  | feePaid (paymentRef : String)
  /-- The client moves the line under which it is warned. -/
  | alertLine (amountInr : Option ℤ)
  | wait (ticks : ℕ)

/-- The transaction an operation runs. -/
def Op.tx : Op → CreditTx Unit
  | .topup ctx paise ref ratesOf => recordTopup ctx paise ref ratesOf
  | .capture ctx payment => creditCapturedPayment ctx payment
  | .grant ctx paise confirmation reference => recordGrant ctx paise confirmation reference
  | .usage ref demand extra neg kind => do
    let _ ← recordUsageFromLots ref demand extra neg kind
    pure ()
  | .call callId minutes tier fallback extra => do
    let _ ← chargeForCall callId minutes tier fallback extra
    pure ()
  | .adjust ctx entryId paise => recordAdjustment ctx entryId paise
  | .restate ctx paymentRef paise => recordRestatement ctx paymentRef paise
  | .refund event => creditRefund event
  | .dispute ctx facts => do
    let _ ← applyDisputeEvent ctx facts
    pure ()
  | .expire lotId now => do
    let _ ← expireLot lotId now
    pure ()
  | .reprice ctx lotId pack => do
    let _ ← repriceLot ctx lotId pack
    pure ()
  | .feePaid ref => modify fun a => { a with feePayments := a.feePayments ++ [ref] }
  | .alertLine amount => modify fun a => { a with lowBalanceAlertInr := amount }
  | .wait ticks => modify fun a => { a with clock := a.clock + ticks }

/-- What the operation leaves behind: its own writes, or the account as it was. -/
def Op.step (a : Account) (o : Op) : Account := Tx.commit o.tx a

/-- A run from a given account. -/
def runOps (ops : List Op) (a : Account) : Account := ops.foldl Op.step a

/-! ## The invariant -/

/-- **The wallet is level**: both books are well formed, the open lots hold the positive
part of the balance, and no hold is met from more lapsed credit than it took. -/
structure WalletOk (a : Account) : Prop where
  books : BooksOk a
  agrees : a.held = max a.balance 0
  holds : ∀ e ∈ a.ledger, 0 ≤ e.heldAmount

theorem walletOk_empty : WalletOk {} where
  books := booksOk_empty
  agrees := rfl
  holds := by simp

theorem Entry.Plain.heldAmount_nonneg {e : Entry} (h : e.Plain) : 0 ≤ e.heldAmount := by
  unfold Entry.heldAmount
  rw [h.unrestated]
  simp

theorem WalletOk.setDisputes {a : Account} (h : WalletOk a) (disputes : List Dispute) :
    WalletOk (a.setDisputes disputes) :=
  ⟨h.books.setDisputes disputes, h.agrees, h.holds⟩

/-- A movement that is level keeps the wallet level. -/
theorem WalletOk.moves {a a' : Account} {rows : List Entry} {d : ℤ} (h : WalletOk a)
    (hm : Moves a a' rows d) (hlevel : Level a rows d) (hrows : ∀ e ∈ rows, 0 ≤ e.heldAmount) :
    WalletOk a' where
  books := hm.books
  agrees := by rw [hm.held, hm.balance h.books, hlevel h.agrees]
  holds := by
    intro e he
    rw [hm.ledger] at he
    rcases List.mem_append.mp he with he | he
    · exact h.holds e he
    · exact hrows e he

theorem WalletOk.settles {a a' : Account} (h : WalletOk a) (hs : Settles a a') : WalletOk a' := by
  obtain ⟨rows, d, hm, hplain, hlevel⟩ := hs
  exact h.moves hm hlevel fun e he => (hplain e he).heldAmount_nonneg

theorem WalletOk.holds_row {a a' : Account} {d : DisputeFacts} (h : WalletOk a)
    (hh : Holds d a a') : WalletOk a' := by
  obtain ⟨b, rows, e, restated, δ, hm, hlevel, hplain, -, hrow, rfl⟩ := hh
  refine WalletOk.setDisputes (h.moves hm hlevel ?_) _
  intro x hx
  rcases List.mem_append.mp hx with hx | hx
  · exact (hplain x hx).heldAmount_nonneg
  · obtain rfl := List.mem_singleton.mp hx
    exact hrow.held_nonneg

theorem WalletOk.releases {a a' : Account} {d : DisputeFacts} {suffix : String} (h : WalletOk a)
    (hr : Releases d suffix a a') : WalletOk a' := by
  obtain ⟨held, e, δ, hfind, hm, hlevel, -, -, -, hnone⟩ := hr
  have hmem := ((findEntryByRef_some_iff h.books.ledger).mp hfind).1
  refine h.moves hm (hlevel (h.holds held hmem)) ?_
  intro x hx
  obtain rfl := List.mem_singleton.mp hx
  unfold Entry.heldAmount
  rw [hnone]
  simp

theorem WalletOk.dispute {a a' : Account} {ctx : Ctx} {d : DisputeFacts} {o : DisputeOutcome}
    (hw : WalletOk a) (h : applyDisputeEvent ctx d a = .ok (o, a')) : WalletOk a' := by
  rcases applyDisputeEvent_ok h with ⟨-, rfl⟩ | ⟨-, hmoney⟩
  · exact hw
  · have hw' := hw.setDisputes (recordedDisputes a.disputes d)
    rcases moveDisputeMoney_ok hmoney with ⟨-, placed, hhold⟩ | ⟨-, done, hrel⟩
    · rcases hold_ok hw'.books hhold with ⟨-, rfl, -⟩ | ⟨-, -, -, hh⟩
      · exact hw'
      · exact hw'.holds_row hh
    · rcases release_ok hw'.books hrel with ⟨-, rfl, -⟩ | ⟨-, suffix, -, hr⟩
      · exact hw'
      · exact hw'.releases hr

/-- An operation that is none of the disputes' and moves credit settles the books. -/
theorem Op.settles {o : Op} {a a' : Account} {u : Unit} (ha : BooksOk a)
    (h : o.tx a = .ok (u, a')) :
    Settles a a' ∨ (∃ ctx d outcome, o = .dispute ctx d ∧
      applyDisputeEvent ctx d a = .ok (outcome, a')) ∨
    (BooksOk a' ∧ a'.ledger = a.ledger ∧ a'.lots = a.lots ∧ a'.disputes = a.disputes ∧
      a'.refundIntents = a.refundIntents ∧ a.feePayments ⊆ a'.feePayments) := by
  cases o with
  | topup ctx paise ref ratesOf => exact Or.inl (recordTopup_settles ha h)
  | capture ctx payment => exact Or.inl (creditCapturedPayment_settles ha h)
  | grant ctx paise confirmation reference => exact Or.inl (recordGrant_settles ha h)
  | usage ref demand extra neg kind =>
    obtain ⟨_, _, hu, h⟩ := Tx.bind_ok.mp h
    cases Tx.pure_ok.mp h
    exact Or.inl (recordUsageFromLots_settles ha hu)
  | call callId minutes tier fallback extra =>
    obtain ⟨_, _, hu, h⟩ := Tx.bind_ok.mp h
    cases Tx.pure_ok.mp h
    exact Or.inl (chargeForCall_settles ha hu)
  | adjust ctx entryId paise => exact Or.inl (recordAdjustment_settles ha h)
  | restate ctx paymentRef paise => exact Or.inl (recordRestatement_settles ha h)
  | refund event => exact Or.inl (creditRefund_settles ha h)
  | dispute ctx facts =>
    obtain ⟨outcome, _, hd, h⟩ := Tx.bind_ok.mp h
    cases Tx.pure_ok.mp h
    exact Or.inr (Or.inl ⟨ctx, facts, outcome, rfl, hd⟩)
  | expire lotId now =>
    obtain ⟨_, _, hu, h⟩ := Tx.bind_ok.mp h
    cases Tx.pure_ok.mp h
    exact Or.inl (expireLot_settles ha hu)
  | reprice ctx lotId pack =>
    obtain ⟨_, _, hu, h⟩ := Tx.bind_ok.mp h
    cases Tx.pure_ok.mp h
    exact Or.inl (repriceLot_settles ha hu)
  | feePaid ref =>
    cases Tx.modify_ok.mp h
    have hl := ha.ledger
    have hk := ha.lots
    exact Or.inr (Or.inr ⟨⟨⟨hl.stamped, hl.stamped_le, hl.ids, hl.ids_lt, hl.keys, hl.chain⟩,
      ⟨hk.ids, hk.ids_lt, hk.sound, hk.entries⟩⟩, rfl, rfl, rfl, rfl, by simp⟩)
  | alertLine amount =>
    cases Tx.modify_ok.mp h
    have hl := ha.ledger
    have hk := ha.lots
    exact Or.inr (Or.inr ⟨⟨⟨hl.stamped, hl.stamped_le, hl.ids, hl.ids_lt, hl.keys, hl.chain⟩,
      ⟨hk.ids, hk.ids_lt, hk.sound, hk.entries⟩⟩, rfl, rfl, rfl, rfl, by simp⟩)
  | wait ticks =>
    cases Tx.modify_ok.mp h
    have hl := ha.ledger
    have hk := ha.lots
    have hclock : ∀ e ∈ a.ledger, e.occurredAt ≤ a.clock + ticks := fun e he =>
      (hl.stamped_le e he).trans (Nat.le_add_right _ _)
    exact Or.inr (Or.inr ⟨⟨⟨hl.stamped, hclock, hl.ids, hl.ids_lt, hl.keys, hl.chain⟩,
      ⟨hk.ids, hk.ids_lt, hk.sound, hk.entries⟩⟩, rfl, rfl, rfl, rfl, by simp⟩)

/-- **One operation keeps the wallet level**, whether it commits or is refused. -/
theorem WalletOk.step {a : Account} (h : WalletOk a) (o : Op) : WalletOk (o.step a) := by
  unfold Op.step
  cases htx : o.tx a with
  | error e => rwa [Tx.commit_of_error htx]
  | ok r =>
    rw [Tx.commit_of_ok htx]
    rcases Op.settles h.books htx with hs | ⟨ctx, d, outcome, -, hd⟩ | ⟨hb, hl, hk, -, -, -⟩
    · exact h.settles hs
    · exact h.dispute hd
    · have hheld : r.2.held = a.held := by
        unfold Account.held Account.readOpenLots
        rw [hk]
      have hbal : r.2.balance = a.balance := by
        unfold Account.balance
        rw [hl]
      exact ⟨hb, by rw [hheld, hbal, h.agrees], by rw [hl]; exact h.holds⟩

/-- And so does every run. -/
theorem WalletOk.run {a : Account} (h : WalletOk a) (ops : List Op) : WalletOk (runOps ops a) :=
  Run.foldl_inv (fun _ o h => h.step o) h ops

/-! ## The two books agree -/

/-- **Wallet and lots agree after every run**: from an empty tenant, what the open lots
hold is the newest balance, or nothing while the wallet is overdrawn. -/
theorem lots_agree_with_balance (ops : List Op) :
    (((runOps ops {}).readOpenLots).map Lot.creditsRemaining).sum =
      max (runOps ops {}).balance 0 :=
  (walletOk_empty.run ops).agrees

theorem onePack_ne : [(⟨"starter", 10000000, 0⟩ : CreditPack)] ≠ [] := List.cons_ne_nil _ _

theorem onePack_clear_pos : (0 : ℤ) < 60000 := by decide

theorem onePack_studio_pos : (0 : ℤ) < 90000 := by decide

/-- A card of one pack. -/
def onePackCtx : Ctx where
  card := ⟨[⟨"starter", 10000000, 0⟩], onePack_ne,
    fun _ => ⟨60000, 90000, onePack_clear_pos, onePack_studio_pos⟩⟩
  expiryMonths := none

-- A charge the lots cannot cover overdraws the wallet, and the next payment repays it first.
example : (runOps [.topup onePackCtx 1000 "utr-1" none, .usage "assist-1" (.aiAssist 150000) 0 true,
    .topup onePackCtx 1500 "utr-2" none] {}).balance = 100000 := by decide +kernel

/-! ## The ledger is a chain -/

/-- A writer of the ledger: one of the operations, or any call of `record_entry`. -/
inductive LedgerWrite
  | op (o : Op)
  | entry (delta : ℤ) (reason : CreditReason) (ref : Option String) (m : EntryMeta)
      (allowNegative allowZero : Bool)

/-- What the write leaves behind. -/
def LedgerWrite.step (a : Account) : LedgerWrite → Account
  | .op o => o.step a
  | .entry delta reason ref m neg zero => Tx.commit (recordEntry delta reason ref m neg zero) a

/-- A run of writes. -/
def runWrites (writes : List LedgerWrite) (a : Account) : Account :=
  writes.foldl LedgerWrite.step a

theorem BooksOk.step {a : Account} (h : BooksOk a) (w : LedgerWrite) : BooksOk (w.step a) := by
  cases w with
  | op o =>
    show BooksOk (Tx.commit o.tx a)
    cases htx : o.tx a with
    | error e => rwa [Tx.commit_of_error htx]
    | ok r =>
      rw [Tx.commit_of_ok htx]
      rcases Op.settles h htx with hs | ⟨ctx, d, outcome, -, hd⟩ | ⟨hb, -⟩
      · exact hs.books
      · exact applyDisputeEvent_books h hd
      · exact hb
  | entry delta reason ref m neg zero =>
    show BooksOk (Tx.commit (recordEntry delta reason ref m neg zero) a)
    cases htx : recordEntry delta reason ref m neg zero a with
    | error e => rwa [Tx.commit_of_error htx]
    | ok r =>
      rw [Tx.commit_of_ok htx]
      obtain ⟨-, rows, hm, -⟩ := recordEntry_sums h htx
      exact hm.books

theorem BooksOk.run {a : Account} (h : BooksOk a) (writes : List LedgerWrite) :
    BooksOk (runWrites writes a) :=
  Run.foldl_inv (fun _ w h => h.step w) h writes

/-- **The ledger of every reachable state is a chain from zero**, oldest row first, so the
newest balance is the sum of every delta. On such a state a debit that may not overdraw is
refused for its balance exactly when it would, and then leaves no row; a credit never is,
and lands under any free key. -/
theorem ledger_chain (writes : List LedgerWrite) :
    ChainFrom 0 (runWrites writes {}).ledger ∧
    (runWrites writes {}).ledger.Pairwise (fun e f => f.newerThan e) ∧
    (runWrites writes {}).balance = ((runWrites writes {}).ledger.map Entry.delta).sum ∧
    ∀ (delta : ℤ) (reason : CreditReason) (ref : Option String) (m : EntryMeta) (zero : Bool),
      (delta < 0 →
        (recordEntry delta reason ref m false zero (runWrites writes {}) =
            .error .insufficientCredits ↔ (runWrites writes {}).balance + delta < 0) ∧
        ((runWrites writes {}).balance + delta < 0 →
          Tx.commit (recordEntry delta reason ref m false zero) (runWrites writes {}) =
            runWrites writes {})) ∧
      (0 < delta → ∀ neg : Bool,
        recordEntry delta reason ref m neg zero (runWrites writes {}) ≠
          .error .insufficientCredits ∧
        (¬ (runWrites writes {}).keyTaken reason ref →
          ∃ b, recordEntry delta reason ref m neg zero (runWrites writes {}) =
            .ok (b, (runWrites writes {}).appendEntry delta reason ref m))) := by
  have h := (booksOk_empty.run writes).ledger
  refine ⟨h.chain, ?_, h.balance_eq_sum, ?_⟩
  · exact h.stamped.imp fun hlt => Or.inl hlt
  · intro delta reason ref m zero
    refine ⟨?_, ?_⟩
    · intro hneg
      have hiff : recordEntry delta reason ref m false zero (runWrites writes {}) =
          .error .insufficientCredits ↔
          delta < 0 ∧ (runWrites writes {}).balance + delta < 0 ∧ false = false :=
        recordEntry_insufficient
      refine ⟨by rw [hiff]; simp [hneg], ?_⟩
      intro hlow
      exact Tx.commit_of_error (hiff.mpr ⟨hneg, hlow, rfl⟩)
    · intro hpos neg
      refine ⟨?_, ?_⟩
      · intro hrefused
        have := recordEntry_insufficient.mp hrefused
        omega
      · intro hfree
        exact recordEntry_free hfree (by omega) (by omega)

end Billing

end Calevate
