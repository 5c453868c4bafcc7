import Calevate.Billing.Account
import Mathlib.Tactic.SplitIfs

/-!
# The credit ledger

`recordEntry` is the only writer of `credit_ledger`: it reads the newest balance, decides
whether the entry may land, and appends a row that stores the new balance beside its
delta. Everything a client owes or holds is read off the newest row, so a row computed
from the wrong predecessor would corrupt every later balance.

`LedgerOk` is what rules that out. The newest row is the last one appended because each
append is stamped after every row before it, and so the rows form a chain from zero; the
balance is then the sum of all deltas (`balance_eq_sum`). `recordEntry_ok` says
everything a successful call does, and no later proof unfolds it.
-/

namespace Calevate

namespace Billing

open Lib

/-! ## Reading -/

/-- `ORDER BY occurred_at DESC, id DESC`: `e` comes before `f`. -/
def Entry.newerThan (e f : Entry) : Prop :=
  f.occurredAt < e.occurredAt ∨ (f.occurredAt = e.occurredAt ∧ f.id < e.id)

instance (e f : Entry) : Decidable (e.newerThan f) :=
  inferInstanceAs (Decidable (_ ∨ _))

/-- `… ORDER BY occurred_at DESC, id DESC LIMIT 1`. -/
def newestOf : List Entry → Option Entry
  | [] => none
  | e :: es =>
    match newestOf es with
    | none => some e
    | some f => if e.newerThan f then some e else some f

/-- The newest row's `balance_after`, or zero. -/
def Account.balance (a : Account) : ℤ :=
  match newestOf a.ledger with
  | none => 0
  | some e => e.balanceAfter

/-- `service._newest_balance`. -/
def newestBalance : CreditTx ℤ := do
  let a ← get
  pure a.balance

/-- `service.LOW_BALANCE_INR`, two hundred rupees. -/
def lowBalanceInr : ℤ := 2000000

/-- `service.low_balance_line`. -/
def Account.lowBalanceLine (a : Account) : ℤ := a.lowBalanceAlertInr.getD lowBalanceInr

/-- `service.Balance`. -/
structure Balance where
  amountInr : ℤ
  isLow : Bool
  deriving DecidableEq

/-- `service.get_balance`. -/
def getBalance : CreditTx Balance := do
  let a ← get
  pure ⟨a.balance, a.balance < a.lowBalanceLine⟩

/-- `service.read_entry_by_ref`, and `find_entry_by_ref`, which is the same read under
the lock: the newest entry under a reason and a reference. -/
def Account.findEntryByRef (a : Account) (reason : CreditReason) (ref : String) :
    Option Entry :=
  newestOf (a.ledger.filter fun e => e.reason = reason ∧ e.ref = some ref)

/-- `service.find_topup`. -/
def Account.findTopup (a : Account) (ref : String) : Option Entry :=
  a.findEntryByRef .topup ref

/-! ## Writing -/

/-- `service.crossed_zero`. -/
def crossedZero (before after : ℤ) : Option String :=
  if 0 < before ∧ after ≤ 0 then some "empty"
  else if before ≤ 0 ∧ 0 < after then some "funded"
  else none

/-- `service.crossed_downwards`. -/
def crossedDownwards (before after line : ℤ) : Option String :=
  if 0 < before ∧ after ≤ 0 then some "empty"
  else if line ≤ before ∧ after < line ∧ 0 ≤ after then some "low"
  else none

/-- The messages one movement owes, in the order they are published. -/
def owedJobs (before after line : ℤ) : List OutboxJob :=
  (if (crossedZero before after).isSome then [.applyInboundCreditState] else []) ++
  (if before < 0 ∧ 0 ≤ after then [.settleNumberHolds] else []) ++
  ((crossedDownwards before after line).map fun level =>
    OutboxJob.notifyLowBalance level after).toList

/-- The unique indexes on `(reason, ref)`: one for each reason, over rows with a ref. -/
def Account.keyTaken (a : Account) (reason : CreditReason) (ref : Option String) : Prop :=
  ref.isSome ∧ ∃ e ∈ a.ledger, e.reason = reason ∧ e.ref = ref

instance (a : Account) (reason : CreditReason) (ref : Option String) :
    Decidable (a.keyTaken reason ref) :=
  inferInstanceAs (Decidable (_ ∧ _))

/-- The row one `INSERT INTO credit_ledger` writes. -/
def Account.entryOf (a : Account) (delta : ℤ) (reason : CreditReason) (ref : Option String)
    (m : EntryMeta) : Entry :=
  { id := a.nextId, delta := delta, reason := reason, ref := ref,
    balanceAfter := a.balance + delta, occurredAt := a.clock + 1, entryMeta := m }

/-- The account after one appended row and the messages it owes. -/
def Account.appendEntry (a : Account) (delta : ℤ) (reason : CreditReason)
    (ref : Option String) (m : EntryMeta) : Account :=
  { a with
    ledger := a.ledger ++ [a.entryOf delta reason ref m]
    outbox := a.outbox ++ owedJobs a.balance (a.balance + delta) a.lowBalanceLine
    clock := a.clock + 1
    nextId := a.nextId + 1 }

/-- **`service.record_entry`.** Append one entry and return the new balance. -/
def recordEntry (delta : ℤ) (reason : CreditReason) (ref : Option String) (m : EntryMeta)
    (allowNegative allowZero : Bool) : CreditTx Balance := do
  if delta = 0 ∧ allowZero = false then
    getBalance
  else do
    let current ← newestBalance
    if delta < 0 ∧ current + delta < 0 ∧ allowNegative = false then
      throw .insufficientCredits
    else do
      let a ← get
      if a.keyTaken reason ref then
        throw .duplicateKey
      else do
        set (a.appendEntry delta reason ref m)
        pure ⟨current + delta, current + delta < a.lowBalanceLine⟩

/-! ## The newest row -/

theorem newestOf_mem : ∀ {l : List Entry} {e : Entry}, newestOf l = some e → e ∈ l := by
  intro l
  induction l with
  | nil => intro e h; simp [newestOf] at h
  | cons x l ih =>
    intro e h
    unfold newestOf at h
    split at h
    · simp_all
    · rename_i f hf
      split_ifs at h
      · simp_all
      · cases h
        exact List.mem_cons_of_mem _ (ih hf)

theorem newestOf_eq_none {l : List Entry} : newestOf l = none ↔ l = [] := by
  constructor
  · intro h
    cases l with
    | nil => rfl
    | cons x l =>
      unfold newestOf at h
      split at h
      · cases h
      · split_ifs at h
  · rintro rfl
    rfl

/-- A row stamped after every other is the newest. -/
theorem newestOf_append {l : List Entry} {e : Entry} (h : ∀ f ∈ l, f.occurredAt < e.occurredAt) :
    newestOf (l ++ [e]) = some e := by
  induction l with
  | nil => rfl
  | cons x l ih =>
    have hrest := ih fun f hf => h f (List.mem_cons_of_mem _ hf)
    have hx : ¬ x.newerThan e := by
      have := h x List.mem_cons_self
      unfold Entry.newerThan
      omega
    simp only [List.cons_append, newestOf, hrest, if_neg hx]

/-! ## What one call does -/

section RecordEntry

variable {a a' : Account} {delta : ℤ} {reason : CreditReason} {ref : Option String}
  {m : EntryMeta} {neg zero : Bool} {b : Balance}

/-- **Everything a successful `record_entry` does**: nothing, when the delta is zero and
no marker was asked for, or one appended row under a free key. -/
theorem recordEntry_ok (h : recordEntry delta reason ref m neg zero a = .ok (b, a')) :
    (delta = 0 ∧ zero = false ∧ a' = a ∧ b.amountInr = a.balance) ∨
    (¬ (delta = 0 ∧ zero = false) ∧ ¬ a.keyTaken reason ref ∧
      ¬ (delta < 0 ∧ a.balance + delta < 0 ∧ neg = false) ∧
      a' = a.appendEntry delta reason ref m ∧ b.amountInr = a.balance + delta) := by
  simp only [recordEntry, getBalance, newestBalance, Tx.ite_ok, Tx.bind_ok, Tx.get_ok,
    Tx.pure_ok, Tx.set_ok, Tx.throw_ok, and_false, false_or] at h
  rcases h with ⟨hz, _, _, h, h'⟩ | ⟨hz, _, _, ⟨_, _, h, h'⟩, hneg, _, _, h'', hkey, _, _, h₃, h₄⟩
  · cases h
    cases h'
    exact Or.inl ⟨hz.1, hz.2, rfl, rfl⟩
  · cases h
    cases h'
    cases h''
    cases h₃
    cases h₄
    exact Or.inr ⟨hz, hkey, hneg, rfl, rfl⟩

/-- When a debit is refused for its balance: exactly when it is not allowed to overdraw
and would. -/
theorem recordEntry_insufficient :
    recordEntry delta reason ref m neg zero a = .error .insufficientCredits ↔
      delta < 0 ∧ a.balance + delta < 0 ∧ neg = false := by
  simp only [recordEntry, getBalance, newestBalance, Tx.ite_error, Tx.bind_error, Tx.bind_ok,
    Tx.get_ok, Tx.get_error, Tx.pure_ok, Tx.pure_error, Tx.set_error, Tx.throw_error,
    and_false, false_or, or_false, exists_false]
  constructor
  · rintro ⟨-, _, _, ⟨_, _, h, h'⟩, ⟨hc, -⟩ | ⟨-, _, _, -, -, hne⟩⟩
    · cases h
      cases h'
      exact hc
    · cases hne
  · intro hc
    have hz : ¬ (delta = 0 ∧ zero = false) := by omega
    exact ⟨hz, _, _, ⟨_, _, rfl, rfl⟩, Or.inl ⟨hc, trivial⟩⟩

/-- A row that moves something lands under a free key unless it may not overdraw. -/
theorem recordEntry_free (hkey : ¬ a.keyTaken reason ref) (hz : ¬ (delta = 0 ∧ zero = false))
    (hneg : ¬ (delta < 0 ∧ a.balance + delta < 0 ∧ neg = false)) :
    ∃ b, recordEntry delta reason ref m neg zero a = .ok (b, a.appendEntry delta reason ref m) := by
  refine ⟨⟨a.balance + delta, a.balance + delta < a.lowBalanceLine⟩, ?_⟩
  simp only [recordEntry, newestBalance, Tx.ite_ok, Tx.bind_ok, Tx.get_ok, Tx.pure_ok, Tx.set_ok,
    Tx.throw_ok, and_false, false_or]
  exact Or.inr ⟨hz, _, _, ⟨_, _, rfl, rfl⟩, hneg, _, _, rfl, hkey, _, _, rfl, rfl⟩

end RecordEntry

/-! ## The chain -/

/-- Each row's `balance_after` is its predecessor's plus its own delta. -/
def ChainFrom (b : ℤ) : List Entry → Prop
  | [] => True
  | e :: es => e.balanceAfter = b + e.delta ∧ ChainFrom e.balanceAfter es

/-- The invariant of the ledger. List order is the order of `occurred_at` and of the ids,
so the first row of the chain is the oldest and the last the newest. -/
structure LedgerOk (a : Account) : Prop where
  stamped : a.ledger.Pairwise fun e f => e.occurredAt < f.occurredAt
  stamped_le : ∀ e ∈ a.ledger, e.occurredAt ≤ a.clock
  ids : a.ledger.Pairwise fun e f => e.id < f.id
  ids_lt : ∀ e ∈ a.ledger, e.id < a.nextId
  keys : a.ledger.Pairwise fun e f => ¬ (e.reason = f.reason ∧ e.ref = f.ref ∧ e.ref.isSome)
  chain : ChainFrom 0 a.ledger

/-- The balance a chain from `b` ends at. -/
theorem chainFrom_append {b : ℤ} {l : List Entry} {e : Entry} (h : ChainFrom b l)
    (he : e.balanceAfter = b + (l.map Entry.delta).sum + e.delta) : ChainFrom b (l ++ [e]) := by
  induction l generalizing b with
  | nil => exact ⟨by simpa using he, trivial⟩
  | cons x l ih =>
    obtain ⟨hx, hl⟩ := h
    refine ⟨hx, ih hl ?_⟩
    rw [he, hx, List.map_cons, List.sum_cons]
    omega

theorem balanceAfter_of_chainFrom {b : ℤ} {l : List Entry} {e : Entry}
    (h : ChainFrom b (l ++ [e])) : e.balanceAfter = b + ((l ++ [e]).map Entry.delta).sum := by
  induction l generalizing b with
  | nil =>
    have := h.1
    simpa using this
  | cons x l ih =>
    obtain ⟨hx, hl⟩ := h
    have := ih hl
    rw [this, hx, List.cons_append, List.map_cons, List.sum_cons]
    omega

/-- The newest row is the last. -/
theorem LedgerOk.newestOf_eq {a : Account} (h : LedgerOk a) :
    newestOf a.ledger = a.ledger.getLast? := by
  rcases List.eq_nil_or_concat a.ledger with hl | ⟨l, e, hl⟩
  · rw [hl]
    rfl
  · rw [hl, List.concat_eq_append, List.getLast?_concat]
    apply newestOf_append
    have := h.stamped
    rw [hl, List.concat_eq_append, List.pairwise_append] at this
    intro f hf
    exact this.2.2 f hf e (by simp)

/-- **The newest balance is the sum of every delta.** -/
theorem LedgerOk.balance_eq_sum {a : Account} (h : LedgerOk a) :
    a.balance = (a.ledger.map Entry.delta).sum := by
  unfold Account.balance
  rw [h.newestOf_eq]
  rcases List.eq_nil_or_concat a.ledger with hl | ⟨l, e, hl⟩
  · simp [hl]
  · have hc := h.chain
    rw [hl, List.concat_eq_append] at hc ⊢
    rw [List.getLast?_concat]
    simpa using balanceAfter_of_chainFrom hc

/-- A key is on the ledger at most once. -/
theorem LedgerOk.key_once {a : Account} (h : LedgerOk a) (reason : CreditReason) (ref : String) :
    (a.ledger.filter fun e => e.reason = reason ∧ e.ref = some ref).length ≤ 1 := by
  have hkeys := h.keys.filter fun e => e.reason = reason ∧ e.ref = some ref
  have hall : ∀ e ∈ a.ledger.filter (fun e => e.reason = reason ∧ e.ref = some ref),
      e.reason = reason ∧ e.ref = some ref := by
    intro e he
    simpa using (List.mem_filter.mp he).2
  generalize a.ledger.filter (fun e => e.reason = reason ∧ e.ref = some ref) = l at hkeys hall ⊢
  match l with
  | [] => simp
  | [e] => simp
  | e :: f :: es =>
    have he := hall e (by simp)
    have hf := hall f (by simp)
    have hne := (List.pairwise_cons.mp hkeys).1 f (by simp)
    exact absurd ⟨he.1.trans hf.1.symm, he.2.trans hf.2.symm, by rw [he.2]; rfl⟩ hne

theorem LedgerOk.eq_of_id {a : Account} (h : LedgerOk a) {e f : Entry} (he : e ∈ a.ledger)
    (hf : f ∈ a.ledger) (hid : e.id = f.id) : e = f := by
  have hnodup : (a.ledger.map Entry.id).Nodup := by
    rw [List.Nodup, List.pairwise_map]
    exact h.ids.imp fun hlt => by omega
  exact List.inj_on_of_nodup_map hnodup he hf hid

/-- A row that comes after another has another id. -/
theorem LedgerOk.id_ne_of_append {a a' : Account} {rows : List Entry} (h : LedgerOk a')
    (hledger : a'.ledger = a.ledger ++ rows) {e f : Entry} (he : e ∈ a.ledger) (hf : f ∈ rows) :
    e.id ≠ f.id := by
  have hids := h.ids
  rw [hledger, List.pairwise_append] at hids
  have := hids.2.2 e he f hf
  omega

theorem ledgerOk_empty : LedgerOk {} where
  stamped := List.Pairwise.nil
  stamped_le := by intro e he; cases he
  ids := List.Pairwise.nil
  ids_lt := by intro e he; cases he
  keys := List.Pairwise.nil
  chain := trivial

/-- One appended row under a free key keeps the invariant. -/
theorem LedgerOk.appendEntry {a : Account} (h : LedgerOk a) {delta : ℤ} {reason : CreditReason}
    {ref : Option String} {m : EntryMeta} (hkey : ¬ a.keyTaken reason ref) :
    LedgerOk (a.appendEntry delta reason ref m) where
  stamped := by
    refine List.pairwise_append.mpr ⟨h.stamped, List.pairwise_singleton _ _, ?_⟩
    intro e he f hf
    obtain rfl := List.mem_singleton.mp hf
    exact Nat.lt_succ_of_le (h.stamped_le e he)
  stamped_le := by
    intro e he
    rcases List.mem_append.mp he with he | he
    · exact Nat.le_succ_of_le (h.stamped_le e he)
    · obtain rfl := List.mem_singleton.mp he
      exact le_refl _
  ids := by
    refine List.pairwise_append.mpr ⟨h.ids, List.pairwise_singleton _ _, ?_⟩
    intro e he f hf
    obtain rfl := List.mem_singleton.mp hf
    exact h.ids_lt e he
  ids_lt := by
    intro e he
    rcases List.mem_append.mp he with he | he
    · exact Nat.lt_succ_of_lt (h.ids_lt e he)
    · obtain rfl := List.mem_singleton.mp he
      exact Nat.lt_succ_self _
  keys := by
    refine List.pairwise_append.mpr ⟨h.keys, List.pairwise_singleton _ _, ?_⟩
    intro e he f hf
    obtain rfl := List.mem_singleton.mp hf
    rintro ⟨hr, href, hs⟩
    have hsome : ref.isSome := by rwa [show e.ref = ref from href] at hs
    exact hkey ⟨hsome, e, he, hr, href⟩
  chain := by
    apply chainFrom_append h.chain
    simp [Account.entryOf, h.balance_eq_sum]

@[simp] theorem balance_appendEntry {a : Account} (h : LedgerOk a) {delta : ℤ}
    {reason : CreditReason} {ref : Option String} {m : EntryMeta} :
    (a.appendEntry delta reason ref m).balance = a.balance + delta := by
  have hnew : newestOf (a.appendEntry delta reason ref m).ledger =
      some (a.entryOf delta reason ref m) := by
    apply newestOf_append
    intro f hf
    exact Nat.lt_succ_of_le (h.stamped_le f hf)
  unfold Account.balance
  rw [hnew]
  rfl

section Frame

variable {a : Account} {delta : ℤ} {reason : CreditReason} {ref : Option String} {m : EntryMeta}

@[simp] theorem appendEntry_lots : (a.appendEntry delta reason ref m).lots = a.lots := rfl
@[simp] theorem appendEntry_nextId : (a.appendEntry delta reason ref m).nextId = a.nextId + 1 := rfl
@[simp] theorem appendEntry_disputes :
    (a.appendEntry delta reason ref m).disputes = a.disputes := rfl
@[simp] theorem appendEntry_refundIntents :
    (a.appendEntry delta reason ref m).refundIntents = a.refundIntents := rfl

end Frame

end Billing

end Calevate
