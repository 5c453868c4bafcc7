import Calevate.Lib.Crossing
import Calevate.Lib.Run
import Calevate.Billing.Credit
import Mathlib.Tactic.Tauto

/-!
# What crossing a line publishes

`record_entry` is the one writer of the ledger and publishes, with each row, what the move
from the balance before to the balance after owes: a cut-over job when zero is crossed
either way, and a warning when the balance falls through a line. No job is remembered, so
that each is published once an episode rests on the moves alone.

A wallet here is one that any entries have been posted to, refused or not, with the
client's warning line changed in between (`runWallet`).
-/

namespace Calevate

namespace Billing

open Lib

/-! ## Posting entries -/

/-- The arguments of one call of `record_entry`. -/
structure EntryCall where
  delta : ℤ
  reason : CreditReason
  ref : Option String := none
  entryMeta : EntryMeta := {}
  allowNegative : Bool := false
  allowZero : Bool := false
  deriving DecidableEq

/-- One call, committed or without trace. -/
def EntryCall.post (a : Account) (c : EntryCall) : Account :=
  Tx.commit (recordEntry c.delta c.reason c.ref c.entryMeta c.allowNegative c.allowZero) a

/-- A sequence of them. -/
def postAll (calls : List EntryCall) (a : Account) : Account := calls.foldl EntryCall.post a

/-- `LOW_BALANCE_ALERT_MAX_INR`. -/
def lowBalanceAlertMaxInr : ℤ := 1000000000

/-- **`service.set_low_balance_line`**, with the range the column checks. -/
def setLowBalanceLine (thresholdInr : Option ℚ) : CreditTx (Option ℤ) := do
  let a ← get
  match thresholdInr.map toPaise with
  | none => do
    set { a with lowBalanceAlertInr := none }
    pure a.lowBalanceAlertInr
  | some value =>
    if 0 ≤ value ∧ value ≤ lowBalanceAlertMaxInr then do
      set { a with lowBalanceAlertInr := some value }
      pure a.lowBalanceAlertInr
    else throw .checkViolation

/-- What happens to a wallet's ledger and its line. -/
inductive WalletStep
  | entry (call : EntryCall)
  | line (thresholdInr : Option ℚ)

/-- One step. -/
def WalletStep.apply (a : Account) : WalletStep → Account
  | .entry call => call.post a
  | .line thresholdInr => Tx.commit (setLowBalanceLine thresholdInr) a

/-- A new wallet after any number of them. -/
def runWallet (steps : List WalletStep) : Account := steps.foldl WalletStep.apply {}

/-! ## What was published -/

/-- The balances of the ledger, a row at a time. -/
def Account.balances (a : Account) : List ℤ := a.ledger.map Entry.balanceAfter

/-- What `crossed_zero` answered, for the rows where it answered. -/
def Account.zeroVerdicts (a : Account) : List String :=
  (Crossing.moves 0 a.balances).filterMap fun m => crossedZero m.1 m.2

/-- The cut-over jobs published. -/
def Account.cutovers (a : Account) : List OutboxJob :=
  a.outbox.filter fun job => job = .applyInboundCreditState

/-- What all the moves owe, under one line. -/
def owedBy (line : ℤ) (ms : List (ℤ × ℤ)) : List OutboxJob :=
  ms.flatMap fun m => owedJobs m.1 m.2 line

/-- The moves that are warned of at a level. -/
def warned (level : String) (line : ℤ) (ms : List (ℤ × ℤ)) : List (ℤ × ℤ) :=
  ms.filter fun m => crossedDownwards m.1 m.2 line = some level

/-! ## Zero -/

/-- A verdict of zero in words. -/
def zeroWord (up : Bool) : String := if up then "funded" else "empty"

/-- `crossed_zero` answers what the wallet has become, when that is a change. -/
theorem crossedZero_eq (before after : ℤ) :
    crossedZero before after = (Crossing.turn (0 < ·) (before, after)).map zeroWord := by
  unfold crossedZero Crossing.turn
  by_cases hb : 0 < before
  · by_cases ha : 0 < after
    · rw [if_neg (by omega), if_neg (by omega), if_pos (iff_of_true hb ha)]
      rfl
    · rw [if_pos ⟨hb, by omega⟩, if_neg (by tauto)]
      simp [zeroWord, ha]
  · by_cases ha : 0 < after
    · rw [if_neg (by omega), if_pos ⟨by omega, ha⟩, if_neg (by tauto)]
      simp [zeroWord, ha]
    · rw [if_neg (by omega), if_neg (by omega), if_pos (iff_of_false hb ha)]
      rfl

theorem zeroVerdicts_eq (a : Account) :
    a.zeroVerdicts = (Crossing.turns (0 < ·) 0 a.balances).map zeroWord := by
  rw [Account.zeroVerdicts, Crossing.turns, List.map_filterMap]
  apply List.filterMap_congr
  intro m _
  exact crossedZero_eq m.1 m.2

theorem zeroWord_injective : Function.Injective zeroWord := by
  intro b c h
  cases b <;> cases c <;> first | rfl | simp [zeroWord] at h

/-- Down and up take turns, and from nothing the first is up. -/
theorem zeroVerdicts_alternate (a : Account) : ("empty" :: a.zeroVerdicts).IsChain (· ≠ ·) := by
  have h := Crossing.turns_alternate (0 < ·) (0 : ℤ) a.balances
  rw [zeroVerdicts_eq]
  show ((decide (0 < (0 : ℤ)) :: Crossing.turns (0 < ·) 0 a.balances).map zeroWord).IsChain _
  rw [List.isChain_map]
  exact h.imp fun b c hbc heq => hbc (zeroWord_injective heq)

/-- The last answer is the sign of the balance. -/
theorem zeroVerdicts_last (a : Account) : ("empty" :: a.zeroVerdicts).getLast? =
    some (if 0 < a.balances.getLastD 0 then "funded" else "empty") := by
  have h := Crossing.turns_last (0 < ·) (0 : ℤ) a.balances
  rw [zeroVerdicts_eq]
  show ((decide (0 < (0 : ℤ)) :: Crossing.turns (0 < ·) 0 a.balances).map zeroWord).getLast? = _
  rw [List.getLast?_map, h]
  simp [zeroWord]

/-! ## Falling through a line -/

/-- `empty` is for entering the balances at or below zero. -/
theorem crossedDownwards_empty {line : ℤ} (m : ℤ × ℤ) :
    crossedDownwards m.1 m.2 line = some "empty" ↔ Crossing.Enters (· ≤ 0) m := by
  unfold crossedDownwards Crossing.Enters
  split
  · rename_i h
    simp only [true_iff]
    omega
  · rename_i h
    split
    · simp only [Option.some.injEq, String.reduceEq, false_iff]
      omega
    · simp only [reduceCtorEq, false_iff]
      omega

/-- `low` is for entering the balances below a line that still are above zero. -/
theorem crossedDownwards_low {line : ℤ} (m : ℤ × ℤ) :
    crossedDownwards m.1 m.2 line = some "low" ↔ Crossing.Enters (· < line) m ∧ 0 < m.2 := by
  unfold crossedDownwards Crossing.Enters
  split
  · rename_i h
    simp only [Option.some.injEq, String.reduceEq, false_iff]
    omega
  · rename_i h
    split
    · simp only [true_iff]
      omega
    · simp only [reduceCtorEq, false_iff]
      omega

/-- A stretch at or below zero is announced by the move into it. -/
theorem warned_empty {line b c : ℤ} {rest : List ℤ} (hb : 0 < b)
    (hrun : ∀ x ∈ c :: rest, x ≤ 0) :
    warned "empty" line (Crossing.moves b (c :: rest)) = [(b, c)] := by
  rw [← Crossing.enters_stretch (· ≤ 0) (by omega) hrun, warned]
  apply List.filter_congr
  intro m _
  rw [decide_eq_decide]
  exact crossedDownwards_empty m

theorem warned_empty_inside {line b : ℤ} {rest : List ℤ} (hrun : ∀ x ∈ b :: rest, x ≤ 0) :
    warned "empty" line (Crossing.moves b rest) = [] := by
  rw [← Crossing.enters_inside (· ≤ 0) hrun, warned]
  apply List.filter_congr
  intro m _
  rw [decide_eq_decide]
  exact crossedDownwards_empty m

/-- Inside a stretch below the line nothing more is said of it. -/
theorem warned_low_inside {line b : ℤ} {rest : List ℤ} (hrun : ∀ x ∈ b :: rest, x < line) :
    warned "low" line (Crossing.moves b rest) = [] := by
  have hnone := Crossing.enters_inside (· < line) hrun
  rw [List.filter_eq_nil_iff] at hnone
  rw [warned, List.filter_eq_nil_iff]
  intro m hm hlow
  have henter := (crossedDownwards_low m).mp (by simpa using hlow)
  exact hnone m hm (by simpa using henter.1)

/-- A stretch below the line is announced by the move into it, unless that goes on to zero. -/
theorem warned_low {line b c : ℤ} {rest : List ℤ} (hb : line ≤ b)
    (hrun : ∀ x ∈ c :: rest, x < line) :
    warned "low" line (Crossing.moves b (c :: rest)) = if 0 < c then [(b, c)] else [] := by
  have hinside := warned_low_inside hrun
  have hc := hrun c (by simp)
  rw [warned] at hinside
  rw [warned, Crossing.moves]
  split
  · rename_i hpos
    have hlow := (crossedDownwards_low (b, c)).mpr ⟨⟨by simp only; omega, hc⟩, hpos⟩
    rw [List.filter_cons_of_pos (by simpa using hlow), hinside]
  · rename_i hpos
    have hnot : crossedDownwards b c line ≠ some "low" := by
      intro hlow
      exact hpos ((crossedDownwards_low (b, c)).mp hlow).2
    rw [List.filter_cons_of_neg (by simpa using hnot), hinside]

/-! ## The ledger and the outbox -/

/-- **What one call leaves**: nothing, or one row and what its move owes. -/
theorem post_cases {a : Account} (ha : LedgerOk a) (c : EntryCall) :
    c.post a = a ∨ ∃ e : Entry, LedgerOk (c.post a) ∧ (c.post a).ledger = a.ledger ++ [e] ∧
      (c.post a).outbox = a.outbox ++ owedJobs a.balance e.balanceAfter a.lowBalanceLine ∧
      (c.post a).lowBalanceAlertInr = a.lowBalanceAlertInr := by
  unfold EntryCall.post
  cases h : recordEntry c.delta c.reason c.ref c.entryMeta c.allowNegative c.allowZero a with
  | error e => exact .inl (Tx.commit_of_error h)
  | ok r =>
    rw [Tx.commit_of_ok h]
    rcases recordEntry_ok h with ⟨-, -, hsame, -⟩ | ⟨-, hkey, -, hnew, -⟩
    · exact .inl hsame
    · right
      rw [hnew]
      exact ⟨_, ha.appendEntry hkey, rfl, rfl, rfl⟩

/-- The balance is the last row's. -/
theorem LedgerOk.balances_last {a : Account} (ha : LedgerOk a) :
    a.balances.getLastD 0 = a.balance := by
  rw [Account.balance, ha.newestOf_eq, Account.balances]
  cases h : a.ledger.getLast? with
  | none =>
    rw [List.getLast?_eq_none_iff] at h
    rw [h]
    rfl
  | some e => simp [List.getLastD_eq_getLast?, h]

/-- Every crossing of zero has published one cut-over. -/
structure CutoversOk (a : Account) : Prop where
  ledger : LedgerOk a
  published : a.cutovers.length = a.zeroVerdicts.length

theorem cutovers_owedJobs (before after line : ℤ) :
    ((owedJobs before after line).filter fun job => job = .applyInboundCreditState).length =
      (crossedZero before after).toList.length := by
  unfold owedJobs
  cases crossedZero before after <;> cases crossedDownwards before after line <;>
    by_cases h : before < 0 ∧ 0 ≤ after <;> simp [h]

theorem CutoversOk.post {a : Account} (h : CutoversOk a) (c : EntryCall) :
    CutoversOk (c.post a) := by
  rcases post_cases h.ledger c with hsame | ⟨e, hok, hledger, houtbox, -⟩
  · rw [hsame]
    exact h
  · refine ⟨hok, ?_⟩
    have hbalances : (c.post a).balances = a.balances ++ [e.balanceAfter] := by
      rw [Account.balances, hledger, List.map_append]
      rfl
    rw [Account.cutovers, houtbox, List.filter_append, List.length_append, cutovers_owedJobs,
      Account.zeroVerdicts, hbalances, Crossing.moves_concat, List.filterMap_append,
      List.length_append, h.ledger.balances_last]
    have hpub := h.published
    rw [Account.cutovers, Account.zeroVerdicts] at hpub
    rw [hpub]
    cases hz : crossedZero a.balance e.balanceAfter <;> simp [hz]

/-- A change of the line changes the line. -/
theorem setLowBalanceLine_commit (a : Account) (thresholdInr : Option ℚ) :
    ∃ line, Tx.commit (setLowBalanceLine thresholdInr) a =
      { a with lowBalanceAlertInr := line } := by
  cases h : setLowBalanceLine thresholdInr a with
  | error e => exact ⟨a.lowBalanceAlertInr, Tx.commit_of_error h⟩
  | ok r =>
    rw [Tx.commit_of_ok h]
    rw [setLowBalanceLine, Tx.bind_ok] at h
    obtain ⟨_, _, hget, h⟩ := h
    cases Tx.get_ok.mp hget
    cases hvalue : thresholdInr.map toPaise with
    | none =>
      simp only [hvalue] at h
      obtain ⟨_, _, hset, h⟩ := Tx.bind_ok.mp h
      cases Tx.set_ok.mp hset
      cases Tx.pure_ok.mp h
      exact ⟨none, rfl⟩
    | some value =>
      simp only [hvalue] at h
      rcases Tx.ite_ok.mp h with ⟨-, h⟩ | ⟨-, h⟩
      · obtain ⟨_, _, hset, h⟩ := Tx.bind_ok.mp h
        cases Tx.set_ok.mp hset
        cases Tx.pure_ok.mp h
        exact ⟨some value, rfl⟩
      · exact (Tx.throw_ok.mp h).elim

theorem WalletStep.cutoversOk {a : Account} (s : WalletStep) (h : CutoversOk a) :
    CutoversOk (WalletStep.apply a s) := by
  cases s with
  | entry call => exact h.post call
  | line thresholdInr =>
    obtain ⟨line, hline⟩ := setLowBalanceLine_commit a thresholdInr
    show CutoversOk (Tx.commit _ a)
    rw [hline]
    obtain ⟨⟨h₁, h₂, h₃, h₄, h₅, h₆⟩, hpub⟩ := h
    exact ⟨⟨h₁, h₂, h₃, h₄, h₅, h₆⟩, hpub⟩

theorem cutoversOk_run (steps : List WalletStep) : CutoversOk (runWallet steps) :=
  @Run.foldl_inv _ _ WalletStep.apply CutoversOk (fun _ s h => s.cutoversOk h) {}
    ⟨ledgerOk_empty, rfl⟩ steps

/-- **What a sequence of entries publishes** is what its moves owe, under the line that
stands. -/
theorem postAll_owed {a : Account} (ha : LedgerOk a) (calls : List EntryCall) :
    ∃ rows, (postAll calls a).ledger = a.ledger ++ rows ∧
      (postAll calls a).outbox = a.outbox ++
        owedBy a.lowBalanceLine (Crossing.moves a.balance (rows.map Entry.balanceAfter)) := by
  induction calls generalizing a with
  | nil => exact ⟨[], (List.append_nil _).symm, (List.append_nil _).symm⟩
  | cons c calls ih =>
    rcases post_cases ha c with hsame | ⟨e, hok, hledger, houtbox, hline⟩
    · obtain ⟨rows, hrows⟩ := ih ha
      refine ⟨rows, ?_⟩
      rw [postAll, List.foldl_cons, hsame]
      exact hrows
    · obtain ⟨rows, hl, ho⟩ := ih hok
      have hbalance : (c.post a).balance = e.balanceAfter := by
        rw [← hok.balances_last, Account.balances, hledger, List.map_append]
        simp
      have hstands : (c.post a).lowBalanceLine = a.lowBalanceLine := by
        rw [Account.lowBalanceLine, hline, Account.lowBalanceLine]
      rw [hledger] at hl
      rw [houtbox, hbalance, hstands] at ho
      refine ⟨e :: rows, ?_, ?_⟩
      · rw [postAll, List.foldl_cons]
        exact hl.trans (by simp)
      · rw [postAll, List.foldl_cons]
        exact ho.trans (by simp [owedBy, Crossing.moves])

/-- **Crossings are announced once.** However a wallet came about, one cut-over job was
published for each answer of `crossed_zero`; the answers take turns, from nothing the first
is `funded`, and the last is the sign of the balance. And whatever entries follow under the
line that stands, they publish what their moves owe, and of those: a stretch at or below
zero is warned of by the move into it and by no other; a stretch below the line is warned of
as low by the move into it and by no other, unless that move goes on to zero, and then it is
warned of as empty; a stretch that the wallet is in already is not warned of. -/
theorem wallet_crossings_announced_once (steps : List WalletStep) (calls : List EntryCall) :
    ((runWallet steps).cutovers.length = (runWallet steps).zeroVerdicts.length ∧
      ("empty" :: (runWallet steps).zeroVerdicts).IsChain (· ≠ ·) ∧
      ("empty" :: (runWallet steps).zeroVerdicts).getLast? =
        some (if 0 < (runWallet steps).balance then "funded" else "empty")) ∧
    ∃ rows, (postAll calls (runWallet steps)).ledger = (runWallet steps).ledger ++ rows ∧
      (postAll calls (runWallet steps)).outbox = (runWallet steps).outbox ++
        owedBy (runWallet steps).lowBalanceLine
          (Crossing.moves (runWallet steps).balance (rows.map Entry.balanceAfter)) ∧
      (∀ before b c rest after, (runWallet steps).balance :: rows.map Entry.balanceAfter =
          before ++ b :: c :: rest ++ after →
        Crossing.moves b (c :: rest) <:+:
          Crossing.moves (runWallet steps).balance (rows.map Entry.balanceAfter) ∧
        (0 < b → (∀ x ∈ c :: rest, x ≤ 0) →
          warned "empty" (runWallet steps).lowBalanceLine (Crossing.moves b (c :: rest)) =
            [(b, c)]) ∧
        ((runWallet steps).lowBalanceLine ≤ b →
          (∀ x ∈ c :: rest, x < (runWallet steps).lowBalanceLine) →
          warned "low" (runWallet steps).lowBalanceLine (Crossing.moves b (c :: rest)) =
            if 0 < c then [(b, c)] else [])) ∧
      ∀ rest after, rows.map Entry.balanceAfter = rest ++ after →
        ((∀ x ∈ (runWallet steps).balance :: rest, x ≤ 0) →
          warned "empty" (runWallet steps).lowBalanceLine
            (Crossing.moves (runWallet steps).balance rest) = []) ∧
        ((∀ x ∈ (runWallet steps).balance :: rest, x < (runWallet steps).lowBalanceLine) →
          warned "low" (runWallet steps).lowBalanceLine
            (Crossing.moves (runWallet steps).balance rest) = []) := by
  have hok := cutoversOk_run steps
  refine ⟨⟨hok.published, zeroVerdicts_alternate _, ?_⟩, ?_⟩
  · rw [zeroVerdicts_last, hok.ledger.balances_last]
  · obtain ⟨rows, hledger, houtbox⟩ := postAll_owed hok.ledger calls
    refine ⟨rows, hledger, houtbox, ?_, ?_⟩
    · intro before b c rest after hsplit
      exact ⟨Crossing.moves_infix hsplit, warned_empty, warned_low⟩
    · intro rest after _
      exact ⟨warned_empty_inside, warned_low_inside⟩

/-- A wallet of three hundred rupees with a hundred spent is at its line, and says nothing. -/
theorem landing_on_the_line_is_silent :
    (postAll [⟨3000000, .topup, none, {}, false, false⟩, ⟨-1000000, .usage, none, {}, true, false⟩]
        {}).balances = [3000000, 2000000] ∧
      (postAll [⟨3000000, .topup, none, {}, false, false⟩,
        ⟨-1000000, .usage, none, {}, true, false⟩] {}).lowBalanceLine = 2000000 ∧
      ∀ job ∈ (postAll [⟨3000000, .topup, none, {}, false, false⟩,
        ⟨-1000000, .usage, none, {}, true, false⟩] {}).outbox, job = .applyInboundCreditState := by
  decide +kernel

end Billing

end Calevate
