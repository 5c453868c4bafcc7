import Calevate.Billing.Helpers.Queue

/-!
# Helpers — the effects of a movement

What each movement writes on the ledger and takes from each lot, in figures: `Effect` is the
list of rows and a function from lot to credit given up. A credit that arrives gives its lot
what no overdraft swallowed; a reversal is met from lapsed credit, from the lot of the reversed
purchase and from the queue, and the three add up to its amount (`removeCreditFromLots_effect`).
-/

namespace Calevate

namespace Billing

open Lib

/-- The rows a movement appends, and what it takes from each lot. -/
structure Effect (a a' : Account) (rows : List Entry) (take : ℕ → ℤ) : Prop where
  books : BooksOk a'
  ledger : a'.ledger = a.ledger ++ rows
  remaining : ∀ i, a'.remainingOf i = a.remainingOf i - take i

namespace Effect

variable {a b c : Account} {r s : List Entry} {t u : ℕ → ℤ}

theorem refl (h : BooksOk a) : Effect a a [] fun _ => 0 :=
  ⟨h, (List.append_nil _).symm, fun _ => (sub_zero _).symm⟩

theorem trans (h : Effect a b r t) (h' : Effect b c s u) :
    Effect a c (r ++ s) fun i => t i + u i where
  books := h'.books
  ledger := by rw [h'.ledger, h.ledger, List.append_assoc]
  remaining := by
    intro i
    rw [h'.remaining, h.remaining]
    omega

theorem congr (h : Effect a b r t) (hr : r = s) (ht : ∀ i, t i = u i) : Effect a b s u :=
  ⟨h.books, by rw [h.ledger, hr], fun i => by rw [h.remaining, ht]⟩

end Effect

section Effects

variable {a a' : Account}

/-! ## The statements -/

theorem recordEntry_effect {delta : ℤ} {reason : CreditReason} {ref : Option String}
    {m : EntryMeta} {neg zero : Bool} {b : Balance} (ha : BooksOk a)
    (hz : ¬ (delta = 0 ∧ zero = false))
    (h : recordEntry delta reason ref m neg zero a = .ok (b, a')) :
    Effect a a' [a.entryOf delta reason ref m] fun _ => 0 := by
  have hb := recordEntry_books ha h
  rcases recordEntry_ok h with ⟨hd, hzero, -⟩ | ⟨-, -, -, rfl, -⟩
  · exact absurd ⟨hd, hzero⟩ hz
  · exact ⟨hb, rfl, fun _ => (sub_zero _).symm⟩

theorem consume_effect {demand : LotDemand} {splits : List LotSplit} (ha : BooksOk a)
    (h : consume demand a = .ok (splits, a')) : Effect a a' [] (splitsOf splits) := by
  obtain ⟨honly, hok, -, -⟩ := consume_ok ha.lots h
  exact ⟨⟨honly.ledgerOk ha.ledger, hok⟩, by rw [honly.ledger, List.append_nil],
    (consume_takes ha h).1⟩

theorem Replaces.effect {l l' : Lot} (h : Replaces a a' l l') (ha : BooksOk a) (hb : BooksOk a') :
    Effect a a' [] fun i => if i = l.id then l.creditsRemaining - l'.creditsRemaining else 0 := by
  refine ⟨hb, by rw [h.only.ledger, List.append_nil], fun i => ?_⟩
  rw [h.remainingOf ha.lots hb.lots]
  by_cases hi : i = l.id
  · rw [if_pos hi, if_pos hi, hi, ha.lots.remainingOf_of_mem h.mem]
    omega
  · rw [if_neg hi, if_neg hi, sub_zero]

theorem openLot_effect {credits : ℤ} {rates : LotRates} {source : LotSource}
    {packId overrideId : Option String} {entryId newId : ℕ} {openedAt expiresAt : Option ℕ}
    (ha : BooksOk a)
    (h : openLot credits rates source packId entryId overrideId openedAt expiresAt a =
      .ok (newId, a')) :
    newId = a.nextId ∧ (∀ k ∈ a'.lots, k.id = newId → k.ledgerEntryId = entryId) ∧
      Effect a a' [] fun i => if i = newId then -credits else 0 := by
  have hb := (openLot_moves ha h).books
  obtain ⟨hc, rfl, rfl⟩ := openLot_eq h
  refine ⟨rfl, fun k hk hid => ?_, hb, (List.append_nil _).symm, fun i => ?_⟩
  · rcases List.mem_append.mp hk with hk | hk
    · have := ha.lots.ids_lt k hk
      omega
    · rw [List.mem_singleton.mp hk]
      rfl
  rw [remainingOf_append rfl ha.lots hb.lots]
  show (if i = a.nextId then credits else a.remainingOf i) = _
  by_cases hi : i = a.nextId
  · have hnone : a.remainingOf i = 0 := by
      apply remainingOf_of_notMem
      intro l hl hid
      have := ha.lots.ids_lt l hl
      omega
    rw [if_pos hi, if_pos hi, hnone]
    omega
  · rw [if_neg hi, if_neg hi, sub_zero]

theorem mint_effect (ha : BooksOk a) : Effect a a.mint [] fun _ => 0 :=
  ⟨LotSteps.books (mint_steps ha) ha, (List.append_nil _).symm, fun _ => (sub_zero _).symm⟩

/-! ## Credit that arrives -/

/-- **Credit lands on one lot**: what repays no overdraft, on a lot opened for it or on the lot
it restates. -/
theorem applyCreditToLots_effect {ctx : Ctx} {credits balanceAfter : ℤ} {rates : LotRates}
    {source : LotSource} {packId overrideId : Option String} {entryId : ℕ} {restate : Option Lot}
    {r : CreditedLot} (ha : BooksOk a)
    (h : applyCreditToLots ctx credits balanceAfter rates source packId entryId
      (restate.map Lot.id) overrideId a = .ok (r, a')) :
    (credits ≤ 0 ∧ a' = a) ∨ 0 < credits ∧ ∃ got target, 0 ≤ got ∧ got ≤ credits ∧
      Effect a a' [] (fun i => if i = target then -got else 0) ∧
      (0 < got → target = a.nextId ∧ (∀ k ∈ a'.lots, k.id = target → k.ledgerEntryId = entryId) ∨
        ∃ l, restate = some l ∧ target = l.id ∧
          ∀ k, a.readLot l.id = some k → a.lapsed k = false) := by
  unfold applyCreditToLots at h
  rcases Tx.ite_ok.mp h with ⟨hle, h⟩ | ⟨hpos, h⟩
  · cases Tx.pure_ok.mp h
    by_cases hc : credits ≤ 0
    · exact Or.inl ⟨hc, rfl⟩
    · refine Or.inr ⟨by omega, 0, 0, le_refl _, by omega, ?_, by omega⟩
      exact (Effect.refl ha).congr rfl (by simp)
  · obtain ⟨_, _, hget, h⟩ := Tx.bind_ok.mp h
    cases Tx.get_ok.mp hget
    have hcredits : 0 < credits := by omega
    refine Or.inr ⟨hcredits, credits - min credits (max (-(balanceAfter - credits)) 0), ?_⟩
    have hgot : 0 ≤ credits - min credits (max (-(balanceAfter - credits)) 0) ∧
        credits - min credits (max (-(balanceAfter - credits)) 0) ≤ credits := by omega
    cases hr : restate with
    | none =>
      simp only [hr, Option.map_none] at h
      obtain ⟨newId, _, hopen, h⟩ := Tx.bind_ok.mp h
      cases Tx.pure_ok.mp h
      obtain ⟨rfl, hentry, heff⟩ := openLot_effect ha hopen
      exact ⟨a.nextId, hgot.1, hgot.2, heff, fun _ => Or.inl ⟨rfl, hentry⟩⟩
    | some lot =>
      simp only [hr, Option.map_some] at h
      cases htarget : (a.readLot lot.id).filter a.lapsed with
      | none =>
        simp only [htarget] at h
        obtain ⟨restated, _, hadj, h⟩ := Tx.bind_ok.mp h
        cases Tx.pure_ok.mp h
        obtain ⟨l, l', hread, hrep, -, hb, -, hrem, -⟩ := adjustLot_swap ha hadj
        have hid := (readLot_some hread).2
        have hn := l.remaining_nonneg
        refine ⟨lot.id, hgot.1, hgot.2, ?_, fun _ => Or.inr ⟨lot, rfl, rfl, ?_⟩⟩
        · refine (hrep.effect ha hb).congr rfl fun i => ?_
          rw [hid]
          by_cases hi : i = lot.id
          · rw [if_pos hi, if_pos hi]
            omega
          · rw [if_neg hi, if_neg hi]
        · intro k hk
          rw [hk, Option.filter_eq_none_iff] at htarget
          simpa using htarget k rfl
      | some target =>
        simp only [htarget] at h
        obtain ⟨newId, _, hopen, h⟩ := Tx.bind_ok.mp h
        cases Tx.pure_ok.mp h
        obtain ⟨rfl, hentry, heff⟩ := openLot_effect ha hopen
        exact ⟨a.nextId, hgot.1, hgot.2, heff, fun _ => Or.inl ⟨rfl, hentry⟩⟩

/-! ## Credit taken back -/

/-- What expiries took off the corrected purchase's lot and no reversal gave back. -/
def Account.unrestated (a : Account) (lot : Option Lot) : ℤ :=
  match lot with
  | none => 0
  | some l => a.lapsedUnrestated l.id

/-- The compensating row of a lapse, under a reference minted for it. -/
def Entry.RestatesLapse (e : Entry) (lotId : ℕ) (amountInr : ℤ) : Prop :=
  ∃ fresh < e.id, e.Carries amountInr .adjustment (some (creditExpiryRestatedRef lotId fresh))
    { kind := some .creditExpiryRestated, lotId := some lotId }

/-- **A lapse is given back up to the amount reversed**, by one row or by none. -/
theorem restateLapseOf_effect {lot : Option Lot} {amount restated : ℤ} (ha : BooksOk a)
    (hpos : 0 < amount) (h : restateLapseOf lot amount a = .ok (restated, a')) :
    restated = max (min amount (a.unrestated lot)) 0 ∧ a'.lots = a.lots ∧
      ∃ rows, Effect a a' rows (fun _ => 0) ∧
        ((rows = [] ∧ restated = 0 ∧ a' = a) ∨ ∃ l e, lot = some l ∧ rows = [e] ∧ 0 < restated ∧
          e.RestatesLapse l.id restated) := by
  cases lot with
  | none =>
    cases Tx.pure_ok.mp h
    refine ⟨?_, rfl, [], Effect.refl ha, Or.inl ⟨rfl, rfl, rfl⟩⟩
    simp only [Account.unrestated]
    omega
  | some l =>
    simp only [restateLapseOf, restateLapsedCredit, Tx.bind_ok, Tx.get_ok, Tx.ite_ok, Tx.pure_ok,
      uuid7_ok] at h
    simp only [Account.unrestated]
    obtain ⟨_, _, h₁, ⟨hle, h₂⟩ | ⟨hgt, _, _, h₂, _, _, hrec, h₃⟩⟩ := h
    · cases h₁
      cases h₂
      exact ⟨by omega, rfl, [], Effect.refl ha, Or.inl ⟨rfl, rfl, rfl⟩⟩
    · cases h₁
      cases h₂
      cases h₃
      have hm := mint_effect ha
      have hrow := recordEntry_effect hm.books (by omega) hrec
      refine ⟨by omega, ?_, _, (hm.trans hrow).congr rfl (by simp), Or.inr ⟨l, _, rfl, rfl,
        by omega, a.nextId, Nat.lt_succ_self _, rfl, rfl, rfl, rfl⟩⟩
      rcases recordEntry_ok hrec with ⟨hd, -, -⟩ | ⟨-, -, -, rfl, -⟩
      · omega
      · rfl

/-- The lot that holds the corrected purchase now. -/
def Account.correctedLot (a : Account) (entryId : Option ℕ) : Option Lot :=
  entryId.bind a.purchaseLotOfEntry

theorem correctedLot_mem {entryId : Option ℕ} {l : Lot} (h : a.correctedLot entryId = some l) :
    l ∈ a.lots := by
  obtain ⟨e, -, he⟩ := Option.bind_eq_some_iff.mp h
  exact purchaseLotOfEntry_mem he

/-- **The ways a reversal goes**: against lapsed credit first, against the purchase's own lot,
or off the queue, with what the first two leave over off the queue as well. -/
inductive RemovalPath (a a' : Account) (lot : Option Lot) (amountInr : ℤ) (r : CreditRemoval) : Prop
  | lapsed (lapse : ℤ) (a₁ : Account) (pos : 0 < lapse) (figure : r.expiryRestatedInr = lapse)
      (given : restateLapseOf lot amountInr a = .ok (lapse, a₁))
      (rest : amountInr ≤ lapse ∧ r.splits = [] ∧ a' = a₁ ∨
        lapse < amountInr ∧ consume (.aiAssist (amountInr - lapse : ℤ)) a₁ = .ok (r.splits, a'))
  | own (l : Lot) (found : lot = some l) (none : a.unrestated lot ≤ 0)
      (small : amountInr < l.creditsTotal) (figure : r.expiryRestatedInr = 0)
      (restated : LotRestatement) (a₁ : Account)
      (swap : adjustLotForRestatement l.id (-amountInr) a = .ok (restated, a₁))
      (rest : restated.shortfall ≤ 0 ∧ r.splits = [] ∧ a' = a₁ ∨
        0 < restated.shortfall ∧ consume (.aiAssist restated.shortfall) a₁ = .ok (r.splits, a'))
  | queue (none : a.unrestated lot ≤ 0) (large : ∀ l, lot = some l → l.creditsTotal ≤ amountInr)
      (figure : r.expiryRestatedInr = 0)
      (debit : consume (.aiAssist amountInr) a = .ok (r.splits, a'))

theorem removeCreditFromLots_path {entryId : Option ℕ} {amount : ℤ} {r : CreditRemoval}
    (ha : BooksOk a) (hpos : 0 < amount)
    (h : removeCreditFromLots entryId amount a = .ok (r, a')) :
    RemovalPath a a' (a.correctedLot entryId) amount r := by
  unfold removeCreditFromLots at h
  obtain ⟨_, _, hget, h⟩ := Tx.bind_ok.mp h
  cases Tx.get_ok.mp hget
  obtain ⟨lapse, a₁, hlapse, h⟩ := Tx.bind_ok.mp h
  change restateLapseOf (a.correctedLot entryId) amount a = _ at hlapse
  change (if 0 < lapse then _ else removeUnlapsed (a.correctedLot entryId) amount) a₁ = _ at h
  obtain ⟨hfig, -, rows, -, hrows⟩ := restateLapseOf_effect ha hpos hlapse
  rcases Tx.ite_ok.mp h with ⟨hl, h⟩ | ⟨hl, h⟩
  · rcases Tx.ite_ok.mp h with ⟨hall, h⟩ | ⟨hrest, h⟩
    · cases Tx.pure_ok.mp h
      exact .lapsed lapse _ hl rfl hlapse (Or.inl ⟨by omega, rfl, rfl⟩)
    · obtain ⟨splits, a₂, hcons, h⟩ := Tx.bind_ok.mp h
      cases Tx.pure_ok.mp h
      have hcast : ((amount : ℚ) - lapse) = ((amount - lapse : ℤ) : ℚ) := by push_cast; rfl
      rw [hcast] at hcons
      exact .lapsed lapse a₁ hl rfl hlapse (Or.inr ⟨by omega, hcons⟩)
  · have hsame : a₁ = a := by
      rcases hrows with ⟨-, -, hr⟩ | ⟨-, -, -, -, hgt, -⟩
      · exact hr
      · omega
    subst hsame
    have hnone : a₁.unrestated (a₁.correctedLot entryId) ≤ 0 := by omega
    unfold removeUnlapsed at h
    cases hfil : (a₁.correctedLot entryId).filter fun l => amount < l.creditsTotal with
    | none =>
      simp only [hfil] at h
      obtain ⟨splits, a₂, hcons, h⟩ := Tx.bind_ok.mp h
      cases Tx.pure_ok.mp h
      refine .queue hnone ?_ rfl hcons
      intro l hlot
      rw [hlot] at hfil
      simpa using Option.filter_eq_none_iff.mp hfil l rfl
    | some l =>
      obtain ⟨hlot, hsmall⟩ := Option.filter_eq_some_iff.mp hfil
      simp only [hfil] at h
      obtain ⟨restated, a₂, hadj, h⟩ := Tx.bind_ok.mp h
      rcases Tx.ite_ok.mp h with ⟨hno, h⟩ | ⟨hyes, h⟩
      · cases Tx.pure_ok.mp h
        exact .own l hlot hnone (by simpa using hsmall) rfl restated _ hadj
          (Or.inl ⟨hno, rfl, rfl⟩)
      · obtain ⟨splits, a₃, hcons, h⟩ := Tx.bind_ok.mp h
        cases Tx.pure_ok.mp h
        exact .own l hlot hnone (by simpa using hsmall) rfl restated a₂ hadj
          (Or.inr ⟨by omega, hcons⟩)

theorem RemovalPath.splits_nonneg {lot : Option Lot} {amount : ℤ} {r : CreditRemoval}
    (h : RemovalPath a a' lot amount r) (ha : BooksOk a) (hpos : 0 < amount) :
    ∀ s ∈ r.splits, 0 ≤ s.credits := by
  cases h with
  | lapsed lapse a₁ pos figure given rest =>
    obtain ⟨-, -, rows, heff, -⟩ := restateLapseOf_effect ha hpos given
    rcases rest with ⟨-, hs, -⟩ | ⟨-, hcons⟩
    · rw [hs]
      simp
    · exact (consume_takes heff.books hcons).2.1
  | own l found none small figure restated a₁ swap rest =>
    obtain ⟨-, -, -, -, -, hb, -⟩ := adjustLot_swap ha swap
    rcases rest with ⟨-, hs, -⟩ | ⟨-, hcons⟩
    · rw [hs]
      simp
    · exact (consume_takes hb hcons).2.1
  | queue none large figure debit => exact (consume_takes ha debit).2.1

/-- What the reversed purchase's own lot gives up directly: all it can, when nothing of it had
lapsed and the reversal is smaller than what was sold. -/
def Account.fromOwnLot (a : Account) (lot : Option Lot) (amountInr : ℤ) : ℤ :=
  match lot with
  | none => 0
  | some l =>
    if a.unrestated (some l) ≤ 0 ∧ amountInr < l.creditsTotal then
      min amountInr l.creditsRemaining
    else 0

theorem fromOwnLot_nonneg {lot : Option Lot} {amount : ℤ} (hpos : 0 < amount) :
    0 ≤ a.fromOwnLot lot amount := by
  cases lot with
  | none => exact le_refl _
  | some l =>
    have := l.remaining_nonneg
    simp only [Account.fromOwnLot]
    split <;> omega

/-- What a reversal takes from each lot, beside the splits off the queue. -/
def ownTake (lot : Option Lot) (own : ℤ) (i : ℕ) : ℤ := if lot.map Lot.id = some i then own else 0

theorem ownTake_zero (lot : Option Lot) (i : ℕ) : ownTake lot 0 i = 0 := by
  simp [ownTake]

/-- The purchase's own lot gives up what it can, down to nothing. -/
theorem restate_own_effect {l : Lot} {amount : ℤ} {restated : LotRestatement} (ha : BooksOk a)
    (hl : l ∈ a.lots) (h : adjustLotForRestatement l.id (-amount) a = .ok (restated, a')) :
    Effect a a' [] (ownTake (some l) (min amount l.creditsRemaining)) ∧
      restated.shortfall = amount - min amount l.creditsRemaining := by
  obtain ⟨k, k', hread, hrep, -, hb, -, hrem, hsf⟩ := adjustLot_swap ha h
  have hk : k = l := by
    rw [ha.lots.readLot_of_mem hl] at hread
    exact (Option.some.inj hread).symm
  subst hk
  have hn := k.remaining_nonneg
  refine ⟨(hrep.effect ha hb).congr rfl fun i => ?_, by omega⟩
  by_cases hi : i = k.id
  · rw [if_pos hi, ownTake, if_pos (by rw [hi]; rfl)]
    omega
  · rw [if_neg hi, ownTake, if_neg (by simpa using fun h => hi h.symm)]

/-- **What a reversal does, in figures.** Lapsed credit is given back first, then the lot of
the purchase gives up what it can, then the queue; the three add up to the amount. -/
theorem removeCreditFromLots_effect {entryId : Option ℕ} {amount : ℤ} {r : CreditRemoval}
    (ha : BooksOk a) (hpos : 0 < amount)
    (h : removeCreditFromLots entryId amount a = .ok (r, a')) :
    r.expiryRestatedInr = max (min amount (a.unrestated (a.correctedLot entryId))) 0 ∧
      amount = r.expiryRestatedInr + a.fromOwnLot (a.correctedLot entryId) amount +
        creditsOf r.splits ∧
      ∃ rows, Effect a a' rows (fun i => ownTake (a.correctedLot entryId)
          (a.fromOwnLot (a.correctedLot entryId) amount) i + splitsOf r.splits i) ∧
        ((rows = [] ∧ r.expiryRestatedInr = 0) ∨ ∃ l e, a.correctedLot entryId = some l ∧
          rows = [e] ∧ 0 < r.expiryRestatedInr ∧ e.RestatesLapse l.id r.expiryRestatedInr) := by
  have hnil : creditsOf [] = 0 := rfl
  have hmem : ∀ l, a.correctedLot entryId = some l → l ∈ a.lots := fun l => correctedLot_mem
  cases removeCreditFromLots_path ha hpos h with
  | lapsed lapse a₁ pos figure given rest =>
    obtain ⟨hfig, -, rows, heff, hrows⟩ := restateLapseOf_effect ha hpos given
    -- something had lapsed, so the lot itself is left alone
    have hown : a.fromOwnLot (a.correctedLot entryId) amount = 0 := by
      cases hc : a.correctedLot entryId with
      | none => rfl
      | some l =>
        rw [hc] at hfig
        simp only [Account.fromOwnLot]
        rw [if_neg]
        rintro ⟨hu, -⟩
        omega
    rw [hown, figure]
    refine ⟨hfig, ?_, rows, ?_, hrows.imp_left fun hr => ⟨hr.1, hr.2.1⟩⟩
    · rcases rest with ⟨hall, hs, -⟩ | ⟨hless, hcons⟩
      · rw [hs, hnil]
        omega
      · have := consume_aiAssist_ok heff.books.lots hcons
        omega
    · rcases rest with ⟨-, hs, rfl⟩ | ⟨-, hcons⟩
      · exact heff.congr rfl fun i => by rw [ownTake_zero, hs]; simp
      · refine (heff.trans (consume_effect heff.books hcons)).congr (List.append_nil _) fun i => ?_
        rw [ownTake_zero]
  | own l found none small figure restated a₁ swap rest =>
    have hown : a.fromOwnLot (a.correctedLot entryId) amount = min amount l.creditsRemaining := by
      rw [found] at none ⊢
      simp only [Account.fromOwnLot]
      rw [if_pos ⟨none, small⟩]
    obtain ⟨heff, hsf⟩ := restate_own_effect ha (hmem l found) swap
    have hn := l.remaining_nonneg
    rw [hown, figure]
    refine ⟨by omega, ?_, [], ?_, Or.inl ⟨rfl, rfl⟩⟩
    · rcases rest with ⟨hno, hs, -⟩ | ⟨hyes, hcons⟩
      · rw [hs, hnil]
        omega
      · have := consume_aiAssist_ok heff.books.lots hcons
        omega
    · rw [found]
      rcases rest with ⟨-, hs, rfl⟩ | ⟨-, hcons⟩
      · exact heff.congr rfl fun i => by rw [hs]; simp
      · exact heff.trans (consume_effect heff.books hcons)
  | queue none large figure debit =>
    have hown : a.fromOwnLot (a.correctedLot entryId) amount = 0 := by
      cases hc : a.correctedLot entryId with
      | none => rfl
      | some l =>
        have := large l hc
        simp only [Account.fromOwnLot]
        rw [if_neg]
        rintro ⟨-, hsmall⟩
        omega
    have hsum := consume_aiAssist_ok ha.lots debit
    rw [hown, figure]
    refine ⟨by omega, by omega, [], ?_, Or.inl ⟨rfl, rfl⟩⟩
    exact (consume_effect ha debit).congr rfl fun i => by rw [ownTake_zero, zero_add]

/-! ## A charge -/

theorem consumeExtra_effect {extra : ℚ} {splits : List LotSplit} (ha : BooksOk a)
    (h : consumeExtra extra a = .ok (splits, a')) :
    Effect a a' [] (splitsOf splits) ∧ ∀ s ∈ splits, 0 ≤ s.credits := by
  unfold consumeExtra at h
  rcases Tx.ite_ok.mp h with ⟨-, h⟩ | ⟨-, h⟩
  · exact ⟨consume_effect ha h, (consume_takes ha h).2.1⟩
  · cases Tx.pure_ok.mp h
    exact ⟨Effect.refl ha, by simp⟩

/-- **A charge takes from the lots what its row says.** A charge of nothing moves nothing. -/
theorem recordUsageFromLots_effect {ref : String} {demand : LotDemand} {extra : ℚ} {neg : Bool}
    {kind : UsageKind} {r : LotDebit} (ha : BooksOk a)
    (h : recordUsageFromLots ref demand extra neg kind a = .ok (r, a')) :
    Effect a a' [] (fun _ => 0) ∨ ∃ e, Effect a a' [e] (splitsOf r.splits) ∧
      (∀ s ∈ r.splits, 0 ≤ s.credits) ∧ 0 < creditsOf r.splits ∧
      e.Carries (-creditsOf r.splits) .usage (some ref)
        { kind := kind.metaKind, lots := r.splits } := by
  unfold recordUsageFromLots at h
  obtain ⟨_, _, hget, h⟩ := Tx.bind_ok.mp h
  cases Tx.get_ok.mp hget
  rcases Tx.ite_ok.mp h with ⟨-, h⟩ | ⟨-, h⟩
  · cases Tx.pure_ok.mp h
    exact Or.inl (Effect.refl ha)
  · obtain ⟨calls, a₁, hcalls, h⟩ := Tx.bind_ok.mp h
    obtain ⟨extras, a₂, hextras, h⟩ := Tx.bind_ok.mp h
    have h₁ := consume_effect ha hcalls
    have h₂ := consumeExtra_effect h₁.books hextras
    have h₁₂ : Effect a a₂ [] (splitsOf (calls ++ extras)) :=
      (h₁.trans h₂.1).congr rfl fun i => splitsOf_append.symm
    have hnn : ∀ s ∈ calls ++ extras, 0 ≤ s.credits := by
      intro s hs
      rcases List.mem_append.mp hs with hs | hs
      · exact (consume_takes ha hcalls).2.1 s hs
      · exact h₂.2 s hs
    rcases Tx.ite_ok.mp h with ⟨hle, h⟩ | ⟨hgt, h⟩
    · cases Tx.pure_ok.mp h
      refine Or.inl (h₁₂.congr rfl fun i => ?_)
      have := splitsOf_nonneg (i := i) hnn
      have := splitsOf_le (i := i) hnn
      omega
    · obtain ⟨_, a₃, hrec, h⟩ := Tx.bind_ok.mp h
      cases Tx.pure_ok.mp h
      have hrow := recordEntry_effect h₁₂.books (by omega) hrec
      exact Or.inr ⟨_, (h₁₂.trans hrow).congr rfl (by simp), hnn, not_le.mp hgt, rfl, rfl, rfl, rfl⟩

/-! ## A lapse and a re-price -/

theorem expireLot_effect {lotId now : ℕ} {r : Option ℤ} (ha : BooksOk a)
    (h : expireLot lotId now a = .ok (r, a')) :
    a' = a ∨ ∃ l ∈ a.lots, ∃ e, l.id = lotId ∧ 0 < l.creditsRemaining ∧ l.expiresAt ≠ none ∧
      a.findEntryByRef .adjustment (creditExpiryRef lotId) = none ∧
      e.Carries (-l.creditsRemaining) .adjustment (some (creditExpiryRef lotId))
        { kind := some .creditExpiry, lotId := some lotId } ∧
      Effect a a' [e] fun i => if i = lotId then l.creditsRemaining else 0 := by
  rcases expireLot_swap ha h with ⟨-, rfl⟩ | ⟨l, l', a₁, hdue, -, hfree, hrep, -, hb, hz, b, row⟩
  · exact Or.inl rfl
  · unfold Account.dueLot at hdue
    obtain ⟨hread, hcond⟩ := Option.filter_eq_some_iff.mp hdue
    simp only [decide_eq_true_eq] at hcond
    obtain ⟨hmem, hid⟩ := readLot_some hread
    have hexp : l.expiresAt ≠ none := by
      intro hnone
      rw [hnone] at hcond
      simp at hcond
    have hrow := recordEntry_effect hb (by omega) row
    refine Or.inr ⟨l, hmem, a₁.entryOf (-l.creditsRemaining) .adjustment
      (some (creditExpiryRef lotId)) { kind := some .creditExpiry, lotId := some lotId }, hid,
      hcond.2.2, hexp, hfree, ⟨rfl, rfl, rfl, rfl⟩, ?_⟩
    refine ((hrep.effect ha hb).trans hrow).congr rfl fun i => ?_
    rw [hid, hz, sub_zero, add_zero]

/-- **A re-price moves the lot's credit to its replacement.** -/
theorem Resold.effect {l closed fresh : Lot} {e : Entry} (h : Resold a a' l closed fresh e)
    (ha : BooksOk a) (hb : BooksOk a') :
    Effect a a' [e] fun i => if i = l.id then l.creditsRemaining
      else if i = fresh.id then -l.creditsRemaining else 0 := by
  refine ⟨hb, h.ledger, fun i => ?_⟩
  have hne : fresh.id ≠ l.id := by
    have := ha.lots.ids_lt l h.mem
    have := h.later
    omega
  by_cases hl : i = l.id
  · have hclosed : closed ∈ a'.lots := by
      rw [h.lots]
      exact List.mem_append_left _ (Table.mem_updateKey.mpr (Or.inr ⟨l, h.mem, rfl, rfl⟩))
    have hid : closed.id = l.id := congrArg LotTerms.id h.terms
    rw [if_pos hl, hl, ha.lots.remainingOf_of_mem h.mem, ← hid, hb.lots.remainingOf_of_mem hclosed,
      h.emptied]
    omega
  · rw [if_neg hl]
    by_cases hf : i = fresh.id
    · have hfresh : fresh ∈ a'.lots := by
        rw [h.lots]
        exact List.mem_append_right _ List.mem_cons_self
      have hnone : a.remainingOf i = 0 := by
        apply remainingOf_of_notMem
        intro k hk hid
        have := ha.lots.ids_lt k hk
        have := h.later
        omega
      rw [if_pos hf, hnone, hf, hb.lots.remainingOf_of_mem hfresh, h.credit]
      omega
    · rw [if_neg hf, sub_zero]
      by_cases hmem : ∃ k ∈ a.lots, k.id = i
      · obtain ⟨k, hk, rfl⟩ := hmem
        have hk' : k ∈ a'.lots := by
          rw [h.lots]
          exact List.mem_append_left _ (Table.mem_updateKey.mpr (Or.inl ⟨hk, hl⟩))
        rw [ha.lots.remainingOf_of_mem hk, hb.lots.remainingOf_of_mem hk']
      · have hnone : ∀ k ∈ a.lots, k.id ≠ i := by
          intro k hk hid
          exact hmem ⟨k, hk, hid⟩
        rw [remainingOf_of_notMem hnone, remainingOf_of_notMem]
        rw [h.lots]
        intro k hk hid
        rcases List.mem_append.mp hk with hk | hk
        · rcases Table.mem_updateKey.mp hk with ⟨hk, -⟩ | ⟨-, -, -, rfl⟩
          · exact hnone k hk hid
          · exact hl (hid.symm.trans (congrArg LotTerms.id h.terms))
        · rw [List.mem_singleton.mp hk] at hid
          exact hf hid.symm

end Effects

/-- The row of a credit that arrives, and the lot it lands on. -/
theorem inflow_effect {a a' a₁ : Account} {w : Inflow} {amount : ℤ} {neg zero : Bool}
    {b : Balance} {written : Entry} {ctx : Ctx} {rates : LotRates} {source : LotSource}
    {packId overrideId : Option String} {r : CreditedLot} (ha : BooksOk a)
    (row : recordEntry amount w.reason (some w.ref) w.rowMeta neg zero a = .ok (b, a₁))
    (found : a₁.findEntryByRef w.reason w.ref = some written)
    (lot : applyCreditToLots ctx amount b.amountInr rates source packId written.id
      ((w.restates a₁).map Lot.id) overrideId a₁ = .ok (r, a')) :
    a' = a ∨ ∃ e got target, e.Carries amount w.reason (some w.ref) w.rowMeta ∧ e.id = a.nextId ∧
      a₁.ledger = a.ledger ++ [e] ∧ a₁.lots = a.lots ∧ 0 ≤ got ∧ got ≤ max amount 0 ∧
      Effect a a' [e] (fun i => if i = target then -got else 0) ∧
      (0 < got → a.nextId < target ∧ (∀ k ∈ a.lots, k.id ≠ target) ∧
          (∀ k ∈ a'.lots, k.id = target → k.ledgerEntryId = e.id) ∨
        ∃ l, w.restates a₁ = some l ∧ target = l.id ∧
          ∀ k, a₁.readLot l.id = some k → a₁.lapsed k = false) := by
  by_cases hz : amount = 0 ∧ zero = false
  · rcases recordEntry_ok row with ⟨-, -, rfl, -⟩ | ⟨hnz, -⟩
    · rcases applyCreditToLots_effect ha lot with ⟨-, rfl⟩ | ⟨hpos, -⟩
      · exact Or.inl rfl
      · omega
    · exact absurd hz hnz
  · have hrow := recordEntry_effect ha hz row
    obtain ⟨hid, hlots₁⟩ : a₁.nextId = a.nextId + 1 ∧ a₁.lots = a.lots := by
      rcases recordEntry_ok row with ⟨hd, hzero, -⟩ | ⟨-, -, -, rfl, -⟩
      · exact absurd ⟨hd, hzero⟩ hz
      · exact ⟨rfl, rfl⟩
    have hlots : ∀ k ∈ a.lots, k.id ≠ a₁.nextId := by
      intro k hk
      have := ha.lots.ids_lt k hk
      omega
    -- the row looked up again is the one just written
    have hwritten : written = a.entryOf amount w.reason (some w.ref) w.rowMeta := by
      have hmem : a.entryOf amount w.reason (some w.ref) w.rowMeta ∈ a₁.ledger := by
        rw [hrow.ledger]
        exact List.mem_append_right _ List.mem_cons_self
      have hown := (findEntryByRef_some_iff hrow.books.ledger).mpr ⟨hmem, rfl, rfl⟩
      exact Option.some.inj (found.symm.trans hown)
    refine Or.inr ⟨a.entryOf amount w.reason (some w.ref) w.rowMeta, ?_⟩
    rcases applyCreditToLots_effect hrow.books lot with
      ⟨hle, rfl⟩ | ⟨hpos, got, target, hgot, hmax, heff, hwhere⟩
    · exact ⟨0, 0, ⟨rfl, rfl, rfl, rfl⟩, rfl, hrow.ledger, hlots₁, le_refl _, by omega,
        hrow.congr rfl (by simp), by omega⟩
    · refine ⟨got, target, ⟨rfl, rfl, rfl, rfl⟩, rfl, hrow.ledger, hlots₁, hgot, by omega,
        (hrow.trans heff).congr rfl (by simp), fun hg => ?_⟩
      rcases hwhere hg with ⟨rfl, hentry⟩ | hl
      · exact Or.inl ⟨by omega, hlots, hwritten ▸ hentry⟩
      · exact Or.inr hl

end Billing

end Calevate
