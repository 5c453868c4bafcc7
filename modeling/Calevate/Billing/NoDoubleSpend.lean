import Calevate.Billing.Contention

/-!
# No credit is spent twice

`Sound` is what every schedule keeps: the rows are accounted for by the log, every write
that was logged has the sign its statement gives it, only committed sessions are in the
log, and a walk's own count of lost races is the number it lost. One lemma for each way a
session moves (`goto`, `wrote`, `lose`, the ends of a transaction), and `step_sound` reads
them off the schedule.
-/

namespace Calevate.Billing.Contention

open Lib Billing

/-! ## The invariant -/

/-- What the statement that made it says of a write: nothing is taken or closed below
zero, and a restatement gives no more than its delta, nor anything when it is downward. -/
def LotWrite.Signed : LotWrite → Prop
  | .take credits => 0 ≤ credits
  | .restate delta absorbed => absorbed ≤ max delta 0
  | .close credits => 0 ≤ credits

/-- The count of lost races a program carries is the true one, and is bounded. -/
def Program.Tracks (lost : ℕ) : Program → Prop
  | .taking _ _ attempts _ => attempts = lost ∧ lost ≤ maxCasAttempts
  | .rereading _ _ _ attempts _ => attempts = lost ∧ lost ≤ maxCasAttempts
  | .raised problem =>
    lost ≤ maxCasAttempts ∨ (lost = maxCasAttempts + 1 ∧ problem = .creditLotsContended)
  | .rolledBack => lost ≤ maxCasAttempts + 1
  | _ => lost ≤ maxCasAttempts

/-- The invariant of every schedule. -/
structure Sound (s : State) : Prop where
  rows : s.store.Accounted Lot.creditsRemaining LotWrite.amount
  signed : ∀ w ∈ s.store.log, w.what.Signed
  own : ∀ i, ∀ w ∈ s.store.writes i, w.session = i ∧ w.what.Signed
  logged : ∀ w ∈ s.store.log, s.prog w.session = .committed
  races : ∀ i, (s.prog i).Tracks (s.lost i)

theorem sound_start : Sound start where
  rows := RowStore.accounted_empty
  signed := fun _ h => nomatch h
  own := fun _ _ h => nomatch h
  logged := fun _ h => nomatch h
  races := fun _ => Nat.zero_le _

variable {s : State} {i : ℕ}

/-! ## How a session moves -/

theorem tracks_update {prog : ℕ → Program} {lost : ℕ → ℕ} {n : ℕ} {p : Program}
    (h : ∀ j, (prog j).Tracks (lost j)) (hp : p.Tracks n) :
    ∀ j, (Function.update prog i p j).Tracks (Function.update lost i n j) := by
  intro j
  by_cases hj : j = i
  · subst hj
    rw [Function.update_self, Function.update_self]
    exact hp
  · rw [Function.update_of_ne hj, Function.update_of_ne hj]
    exact h j

/-- A session that has not committed is not in the log, wherever it goes. -/
theorem logged_update (h : Sound s) (hi : s.prog i ≠ .committed) (p : Program) :
    ∀ w ∈ s.store.log, Function.update s.prog i p w.session = .committed := by
  intro w hw
  have hc := h.logged w hw
  rw [Function.update_of_ne]
  · exact hc
  · rintro rfl
    exact hi hc

theorem sound_goto (h : Sound s) (hi : s.prog i ≠ .committed) {p : Program}
    (hp : p.Tracks (s.lost i)) : Sound (s.goto i p) where
  rows := h.rows
  signed := h.signed
  own := h.own
  logged := logged_update h hi p
  races := by
    have := tracks_update (i := i) h.races hp
    rwa [Function.update_eq_self] at this

/-- A statement that wrote found the row, matched it, and was free to write it. -/
theorem exec_wrote {store store' : RowStore Lot LotWrite} {lotId : ℕ}
    {stmt : Lot → Except Problem (Option Lot)} {what : LotWrite}
    (h : exec store i lotId stmt what = .wrote store') :
    ∃ lot lot', store.visible i lotId = some lot ∧ stmt lot = .ok (some lot') ∧
      store.free i lotId = true ∧ store' = store.write i lotId lot' what := by
  unfold exec at h
  split at h
  · exact nomatch h
  · rename_i lot hv
    split at h
    · exact nomatch h
    · split at h
      · exact nomatch h
      · exact nomatch h
    · rename_i lot' hstmt
      split at h
      · rename_i hfree
        injection h with h
        exact ⟨lot, lot', hv, hstmt, hfree, h.symm⟩
      · exact nomatch h

/-- **A write** that moves the row by what it logs. -/
theorem sound_write (h : Sound s) (hi : s.prog i ≠ .committed) {store : RowStore Lot LotWrite}
    {lotId : ℕ} {stmt : Lot → Except Problem (Option Lot)} {what : LotWrite} {p : Program}
    (hexec : exec s.store i lotId stmt what = .wrote store)
    (hstmt : ∀ lot lot', stmt lot = .ok (some lot') →
      lot'.creditsRemaining = lot.creditsRemaining + what.amount ∧ what.Signed)
    (hp : p.Tracks (s.lost i)) : Sound (s.after i store p) := by
  obtain ⟨lot, lot', hv, hw, hfree, rfl⟩ := exec_wrote hexec
  obtain ⟨hval, hsigned⟩ := hstmt lot lot' hw
  refine ⟨h.rows.write hfree hv hval, h.signed, ?_, logged_update h hi p,
    (sound_goto h hi hp).races⟩
  intro j w hmem
  change w ∈ Function.update s.store.writes i _ j at hmem
  by_cases hj : j = i
  · subst hj
    rw [Function.update_self, List.mem_append, List.mem_singleton] at hmem
    rcases hmem with hold | rfl
    · exact h.own j w hold
    · exact ⟨rfl, hsigned⟩
  · rw [Function.update_of_ne hj] at hmem
    exact h.own j w hmem

theorem sound_insert (h : Sound s) (hi : s.prog i ≠ .committed) (lot : Lot) {p : Program}
    (hp : p.Tracks (s.lost i)) : Sound (s.after i (s.store.insert i lot) p) where
  rows := h.rows.insert i lot
  signed := h.signed
  own := h.own
  logged := logged_update h hi p
  races := (sound_goto h hi hp).races

theorem sound_lose (h : Sound s) (hi : s.prog i ≠ .committed) {p : Program}
    (hp : p.Tracks (s.lost i + 1)) : Sound (s.lose i p) where
  rows := h.rows
  signed := h.signed
  own := h.own
  logged := logged_update h hi p
  races := tracks_update h.races hp

theorem sound_beginWalk (h : Sound s) (hi : s.prog i ≠ .committed) {p : Program}
    (hp : p.Tracks 0) : Sound (s.beginWalk i p) where
  rows := h.rows
  signed := h.signed
  own := h.own
  logged := logged_update h hi p
  races := tracks_update h.races hp

/-- A session's writes join the log only when it commits. -/
theorem sound_commit (h : Sound s) (hlost : s.lost i ≤ maxCasAttempts) :
    Sound (s.after i (s.store.commit i) .committed) where
  rows := h.rows.commit i
  signed := by
    intro w hw
    rcases List.mem_append.mp hw with hlog | hown
    · exact h.signed w hlog
    · exact (h.own i w hown).2
  own := by
    intro j w hw
    change w ∈ Function.update s.store.writes i [] j at hw
    by_cases hj : j = i
    · subst hj
      rw [Function.update_self] at hw
      exact nomatch hw
    · rw [Function.update_of_ne hj] at hw
      exact h.own j w hw
  logged := by
    intro w hw
    change Function.update s.prog i _ w.session = _
    by_cases hj : w.session = i
    · rw [hj, Function.update_self]
    · rw [Function.update_of_ne hj]
      rcases List.mem_append.mp hw with hlog | hown
      · exact h.logged w hlog
      · exact absurd (h.own i w hown).1 hj
  races := by
    have := tracks_update (i := i) (p := .committed) (n := s.lost i) h.races hlost
    rwa [Function.update_eq_self] at this

theorem sound_rollback (h : Sound s) (hi : s.prog i ≠ .committed)
    (hlost : s.lost i ≤ maxCasAttempts + 1) :
    Sound (s.after i (s.store.rollback i) .rolledBack) where
  rows := h.rows.rollback i
  signed := h.signed
  own := by
    intro j w hw
    change w ∈ Function.update s.store.writes i [] j at hw
    by_cases hj : j = i
    · subst hj
      rw [Function.update_self] at hw
      exact nomatch hw
    · rw [Function.update_of_ne hj] at hw
      exact h.own j w hw
  logged := logged_update h hi _
  races := (sound_goto (p := .rolledBack) h hi hlost).races

/-! ## The three statements -/

theorem take_moves {seen take : ℤ} {now : ℕ} (htake : 0 ≤ take) {lot lot' : Lot}
    (h : takeRow seen take now lot = .ok (some lot')) :
    lot'.creditsRemaining = lot.creditsRemaining + (LotWrite.take take).amount ∧
      (LotWrite.take take).Signed := by
  obtain ⟨-, -, hr, -⟩ := takeRow_ok h
  exact ⟨by rw [hr, LotWrite.amount]; ring, htake⟩

theorem close_moves {seen : ℤ} {now : ℕ} {lot lot' : Lot}
    (h : closeRow seen now lot = .ok (some lot')) :
    lot'.creditsRemaining = lot.creditsRemaining + (LotWrite.close seen).amount ∧
      (LotWrite.close seen).Signed := by
  obtain ⟨hseen, -, hr, -⟩ := closeRow_ok h
  have hn := lot.remaining_nonneg
  subst hseen
  exact ⟨by rw [hr, LotWrite.amount]; ring, hn⟩

theorem restate_moves {delta seenTotal seen : ℤ} {now : ℕ} {lot lot' : Lot}
    (h : restateRow delta seenTotal seen now lot = .ok (some lot')) :
    lot'.creditsRemaining =
        lot.creditsRemaining + (LotWrite.restate delta (absorbedBy delta seen)).amount ∧
      (LotWrite.restate delta (absorbedBy delta seen)).Signed := by
  obtain ⟨-, hseen, -, hr, -⟩ := restateRow_ok h
  have hn := lot.remaining_nonneg
  subst hseen
  refine ⟨by rw [hr, LotWrite.amount, absorbedBy]; ring, ?_⟩
  change absorbedBy delta lot.creditsRemaining ≤ max delta 0
  unfold absorbedBy
  omega

/-! ## Every step -/

theorem sound_advanceOnce (h : Sound s) (hi : s.prog i ≠ .committed)
    (hlost : s.lost i ≤ maxCasAttempts) {lotId : ℕ} {stmt : Lot → Except Problem (Option Lot)}
    {what : LotWrite} {next : Program} {contended : Problem}
    (hstmt : ∀ lot lot', stmt lot = .ok (some lot') →
      lot'.creditsRemaining = lot.creditsRemaining + what.amount ∧ what.Signed)
    (hnext : next.Tracks (s.lost i)) :
    Sound (advanceOnce s i (exec s.store i lotId stmt what) next contended) := by
  unfold advanceOnce
  split
  · exact h
  · exact sound_goto h hi (Or.inl hlost)
  · rename_i store hexec
    exact sound_write h hi hexec hstmt hnext
  · exact sound_goto h hi (Or.inl hlost)

theorem sound_openLotRow (h : Sound s) (hi : s.prog i ≠ .committed)
    (hlost : s.lost i ≤ maxCasAttempts) (now : ℕ) (terms : LotTerms) :
    Sound (openLotRow s i now terms) := by
  unfold openLotRow
  split
  · exact sound_insert h hi _ hlost
  · exact sound_goto h hi (Or.inl hlost)

theorem sound_advanceTaking (h : Sound s) {now : ℕ} {want : Want} {lots : List Lot} {attempts : ℕ}
    {splits : List LotSplit} (hprog : s.prog i = .taking want lots attempts splits) :
    Sound (advanceTaking s i now want lots attempts splits) := by
  have hi : s.prog i ≠ .committed := by rw [hprog]; exact nofun
  have htracks := h.races i
  rw [hprog] at htracks
  obtain ⟨hattempts, hlost⟩ := htracks
  unfold advanceTaking
  split
  · rename_i hpending
    split
    · exact sound_goto h hi hlost
    · rename_i lot rest
      dsimp only
      split
      · exact h
      · exact sound_goto h hi (Or.inl hlost)
      · rename_i store hexec
        exact sound_write h hi hexec
          (fun _ _ => take_moves (Want.portion_nonneg hpending lot)) ⟨hattempts, hlost⟩
      · -- the ninth lost race raises, an earlier one is counted
        apply sound_lose h hi
        split
        · rename_i hover
          refine Or.inr ⟨?_, rfl⟩
          omega
        · exact ⟨by omega, by omega⟩
  · exact sound_goto h hi hlost

theorem sound_advance (h : Sound s) (i now : ℕ) : Sound (advance s i now) := by
  have htracks := h.races i
  unfold advance
  split
  · rename_i want lots attempts splits hprog
    exact sound_advanceTaking h hprog
  all_goals try exact h
  all_goals
    rename_i hprog
    have hi : s.prog i ≠ .committed := by rw [hprog]; exact nofun
    rw [hprog] at htracks
  · unfold advanceRereading
    split
    · exact sound_goto h hi htracks
    · exact sound_goto h hi htracks
  · exact sound_advanceOnce h hi htracks (fun _ _ => restate_moves) htracks
  · exact sound_advanceOnce h hi htracks (fun _ _ => close_moves) htracks
  · exact sound_advanceOnce h hi htracks (fun _ _ => close_moves) htracks
  · exact sound_openLotRow h hi htracks now _

/-- A session between operations has lost no more than it may. -/
theorem Sound.ready (h : Sound s) (hready : (s.prog i).isReady = true) :
    s.prog i ≠ .committed ∧ s.lost i ≤ maxCasAttempts := by
  have htracks := h.races i
  cases hp : s.prog i with
  | ready splits => rw [hp] at htracks; exact ⟨nofun, htracks⟩
  | _ => rw [hp] at hready; exact nomatch hready

theorem sound_begin (h : Sound s) (hready : (s.prog i).isReady = true) {p : Program}
    (hp : s.lost i ≤ maxCasAttempts → p.Tracks (s.lost i)) : Sound (s.goto i p) :=
  sound_goto h (h.ready hready).1 (hp (h.ready hready).2)

/-- **Every step keeps the invariant.** -/
theorem step_sound (s : State) (action : Action) (h : Sound s) : Sound (step s action) := by
  cases action with
  | consume i demand =>
    simp only [step]
    split
    · rename_i hready
      exact sound_beginWalk h (h.ready hready).1 ⟨rfl, Nat.zero_le _⟩
    · exact h
  | restate i lotId delta =>
    simp only [step, beginRestate]
    split
    · rename_i hready
      split
      · exact sound_begin h hready Or.inl
      · split
        · exact sound_begin h hready Or.inl
        · split
          · exact sound_begin h hready Or.inl
          · exact sound_begin h hready id
    · exact h
  | expire i lotId now =>
    simp only [step, beginExpire]
    split
    · rename_i hready
      split
      · exact h
      · split
        · exact sound_begin h hready id
        · exact h
    · exact h
  | reprice i lotId rates packId entryId =>
    simp only [step, beginReprice]
    split
    · rename_i hready
      split
      · exact sound_begin h hready Or.inl
      · split
        · exact sound_begin h hready Or.inl
        · split
          · exact sound_begin h hready Or.inl
          · split
            · exact sound_begin h hready Or.inl
            · exact sound_begin h hready id
    · exact h
  | openLot i now terms =>
    simp only [step]
    split
    · rename_i hready
      exact sound_openLotRow h (h.ready hready).1 (h.ready hready).2 now terms
    · exact h
  | advance i now => exact sound_advance h i now
  | commit i =>
    simp only [step]
    split
    · rename_i hready
      exact sound_commit h (h.ready hready).2
    · exact h
  | rollback i =>
    simp only [step]
    split
    · exact h
    · rename_i hover
      have htracks := h.races i
      have hne : s.prog i ≠ .committed := by
        intro hc
        rw [hc] at hover
        exact hover rfl
      apply sound_rollback h hne
      cases hp : s.prog i <;> rw [hp] at htracks <;> simp only [Program.Tracks] at htracks <;> omega

theorem run_sound (actions : List Action) : Sound (run actions) :=
  Run.foldl_inv step_sound sound_start actions

/-! ## What the log adds up to -/

/-- What a write spent. -/
def LotWrite.taken : LotWrite → ℤ
  | .take credits => credits
  | _ => 0

/-- What a write closed out of the lot, to lapse or onto a replacement. -/
def LotWrite.closedOut : LotWrite → ℤ
  | .close credits => credits
  | _ => 0

/-- What a write restated the lot by. -/
def LotWrite.restated : LotWrite → ℤ
  | .restate delta _ => delta
  | _ => 0

/-- What the lot's remaining credits took of it: all of a rise, and of a fall no more than
was left. -/
def LotWrite.absorbed : LotWrite → ℤ
  | .restate _ absorbed => absorbed
  | _ => 0

/-- The rises alone. -/
def LotWrite.raisedBy : LotWrite → ℤ
  | .restate delta _ => max delta 0
  | _ => 0

section Sums

variable {l : List (Write LotWrite)} (lotId : ℕ)

theorem moved_amount :
    RowStore.moved LotWrite.amount l lotId = RowStore.moved LotWrite.absorbed l lotId -
      RowStore.moved LotWrite.taken l lotId - RowStore.moved LotWrite.closedOut l lotId := by
  unfold RowStore.moved
  induction RowStore.writesTo lotId l with
  | nil => rfl
  | cons w rest ih =>
    simp only [List.map_cons, List.sum_cons, ih]
    cases w.what <;> simp only [LotWrite.amount, LotWrite.absorbed, LotWrite.taken,
      LotWrite.closedOut] <;> ring

theorem moved_le {f g : LotWrite → ℤ} (h : ∀ w ∈ l, f w.what ≤ g w.what) :
    RowStore.moved f l lotId ≤ RowStore.moved g l lotId := by
  apply List.sum_le_sum
  intro w hw
  exact h w (List.mem_of_mem_filter hw)

/-- Where every write is signed, closing gives nothing back and a restatement no more than
its rises. -/
theorem moved_signed (h : ∀ w ∈ l, w.what.Signed) :
    0 ≤ RowStore.moved LotWrite.closedOut l lotId ∧
      RowStore.moved LotWrite.absorbed l lotId ≤ RowStore.moved LotWrite.raisedBy l lotId := by
  constructor
  · apply List.sum_nonneg
    intro x hx
    obtain ⟨w, hw, rfl⟩ := List.mem_map.mp hx
    have hs := h w (List.mem_of_mem_filter hw)
    cases hwhat : w.what with
    | close credits => rw [hwhat] at hs; exact hs
    | take credits => exact le_refl _
    | restate delta absorbed => exact le_refl _
  · apply moved_le
    intro w hw
    have hs := h w hw
    cases hwhat : w.what with
    | restate delta absorbed => rw [hwhat] at hs; exact hs
    | take credits => exact le_refl _
    | close credits => exact le_refl _

end Sums

/-- **No credit is spent twice**, under any schedule. What is left on a lot is what it was
opened with and what restatements gave it, less what committed sessions took and closed
out, so what was taken stays within what the lot was opened with and its rises; and a walk
that loses one race too many has raised, and nothing of its session is committed. -/
theorem noCreditSpentTwice (actions : List Action) :
    (∀ lotId lot, (run actions).store.committed lotId = some lot →
      ∃ opened, (run actions).store.origin lotId = some opened ∧
        lot.creditsRemaining + RowStore.moved LotWrite.taken (run actions).store.log lotId +
            RowStore.moved LotWrite.closedOut (run actions).store.log lotId =
          opened.creditsRemaining +
            RowStore.moved LotWrite.absorbed (run actions).store.log lotId ∧
        RowStore.moved LotWrite.taken (run actions).store.log lotId ≤
          opened.creditsRemaining +
            RowStore.moved LotWrite.raisedBy (run actions).store.log lotId) ∧
      ∀ i, (run actions).lost i ≤ maxCasAttempts + 1 ∧
        ((run actions).lost i = maxCasAttempts + 1 →
          ((run actions).prog i = .raised .creditLotsContended ∨
              (run actions).prog i = .rolledBack) ∧
            ∀ w ∈ (run actions).store.log, w.session ≠ i) := by
  have h := run_sound actions
  constructor
  · intro lotId lot hlot
    obtain ⟨opened, horigin, hval⟩ := h.rows.committed lotId lot hlot
    obtain ⟨hclosed, habsorbed⟩ := moved_signed lotId h.signed
    rw [moved_amount] at hval
    have hn := lot.remaining_nonneg
    exact ⟨opened, horigin, by omega, by omega⟩
  · intro i
    have htracks := h.races i
    have hdone : (run actions).lost i = maxCasAttempts + 1 →
        (run actions).prog i = .raised .creditLotsContended ∨
          (run actions).prog i = .rolledBack := by
      intro hlost
      rw [hlost] at htracks
      cases hp : (run actions).prog i with
      | raised problem =>
        rw [hp] at htracks
        rcases htracks with hle | ⟨-, rfl⟩
        · omega
        · exact Or.inl rfl
      | rolledBack => exact Or.inr rfl
      | _ =>
        rw [hp] at htracks
        simp only [Program.Tracks] at htracks
        omega
    refine ⟨?_, fun hlost => ⟨hdone hlost, ?_⟩⟩
    · cases hp : (run actions).prog i <;> rw [hp] at htracks <;>
        simp only [Program.Tracks] at htracks <;> omega
    · rintro w hw rfl
      have hc := h.logged w hw
      rcases hdone hlost with hr | hr <;> rw [hr] at hc <;> exact nomatch hc

/-- A purchase of five thousand rupees. -/
def purchase : LotTerms where
  creditsInr := 50000000
  rates := ⟨50000, 80000, by norm_num, by norm_num⟩
  source := .topup
  packId := some "starter"
  ledgerEntryId := 1
  overrideOfPackId := none
  openedAt := none
  expiresAt := none

/-- Five thousand bought, four thousand spent, and the purchase restated down by two: what
was taken is past what the lot was opened with and its restatements together. -/
theorem restatedBelowSpent_exceeds :
    ∃ actions opened, (run actions).store.origin 0 = some opened ∧
      ((run actions).store.committed 0).isSome = true ∧
      ¬ RowStore.moved LotWrite.taken (run actions).store.log 0 ≤
        opened.creditsRemaining + RowStore.moved LotWrite.restated (run actions).store.log 0 := by
  refine ⟨[.openLot 0 1 purchase, .commit 0, .consume 1 (.aiAssist 40000000), .advance 1 2,
    .advance 1 3, .commit 1, .restate 2 0 (-20000000), .advance 2 4, .commit 2],
    newLot 0 1 50000000 purchase.rates .topup (some "starter") 1 none none none (by decide),
    ?_, ?_, ?_⟩
  · decide +kernel
  · decide +kernel
  · decide +kernel

end Calevate.Billing.Contention
