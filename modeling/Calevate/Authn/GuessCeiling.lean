import Calevate.Authn.LiveChallenges

/-!
# How often a code can be guessed

A guess is compared before it is charged, so the guesses between their first statement and
their commit are not on the row yet. `Counted` is the account of them: a live challenge has
been charged for every guess it was compared with, but those in flight. The row's ceiling is
one where comparisons leave room for the guesses in flight (`codes_guessed_at_most`), and
without that it is none (`sixth_accepted`).
-/

namespace Calevate

namespace Authn

open Lib

/-! ## Every guess is on the row or in flight -/

/-- The guesses compared with a challenge while it could still accept them. -/
def State.guessesAt (s : State) (k : ℕ) : List (ℕ × ℕ) := s.compared.filter fun p => p.2 = k

/-- Those of them whose transaction has not ended. -/
def State.inFlight (s : State) (k : ℕ) : List (ℕ × ℕ) :=
  (s.guessesAt k).filter fun p => (s.stage p.1).running

/-- Stages behind the first statement of a guess. -/
def Stage.compared : Stage → Bool
  | .accepting _ _ _ | .toCharge _ | .charging _ _ _ | .answered _ _ => true
  | .committed _ | .rolledBack => true
  | _ => false

/-- What a guess holds by its stage: the challenge it accepted, consumed; or each live
challenge it was compared with charged, as far as it has got. -/
def Stage.Charges (s : State) (i : ℕ) : Stage → Prop
  | .accepting guess _ true | .answered guess .accepted =>
    ∃ k r c, s.store.pending k = some (i, r) ∧ r.consumedAt ≠ none ∧
      s.store.committed k = some c ∧ c.liveIn guess.slot = true
  | .charging guess rows _ =>
    (∀ k r, s.store.pending k = some (i, r) → r.consumedAt = none) ∧
      ∀ k c, (i, k) ∈ s.compared → s.store.committed k = some c →
        c.liveIn guess.slot = true → k ∈ rows ∨
          ∃ r, s.store.pending k = some (i, r) ∧ c.attempts < r.attempts
  | .answered guess _ => ∀ k c, (i, k) ∈ s.compared → s.store.committed k = some c →
      c.liveIn guess.slot = true →
        ∃ r, s.store.pending k = some (i, r) ∧ c.attempts < r.attempts
  | _ => True

/-- **A live challenge has been charged for every guess that was compared with it**, but those
in flight. -/
structure Counted (s : State) : Prop where
  nodup : s.compared.Nodup
  past : ∀ i k, (i, k) ∈ s.compared → (s.stage i).compared = true
  known : ∀ i k, (i, k) ∈ s.compared → ∃ c, s.store.committed k = some c ∧
    ∀ slot, (s.stage i).slot = some slot → c.slot = slot
  charges : ∀ i, (s.stage i).Charges s i
  bound : ∀ k c, s.store.committed k = some c → c.consumedAt = none →
    (s.guessesAt k).length ≤ c.attempts + (s.inFlight k).length

theorem counted_start : Counted start where
  nodup := List.nodup_nil
  past := by intros; contradiction
  known := by intros; contradiction
  charges := fun _ => trivial
  bound := by intros; contradiction

/-- A session that others leave its versions and its challenges has charged what it had. -/
theorem Stage.Charges.congr {s s' : State} {j : ℕ} {stage : Stage} (h : stage.Charges s j)
    (hpending : ∀ k r, s'.store.pending k = some (j, r) ↔ s.store.pending k = some (j, r))
    (hcompared : ∀ k, (j, k) ∈ s'.compared → (j, k) ∈ s.compared)
    (hheld : ∀ k r, s.store.pending k = some (j, r) →
      s'.store.committed k = s.store.committed k)
    (hlive : ∀ k c', (j, k) ∈ s.compared → s'.store.committed k = some c' →
      c'.consumedAt = none → ∃ c, s.store.committed k = some c ∧ c.consumedAt = none ∧
        c.slot = c'.slot) : stage.Charges s' j := by
  have hbefore : ∀ {slot k c'}, (j, k) ∈ s.compared → s'.store.committed k = some c' →
      c'.liveIn slot = true → ∃ c, s.store.committed k = some c ∧ c.liveIn slot = true := by
    intro slot k c' hmem hc' hlive'
    obtain ⟨hslot, hnone⟩ := liveIn_iff.mp hlive'
    obtain ⟨c, hc, hcl, hcs⟩ := hlive k c' hmem hc' hnone
    exact ⟨c, hc, liveIn_iff.mpr ⟨hcs.trans hslot, hcl⟩⟩
  have haccepted : ∀ {slot : Slot}, (∃ k r c, s.store.pending k = some (j, r) ∧
      r.consumedAt ≠ none ∧ s.store.committed k = some c ∧ c.liveIn slot = true) →
      ∃ k r c, s'.store.pending k = some (j, r) ∧ r.consumedAt ≠ none ∧
        s'.store.committed k = some c ∧ c.liveIn slot = true := by
    rintro slot ⟨k, r, c, hp, hr, hc, hcl⟩
    exact ⟨k, r, c, (hpending k r).mpr hp, hr, (hheld k r hp).trans hc, hcl⟩
  have hcharged : ∀ {k : ℕ} {c c' : Challenge}, s.store.committed k = some c →
      s'.store.committed k = some c' →
      (∃ r, s.store.pending k = some (j, r) ∧ c.attempts < r.attempts) →
      ∃ r, s'.store.pending k = some (j, r) ∧ c'.attempts < r.attempts := by
    rintro k c c' hc hc' ⟨r, hp, hlt⟩
    rw [hheld k r hp, hc] at hc'
    cases hc'
    exact ⟨r, (hpending k r).mpr hp, hlt⟩
  cases stage with
  | accepting guess rows hit =>
    cases hit with
    | true => exact haccepted h
    | false => trivial
  | answered guess outcome =>
    cases outcome with
    | accepted => exact haccepted h
    | wrong | expired =>
      intro k c' hmem hc' hlive'
      obtain ⟨c, hc, hcl⟩ := hbefore (hcompared k hmem) hc' hlive'
      exact hcharged hc hc' (h k c (hcompared k hmem) hc hcl)
  | charging guess rows expired =>
    refine ⟨fun k r hp => h.1 k r ((hpending k r).mp hp), fun k c' hmem hc' hlive' => ?_⟩
    obtain ⟨c, hc, hcl⟩ := hbefore (hcompared k hmem) hc' hlive'
    rcases h.2 k c (hcompared k hmem) hc hcl with hin | hheld'
    · exact .inl hin
    · exact .inr (hcharged hc hc' hheld')
  | _ => trivial

namespace Counted

variable {s : State} {i : ℕ}

/-- Guesses are in flight as before unless a session that made one begins or ends. -/
theorem inFlight_goto {store : RowStore Challenge Mark} {stage : Stage}
    (hrunning : stage.running = (s.stage i).running ∨ ∀ k, (i, k) ∉ s.compared) (k : ℕ) :
    (s.goto i store stage).inFlight k = s.inFlight k := by
  refine List.filter_congr fun p hp => ?_
  by_cases hpi : p.1 = i
  · rcases hrunning with hrunning | hnone
    · simp [State.goto, hpi, hrunning]
    · obtain ⟨j, m⟩ := p
      simp only at hpi
      subst hpi
      exact absurd (List.mem_of_mem_filter hp) (hnone m)
  · simp [State.goto, Function.update_of_ne hpi]

/-- A step within a session that leaves what is committed. -/
theorem goto {store : RowStore Challenge Mark} {stage : Stage} (h : Counted s)
    (hcommitted : store.committed = s.store.committed)
    (hothers : ∀ j k r, j ≠ i →
      (store.pending k = some (j, r) ↔ s.store.pending k = some (j, r)))
    (hrunning : stage.running = (s.stage i).running ∨ ∀ k, (i, k) ∉ s.compared)
    (hpast : stage.compared = true ∨ ∀ k, (i, k) ∉ s.compared)
    (hslot : (∀ slot, stage.slot = some slot → (s.stage i).slot = some slot) ∨
      ∀ k, (i, k) ∉ s.compared)
    (hcharges : stage.Charges (s.goto i store stage) i) : Counted (s.goto i store stage) where
  nodup := h.nodup
  past j k hmem := by
    by_cases hji : j = i
    · subst hji
      rcases hpast with hpast | hnone
      · simpa [State.goto] using hpast
      · exact absurd hmem (hnone k)
    · simpa [State.goto, Function.update_of_ne hji] using h.past j k hmem
  known j k hmem := by
    obtain ⟨c, hc, hcs⟩ := h.known j k hmem
    refine ⟨c, by rw [← hc]; exact congrFun hcommitted k, fun slot hstage => ?_⟩
    by_cases hji : j = i
    · subst hji
      simp only [State.goto, Function.update_self] at hstage
      rcases hslot with hslot | hnone
      · exact hcs slot (hslot slot hstage)
      · exact absurd hmem (hnone k)
    · simp only [State.goto, Function.update_of_ne hji] at hstage
      exact hcs slot hstage
  charges j := by
    by_cases hji : j = i
    · subst hji
      simpa only [State.goto, Function.update_self] using hcharges
    · have hkept : (s.stage j).Charges (s.goto i store stage) j := by
        refine (h.charges j).congr (fun k r => hothers j k r hji) (fun k hmem => hmem)
          (fun k r _ => congrFun hcommitted k) fun k c' _ hc' hlive => ?_
        refine ⟨c', ?_, hlive, rfl⟩
        rw [← hc']
        exact (congrFun hcommitted k).symm
      have hstage : (s.goto i store stage).stage j = s.stage j := Function.update_of_ne hji ..
      rw [hstage]
      exact hkept
  bound k c hc hlive := by
    have hc : s.store.committed k = some c := by
      rw [← hc]
      exact (congrFun hcommitted k).symm
    rw [inFlight_goto hrunning]
    exact h.bound k c hc hlive

end Counted

namespace Counted

variable {s : State} {i : ℕ}

theorem not_compared (h : Counted s) (hat : (s.stage i).compared = false) :
    ∀ k, (i, k) ∉ s.compared := by
  intro k hmem
  rw [h.past i k hmem] at hat
  cases hat

/-- **A comparison is a guess in flight.** -/
theorem compare (h : Counted s) (hclean : Clean s) {guess : Guess}
    (hat : s.stage i = .toAccept guess) :
    Counted { s.goto i s.store (.accepting guess (s.store.found i guess.accepts) false) with
      compared := s.compared ++ (s.store.found i guess.open).map fun k => (i, k) } := by
  have hnot := h.not_compared (i := i) (by rw [hat]; rfl)
  have hown : ∀ k ∈ s.store.found i guess.open, ∃ c, s.store.committed k = some c ∧
      c.slot = guess.slot := by
    intro k hk
    obtain ⟨-, c, hvis, hopen⟩ := RowStore.mem_found.mp hk
    rw [RowStore.visible_of_not_held (hclean i (by rw [hat]; rfl) k)] at hvis
    exact ⟨c, hvis, (liveIn_iff.mp (Guess.live_of_open hopen)).1⟩
  constructor
  case nodup =>
    refine List.nodup_append.mpr ⟨h.nodup, ?_, fun p hp q hq => ?_⟩
    · exact (RowStore.found_nodup _ _ _).map fun k m hkm => (Prod.mk.inj hkm).2
    · obtain ⟨k, -, rfl⟩ := List.mem_map.mp hq
      rintro rfl
      exact hnot k hp
  case past =>
    intro j k hmem
    by_cases hji : j = i
    · subst hji
      simp [State.goto, Stage.compared]
    · rcases List.mem_append.mp hmem with hmem | hmem
      · simpa [State.goto, Function.update_of_ne hji] using h.past j k hmem
      · obtain ⟨m, -, hm⟩ := List.mem_map.mp hmem
        exact absurd (Prod.mk.inj hm).1.symm hji
  case known =>
    intro j k hmem
    by_cases hji : j = i
    · subst hji
      obtain ⟨m, hm, hmk⟩ := List.mem_map.mp ((List.mem_append.mp hmem).resolve_left (hnot k))
      obtain ⟨c, hc, hcs⟩ := hown m hm
      rw [(Prod.mk.inj hmk).2] at hc
      refine ⟨c, hc, fun slot hslot => ?_⟩
      simp only [State.goto, Function.update_self, Stage.slot, Option.some.injEq] at hslot
      exact hcs.trans hslot
    · rcases List.mem_append.mp hmem with hmem | hmem
      · simpa [State.goto, Function.update_of_ne hji] using h.known j k hmem
      · obtain ⟨m, -, hm⟩ := List.mem_map.mp hmem
        exact absurd (Prod.mk.inj hm).1.symm hji
  case charges =>
    intro j
    by_cases hji : j = i
    · subst hji
      simp [State.goto, Stage.Charges]
    · have hkept : (s.stage j).Charges { s with
          compared := s.compared ++ (s.store.found i guess.open).map fun k => (i, k) } j := by
        refine (h.charges j).congr (fun k r => Iff.rfl) (fun k hmem => ?_) (fun k r _ => rfl)
          fun k c' _ hc' hlive => ⟨c', hc', hlive, rfl⟩
        rcases List.mem_append.mp hmem with hmem | hmem
        · exact hmem
        · obtain ⟨m, -, hm⟩ := List.mem_map.mp hmem
          exact absurd (Prod.mk.inj hm).1.symm hji
      have hstage : Function.update s.stage i
          (.accepting guess (s.store.found i guess.accepts) false) j = s.stage j :=
        Function.update_of_ne hji ..
      simp only [State.goto, hstage]
      exact hkept
  case bound =>
    intro k c hc hlive
    have hold := h.bound k c hc hlive
    -- what is new among the guesses is in flight, what was there is as it was
    set new : List (ℕ × ℕ) := ((s.store.found i guess.open).map fun k => (i, k)).filter
      fun p => p.2 = k with hnew
    have hguesses : ({ s.goto i s.store (.accepting guess (s.store.found i guess.accepts) false)
        with compared := s.compared ++ (s.store.found i guess.open).map fun k => (i, k) } :
          State).guessesAt k = s.guessesAt k ++ new := by
      simp [State.guessesAt, hnew]
    have hrunning : (Stage.accepting guess (s.store.found i guess.accepts) false).running =
        (s.stage i).running := by rw [hat]; rfl
    have hflight : ({ s.goto i s.store (.accepting guess (s.store.found i guess.accepts) false)
        with compared := s.compared ++ (s.store.found i guess.open).map fun k => (i, k) } :
          State).inFlight k = s.inFlight k ++ new := by
      rw [State.inFlight, hguesses, List.filter_append]
      congr 1
      · exact @inFlight_goto s i s.store _ (.inl hrunning) k
      · rw [List.filter_eq_self]
        intro p hp
        obtain ⟨m, -, rfl⟩ := List.mem_map.mp (List.mem_of_mem_filter hp)
        simp [State.goto, Stage.running]
    rw [hguesses, hflight, List.length_append, List.length_append]
    omega

/-- What a session that is about to commit has done to a live challenge it was compared with. -/
theorem settled (h : Counted s) (hs : Serial s) {outcome : Option CodeOutcome}
    (hat : State.returned (s.stage i) = some outcome) {k : ℕ} {c : Challenge}
    (hmem : (i, k) ∈ s.compared) (hc : s.store.committed k = some c) (hlive : c.consumedAt = none) :
    ∃ r, s.store.pending k = some (i, r) ∧ (r.consumedAt ≠ none ∨ c.attempts < r.attempts) := by
  have hpast := h.past i k hmem
  obtain ⟨c', hc', hslot⟩ := h.known i k hmem
  rw [hc] at hc'
  cases hc'
  have hcharges := h.charges i
  cases hstage : s.stage i with
  | answered guess answer =>
    rw [hstage] at hcharges hslot
    have hlive' : c.liveIn guess.slot = true := liveIn_iff.mpr ⟨hslot guess.slot rfl, hlive⟩
    cases answer with
    | accepted =>
      obtain ⟨m, r, d, hp, hr, hd, hdl⟩ := hcharges
      obtain ⟨hds, hdn⟩ := liveIn_iff.mp hdl
      have hmk : m = k := hs.oneLive m k d c hd hc hdn hlive (hds.trans (hslot _ rfl).symm)
      exact ⟨r, hmk ▸ hp, .inl hr⟩
    | wrong | expired =>
      obtain ⟨r, hp, hlt⟩ := hcharges k c hmem hc hlive'
      exact ⟨r, hp, .inr hlt⟩
  | minted call row =>
    rw [hstage] at hpast
    cases hpast
  | _ =>
    rw [hstage] at hat
    cases hat

/-- One session's guess at most leaves the flight when it ends. -/
theorem inFlight_le (h : Counted s) (store : RowStore Challenge Mark) (stage : Stage) (k : ℕ) :
    (s.inFlight k).length ≤ ((s.goto i store stage).inFlight k).length + 1 := by
  have hnodup : (s.inFlight k).Nodup := (h.nodup.filter _).filter _
  have hsub : s.inFlight k ⊆ (i, k) :: (s.goto i store stage).inFlight k := by
    intro p hp
    obtain ⟨hp, hrunning⟩ := List.mem_filter.mp hp
    by_cases hpi : p.1 = i
    · have hpk : p.2 = k := by simpa using (List.mem_filter.mp hp).2
      exact List.mem_cons.mpr (.inl (Prod.ext hpi hpk))
    · refine List.mem_cons_of_mem _ (List.mem_filter.mpr ⟨hp, ?_⟩)
      simpa [State.goto, Function.update_of_ne hpi] using hrunning
  exact (List.subperm_of_subset hnodup hsub).length_le

theorem commit (h : Counted s) (hv : Versions s.store) (hs : Serial s)
    {outcome : Option CodeOutcome} (hat : State.returned (s.stage i) = some outcome) :
    Counted { s.goto i (s.store.commit i) (.committed outcome) with lock := s.unlock i } where
  nodup := h.nodup
  past j k hmem := by
    by_cases hji : j = i
    · subst hji
      simp [State.goto, Stage.compared]
    · simpa [State.goto, Function.update_of_ne hji] using h.past j k hmem
  known j k hmem := by
    obtain ⟨c, hc, hcs⟩ := h.known j k hmem
    have hstays : ∃ c', (s.store.commit i).committed k = some c' ∧ c'.slot = c.slot := by
      by_cases hown : ∃ r, s.store.pending k = some (i, r)
      · obtain ⟨r, hp⟩ := hown
        exact ⟨r, RowStore.commit_committed_of hp, hv.slot k i r c hp hc⟩
      · refine ⟨c, ?_, rfl⟩
        rw [RowStore.commit_committed_ne fun r hr => hown ⟨r, hr⟩]
        exact hc
    obtain ⟨c', hc', hcs'⟩ := hstays
    refine ⟨c', hc', fun slot hslot => ?_⟩
    by_cases hji : j = i
    · subst hji
      simp [State.goto, Stage.slot] at hslot
    · simp only [State.goto, Function.update_of_ne hji] at hslot
      exact hcs'.trans (hcs slot hslot)
  charges j := by
    by_cases hji : j = i
    · subst hji
      simp [State.goto, Stage.Charges]
    have hkept : (s.stage j).Charges
        { s.goto i (s.store.commit i) (.committed outcome) with lock := s.unlock i } j := by
      refine (h.charges j).congr (fun k r => ?_) (fun k hmem => hmem) (fun k r hp => ?_)
        fun k c' hmem hc' hlive => ?_
      · exact RowStore.commit_pending_iff.trans (and_iff_left hji)
      · refine RowStore.commit_committed_ne fun r' hr' => ?_
        rw [hp] at hr'
        cases hr'
        exact hji rfl
      · rcases hs.commit_live hv hc' hlive with hold | ⟨call, hcall, -⟩
        · exact hold
        · -- a challenge that was compared is no new one
          obtain ⟨c, hc, -⟩ := h.known j k hmem
          rcases RowStore.commit_committed_cases hc' with hp | ⟨-, hc''⟩
          · exact ⟨c, hc, hv.live k i c' c hp hc hlive, (hv.slot k i c' c hp hc).symm⟩
          · exact ⟨c', hc'', hlive, rfl⟩
    have hstage : Function.update s.stage i (.committed outcome) j = s.stage j :=
      Function.update_of_ne hji ..
    simp only [State.goto, hstage]
    exact hkept
  bound k c' hc' hlive := by
    change (s.guessesAt k).length ≤ c'.attempts +
      ((s.goto i (s.store.commit i) (.committed outcome)).inFlight k).length
    cases hold : s.store.committed k with
    | none =>
      have hnone : s.guessesAt k = [] := by
        rw [State.guessesAt, List.filter_eq_nil_iff]
        rintro ⟨j, m⟩ hmem
        simp only [decide_eq_true_eq]
        rintro rfl
        obtain ⟨c, hc, -⟩ := h.known j m hmem
        rw [hold] at hc
        cases hc
      rw [hnone]
      exact Nat.zero_le _
    | some c =>
      have hbefore : c.consumedAt = none ∧ c.attempts ≤ c'.attempts := by
        rcases RowStore.commit_committed_cases hc' with hp | ⟨-, hc''⟩
        · exact ⟨hv.live k i c' c hp hold hlive, hv.attempts k i c' c hp hold⟩
        · rw [hold] at hc''
          cases hc''
          exact ⟨hlive, le_rfl⟩
      have hbound := h.bound k c hold hbefore.1
      by_cases hmem : (i, k) ∈ s.compared
      · obtain ⟨r, hp, hsettled⟩ := h.settled hs hat hmem hold hbefore.1
        have hr : r = c' := Option.some.inj ((RowStore.commit_committed_of hp).symm.trans hc')
        have hlt := hsettled.resolve_left fun hconsumed => hconsumed (hr ▸ hlive)
        have hflight : (s.inFlight k).length ≤
            ((s.goto i (s.store.commit i) (.committed outcome)).inFlight k).length + 1 :=
          h.inFlight_le _ _ k
        rw [hr] at hlt
        omega
      · have hflight : (s.goto i (s.store.commit i) (.committed outcome)).inFlight k =
            s.inFlight k := by
          refine List.filter_congr fun p hp => ?_
          have hpi : p.1 ≠ i := by
            rintro rfl
            have hpk : p.2 = k := by simpa using (List.mem_filter.mp hp).2
            rw [← hpk] at hmem
            exact hmem (List.mem_of_mem_filter hp)
          simp [State.goto, Function.update_of_ne hpi]
        rw [hflight]
        omega

end Counted

/-- A session other than one that was rolled back keeps the count. -/
theorem Move.counted {s s' : State} {i : ℕ} (hv : Versions s.store) (hs : Serial s)
    (hclean : Clean s) (h : Counted s) (hm : Move s i s')
    (hkept : (s.stage i).running = true → s'.stage i = .rolledBack → ∀ k, (i, k) ∉ s.compared) :
    Counted s' := by
  have hsame : ∀ j k r, j ≠ i →
      (s.store.pending k = some (j, r) ↔ s.store.pending k = some (j, r)) :=
    fun _ _ _ _ => Iff.rfl
  cases hm
  case begin stage hat hto =>
    have hnot := h.not_compared (i := i) (by rw [hat]; rfl)
    rcases hto with ⟨call, rfl⟩ | ⟨guess, rfl⟩ <;>
      exact h.goto rfl hsame (.inr hnot) (.inr hnot) (.inr hnot) trivial
  case lock call hat hfree =>
    have hnot := h.not_compared (i := i) (by rw [hat]; rfl)
    have hgo : Counted (s.goto i s.store (.toRetire call)) :=
      h.goto rfl hsame (.inr hnot) (.inr hnot) (.inr hnot) trivial
    exact { hgo with }
  case find call hat =>
    have hnot := h.not_compared (i := i) (by rw [hat]; rfl)
    exact h.goto rfl hsame (.inr hnot) (.inr hnot) (.inr hnot) trivial
  case retire call k rows c hat hfree hvis hlive =>
    have hnot := h.not_compared (i := i) (by rw [hat]; rfl)
    exact h.goto rfl (fun j m r hji => RowStore.write_pending_other hfree hji) (.inr hnot) (.inr hnot) (.inr hnot)
      trivial
  case retireNone call k rows hat hnone =>
    have hnot := h.not_compared (i := i) (by rw [hat]; rfl)
    exact h.goto rfl hsame (.inr hnot) (.inr hnot) (.inr hnot) trivial
  case mint call hat =>
    have hnot := h.not_compared (i := i) (by rw [hat]; rfl)
    exact h.goto rfl (fun j m r hji => RowStore.insert_pending_other (hv.fresh _ le_rfl).2 hji) (.inr hnot) (.inr hnot) (.inr hnot)
      trivial
  case compare guess hat => exact h.compare hclean hat
  case accept guess k rows hit c hat hfree hvis hlive =>
    have hlive := Guess.live_of_open (Guess.open_of_accepts hlive)
    refine h.goto rfl (fun j m r hji => RowStore.write_pending_other hfree hji) (.inl (by rw [hat]; rfl))
      (.inl rfl) (.inl (by simp [hat, Stage.slot])) ?_
    -- the version the session sees is its own or the committed one, and live either way
    have hcommitted : ∃ d, s.store.committed k = some d ∧ d.liveIn guess.slot = true := by
      rcases RowStore.visible_cases hvis with hp | ⟨-, hc⟩
      · cases hd : s.store.committed k with
        | none =>
          obtain ⟨call, hcall⟩ := hs.unborn k i c hp hd
          rw [hat] at hcall
          cases hcall
        | some d =>
          refine ⟨d, rfl, liveIn_iff.mpr ⟨?_, hv.live k i c d hp hd (liveIn_iff.mp hlive).2⟩⟩
          exact (hv.slot k i c d hp hd).symm.trans (liveIn_iff.mp hlive).1
      · exact ⟨c, hc, hlive⟩
    obtain ⟨d, hd, hdl⟩ := hcommitted
    exact ⟨k, _, d, RowStore.write_pending_self, Option.some_ne_none _, hd, hdl⟩
  case acceptNone guess k rows hit hat =>
    refine h.goto rfl hsame (.inl (by rw [hat]; rfl)) (.inl rfl)
      (.inl (by simp [hat, Stage.slot])) ?_
    have hcharges := h.charges i
    rw [hat] at hcharges
    cases hit with
    | true => exact hcharges
    | false => trivial
  case accepted guess hat =>
    refine h.goto rfl hsame (.inl (by rw [hat]; rfl)) (.inl rfl)
      (.inl (by simp [hat, Stage.slot])) ?_
    have hcharges := h.charges i
    rw [hat] at hcharges
    exact hcharges
  case missed guess hat =>
    exact h.goto rfl hsame (.inl (by rw [hat]; rfl)) (.inl rfl)
      (.inl (by simp [hat, Stage.slot])) trivial
  case findCharged guess hat =>
    have hnone := hclean i (by rw [hat]; rfl)
    refine h.goto rfl hsame (.inl (by rw [hat]; rfl)) (.inl rfl)
      (.inl (by simp [hat, Stage.slot])) ⟨fun k r hp => absurd hp (hnone k r), ?_⟩
    intro k c _ hc hlive
    refine .inl (RowStore.mem_found.mpr ⟨hv.lt_size hc, c, ?_, hlive⟩)
    rw [RowStore.visible_of_not_held (hnone k)]
    exact hc
  case charge guess k rows expired expired' c hat hfree hvis hlive =>
    refine h.goto rfl (fun j m r hji => RowStore.write_pending_other hfree hji) (.inl (by rw [hat]; rfl))
      (.inl rfl) (.inl (by simp [hat, Stage.slot])) ?_
    have hcharges := h.charges i
    rw [hat] at hcharges
    refine ⟨fun m r hp => ?_, fun m d hmem hd hdlive => ?_⟩
    · rcases RowStore.write_pending_cases hp with ⟨-, -, rfl⟩ | ⟨-, hp⟩
      · exact (liveIn_iff.mp hlive).2
      · exact hcharges.1 m r hp
    · by_cases hmk : m = k
      · subst hmk
        exact .inr ⟨c.charge, RowStore.write_pending_self,
          Nat.lt_succ_of_le (hv.visible hvis hd).2.2⟩
      · rcases hcharges.2 m d hmem hd hdlive with hin | ⟨r, hp, hlt⟩
        · exact .inl (List.mem_of_ne_of_mem hmk hin)
        · exact .inr ⟨r, by rw [← hp]; exact RowStore.write_pending_ne hmk, hlt⟩
  case chargeNone guess k rows expired expired' hat hnone =>
    refine h.goto rfl hsame (.inl (by rw [hat]; rfl)) (.inl rfl)
      (.inl (by simp [hat, Stage.slot])) ?_
    have hcharges := h.charges i
    rw [hat] at hcharges
    refine ⟨hcharges.1, fun m d hmem hd hdlive => ?_⟩
    rcases hcharges.2 m d hmem hd hdlive with hin | hheld
    · rcases List.mem_cons.mp hin with rfl | hin
      · -- a live challenge that is skipped would have to be consumed by this very session
        by_cases hown : ∃ r, s.store.pending m = some (i, r)
        · obtain ⟨r, hp⟩ := hown
          have hskip := hnone r (RowStore.visible_of_pending hp)
          have hslot := (hv.slot m i r d hp hd).trans (liveIn_iff.mp hdlive).1
          rw [liveIn_iff.mpr ⟨hslot, hcharges.1 m r hp⟩] at hskip
          cases hskip
        · have hskip := hnone d (by
            rw [RowStore.visible_of_not_held fun r hr => hown ⟨r, hr⟩]
            exact hd)
          rw [hdlive] at hskip
          cases hskip
      · exact .inl hin
    · exact .inr hheld
  case refused guess expired outcome hat hno =>
    refine h.goto rfl hsame (.inl (by rw [hat]; rfl)) (.inl rfl)
      (.inl (by simp [hat, Stage.slot])) ?_
    have hcharges := h.charges i
    rw [hat] at hcharges
    have hcharged : ∀ k c, (i, k) ∈ s.compared → s.store.committed k = some c →
        c.liveIn guess.slot = true →
          ∃ r, s.store.pending k = some (i, r) ∧ c.attempts < r.attempts :=
      fun k c hmem hc hlive => (hcharges.2 k c hmem hc hlive).resolve_left List.not_mem_nil
    cases outcome with
    | accepted => exact absurd rfl hno
    | wrong | expired => exact hcharged
  case commit outcome hat => exact h.commit hv hs hat
  case rollback hat =>
    have hnot := hkept hat (by simp [State.goto])
    have hgo : Counted (s.goto i (s.store.rollback i) .rolledBack) :=
      h.goto rfl (fun j k r hji => RowStore.rollback_pending_iff.trans (and_iff_left hji))
        (.inr hnot) (.inr hnot) (.inr hnot) trivial
    exact { hgo with }

/-! ## The ceiling -/

/-- The guess whose first statement comes next. -/
def Stage.uncompared : Stage → Option Guess
  | .toAccept guess => some guess
  | _ => none

/-- A guess is compared only where the row and the guesses in flight leave room for it, and a
guess that was compared is not rolled back. -/
def Counting (s : State) : Action → Prop
  | .advance i => ∀ guess ∈ (s.stage i).uncompared, ∀ k ∈ s.store.found i guess.open,
      ∀ c ∈ s.store.committed k, c.attempts + (s.inFlight k).length < otpMaxAttempts
  | .rollback i => ∀ p ∈ s.compared, p.1 = i → (s.stage i).running = false
  | _ => True

instance (s : State) : ∀ a, Decidable (Counting s a)
  | .issue _ _ | .check _ _ | .commit _ => isTrue trivial
  | .rollback i =>
    inferInstanceAs (Decidable (∀ p ∈ s.compared, p.1 = i → (s.stage i).running = false))
  | .advance i =>
    inferInstanceAs (Decidable (∀ guess ∈ (s.stage i).uncompared,
      ∀ k ∈ s.store.found i guess.open, ∀ c ∈ s.store.committed k,
        c.attempts + (s.inFlight k).length < otpMaxAttempts))

/-- One live challenge a slot, and none accepted twice. -/
structure Single (s : State) : Prop where
  oneLive : ∀ j k c d, s.store.committed j = some c → s.store.committed k = some d →
    c.consumedAt = none → d.consumedAt = none → c.slot = d.slot → j = k
  acceptedOnce : ∀ k, acceptances k s.store.log ≤ 1

/-- No challenge is compared with more guesses than its ceiling while it could accept one. -/
def Ceiling (s : State) : Prop :=
  s.compared.Nodup ∧ ∀ k, (s.guessesAt k).length ≤ otpMaxAttempts

/-- What holds of the rows and the sessions in every run. -/
structure Sound (s : State) : Prop where
  versions : Versions s.store
  clean : Clean s
  serial : Serial s

theorem sound_start : Sound start where
  versions := Versions.empty
  clean := fun _ _ _ _ => nofun
  serial := serial_start

/-- **Any step keeps one live challenge a slot.** -/
theorem sound_step {s : State} (h : Sound s) (a : Action) : Sound (step s a) := by
  rcases step_moves s a with hsame | hm
  · rw [hsame]
    exact h
  · exact ⟨hm.versions h.versions, hm.clean h.clean, hm.serial h.versions h.clean h.serial⟩

theorem Sound.single {s : State} (h : Sound s) : Single s :=
  ⟨h.serial.oneLive, h.versions.once⟩

/-- No statement rolls its transaction back. -/
theorem advance_not_rolledBack {s : State} {i : ℕ} (hrunning : (s.stage i).running = true) :
    (s.advance i).stage i ≠ .rolledBack := by
  intro hrolled
  unfold State.advance at hrolled
  split at hrolled
  case h_11 => simp [hrolled, Stage.running] at hrunning
  all_goals (try split at hrolled) <;> simp_all [State.goto]

/-- The comparisons behind a step: those before it, and those of a guess that begins. -/
theorem step_compared (s : State) (a : Action) : (step s a).compared = s.compared ∨
    ∃ i guess, a = .advance i ∧ s.stage i = .toAccept guess ∧
      (step s a).compared = s.compared ++ (s.store.found i guess.open).map fun k => (i, k) := by
  cases a with
  | issue i call =>
    simp only [step]
    split <;> exact .inl rfl
  | check i guess =>
    simp only [step]
    split <;> exact .inl rfl
  | advance i =>
    rcases advance_moves s i with hsame | hm
    · exact .inl (by rw [step, hsame])
    · simp only [step]
      generalize s.advance i = s' at hm
      cases hm
      case compare guess hat => exact .inr ⟨i, guess, rfl, hat, rfl⟩
      all_goals exact .inl rfl
  | commit i =>
    simp only [step, State.commit]
    split <;> exact .inl rfl
  | rollback i =>
    simp only [step, State.rollback]
    split <;> exact .inl rfl

/-- What holds in the runs that count. -/
structure Bounded (s : State) : Prop where
  sound : Sound s
  counted : Counted s
  ceiling : Ceiling s

theorem bounded_start : Bounded start where
  sound := sound_start
  counted := counted_start
  ceiling := ⟨List.nodup_nil, fun _ => Nat.zero_le _⟩

/-- **A step that counts keeps the ceiling.** -/
theorem bounded_step {s : State} {a : Action} (h : Bounded s) (ha : Counting s a) :
    Bounded (step s a) := by
  obtain ⟨h, hcounted, hc⟩ := h
  have hnext : Counted (step s a) := by
    rcases step_moves s a with hsame | hm
    · rw [hsame]
      exact hcounted
    refine hm.counted h.versions h.serial h.clean hcounted fun hrunning hrolled k hmem => ?_
    have hstays : s.stage a.session ≠ .rolledBack := by
      intro hrolled
      rw [hrolled] at hrunning
      cases hrunning
    cases a with
    | issue i call | check i guess =>
      simp only [step] at hrolled
      split at hrolled
      · simp [State.goto, Action.session] at hrolled
      · exact hstays hrolled
    | advance i => exact advance_not_rolledBack hrunning hrolled
    | commit i =>
      simp only [step, State.commit] at hrolled
      split at hrolled
      · exact hstays hrolled
      · simp [State.goto, Action.session] at hrolled
    | rollback i =>
      have hnot := ha _ hmem rfl
      rw [show (s.stage i).running = true from hrunning] at hnot
      cases hnot
  refine ⟨sound_step h a, hnext, hnext.nodup, fun k => ?_⟩
  rcases step_compared s a with hsame | ⟨i, guess, rfl, hat, hcompared⟩
  · rw [State.guessesAt, hsame]
    exact hc.2 k
  · have hnew : (step s (.advance i)).guessesAt k =
        s.guessesAt k ++ ((s.store.found i guess.open).filter (· = k)).map fun k => (i, k) := by
      rw [State.guessesAt, hcompared, List.filter_append, List.filter_map]
      rfl
    rw [hnew, List.length_append, List.length_map]
    by_cases hk : k ∈ s.store.found i guess.open
    · obtain ⟨-, c, hvis, hopen⟩ := RowStore.mem_found.mp hk
      rw [RowStore.visible_of_not_held (h.clean i (by rw [hat]; rfl) k)] at hvis
      have hroom := ha guess (by rw [hat]; rfl) k hk c hvis
      have hbound := hcounted.bound k c hvis (liveIn_iff.mp (Guess.live_of_open hopen)).2
      have hone : ((s.store.found i guess.open).filter (· = k)).length ≤ 1 := by
        rw [List.filter_eq, List.length_replicate]
        exact List.nodup_iff_count_le_one.mp (RowStore.found_nodup _ _ _) k
      omega
    · rw [List.filter_eq_nil_iff.mpr (by rintro m hm; simp; rintro rfl; exact hk hm)]
      exact hc.2 k

/-- **A code is guessed at most `OTP_MAX_ATTEMPTS` times where guesses in flight count.** In every
order of the statements one challenge of a slot is live and none is accepted twice; the
ceiling holds in the runs whose comparisons all leave room for the guesses beside them. -/
theorem codes_guessed_at_most (actions : List Action) :
    Single (actions.foldl step start) ∧
      (Run.Guarded step Counting start actions → Ceiling (actions.foldl step start)) := by
  have hsound : Sound (actions.foldl step start) :=
    @Run.foldl_inv _ _ step Sound (fun _ a hs => sound_step hs a) _ sound_start actions
  refine ⟨hsound.single, fun hg => ?_⟩
  exact (@Run.Guarded.inv _ _ step Counting Bounded (fun _ _ hs ha => bounded_step hs ha) _ _
    bounded_start hg).ceiling

/-- The code of a sign-in, mailed to subject 7. -/
def signInCode : Slot := ⟨.admin, 7, .loginChallenge⟩

def mailed : List Action :=
  [.issue 0 ⟨signInCode, 100, 482913⟩, .advance 0, .advance 0, .advance 0, .commit 0]

/-- A guess up to its first statement. -/
def guessed (i code : ℕ) : List Action := [.check i ⟨signInCode, 160, [code]⟩, .advance i]

/-- The rest of a wrong guess. -/
def charged (i : ℕ) : List Action :=
  [.advance i, .advance i, .advance i, .advance i, .commit i]

/-- Two wrong guesses, one after the other. -/
theorem inTurn_bounded :
    Ceiling ((mailed ++ guessed 1 111111 ++ charged 1 ++ guessed 2 222222).foldl step start) :=
  (codes_guessed_at_most _).2 (by decide +kernel)

/-- Six guesses sent at once, the last of them right. -/
def sixAtOnce : List Action :=
  mailed ++ guessed 1 111111 ++ guessed 2 222222 ++ guessed 3 333333 ++ guessed 4 444444 ++
    guessed 5 555555 ++ guessed 6 482913

/-- The rest of the last one. -/
def sixthEnds : List Action := [.advance 6, .advance 6, .commit 6]

/-- All six are compared, and the sixth is accepted. -/
theorem sixth_accepted : ¬ (∀ actions, Ceiling (List.foldl step start actions)) ∧
    ((sixAtOnce ++ sixthEnds).foldl step start).stage 6 = .committed (some .accepted) := by
  have hsix : ((sixAtOnce.foldl step start).guessesAt 0).length = 6 ∧
      ((sixAtOnce ++ sixthEnds).foldl step start).stage 6 = .committed (some .accepted) := by
    decide +kernel
  refine ⟨fun h => ?_, hsix.2⟩
  have hmost := (h sixAtOnce).2 0
  rw [hsix.1] at hmost
  exact absurd hmost (by decide)

end Authn

end Calevate
