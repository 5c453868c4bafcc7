import Calevate.Rentals.Periods

/-!
# Held numbers

A number whose client has stopped is held, and given back before the platform's next rent. The
rent day is known to the day and not to the zone, so both readings of every anchor count. A day
that has begun in India is taken as charged, in both zones; the release beats the start of the
next one in either, `release_beforeRent`.
-/

namespace Calevate.Rentals

open Lib.Calendar hiding addMonths
open Trials (istDate istOffset addMonths)

/-- A zone the rent day may be read in. -/
inductive Zone where
  | utc
  | ist
  deriving DecidableEq, Repr

/-- The date of an instant. -/
def Zone.date : Zone → ℕ → ℕ
  | .utc, t => t / day
  | .ist, t => istDate t

/-- The instant a date begins at. -/
def Zone.midnight : Zone → ℕ → ℕ
  | .utc, date => date * day
  | .ist, date => date * day - istOffset

/-- `MAX_HOLD`. -/
def maxHold : ℕ := 30 * day

/-- `RELEASE_MARGIN`. -/
def releaseMargin : ℕ := 24 * hour

/-- `renewal_days`, a set: neither the order of its days nor their repeats tell anything. -/
def renewalDays (anchors : List ℕ) : List ℕ :=
  anchors.flatMap fun anchor => [Zone.utc.date anchor, Zone.ist.date anchor]

/-- The start of a monthly repeat. -/
def repeatStart (d months : ℕ) : ℕ := Zone.ist.midnight (addMonths d months)

/-- The loop over the months, for as many rounds as it is given. -/
def firstRepeat (after d : ℕ) : ℕ → ℕ → Option ℕ
  | _, 0 => none
  | months, rounds + 1 =>
    if after < repeatStart d months then some (repeatStart d months)
    else firstRepeat after d (months + 1) rounds

inductive Stopped where
  /-- The loop over the months is not through. -/
  | searching
  /-- `ValueError`. -/
  | noAnchor
  deriving DecidableEq, Repr

/-- `start if best is None or start < best else best`. -/
def earlier (best : Option ℕ) (start : ℕ) : ℕ :=
  match best with
  | none => start
  | some b => if start < b then start else b

/-- The loop over the days. -/
def earliestStart (rounds after : ℕ) : Option ℕ → List ℕ → Except Stopped (Option ℕ)
  | best, [] => return best
  | best, d :: days =>
    match firstRepeat after d 1 rounds with
    | none => throw .searching
    | some start => earliestStart rounds after (some (earlier best start)) days

/-- `next_renewal_start`. -/
def nextRenewalStart (rounds : ℕ) (anchors : List ℕ) (after : ℕ) : Except Stopped ℕ := do
  match ← earliestStart rounds after none (renewalDays anchors) with
  | none => throw .noAnchor
  | some best => return best

/-- `_ist_midnight`. -/
def istMidnight (moment : ℕ) : ℕ := Zone.ist.midnight (Zone.ist.date moment)

/-- **`release_instant`**. -/
def releaseInstant (rounds heldAt : ℕ) (anchors : List ℕ) : Except Stopped ℕ := do
  let renewal ← nextRenewalStart rounds anchors heldAt
  return max heldAt (min (istMidnight (heldAt + maxHold)) (renewal - releaseMargin))

/-! ## The loop over the months -/

/-- The first monthly repeat whose day has not begun in a zone. -/
def FirstAhead (z : Zone) (d after k : ℕ) : Prop :=
  1 ≤ k ∧ after < z.midnight (addMonths d k) ∧
    ∀ j, 1 ≤ j → j < k → z.midnight (addMonths d j) ≤ after

variable {z : Zone} {d after k l rounds : ℕ} {days anchors : List ℕ}

theorem FirstAhead.unique (hk : FirstAhead z d after k) (hl : FirstAhead z d after l) : k = l := by
  rcases lt_trichotomy k l with hlt | heq | hgt
  · exact absurd (hl.2.2 k hk.1 hlt) (not_le.mpr hk.2.1)
  · exact heq
  · exact absurd (hk.2.2 l hl.1 hgt) (not_le.mpr hl.2.1)

theorem add_le_addMonths (d k : ℕ) : d + k ≤ addMonths d k := by
  induction k with
  | zero => rw [addMonths_zero, Nat.add_zero]
  | succ k ih =>
    have hlt : addMonths d k < addMonths d (k + 1) := addMonths_strictMono d (Nat.lt_succ_self k)
    omega

/-- No search is longer. -/
def searchBound (after : ℕ) : ℕ := after / day + 2

theorem lt_repeatStart (h : searchBound after ≤ k) : after < repeatStart d k := by
  have hmonths := add_le_addMonths d k
  have hday : day = 86400000000 := by decide
  have hoffset : istOffset = 19800000000 := by decide
  unfold searchBound at h
  change after < addMonths d k * day - istOffset
  rw [hday] at h
  rw [hday, hoffset]
  omega

theorem firstRepeat_of_firstAhead (h : FirstAhead .ist d after k) {months : ℕ} (hpos : 1 ≤ months)
    (hle : months ≤ k) (hrounds : k < months + rounds) :
    firstRepeat after d months rounds = some (repeatStart d k) := by
  induction rounds generalizing months with
  | zero => omega
  | succ rounds ih =>
    unfold firstRepeat
    rcases Nat.lt_or_eq_of_le hle with hlt | rfl
    · have hbegun : repeatStart d months ≤ after := h.2.2 months hpos hlt
      rw [if_neg (not_lt.mpr hbegun)]
      exact ih (Nat.le_add_left 1 months) hlt (by omega)
    · exact if_pos h.2.1

/-- **The search ends**: some repeat has not begun. -/
theorem exists_firstAhead (d after : ℕ) : ∃ k ≤ searchBound after, FirstAhead .ist d after k := by
  have hfound : ∃ k, 1 ≤ k ∧ after < repeatStart d k :=
    ⟨searchBound after, Nat.succ_pos _, lt_repeatStart le_rfl⟩
  obtain ⟨hpos, hahead⟩ := Nat.find_spec hfound
  refine ⟨Nat.find hfound, Nat.find_le ⟨Nat.succ_pos _, lt_repeatStart le_rfl⟩, hpos, hahead, ?_⟩
  intro j hj hlt
  have hnot := Nat.find_min hfound hlt
  exact not_lt.mp fun hj' => hnot ⟨hj, hj'⟩

theorem firstRepeat_ends (hrounds : searchBound after < rounds) :
    ∃ k, FirstAhead .ist d after k ∧ firstRepeat after d 1 rounds = some (repeatStart d k) := by
  obtain ⟨k, hk, hahead⟩ := exists_firstAhead d after
  exact ⟨k, hahead, firstRepeat_of_firstAhead hahead le_rfl hahead.1 (by omega)⟩

theorem earlier_le (best : Option ℕ) (start : ℕ) :
    earlier best start ≤ start ∧ ∀ b ∈ best, earlier best start ≤ b := by
  cases best with
  | none => exact ⟨le_rfl, fun b hb => by cases hb⟩
  | some b =>
    unfold earlier
    refine ⟨?_, ?_⟩
    · dsimp only
      split <;> omega
    · rintro c ⟨⟩
      dsimp only
      split <;> omega

/-- **The earliest start** is found, and is no later than that of any of the days. -/
theorem earliestStart_spec (days : List ℕ) (hrounds : searchBound after < rounds)
    (best : Option ℕ) :
    ∃ found, earliestStart rounds after best days = .ok found ∧
      (∀ b ∈ best, ∃ f ∈ found, f ≤ b) ∧
      ∀ d ∈ days, ∀ k, FirstAhead .ist d after k → ∃ f ∈ found, f ≤ repeatStart d k := by
  induction days generalizing best with
  | nil => exact ⟨best, rfl, fun b hb => ⟨b, hb, le_rfl⟩, fun d hd => by cases hd⟩
  | cons d days ih =>
    obtain ⟨k, hahead, hfirst⟩ := firstRepeat_ends (d := d) hrounds
    obtain ⟨found, hfound, hbest, hdays⟩ := ih (some (earlier best (repeatStart d k)))
    obtain ⟨f, hf, hle⟩ := hbest _ rfl
    obtain ⟨hstart, hbefore⟩ := earlier_le best (repeatStart d k)
    refine ⟨found, ?_, ?_, ?_⟩
    · unfold earliestStart
      rw [hfirst]
      exact hfound
    · intro b hb
      exact ⟨f, hf, hle.trans (hbefore b hb)⟩
    · intro e he l hl
      rcases List.mem_cons.mp he with rfl | he
      · rw [hl.unique hahead]
        exact ⟨f, hf, hle.trans hstart⟩
      · exact hdays e he l hl

/-- More rounds change nothing. -/
theorem earliestStart_rounds {more : ℕ} (hrounds : searchBound after < rounds)
    (hmore : searchBound after < more) (best : Option ℕ) :
    earliestStart more after best days = earliestStart rounds after best days := by
  induction days generalizing best with
  | nil => rfl
  | cons d days ih =>
    obtain ⟨k, hk, hfirst⟩ := firstRepeat_ends (d := d) hrounds
    obtain ⟨l, hl, hfirst'⟩ := firstRepeat_ends (d := d) hmore
    unfold earliestStart
    rw [hfirst, hfirst', hk.unique hl]
    exact ih _

theorem mem_renewalDays {anchor : ℕ} (h : anchor ∈ anchors) (z : Zone) :
    z.date anchor ∈ renewalDays anchors := by
  refine List.mem_flatMap.mpr ⟨anchor, h, ?_⟩
  cases z with
  | utc => exact List.mem_cons_self
  | ist => exact List.mem_cons_of_mem _ (List.mem_singleton_self _)

/-! ## The release -/

/-- The cap is a midnight by the end of the longest hold. -/
theorem istMidnight_le (moment : ℕ) : istMidnight moment ≤ moment := by
  have hdiv := Nat.div_mul_le_self (moment + istOffset) day
  change (moment + istOffset) / day * day - istOffset ≤ moment
  omega

/-- A day begins in India before it does in UTC. -/
theorem repeatStart_le (z : Zone) (d k : ℕ) : repeatStart d k ≤ z.midnight (addMonths d k) := by
  cases z with
  | utc => exact Nat.sub_le _ _
  | ist => exact le_rfl

/-- **A held number is released before its next rent**, in either reading of the rent day: at or
before the start of the first monthly repeat whose day has not begun in India, a day ahead of it
where that is still possible, and within the longest hold. -/
theorem release_beforeRent {heldAt : ℕ} {anchors : List ℕ} (hanchors : anchors ≠ []) :
    ∃ enough release, (∀ rounds, enough ≤ rounds →
        releaseInstant rounds heldAt anchors = .ok release) ∧
      heldAt ≤ release ∧ release ≤ heldAt + maxHold ∧
      ∀ anchor ∈ anchors, ∀ z : Zone, ∃ k, FirstAhead .ist (z.date anchor) heldAt k ∧
        release ≤ z.midnight (addMonths (z.date anchor) k) ∧
        (heldAt + releaseMargin < z.midnight (addMonths (z.date anchor) k) →
          release + releaseMargin ≤ z.midnight (addMonths (z.date anchor) k)) := by
  have hbound := Nat.lt_succ_self (searchBound heldAt)
  obtain ⟨found, hfound, -, hdays⟩ :=
    earliestStart_spec (renewalDays anchors) hbound none
  obtain ⟨first, hfirst⟩ := List.exists_mem_of_ne_nil anchors hanchors
  obtain ⟨best, rfl⟩ : ∃ best, found = some best := by
    obtain ⟨k, -, hk⟩ := exists_firstAhead (Zone.utc.date first) heldAt
    obtain ⟨f, hf, -⟩ := hdays _ (mem_renewalDays hfirst .utc) k hk
    exact ⟨f, hf⟩
  have hcap := istMidnight_le (heldAt + maxHold)
  refine ⟨searchBound heldAt + 1,
    max heldAt (min (istMidnight (heldAt + maxHold)) (best - releaseMargin)), ?_, ?_, ?_, ?_⟩
  · intro rounds hrounds
    unfold releaseInstant nextRenewalStart
    rw [earliestStart_rounds hbound (by omega), hfound]
    rfl
  · exact Nat.le_max_left _ _
  · omega
  · intro anchor hanchor z
    obtain ⟨k, -, hk⟩ := exists_firstAhead (z.date anchor) heldAt
    obtain ⟨f, hf, hle⟩ := hdays _ (mem_renewalDays hanchor z) k hk
    obtain rfl := Option.some.inj hf
    have hzone := repeatStart_le z (z.date anchor) k
    have hahead : heldAt < repeatStart (z.date anchor) k := hk.2.1
    refine ⟨k, hk, ?_, ?_⟩
    · omega
    · intro hfar
      omega

/-- Noon in India on the eighth of October 2026. -/
def rentedAt : ℕ := 1791441000000000

/-- Three in the morning in India on the eighth of November 2026, a day that begins in UTC two and
a half hours later. -/
def heldEarly : ℕ := 1794087000000000

theorem release_beforeRent_early :
    ∃ enough release, (∀ rounds, enough ≤ rounds →
        releaseInstant rounds heldEarly [rentedAt] = .ok release) ∧
      heldEarly ≤ release ∧ release ≤ heldEarly + maxHold ∧
      ∀ anchor ∈ [rentedAt], ∀ z : Zone, ∃ k, FirstAhead .ist (z.date anchor) heldEarly k ∧
        release ≤ z.midnight (addMonths (z.date anchor) k) ∧
        (heldEarly + releaseMargin < z.midnight (addMonths (z.date anchor) k) →
          release + releaseMargin ≤ z.midnight (addMonths (z.date anchor) k)) :=
  release_beforeRent (by decide)

/-- A day that has begun in India counts as charged in UTC too, where it is still to come. -/
theorem release_afterUtcDay :
    ¬ ∀ heldAt anchors, anchors ≠ [] → (∀ anchor ∈ anchors, anchor ≤ heldAt) →
      ∃ enough release, (∀ rounds, enough ≤ rounds →
        releaseInstant rounds heldAt anchors = .ok release) ∧
        ∀ anchor ∈ anchors, ∀ (z : Zone) (k : ℕ), FirstAhead z (z.date anchor) heldAt k →
          release ≤ z.midnight (addMonths (z.date anchor) k) := by
  intro hall
  obtain ⟨enough, release, hrelease, hbeats⟩ :=
    hall heldEarly [rentedAt] (by decide) (by decide)
  have hbegun : ¬ heldEarly < repeatStart 20734 1 := by decide +kernel
  have hahead : heldEarly < repeatStart 20734 2 := by decide +kernel
  have hdays : renewalDays [rentedAt] = [20734, 20734] := by decide +kernel
  have hfirst : firstRepeat heldEarly 20734 1 (enough + 2) = some (repeatStart 20734 2) := by
    unfold firstRepeat
    rw [if_neg hbegun]
    unfold firstRepeat
    rw [if_pos hahead]
  have hrenewal : nextRenewalStart (enough + 2) [rentedAt] heldEarly = .ok (repeatStart 20734 2) := by
    unfold nextRenewalStart
    rw [hdays]
    simp only [earliestStart, hfirst, earlier, lt_irrefl, if_false]
    rfl
  have hvalue := hrelease (enough + 2) (Nat.le_add_right _ _)
  have hlate : releaseInstant (enough + 2) heldEarly [rentedAt] =
      .ok (max heldEarly (min (istMidnight (heldEarly + maxHold))
        (repeatStart 20734 2 - releaseMargin))) := by
    unfold releaseInstant
    rw [hrenewal]
    rfl
  rw [hlate] at hvalue
  have hutc : Zone.utc.date rentedAt = 20734 := by decide +kernel
  have hnext : FirstAhead .utc 20734 heldEarly 1 := ⟨le_rfl, by decide +kernel, fun j hj hlt => by omega⟩
  have hcontra := hbeats rentedAt List.mem_cons_self .utc 1 (hutc ▸ hnext)
  rw [← Except.ok.inj hvalue, hutc] at hcontra
  exact absurd hcontra (by decide +kernel)

end Calevate.Rentals
