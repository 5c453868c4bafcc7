import Calevate.Lib.Spacing
import Mathlib.Algebra.Order.Group.Int
import Mathlib.Data.Int.Notation
import Mathlib.Data.List.TakeWhile

/-!
# Starts of a Follow-up under an hourly cap

`starts_per_hour` caps the runs of a Follow-up that start within an hour. A lead past the cap is
put in all the same, with a turn in the future: its `started_at`. The next start reads only the
cap latest turns after the hour before it, many of them still ahead of it, and no hour holds more
than the cap, `startRuns_capped`.
-/

namespace Calevate.FollowUps

open Lib.Spacing

/-- An hour, in the microseconds the times are counted in. -/
def hour : ℤ := 3600000000

/-- `Settings.starts_per_hour`, a number from 1 to 10 000. -/
structure StartsPerHour where
  cap : ℕ
  pos : 1 ≤ cap
  le : cap ≤ 10000

/-- A row of `follow_up_runs`. -/
structure RunRow where
  leadId : Option ℕ
  wakeAt : Option ℤ
  startedAt : ℤ
  /-- The moment the run was put in: history, no column. -/
  arrivedAt : ℤ
  deriving DecidableEq, Repr

/-- One call of `start_run`, with what the database answers it. -/
structure Arrival where
  moment : ℤ
  leadId : Option ℕ
  queue : Bool
  /-- The live version has a first step. -/
  hasFirstStep : Bool
  /-- `_matches_only_if`. -/
  matchesOnlyIf : Bool
  /-- `_again_refused`. -/
  againRefused : Bool
  /-- The insert meets a run of the lead, or of the trigger, that is there. -/
  conflicts : Bool
  deriving DecidableEq, Repr

/-- `Started`. -/
inductive Started where
  | notMatched
  | notAgain
  | alreadyIn
  | started (queued : Bool)
  deriving DecidableEq, Repr

/-! ## The turn -/

/-- The latest turns after the hour before `now`, as many as the cap. -/
def latestStarts (rows : List RunRow) (cap : ℕ) (now : ℤ) : List ℤ :=
  (((rows.map (·.startedAt)).filter (now - hour < ·)).mergeSort (· ≥ ·)).take cap

/-- **`_turn`**. -/
def turn (rows : List RunRow) (cap : Option StartsPerHour) (now : ℤ) : ℤ :=
  match cap with
  | none => now
  | some perHour =>
    let starts := latestStarts rows perHour.cap now
    if starts.length < perHour.cap then now
    else
      match starts.min? with
      -- no cap is zero
      | none => now
      | some earliest => max now (earliest + hour)

/-- **`start_run`**. -/
def startRun (rows : List RunRow) (cap : Option StartsPerHour) (a : Arrival) :
    List RunRow × Started :=
  if a.hasFirstStep = false ∨ a.matchesOnlyIf = false then (rows, .notMatched)
  else if a.againRefused then (rows, .notAgain)
  else
    let wakeAt := turn rows cap a.moment
    -- a turn that is later is a worker's, under `queue=False` too
    let queue := a.queue || decide (a.moment < wakeAt)
    if a.conflicts then (rows, .alreadyIn)
    else (⟨a.leadId, if queue then some wakeAt else none, wakeAt, a.moment⟩ :: rows,
      .started queue)

/-- The runs that a sequence of starts puts in, the newest first. -/
def startRuns (cap : Option StartsPerHour) (arrivals : List Arrival) : List RunRow :=
  arrivals.foldl (fun rows a => (startRun rows cap a).1) []

/-! ## What the turn is read from -/

section Turn

variable {rows : List RunRow} {perHour : StartsPerHour} {now : ℤ}

/-- Turns in descending order come out of the query as they are. -/
theorem latestStarts_eq (hsorted : (rows.map (·.startedAt)).Pairwise (· ≥ ·)) (cap : ℕ) :
    latestStarts rows cap now =
      ((rows.map (·.startedAt)).takeWhile (now - hour < ·)).take cap := by
  rw [latestStarts, List.mergeSort_of_pairwise, filter_lt_eq_takeWhile hsorted]
  refine (hsorted.filter _).imp ?_
  intro a b hab
  simpa using hab

/-- **What a turn is**: an hour after the cap-th latest turn where that one is within the hour
before now, and now where it is not. -/
theorem turn_cases (perHour : StartsPerHour) (now : ℤ)
    (hsorted : (rows.map (·.startedAt)).Pairwise (· ≥ ·)) :
    (∃ c, (rows.map (·.startedAt))[perHour.cap - 1]? = some c ∧ now < c + hour ∧
      turn rows (some perHour) now = c + hour) ∨
    (∀ c ∈ (rows.map (·.startedAt))[perHour.cap - 1]?, c + hour ≤ now) ∧
      turn rows (some perHour) now = now := by
  obtain ⟨cap, hpos, hle⟩ := perHour
  dsimp only [turn]
  rw [latestStarts_eq hsorted]
  generalize rows.map (·.startedAt) = starts at hsorted ⊢
  by_cases hshort : ((starts.takeWhile (now - hour < ·)).take cap).length < cap
  · rw [if_pos hshort]
    refine .inr ⟨?_, rfl⟩
    intro c hc
    by_contra hlate
    have hsince : now - hour < c := by omega
    have hcount := length_takeWhile_of_getElem? hsorted hc hsince
    rw [List.length_take] at hshort
    omega
  · rw [if_neg hshort]
    rw [List.length_take] at hshort
    -- the turns within the hour, of which there are enough
    obtain ⟨late, hlate⟩ : ∃ late, starts.takeWhile (now - hour < ·) = late := ⟨_, rfl⟩
    rw [hlate] at hshort ⊢
    have hbegins : late <+: starts := hlate ▸ List.takeWhile_prefix _
    have hdescending : late.Pairwise (· ≥ ·) := hsorted.sublist hbegins.sublist
    have hlt : cap - 1 < late.length := by omega
    have hmem : late[cap - 1] ∈ late.take cap := by
      rw [List.mem_take_iff_getElem]
      exact ⟨cap - 1, by omega, rfl⟩
    have hmin : (late.take cap).min? = some late[cap - 1] := by
      rw [List.min?_eq_some_iff]
      refine ⟨hmem, ?_⟩
      intro b hb
      obtain ⟨k, hk, rfl⟩ := List.mem_take_iff_getElem.mp hb
      rcases Nat.lt_or_ge k (cap - 1) with hbefore | hat
      · exact List.pairwise_iff_getElem.mp hdescending k (cap - 1) _ hlt hbefore
      · have hk : k = cap - 1 := by omega
        subst hk
        exact le_rfl
    have hwithin : now - hour < late[cap - 1] := by
      have hin : late[cap - 1] ∈ starts.takeWhile (now - hour < ·) :=
        hlate ▸ List.getElem_mem hlt
      have himp := List.mem_takeWhile_imp (p := fun a => decide (now - hour < a)) hin
      exact of_decide_eq_true himp
    refine .inl ⟨late[cap - 1], ?_, by omega, ?_⟩
    · rw [List.getElem?_eq_getElem (hlt.trans_le hbegins.length_le), Option.some.injEq]
      exact (hbegins.getElem hlt).symm
    · rw [hmin]
      exact max_eq_right (by omega)

end Turn

/-! ## Starts one after another -/

/-- What holds of the runs put in so far, the newest first. -/
structure Paced (cap : ℕ) (rows : List RunRow) : Prop where
  /-- The turns are given in order. -/
  sorted : (rows.map (·.startedAt)).Pairwise (· ≥ ·)
  /-- A turn comes an hour after the one `cap` places before it. -/
  spaced : Spaced cap hour (rows.map (·.startedAt))
  /-- No turn is before its arrival. -/
  arrived : ∀ r ∈ rows, r.arrivedAt ≤ r.startedAt
  /-- A turn that was put off is exactly an hour after the one `cap` places before it. -/
  putOff : ∀ later r earlier, rows = later ++ r :: earlier → r.arrivedAt < r.startedAt →
    ∃ c, (earlier.map (·.startedAt))[cap - 1]? = some c ∧ r.startedAt = c + hour
  /-- The turns of the hour before a turn that was put off are as many as the cap. -/
  waited : ∀ later r earlier, rows = later ++ r :: earlier → r.arrivedAt < r.startedAt →
    cap ≤ (window hour (r.startedAt - hour) (earlier.map (·.startedAt))).length

section Paced

variable {perHour : StartsPerHour} {rows : List RunRow} {now : ℤ}

theorem paced_nil (cap : ℕ) : Paced cap [] where
  sorted := List.Pairwise.nil
  spaced := trivial
  arrived r hr := absurd hr List.not_mem_nil
  putOff later r earlier h := absurd h (by simp)
  waited later r earlier h := absurd h (by simp)

/-- No turn given before is later than a new one. -/
theorem Paced.le_turn (h : Paced perHour.cap rows) (hnow : ∀ r ∈ rows, r.arrivedAt ≤ now) :
    ∀ a ∈ rows.map (·.startedAt), a ≤ turn rows (some perHour) now := by
  intro a ha
  cases rows with
  | nil => cases ha
  | cons r rows =>
    have hhead : a ≤ r.startedAt := by
      rcases List.mem_cons.mp ha with rfl | ha
      · exact le_rfl
      · exact (List.pairwise_cons.mp h.sorted).1 a ha
    have hr := hnow r List.mem_cons_self
    have hturn := turn_cases perHour now h.sorted
    by_cases hput : r.arrivedAt < r.startedAt
    · -- both are an hour after a turn, and these two stand in order
      obtain ⟨c, hc, hstart⟩ := h.putOff [] r rows rfl hput
      have hpos := perHour.pos
      have hplace : ((r :: rows).map (·.startedAt))[perHour.cap]? = some c := by
        rw [List.map_cons, ← Nat.sub_add_cancel hpos, List.getElem?_cons_succ]
        exact hc
      have hlt : perHour.cap - 1 < ((r :: rows).map (·.startedAt)).length := by
        have := (List.getElem?_eq_some_iff.mp hplace).1
        omega
      have hbefore := List.getElem?_eq_getElem hlt
      have hle := le_of_getElem? h.sorted (Nat.sub_le _ 1) hbefore hplace
      rcases hturn with ⟨d, hd, -, hturn⟩ | ⟨hfree, hturn⟩
      · rw [hbefore] at hd
        have := Option.some.inj hd
        omega
      · have := hfree _ hbefore
        omega
    · have harrived := h.arrived r List.mem_cons_self
      rcases hturn with ⟨d, -, hlate, hturn⟩ | ⟨-, hturn⟩
      · omega
      · omega

/-- The turns of the hour before a new one that is put off are as many as the cap. -/
theorem Paced.waited_turn (h : Paced perHour.cap rows) (hnow : ∀ r ∈ rows, r.arrivedAt ≤ now)
    {c : ℤ} (hc : (rows.map (·.startedAt))[perHour.cap - 1]? = some c) (hlate : now < c + hour)
    (hturn : turn rows (some perHour) now = c + hour) :
    perHour.cap ≤ (window hour c (rows.map (·.startedAt))).length := by
  cases rows with
  | nil => cases hc
  | cons r rows =>
    have hr := hnow r List.mem_cons_self
    have hle := h.le_turn hnow r.startedAt List.mem_cons_self
    rw [hturn] at hle
    rcases hle.eq_or_lt with heq | hlt
    · -- the newest turn is the same, and had to wait for it
      have hcount := h.waited [] r rows rfl (by omega)
      rw [heq, add_sub_cancel_right] at hcount
      refine hcount.trans (List.Sublist.length_le (List.Sublist.filter _ ?_))
      exact List.sublist_cons_self _ _
    · have hlength : perHour.cap - 1 < ((r :: rows).map (·.startedAt)).length :=
        (List.getElem?_eq_some_iff.mp hc).1
      have htake : (((r :: rows).map (·.startedAt)).take perHour.cap).length = perHour.cap := by
        rw [List.length_take]
        have hpos := perHour.pos
        omega
      have hall : window hour c (((r :: rows).map (·.startedAt)).take perHour.cap) =
          ((r :: rows).map (·.startedAt)).take perHour.cap := by
        rw [window, List.filter_eq_self]
        intro a ha
        obtain ⟨k, hk, rfl⟩ := List.mem_take_iff_getElem.mp ha
        have hfirst : ((r :: rows).map (·.startedAt))[k] ≤ r.startedAt :=
          le_of_getElem? h.sorted (Nat.zero_le k) rfl (List.getElem?_eq_getElem _)
        have hlast : c ≤ ((r :: rows).map (·.startedAt))[k] :=
          le_of_getElem? h.sorted (by omega) (List.getElem?_eq_getElem _) hc
        exact decide_eq_true ⟨hlast, by omega⟩
      rw [← htake, ← hall]
      exact List.Sublist.length_le (List.Sublist.filter _ (List.take_sublist _ _))

/-- A run put in at its turn keeps the runs paced. -/
theorem Paced.push (h : Paced perHour.cap rows) (hnow : ∀ r ∈ rows, r.arrivedAt ≤ now)
    {row : RunRow} (hturn : row.startedAt = turn rows (some perHour) now)
    (harrived : row.arrivedAt = now) : Paced perHour.cap (row :: rows) := by
  have hcases := turn_cases perHour now h.sorted
  rw [← hturn] at hcases
  -- a new turn after its arrival is the one an hour after the cap-th latest
  have hput : row.arrivedAt < row.startedAt →
      ∃ c, (rows.map (·.startedAt))[perHour.cap - 1]? = some c ∧ row.startedAt = c + hour := by
    intro hlate
    rcases hcases with ⟨c, hc, -, hstart⟩ | ⟨-, hstart⟩
    · exact ⟨c, hc, hstart⟩
    · omega
  refine ⟨?_, ⟨?_, h.spaced⟩, ?_, ?_, ?_⟩
  · rw [List.map_cons, List.pairwise_cons]
    exact ⟨fun a ha => hturn ▸ h.le_turn hnow a ha, h.sorted⟩
  · intro b hb
    rcases hcases with ⟨c, hc, -, hstart⟩ | ⟨hfree, hstart⟩
    · rw [Option.mem_def.mp hb, Option.some.injEq] at hc
      show b + hour ≤ row.startedAt
      omega
    · exact (hfree b hb).trans_eq hstart.symm
  · intro r hr
    rcases List.mem_cons.mp hr with rfl | hr
    · rcases hcases with ⟨c, -, hlate, hstart⟩ | ⟨-, hstart⟩
      · omega
      · omega
    · exact h.arrived r hr
  · intro later r earlier heq hlate
    cases later with
    | nil =>
      obtain ⟨rfl, rfl⟩ := List.cons.inj heq
      exact hput hlate
    | cons r' later =>
      obtain ⟨rfl, rfl⟩ := List.cons.inj heq
      exact h.putOff later r earlier rfl hlate
  · intro later r earlier heq hlate
    cases later with
    | nil =>
      obtain ⟨rfl, rfl⟩ := List.cons.inj heq
      obtain ⟨c, hc, hstart⟩ := hput hlate
      have hcount := h.waited_turn hnow hc (by omega) (by omega)
      rw [hstart, add_sub_cancel_right]
      exact hcount
    | cons r' later =>
      obtain ⟨rfl, rfl⟩ := List.cons.inj heq
      exact h.waited later r earlier rfl hlate

end Paced

section Run

variable (perHour : StartsPerHour) (rows : List RunRow) (cap : Option StartsPerHour)

/-- A start puts in a run at its turn, or none. -/
theorem startRun_rows (a : Arrival) :
    (startRun rows cap a).1 = rows ∨
      ∃ wakeAt, (startRun rows cap a).1 =
        ⟨a.leadId, wakeAt, turn rows cap a.moment, a.moment⟩ :: rows := by
  unfold startRun
  split
  · exact .inl rfl
  · split
    · exact .inl rfl
    · dsimp only
      split
      · exact .inl rfl
      · exact .inr ⟨_, rfl⟩

/-- Starts at times that do not decrease keep the runs paced. -/
theorem foldl_paced (arrivals : List Arrival) (h : Paced perHour.cap rows)
    (hbefore : ∀ r ∈ rows, ∀ a ∈ arrivals, r.arrivedAt ≤ a.moment)
    (hordered : arrivals.Pairwise (·.moment ≤ ·.moment)) :
    Paced perHour.cap
      (arrivals.foldl (fun rows a => (startRun rows (some perHour) a).1) rows) := by
  induction arrivals generalizing rows with
  | nil => exact h
  | cons a arrivals ih =>
    obtain ⟨hle, hordered⟩ := List.pairwise_cons.mp hordered
    have hnow : ∀ r ∈ rows, r.arrivedAt ≤ a.moment := fun r hr => hbefore r hr a List.mem_cons_self
    rw [List.foldl_cons]
    rcases startRun_rows rows (some perHour) a with heq | ⟨wakeAt, heq⟩
    · rw [heq]
      exact ih rows h (fun r hr b hb => hbefore r hr b (List.mem_cons_of_mem _ hb)) hordered
    · rw [heq]
      refine ih _ (h.push hnow rfl rfl) ?_ hordered
      intro r hr b hb
      rcases List.mem_cons.mp hr with rfl | hr
      · exact hle b hb
      · exact hbefore r hr b (List.mem_cons_of_mem _ hb)

end Run

/-- **No hour holds more starts than the cap**, the turns are given in the order of arrival and
none before it, and a start is put off only when the hour before its turn is full. -/
theorem startRuns_capped (perHour : StartsPerHour) (arrivals : List Arrival)
    (h : arrivals.Pairwise (·.moment ≤ ·.moment)) :
    (startRuns (some perHour) arrivals).Pairwise
        (fun later earlier => earlier.startedAt ≤ later.startedAt) ∧
      (∀ r ∈ startRuns (some perHour) arrivals, r.arrivedAt ≤ r.startedAt) ∧
      (∀ t, ((startRuns (some perHour) arrivals).filter fun r =>
        t ≤ r.startedAt ∧ r.startedAt < t + hour).length ≤ perHour.cap) ∧
      ∀ later r earlier, startRuns (some perHour) arrivals = later ++ r :: earlier →
        r.arrivedAt < r.startedAt →
          perHour.cap ≤ (earlier.filter fun s =>
            r.startedAt - hour ≤ s.startedAt ∧ s.startedAt < r.startedAt).length := by
  have hpaced : Paced perHour.cap (startRuns (some perHour) arrivals) :=
    foldl_paced perHour [] arrivals (paced_nil _) (fun r hr => absurd hr List.not_mem_nil) h
  have hwindow : ∀ (rows : List RunRow) (t : ℤ),
      (rows.filter fun r => t ≤ r.startedAt ∧ r.startedAt < t + hour).length =
        (window hour t (rows.map (·.startedAt))).length := by
    intro rows t
    rw [window, List.filter_map, List.length_map]
    rfl
  refine ⟨List.pairwise_map.mp hpaced.sorted, hpaced.arrived, ?_, ?_⟩
  · intro t
    rw [hwindow]
    exact hpaced.spaced.window_le perHour.pos hpaced.sorted t
  · intro later r earlier heq hlate
    have hcount := hpaced.waited later r earlier heq hlate
    rw [← hwindow, sub_add_cancel] at hcount
    exact hcount

/-- Two leads at once under a cap of one: the second starts an hour later. -/
theorem startRuns_capped_twoLeads :
    startRuns (some ⟨1, le_rfl, by decide⟩)
        [⟨0, some 1, true, true, true, false, false⟩, ⟨0, some 2, true, true, true, false, false⟩] =
      [⟨some 2, some hour, hour, 0⟩, ⟨some 1, some 0, 0, 0⟩] ∧
    (startRuns (some ⟨1, le_rfl, by decide⟩)
        [⟨0, some 1, true, true, true, false, false⟩,
          ⟨0, some 2, true, true, true, false, false⟩]).Pairwise
        (fun later earlier => earlier.startedAt ≤ later.startedAt) :=
  ⟨by decide +kernel, (startRuns_capped ⟨1, le_rfl, by decide⟩ _ (by decide)).1⟩

end Calevate.FollowUps
