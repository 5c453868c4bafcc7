import Calevate.Campaigns.FirstDial
import Calevate.Lib.IsoText

/-!
# Repeats

A repeat is some days of the week and a time of the Indian day, and perhaps an end. Its
occurrences are the instants whose wall clock shows that minute on one of those days
(`Repeat.Occurs`), and `nextAfter` walks from day to day to the next of them. As in
`FirstDial` instants are microseconds since year 1, the zone has every offset it ever had,
and a walk past the calendar overflows.

What is stored of a repeat is text, and `ruleFrom` reads back what `recurrencePayload` wrote,
to the minute.
-/

namespace Calevate.Campaigns

open Lib Lib.Calendar Lib.ClockText Lib.IndianTime

/-! ## The rule -/

/-- `Recurrence`, with its time to the microsecond as the type has it. -/
structure Repeat where
  days : List ℤ
  clock : ℕ
  ends : Option ℕ
  deriving DecidableEq, Repr

/-- `isoweekday` of a day since the first of January of year 1, a Monday. -/
def weekdayOf (n : ℕ) : ℤ := (n % 7 : ℕ) + 1

/-- `range(1, 8)`. -/
def isoWeek : List ℤ := [1, 2, 3, 4, 5, 6, 7]

/-- `sorted(set(days))`. -/
def uniqueDays (days : List ℤ) : List ℤ := days.dedup.insertionSort (· ≤ ·)

/-- `_validated_rule`. -/
def Repeat.validated (days : List ℤ) (clock : ℕ) (ends : Option ℕ) (now : ℕ) :
    Except Problem Repeat :=
  if uniqueDays days = [] then .error .recurrenceNoDays
  else if (uniqueDays days).any fun day => decide (day ∉ isoWeek) then
    .error .recurrenceDayOutOfRange
  else if ¬ withinCallingHours clock then .error .recurrenceOutsideCallingHours
  else if ends.any fun ends => decide (now + maxHorizon < ends) then .error .recurrenceEndTooFar
  else .ok { days := uniqueDays days, clock := clock, ends := ends }

/-- The walk ran over the last date. -/
inductive CalendarError where
  | overflowError
  deriving DecidableEq, Repr

/-- The slot of a day: its hour and minute, on the wall clock. -/
def Repeat.slot (rule : Repeat) (n : ℕ) : ℕ := n * day + rule.clock / minute * minute

/-- The loop of `next_after`, over the days ahead still to be looked at. -/
def Repeat.walk (rule : Repeat) (wall : ℕ) : List ℕ → Except CalendarError (Option ℕ)
  | [] => .ok none
  | offset :: rest =>
    if clockEnd ≤ wall + offset * day then .error .overflowError
    else if weekdayOf (wall / day + offset) ∉ rule.days then rule.walk wall rest
    else if rule.slot (wall / day + offset) ≤ wall then rule.walk wall rest
    else
      let candidate := instant (rule.slot (wall / day + offset))
      if rule.ends.any fun ends => decide (ends < candidate) then .ok none else .ok (some candidate)

/-- **`Recurrence.next_after`.** -/
def Repeat.nextAfter (rule : Repeat) (moment : ℕ) : Except CalendarError (Option ℕ) :=
  if clockEnd ≤ wallClock moment then .error .overflowError
  else rule.walk (wallClock moment) (List.range 8)

/-! ## Stored -/

/-- The `rule` object of a stored repeat. -/
structure RuleObject where
  days : List ℤ
  clock : List Char
  deriving DecidableEq, Repr

/-- What `_recurrence_payload` writes beside its kind. -/
structure RepeatPayload where
  startAt : List Char
  rule : RuleObject
  ends : Option (List Char)
  deriving DecidableEq, Repr

/-- **`_recurrence_payload`.** -/
def Repeat.payload (rule : Repeat) (nextAt : ℕ) : RepeatPayload where
  startAt := IsoText.writeInstant nextAt
  rule := { days := rule.days, clock := writeTime (rule.clock / minute) }
  ends := rule.ends.map IsoText.writeInstant

/-- How a stored repeat cannot be read. -/
inductive RuleError where
  | notAnObject
  | unreadableTime
  | noUsableWeekday
  | unreadableEnd
  | endWithoutOffset
  | overflowError
  deriving DecidableEq, Repr

/-- `astimezone(UTC)` of a wall clock and its offset. -/
def endOf (wall : ℕ) (offset : ℤ) : Except RuleError ℕ :=
  if 0 ≤ (wall : ℤ) - offset ∧ (wall : ℤ) - offset < clockEnd then
    .ok ((wall : ℤ) - offset).toNat
  else .error .overflowError

/-- The stored end. -/
def readEnd : Option (List Char) → Except RuleError (Option ℕ)
  | none => .ok none
  | some text =>
    match IsoText.readInstant text with
    | none => .error .unreadableEnd
    | some (_, none) => .error .endWithoutOffset
    | some (wall, some offset) => (endOf wall offset).map some

/-- **`_rule_from`.** -/
def ruleFromObject (raw : Option RuleObject) (ends : Option (List Char)) :
    Except RuleError Repeat :=
  match raw with
  | none => .error .notAnObject
  | some rule =>
    match readTime rule.clock with
    | none => .error .unreadableTime
    | some minutes =>
      if uniqueDays rule.days = [] ∨ (uniqueDays rule.days).any fun day => decide (day ∉ isoWeek) then
        .error .noUsableWeekday
      else do
        let ends ← readEnd ends
        .ok { days := uniqueDays rule.days, clock := minutes * minute, ends := ends }

/-! ## Occurrences -/

/-- **An occurrence**: the wall clock shows the repeat's minute on one of its days. -/
def Repeat.Occurs (rule : Repeat) (t : ℕ) : Prop :=
  wallClock t < clockEnd ∧ weekdayOf (wallClock t / day) ∈ rule.days ∧
    wallClock t % day = rule.clock / minute * minute

/-- The first occurrence after an instant. -/
structure Repeat.FirstAfter (rule : Repeat) (moment t : ℕ) : Prop where
  occurs : rule.Occurs t
  after : moment < t
  least : ∀ u, rule.Occurs u → moment < u → t ≤ u

/-- Not past the repeat's end. -/
def Repeat.InTime (rule : Repeat) (t : ℕ) : Prop := ∀ e ∈ rule.ends, t ≤ e

/-- The occurrences one call of `next_after` after the other answers. -/
def Repeat.list (rule : Repeat) : ℕ → ℕ → List ℕ
  | 0, _ => []
  | calls + 1, moment =>
    match rule.nextAfter moment with
    | .ok (some t) => t :: rule.list calls t
    | _ => []

/-- What `_validated_rule` lets by. -/
structure Repeat.Valid (rule : Repeat) : Prop where
  days_ne : rule.days ≠ []
  days_week : ∀ day ∈ rule.days, day ∈ isoWeek
  days_sorted : uniqueDays rule.days = rule.days
  hours : withinCallingHours rule.clock = true

/-- **What a call of `next_after` may answer**: the first occurrence, nothing where that is
past the end, and an overflow where the calendar has none left. -/
def Repeat.Answers (rule : Repeat) (moment : ℕ) : Except CalendarError (Option ℕ) → Prop
  | .ok (some t) => rule.FirstAfter moment t ∧ rule.InTime t
  | .ok none => ∃ t, rule.FirstAfter moment t ∧ ¬ rule.InTime t
  | .error _ => ∀ t, rule.Occurs t → t ≤ moment

variable {rule : Repeat}

/-! ## The slots of a valid rule -/

/-- The minute of a valid rule is in the platform's hours. -/
theorem Repeat.Valid.minute_within (h : rule.Valid) :
    9 * hour ≤ rule.clock / minute * minute ∧ rule.clock / minute * minute < 21 * hour := by
  have hhours := of_decide_eq_true h.hours
  have hopen : Callbacks.defaultWindow.1 = 540 * minute := by decide
  have hnine : 9 * hour = 540 * minute := by decide
  have hle : 540 * minute ≤ rule.clock / minute * minute := by
    refine Nat.mul_le_mul_right _ ((Nat.le_div_iff_mul_le (by decide)).mpr ?_)
    omega
  exact ⟨hnine.trans_le hle, (Nat.div_mul_le_self ..).trans_lt hhours.2⟩

/-- The day of a slot. -/
theorem Repeat.Valid.slot_div (h : rule.Valid) (n : ℕ) :
    rule.slot n / day = n ∧ rule.slot n % day = rule.clock / minute * minute := by
  have hlt : rule.clock / minute * minute < day := h.minute_within.2.trans (by decide)
  unfold Repeat.slot
  constructor
  · rw [Nat.mul_comm n, Nat.mul_add_div (by decide), Nat.div_eq_of_lt hlt, Nat.add_zero]
  · rw [Nat.mul_comm n, Nat.mul_add_mod, Nat.mod_eq_of_lt hlt]

/-- A slot's time of the day is shown every day once. -/
theorem Repeat.Valid.regular (h : rule.Valid) :
    hour ≤ rule.clock / minute * minute ∧ rule.clock / minute * minute ≤ 23 * hour := by
  have := h.minute_within
  omega

theorem Repeat.Valid.wallClock_slot (h : rule.Valid) (n : ℕ) :
    wallClock (instant (rule.slot n)) = rule.slot n := by
  have hwithin := h.minute_within
  exact wallClock_instant h.regular (by omega)

/-- An instant is past a slot's exactly when its wall clock is. -/
theorem Repeat.Valid.slot_le_iff (h : rule.Valid) (n t : ℕ) :
    instant (rule.slot n) ≤ t ↔ rule.slot n ≤ wallClock t :=
  (le_wallClock_iff (.inr h.regular) n t).symm

/-- **The occurrences are the instants of the slots** of the rule's days. -/
theorem Repeat.Valid.occurs_iff (h : rule.Valid) (t : ℕ) :
    rule.Occurs t ↔ ∃ n < 3652059, weekdayOf n ∈ rule.days ∧ t = instant (rule.slot n) := by
  constructor
  · rintro ⟨hclock, hday, hminute⟩
    have hsplit : wallClock t = rule.slot (wallClock t / day) := by
      rw [Repeat.slot, ← hminute]
      exact (Nat.div_add_mod' ..).symm
    refine ⟨wallClock t / day, (Nat.div_lt_iff_lt_mul (by decide)).mpr hclock, hday, ?_⟩
    exact eq_instant ⟨h.regular.1, by have := h.minute_within; omega⟩ hsplit
  · rintro ⟨n, hn, hday, rfl⟩
    obtain ⟨hdiv, hmod⟩ := h.slot_div n
    refine ⟨?_, ?_, ?_⟩
    · rw [h.wallClock_slot, clockEnd, ← Nat.div_lt_iff_lt_mul (by decide), hdiv]
      exact hn
    · rwa [h.wallClock_slot, hdiv]
    · rw [h.wallClock_slot, hmod]

/-- Slots come in the order of their days. -/
theorem Repeat.slot_mono (rule : Repeat) {n m : ℕ} (h : n ≤ m) : rule.slot n ≤ rule.slot m :=
  Nat.add_le_add_right (Nat.mul_le_mul_right _ h) _

/-! ## The walk -/

/-- The walk stops at a day ahead: it is one of the rule's, and its slot is still to come. -/
def Repeat.Hits (rule : Repeat) (wall offset : ℕ) : Prop :=
  weekdayOf (wall / day + offset) ∈ rule.days ∧ wall < rule.slot (wall / day + offset)

/-- What the walk answers where it stops. -/
def Repeat.answer (rule : Repeat) (t : ℕ) : Except CalendarError (Option ℕ) :=
  if rule.ends.any fun ends => decide (ends < t) then .ok none else .ok (some t)

section Walk

variable {wall offset : ℕ} {rest : List ℕ}

theorem Repeat.walk_over (h : clockEnd ≤ wall + offset * day) :
    rule.walk wall (offset :: rest) = .error .overflowError := by
  rw [Repeat.walk, if_pos h]

theorem Repeat.walk_hit (hin : wall + offset * day < clockEnd) (h : rule.Hits wall offset) :
    rule.walk wall (offset :: rest) = rule.answer (instant (rule.slot (wall / day + offset))) := by
  rw [Repeat.walk, if_neg (Nat.not_le.mpr hin), if_neg (not_not.mpr h.1),
    if_neg (Nat.not_le.mpr h.2)]
  rfl

theorem Repeat.walk_miss (hin : wall + offset * day < clockEnd) (h : ¬ rule.Hits wall offset) :
    rule.walk wall (offset :: rest) = rule.walk wall rest := by
  rw [Repeat.walk, if_neg (Nat.not_le.mpr hin)]
  by_cases hday : weekdayOf (wall / day + offset) ∈ rule.days
  · rw [if_neg (not_not.mpr hday), if_pos (Nat.not_lt.mp fun hlt => h ⟨hday, hlt⟩)]
  · rw [if_pos hday]

end Walk

/-- **The walk stops at the first day ahead that it can**, or runs over the calendar before. -/
theorem Repeat.walk_cases (rule : Repeat) (wall start count : ℕ) :
    (∃ j, start ≤ j ∧ j < start + count ∧ (∀ i, start ≤ i → i < j → ¬ rule.Hits wall i) ∧
      (clockEnd ≤ wall + j * day ∧
          rule.walk wall (List.range' start count) = .error .overflowError ∨
        wall + j * day < clockEnd ∧ rule.Hits wall j ∧
          rule.walk wall (List.range' start count) =
            rule.answer (instant (rule.slot (wall / day + j))))) ∨
    ∀ i, start ≤ i → i < start + count → ¬ rule.Hits wall i := by
  induction count generalizing start with
  | zero => exact .inr fun i hfrom hto => by omega
  | succ count ih =>
    rw [List.range'_succ]
    rcases Nat.lt_or_ge (wall + start * day) clockEnd with hin | hover
    · by_cases hhit : rule.Hits wall start
      · exact .inl ⟨start, le_rfl, by omega, fun i hfrom hto => by omega,
          .inr ⟨hin, hhit, Repeat.walk_hit hin hhit⟩⟩
      · have hearlier : ∀ i, start ≤ i → ¬ start + 1 ≤ i → ¬ rule.Hits wall i := by
          intro i hfrom hto
          obtain rfl : i = start := by omega
          exact hhit
        rw [Repeat.walk_miss hin hhit]
        rcases ih (start + 1) with ⟨j, hfrom, hto, hmiss, hend⟩ | hnone
        · refine .inl ⟨j, by omega, by omega, fun i hi hij => ?_, hend⟩
          by_cases hlater : start + 1 ≤ i
          · exact hmiss i hlater hij
          · exact hearlier i hi hlater
        · refine .inr fun i hi hij => ?_
          by_cases hlater : start + 1 ≤ i
          · exact hnone i hlater (by omega)
          · exact hearlier i hi hlater
    · exact .inl ⟨start, le_rfl, by omega, fun i hfrom hto => by omega,
        .inl ⟨hover, Repeat.walk_over hover⟩⟩

/-- **A week ahead there is a day of the rule.** -/
theorem Repeat.Valid.hits (h : rule.Valid) (wall : ℕ) : ∃ i < 8, rule.Hits wall i := by
  obtain ⟨d, hd⟩ := List.exists_mem_of_ne_nil _ h.days_ne
  have hweek := h.days_week d hd
  have hrange : 1 ≤ d ∧ d ≤ 7 := by
    simp only [isoWeek, List.mem_cons, List.not_mem_nil, or_false] at hweek
    omega
  have hmod := Nat.mod_lt (wall / day) (by decide : 7 > 0)
  -- the next such day after today's
  obtain ⟨i, hlo, hhi, hi⟩ : ∃ i, 1 ≤ i ∧ i < 8 ∧ weekdayOf (wall / day + i) = d := by
    obtain ⟨k, rfl⟩ := Int.eq_ofNat_of_zero_le (by omega : 0 ≤ d)
    generalize wall / day = n at *
    refine ⟨(k + 6 - n % 7 - 1) % 7 + 1, by omega, by omega, ?_⟩
    unfold weekdayOf
    omega
  refine ⟨i, hhi, by rwa [hi], ?_⟩
  have hlt : wall < (wall / day + 1) * day :=
    (Nat.div_lt_iff_lt_mul (by decide)).mp (Nat.lt_succ_self _)
  have hle : (wall / day + 1) * day ≤ (wall / day + i) * day := Nat.mul_le_mul_right _ (by omega)
  unfold Repeat.slot
  omega

/-- **Each call answers with the first occurrence after its moment.** -/
theorem Repeat.Valid.answers (h : rule.Valid) (moment : ℕ) :
    rule.Answers moment (rule.nextAfter moment) := by
  -- an occurrence to come is on a day ahead whose slot is still to come
  have hahead : ∀ t, rule.Occurs t → moment < t → ∃ i, rule.Hits (wallClock moment) i ∧
      wallClock moment / day + i < 3652059 ∧
      t = instant (rule.slot (wallClock moment / day + i)) := by
    intro t hoccurs hafter
    obtain ⟨n, hn, hday, rfl⟩ := (h.occurs_iff t).mp hoccurs
    have hslot := mt (h.slot_le_iff n moment).mpr (Nat.not_le.mpr hafter)
    have hle : wallClock moment / day ≤ n := by
      have := Nat.div_le_div_right (c := day) (Nat.not_le.mp hslot).le
      rwa [(h.slot_div n).1] at this
    refine ⟨n - wallClock moment / day, ⟨?_, ?_⟩, ?_, ?_⟩
    all_goals rw [Nat.add_sub_cancel' hle]
    · exact hday
    · exact Nat.not_le.mp hslot
    · exact hn
  have hnext : ∀ j, wallClock moment + j * day < clockEnd → rule.Hits (wallClock moment) j →
      (∀ i < j, ¬ rule.Hits (wallClock moment) i) →
      rule.FirstAfter moment (instant (rule.slot (wallClock moment / day + j))) := by
    intro j hin hhit hmiss
    constructor
    case occurs =>
      refine (h.occurs_iff _).mpr ⟨_, ?_, hhit.1, rfl⟩
      rw [clockEnd, ← Nat.div_lt_iff_lt_mul (by decide), Nat.add_mul_div_right _ _ (by decide)] at hin
      exact hin
    case after =>
      exact Nat.not_le.mp (mt (h.slot_le_iff _ _).mp (Nat.not_le.mpr hhit.2))
    case least =>
      intro u hoccurs hafter
      obtain ⟨i, hi, -, rfl⟩ := hahead u hoccurs hafter
      have hle : j ≤ i := Nat.not_lt.mp fun hlt => hmiss i hlt hi
      rw [h.slot_le_iff, h.wallClock_slot]
      exact rule.slot_mono (Nat.add_le_add_left hle _)
  unfold Repeat.nextAfter
  split_ifs with hend
  · -- the moment is past the calendar
    intro t hoccurs
    by_contra hafter
    have hclockEnd : 3652059 * day + 0 = clockEnd := Nat.add_zero _
    have hle := le_wallClock_of_le (.inl rfl) (hclockEnd.trans_le hend) (Nat.not_le.mp hafter).le
    exact absurd (hclockEnd.symm.trans_le hle) (Nat.not_le.mpr hoccurs.1)
  · rw [List.range_eq_range']
    rcases rule.walk_cases (wallClock moment) 0 8 with ⟨j, -, -, hmiss, hstop⟩ | hnone
    · rcases hstop with ⟨hover, hwalk⟩ | ⟨hin, hhit, hwalk⟩
      · -- the walk runs over, and no day left is one of the rule's
        rw [hwalk]
        intro t hoccurs
        by_contra hafter
        obtain ⟨i, hi, hday, -⟩ := hahead t hoccurs (Nat.not_le.mp hafter)
        have hle : j ≤ i := Nat.not_lt.mp fun hlt => hmiss i (Nat.zero_le i) hlt hi
        rw [clockEnd, ← Nat.le_div_iff_mul_le (by decide), Nat.add_mul_div_right _ _ (by decide)]
          at hover
        omega
      · have hfirst := hnext j hin hhit fun i hi => hmiss i (Nat.zero_le i) hi
        rw [hwalk, Repeat.answer]
        split_ifs with hlate
        · refine ⟨_, hfirst, fun hintime => ?_⟩
          obtain ⟨e, he, hlt⟩ := (Option.any_eq_true _ _).mp hlate
          exact absurd (hintime e he) (Nat.not_le.mpr (of_decide_eq_true hlt))
        · refine ⟨hfirst, fun e he => ?_⟩
          by_contra hlt
          exact hlate ((Option.any_eq_true _ _).mpr ⟨e, he, decide_eq_true (Nat.not_le.mp hlt)⟩)
    · obtain ⟨i, hlt, hi⟩ := h.hits (wallClock moment)
      exact absurd hi (hnone i (Nat.zero_le i) (by omega))

/-! ## Call after call -/

/-- The calls answer occurrences after the moment and not past the end, one after the other. -/
theorem Repeat.Valid.list_sorted (h : rule.Valid) (calls moment : ℕ) :
    (rule.list calls moment).Pairwise (· < ·) ∧
      ∀ t ∈ rule.list calls moment, rule.Occurs t ∧ moment < t ∧ rule.InTime t := by
  induction calls generalizing moment with
  | zero => exact ⟨List.Pairwise.nil, by simp [Repeat.list]⟩
  | succ calls ih =>
    have hanswer := h.answers moment
    rw [Repeat.list]
    cases hnext : rule.nextAfter moment with
    | error e => exact ⟨List.Pairwise.nil, by simp⟩
    | ok next =>
      cases next with
      | none => exact ⟨List.Pairwise.nil, by simp⟩
      | some t =>
        rw [hnext] at hanswer
        obtain ⟨hfirst, hintime⟩ := hanswer
        obtain ⟨hsorted, hall⟩ := ih t
        refine ⟨List.pairwise_cons.mpr ⟨fun u hu => (hall u hu).2.1, hsorted⟩, fun u hu => ?_⟩
        rcases List.mem_cons.mp hu with rfl | hu
        · exact ⟨hfirst.occurs, hfirst.after, hintime⟩
        · obtain ⟨hoccurs, hafter, hin⟩ := hall u hu
          exact ⟨hoccurs, hfirst.after.trans hafter, hin⟩

/-- **No occurrence is passed over.** -/
theorem Repeat.Valid.exists_mem_list (h : rule.Valid) {moment t : ℕ} (hoccurs : rule.Occurs t)
    (hafter : moment < t) (hintime : rule.InTime t) : ∃ calls, t ∈ rule.list calls moment := by
  induction hgap : t - moment using Nat.strong_induction_on generalizing moment with
  | h gap ih =>
    have hanswer := h.answers moment
    cases hnext : rule.nextAfter moment with
    | error e =>
      rw [hnext] at hanswer
      exact absurd (hanswer t hoccurs) (Nat.not_le.mpr hafter)
    | ok next =>
      rw [hnext] at hanswer
      cases next with
      | none =>
        -- the first one is past the end, so this one is too
        obtain ⟨u, hfirst, hlate⟩ := hanswer
        exact absurd (fun e he => (hfirst.least t hoccurs hafter).trans (hintime e he)) hlate
      | some u =>
        obtain ⟨hfirst, -⟩ := hanswer
        have hhead : ∀ calls, rule.list (calls + 1) moment = u :: rule.list calls u := by
          intro calls
          rw [Repeat.list, hnext]
        rcases Nat.eq_or_lt_of_le (hfirst.least t hoccurs hafter) with rfl | hlt
        · exact ⟨1, by rw [hhead]; exact List.mem_cons_self⟩
        · have hmoved := hfirst.after
          obtain ⟨calls, hmem⟩ := ih (t - u) (by omega) hlt rfl
          exact ⟨calls + 1, by rw [hhead]; exact List.mem_cons_of_mem _ hmem⟩

/-! ## Read back -/

theorem uniqueDays_uniqueDays (days : List ℤ) : uniqueDays (uniqueDays days) = uniqueDays days := by
  have hnodup : (uniqueDays days).Nodup :=
    (List.perm_insertionSort (· ≤ ·) days.dedup).nodup_iff.mpr (List.nodup_dedup days)
  have hsorted : (uniqueDays days).Pairwise (· ≤ ·) := List.pairwise_insertionSort (· ≤ ·) _
  rw [uniqueDays, hnodup.dedup, hsorted.insertionSort_eq]

/-- What is accepted is a valid rule. -/
theorem valid_of_validated {days : List ℤ} {clock now : ℕ} {ends : Option ℕ}
    (h : Repeat.validated days clock ends now = .ok rule) :
    rule.Valid ∧ rule.ends = ends ∧ rule.clock = clock := by
  unfold Repeat.validated at h
  split_ifs at h with hempty hweek hhours hfar
  obtain rfl := Except.ok.inj h
  refine ⟨⟨hempty, fun day hday => ?_, uniqueDays_uniqueDays days, hhours⟩, rfl, rfl⟩
  by_contra hnot
  exact hweek (List.any_eq_true.mpr ⟨day, hday, decide_eq_true hnot⟩)

/-- **What is stored is read back**, to the minute. -/
theorem Repeat.Valid.read_payload (h : rule.Valid) (hends : ∀ e ∈ rule.ends, e < clockEnd)
    (nextAt : ℕ) : ruleFromObject (some (rule.payload nextAt).rule) (rule.payload nextAt).ends =
      .ok { rule with clock := rule.clock / minute * minute } := by
  have hminutes : rule.clock / minute < 24 * 60 := by
    have hlt : rule.clock < 24 * 60 * minute :=
      (of_decide_eq_true h.hours).2.trans_le (by decide)
    exact (Nat.div_lt_iff_lt_mul (by decide)).mpr hlt
  have hweek : ¬ (rule.days = [] ∨ (rule.days.any fun day => decide (day ∉ isoWeek)) = true) := by
    rintro (hempty | hbad)
    · exact h.days_ne hempty
    · obtain ⟨day, hday, hnot⟩ := List.any_eq_true.mp hbad
      exact of_decide_eq_true hnot (h.days_week day hday)
  have hread : readEnd (rule.ends.map IsoText.writeInstant) = .ok rule.ends := by
    cases hrule : rule.ends with
    | none => rfl
    | some e =>
      have he : e < clockEnd := hends e hrule
      have hin : 0 ≤ (e : ℤ) - 0 ∧ (e : ℤ) - 0 < clockEnd := by omega
      rw [Option.map_some, readEnd, IsoText.readInstant_writeInstant he]
      dsimp only
      rw [endOf, if_pos hin, sub_zero, Int.toNat_natCast]
      rfl
  unfold Repeat.payload ruleFromObject
  dsimp only
  rw [readTime_writeTime hminutes]
  dsimp only
  rw [h.days_sorted, if_neg hweek, hread]
  rfl

/-! ## The enumeration -/

/-- **A repeat's calls enumerate its occurrences**, in calling hours, and what is stored of it
is read back to the minute. -/
theorem repeat_enumerates {days : List ℤ} {clock now : ℕ} {ends : Option ℕ}
    (h : Repeat.validated days clock ends now = .ok rule) (hends : ∀ e ∈ ends, e < clockEnd) :
    (∀ moment, rule.Answers moment (rule.nextAfter moment)) ∧
    (∀ moment, (∀ calls, (rule.list calls moment).Pairwise (· < ·) ∧
        ∀ t ∈ rule.list calls moment, rule.Occurs t ∧ moment < t ∧ rule.InTime t) ∧
      ∀ t, rule.Occurs t → moment < t → rule.InTime t → ∃ calls, t ∈ rule.list calls moment) ∧
    (∀ t, rule.Occurs t → withinCallingHours (wallClock t % day) = true) ∧
    (∀ nextAt, ruleFromObject (some (rule.payload nextAt).rule) (rule.payload nextAt).ends =
      .ok { rule with clock := rule.clock / minute * minute }) ∧
    (minute ∣ clock → rule.clock / minute * minute = rule.clock) := by
  obtain ⟨hvalid, hrule, hclock⟩ := valid_of_validated h
  have hwithin := hvalid.minute_within
  refine ⟨hvalid.answers, fun moment => ⟨fun calls => hvalid.list_sorted calls moment, ?_⟩, ?_, ?_, ?_⟩
  · exact fun t hoccurs hafter hintime => hvalid.exists_mem_list hoccurs hafter hintime
  · intro t hoccurs
    rw [hoccurs.2.2]
    exact decide_eq_true hwithin
  · exact fun nextAt => hvalid.read_payload (by rwa [hrule]) nextAt
  · rw [hclock]
    exact Nat.div_mul_cancel

/-- Ten o'clock on Mondays and Thursdays, until the end of 2026. -/
def twiceAWeek : Repeat := ⟨[1, 4], 10 * hour, some 63934876800000000⟩

theorem twiceAWeek_validated :
    Repeat.validated [4, 1, 4] (10 * hour) (some 63934876800000000) 63933451200000000 =
      .ok twiceAWeek := by
  decide

theorem repeat_enumerates_twiceAWeek :
    (∀ moment, twiceAWeek.Answers moment (twiceAWeek.nextAfter moment)) ∧
    (∀ moment, (∀ calls, (twiceAWeek.list calls moment).Pairwise (· < ·) ∧
        ∀ t ∈ twiceAWeek.list calls moment,
          twiceAWeek.Occurs t ∧ moment < t ∧ twiceAWeek.InTime t) ∧
      ∀ t, twiceAWeek.Occurs t → moment < t → twiceAWeek.InTime t →
        ∃ calls, t ∈ twiceAWeek.list calls moment) ∧
    (∀ t, twiceAWeek.Occurs t → withinCallingHours (wallClock t % day) = true) ∧
    (∀ nextAt, ruleFromObject (some (twiceAWeek.payload nextAt).rule)
        (twiceAWeek.payload nextAt).ends =
      .ok { twiceAWeek with clock := twiceAWeek.clock / minute * minute }) ∧
    (minute ∣ 10 * hour → twiceAWeek.clock / minute * minute = twiceAWeek.clock) :=
  repeat_enumerates twiceAWeek_validated (by rintro e ⟨⟩; decide)

/-- Half a minute past ten, every day. -/
def everyDay : Repeat := ⟨isoWeek, 10 * hour + 30 * second, none⟩

theorem everyDay_validated :
    Repeat.validated isoWeek (10 * hour + 30 * second) none 63933451200000000 = .ok everyDay := by
  decide

/-- On the evening of the calendar's last day the walk overflows, and the seconds of a time are
not read back. -/
theorem repeat_not_all :
    (¬ ∀ days clock ends now rule, Repeat.validated days clock ends now = .ok rule →
      ∀ moment, ∃ next, rule.nextAfter moment = .ok next) ∧
    ¬ ∀ days clock ends now rule, Repeat.validated days clock ends now = .ok rule →
      ∀ nextAt, ruleFromObject (some (rule.payload nextAt).rule) (rule.payload nextAt).ends =
        .ok rule := by
  constructor
  · intro h
    obtain ⟨next, hnext⟩ := h _ _ _ _ _ everyDay_validated (instant (3652058 * day + 20 * hour))
    have herror : everyDay.nextAfter (instant (3652058 * day + 20 * hour)) =
        .error .overflowError := by
      decide
    rw [herror] at hnext
    cases hnext
  · intro h
    exact absurd (h _ _ _ _ _ everyDay_validated 0) (by decide)

/-! ## Since 1970 -/

/-- A rule of the scheduler's, on the whole calendar. -/
def Recurrence.toRepeat (rule : Recurrence) : Repeat where
  days := rule.days.map fun day => (day : ℤ)
  clock := rule.atMinute * minute
  ends := rule.ends.map (· + epoch)

theorem weekdayOf_epoch (n : ℕ) : weekdayOf (n + 719162) = (isoWeekday n : ℤ) := by
  unfold weekdayOf isoWeekday
  omega

theorem Recurrence.slot_epoch (rule : Recurrence) (n : ℕ) : rule.toRepeat.slot (n + 719162) =
    n * day + rule.atMinute * minute + epoch := by
  rw [Repeat.slot, Recurrence.toRepeat, Nat.mul_div_cancel _ (by decide), Nat.add_mul,
    Nat.add_right_comm]
  rfl

/-- An end and a candidate moved alike. -/
theorem answer_shift {days : List ℤ} {clock shift : ℕ} (ends : Option ℕ) (candidate : ℕ) :
    Repeat.answer ⟨days, clock, ends.map (· + shift)⟩ (candidate + shift) =
      .ok ((if ends.any fun e => decide (e < candidate) then none
        else some candidate).map (· + shift)) := by
  have hends : ((ends.map (· + shift)).any fun e => decide (e < candidate + shift)) =
      ends.any fun e => decide (e < candidate) := by
    cases ends with
    | none => rfl
    | some e => simp
  rw [Repeat.answer, hends]
  split_ifs
  · rfl
  · rfl

/-- A day ahead on either calendar. -/
theorem Recurrence.hits_epoch (rule : Recurrence) (wall offset : ℕ) :
    rule.toRepeat.Hits (wall + epoch) offset ↔ isoWeekday (wall / day + offset) ∈ rule.days ∧
      wall < (wall / day + offset) * day + rule.atMinute * minute := by
  have hday : (wall + epoch) / day + offset = wall / day + offset + 719162 := by
    rw [epoch, Nat.add_mul_div_right _ _ (by decide), Nat.add_right_comm]
  rw [Repeat.Hits, hday, weekdayOf_epoch, rule.slot_epoch, Nat.add_lt_add_iff_right]
  refine and_congr_left fun _ => ?_
  simp [Recurrence.toRepeat]

/-- **The scheduler's next occurrence is the calendar's**, while there is a week of it left. -/
theorem Recurrence.nextAfter_epoch (rule : Recurrence) (moment : ℕ)
    (h : moment + istOffset + epoch + 8 * day < clockEnd) :
    rule.toRepeat.nextAfter (moment + epoch) = .ok ((rule.nextAfter moment).map (· + epoch)) := by
  have hwalk : ∀ offsets : List ℕ, (∀ o ∈ offsets, o < 8) →
      rule.toRepeat.walk (moment + istOffset + epoch) offsets =
        .ok ((match offsets.find? fun offset =>
            isoWeekday ((moment + istOffset) / day + offset) ∈ rule.days ∧ moment + istOffset <
              ((moment + istOffset) / day + offset) * day + rule.atMinute * minute with
          | none => none
          | some offset =>
            let candidate :=
              ((moment + istOffset) / day + offset) * day + rule.atMinute * minute - istOffset
            if rule.ends.any fun ends => decide (ends < candidate) then none
            else some candidate).map (· + epoch)) := by
    intro offsets hsmall
    induction offsets with
    | nil => rfl
    | cons offset rest ih =>
      have hin : moment + istOffset + epoch + offset * day < clockEnd := by
        have hle := Nat.mul_le_mul_right day (hsmall offset List.mem_cons_self).le
        omega
      rw [List.find?_cons]
      by_cases hhit : rule.toRepeat.Hits (moment + istOffset + epoch) offset
      · have hhere := (rule.hits_epoch _ _).mp hhit
        have hday : (moment + istOffset + epoch) / day + offset =
            (moment + istOffset) / day + offset + 719162 := by
          rw [epoch, Nat.add_mul_div_right _ _ (by decide), Nat.add_right_comm]
        rw [Repeat.walk_hit hin hhit, decide_eq_true hhere, hday, rule.slot_epoch,
          instant_epoch (by omega)]
        exact answer_shift rule.ends _
      · have hhere := mt (rule.hits_epoch _ _).mpr hhit
        rw [Repeat.walk_miss hin hhit, decide_eq_false hhere]
        exact ih fun o ho => hsmall o (List.mem_cons_of_mem _ ho)
  rw [Repeat.nextAfter, wallClock_epoch, if_neg (by omega)]
  exact hwalk _ fun o ho => List.mem_range.mp ho

end Calevate.Campaigns
