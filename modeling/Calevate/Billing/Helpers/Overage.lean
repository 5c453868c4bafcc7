import Mathlib.Algebra.BigOperators.Ring.Finset
import Calevate.Billing.Overage

/-!
# The metered month: what the figures are

`minutePart` goes through the arithmetic context, yet a month below `monthUnits` seconds
never notices: `floor_minutePart` and `roundHalfUp_minutePart` give its floor and its
rounding as divisions of whole numbers. From there `minutesFromSeconds` always answers
(`minutesFromSeconds_eq`), its minutes add to the month's (`sum_minutesOf`), and a bucket
of whole hundredths gets exactly what it holds (`minutesOf_whole`).

`pricedMonth_congr` is what lets a month be compared with the month a call is taken back
from: two readings that differ in empty buckets only have the same figures.
-/

namespace Calevate.Billing

open Lib

/-! ## One part -/

/-- Units of a ten-thousandth of a second in a hundredth of a minute. -/
def centUnits : ℕ := 6000

/-- Ten thousand million minutes, in units: what `spend_state.minutes_used` has room for. -/
def monthUnits : ℕ := 10 ^ 10 * 60 * secondUnits

/-- A value close to a quotient by `centUnits`, and equal to it when it is whole, has the
quotient's floor, and is past it unless the quotient is whole. -/
theorem floor_near {x : ℚ} {n : ℕ} (hx : |x - n / centUnits| < 1 / 12000)
    (hwhole : centUnits ∣ n → x = n / centUnits) :
    ⌊x⌋ = (n / centUnits : ℕ) ∧ (((n / centUnits : ℕ) : ℚ) < x ↔ ¬ centUnits ∣ n) := by
  unfold centUnits at *
  obtain ⟨q, r, hr, rfl⟩ : ∃ q r, r < 6000 ∧ n = 6000 * q + r :=
    ⟨n / 6000, n % 6000, Nat.mod_lt _ (by norm_num), (Nat.div_add_mod n 6000).symm⟩
  have hq : (6000 * q + r) / 6000 = q := by omega
  have hquot : ((6000 * q + r : ℕ) : ℚ) / (6000 : ℕ) = q + r / 6000 := by
    push_cast
    ring
  rw [hquot, abs_lt] at hx
  rw [hq, Int.floor_eq_iff, Int.cast_natCast]
  obtain ⟨hlo, hhi⟩ := hx
  by_cases h0 : r = 0
  · have hxq : x = q := by
      rw [hwhole ⟨q, by omega⟩, hquot, h0]
      simp
    have hdvd : 6000 ∣ 6000 * q + r := ⟨q, by omega⟩
    refine ⟨⟨hxq.ge, by linarith⟩, fun hlt => absurd hxq hlt.ne', fun hnot => absurd hdvd hnot⟩
  · have hr1 : (1 : ℚ) ≤ r := by exact_mod_cast Nat.one_le_iff_ne_zero.mpr h0
    have hr2 : (r : ℚ) ≤ 5999 := by exact_mod_cast Nat.le_of_lt_succ hr
    refine ⟨⟨by linarith, by linarith⟩, fun _ hdvd => h0 (by omega), fun _ => by linarith⟩

theorem minutePart_near {t : ℕ} (ht : t < monthUnits) :
    |minutePart t - t / centUnits| < 1 / 12000 := by
  have hq : |(t : ℚ) / (60 * secondUnits : ℕ)| < 10 ^ 10 := by
    rw [abs_of_nonneg (by positivity), div_lt_iff₀ (by norm_num [secondUnits])]
    have : (t : ℚ) < (monthUnits : ℕ) := by exact_mod_cast ht
    norm_num [monthUnits, secondUnits] at this ⊢
    linarith
  have hctx := Dec.ctx_near ((t : ℚ) / (60 * secondUnits : ℕ))
  have hcent : (t : ℚ) / centUnits = 100 * (t / (60 * secondUnits : ℕ)) := by
    norm_num [centUnits, secondUnits]
    ring
  rw [minutePart, hcent, ← mul_sub, abs_mul, abs_of_pos (by norm_num : (0 : ℚ) < 100)]
  calc (100 : ℚ) * |Dec.ctx (t / (60 * secondUnits : ℕ)) - t / (60 * secondUnits : ℕ)|
      ≤ 100 * (10 ^ 10 / 10 ^ 27) := by
        have := div_le_div_of_nonneg_right hq.le (by norm_num : (0 : ℚ) ≤ 10 ^ 27)
        linarith
    _ < 1 / 12000 := by norm_num

/-- A whole number of half hundredths is exact. -/
theorem minutePart_exact {t : ℕ} (ht : t < monthUnits) (h : 3000 ∣ t) :
    minutePart t = t / centUnits := by
  obtain ⟨n, rfl⟩ := h
  have hq : ((3000 * n : ℕ) : ℚ) / (60 * secondUnits : ℕ) = ((5 * n : ℕ) : ℤ) / 10 ^ 3 := by
    norm_num [secondUnits]
    ring
  have hn : |((5 * n : ℕ) : ℤ)| < 10 ^ 28 := by
    norm_num [monthUnits, secondUnits] at ht
    rw [abs_of_nonneg (by positivity)]
    omega
  rw [minutePart, Dec.ctx_eq_self hq hn]
  norm_num [centUnits, secondUnits]
  ring

theorem floor_minutePart {t : ℕ} (ht : t < monthUnits) :
    ⌊minutePart t⌋ = (t / centUnits : ℕ) ∧
      (((t / centUnits : ℕ) : ℚ) < minutePart t ↔ ¬ centUnits ∣ t) := by
  apply floor_near (minutePart_near ht)
  intro h
  exact minutePart_exact ht (dvd_trans (by norm_num [centUnits]) h)

theorem minutePart_nonneg (t : ℕ) : 0 ≤ minutePart t := by
  have := Dec.ctx_nonneg (by positivity : (0 : ℚ) ≤ (t : ℚ) / (60 * secondUnits : ℕ))
  unfold minutePart
  linarith

@[simp] theorem minutePart_zero : minutePart 0 = 0 := by simp [minutePart]

/-- **The month's minutes** are its seconds over sixty, rounded half up once. -/
theorem roundHalfUp_minutePart {t : ℕ} (ht : t < monthUnits) :
    Dec.roundHalfUp (minutePart t) = ((t + 3000) / centUnits : ℕ) := by
  rw [Dec.roundHalfUp, if_pos (minutePart_nonneg t)]
  have hcast : ((t + 3000 : ℕ) : ℚ) / centUnits = t / centUnits + 1 / 2 := by
    norm_num [centUnits]
    ring
  refine (floor_near ?_ ?_).1
  · rw [hcast, add_sub_add_right_eq_sub]
    exact minutePart_near ht
  · intro h
    have h3000 : 3000 ∣ t + 3000 := dvd_trans (by norm_num [centUnits]) h
    rw [hcast, minutePart_exact ht ((Nat.dvd_add_left (dvd_refl 3000)).mp h3000)]

theorem fractional_minutePart {κ : Type} {t : ℕ} (ht : t < monthUnits) (key : κ) :
    Apportion.Fractional (key, minutePart t) ↔ ¬ centUnits ∣ t := by
  obtain ⟨hfloor, hlt⟩ := floor_minutePart ht
  rw [← hlt, Apportion.Fractional, Apportion.discard, hfloor, Int.cast_natCast, sub_neg]

/-! ## A partition's minutes -/

/-- The floors of a list of seconds miss its rounded total by no more than the number of
entries that are not whole hundredths. -/
theorem floors_cover (l : List ℕ) :
    (l.map (· / centUnits)).sum ≤ (l.sum + 3000) / centUnits ∧
      (l.sum + 3000) / centUnits ≤
        (l.map (· / centUnits)).sum + (l.filter fun t => ¬ centUnits ∣ t).length := by
  -- the remainders add to less than one hundredth for each entry that has one
  have hrem : ∃ rest, l.sum = centUnits * (l.map (· / centUnits)).sum + rest ∧
      rest ≤ 5999 * (l.filter fun t => ¬ centUnits ∣ t).length := by
    induction l with
    | nil => exact ⟨0, by simp, by simp⟩
    | cons t l ih =>
      obtain ⟨rest, hsum, hle⟩ := ih
      refine ⟨rest + t % centUnits, ?_, ?_⟩
      · have hdiv := Nat.div_add_mod t centUnits
        rw [List.map_cons, List.sum_cons, List.sum_cons, Nat.mul_add, hsum]
        omega
      · by_cases ht : centUnits ∣ t
        · rw [List.filter_cons_of_neg (by simpa using ht), Nat.mod_eq_zero_of_dvd ht]
          exact hle
        · rw [List.filter_cons_of_pos (by simpa using ht), List.length_cons]
          have hlt : t % centUnits < 6000 := Nat.mod_lt t (by norm_num [centUnits])
          omega
  obtain ⟨rest, hsum, hle⟩ := hrem
  unfold centUnits at *
  omega

namespace Partition

variable {κ : Type} (d : Partition κ) (keys : List κ)

/-- The parts `_minutes_from_seconds` hands to the allocation. -/
def parts : List (κ × ℚ) := keys.map fun key => (key, minutePart (d.secs key))

/-- The hundredths of a minute a key is given. -/
def minutesOf [DecidableEq κ] (key : κ) : ℤ :=
  Apportion.share (d.parts keys) (Dec.roundHalfUp (minutePart d.total))
    (key, minutePart (d.secs key))

variable {d keys}

theorem parts_labels : (d.parts keys).map Prod.fst = keys := by
  simp [parts, Function.comp_def]

section Fits

variable (hkeys : keys.Perm d.keys) (hfit : d.total < monthUnits)

include hkeys hfit

theorem secs_fit {key : κ} (hk : key ∈ keys) : d.secs key < monthUnits := by
  have hle : d.secs key ≤ d.total :=
    List.single_le_sum (fun _ _ => Nat.zero_le _) _ (List.mem_map_of_mem (hkeys.mem_iff.mp hk))
  omega

theorem covers : Apportion.Covers (d.parts keys) (Dec.roundHalfUp (minutePart d.total)) := by
  have hfloors : Apportion.floors (d.parts keys) =
      (((keys.map d.secs).map (· / centUnits)).sum : ℕ) := by
    rw [Apportion.floors, parts, List.map_map, List.map_map, Nat.cast_list_sum, List.map_map]
    congr 1
    apply List.map_congr_left
    intro key hk
    exact (floor_minutePart (secs_fit hkeys hfit hk)).1
  have hfracs : (Apportion.fractions (d.parts keys)).length =
      ((keys.map d.secs).filter fun t => ¬ centUnits ∣ t).length := by
    rw [Apportion.fractions, parts, List.filter_map, List.filter_map, List.length_map,
      List.length_map]
    congr 1
    apply List.filter_congr
    intro key hk
    exact decide_eq_decide.mpr (fractional_minutePart (secs_fit hkeys hfit hk) key)
  have htotal : (keys.map d.secs).sum = d.total := (hkeys.map d.secs).sum_eq
  have hbounds := floors_cover (keys.map d.secs)
  rw [Apportion.Covers, Apportion.owed, roundHalfUp_minutePart hfit, hfloors, hfracs]
  rw [htotal] at hbounds
  omega

theorem minutesFromSeconds_eq [DecidableEq κ] :
    minutesFromSeconds d keys = some (keys.map fun key => (key, d.minutesOf keys key)) := by
  rw [minutesFromSeconds, ← parts, Apportion.allocate_of_covers (covers hkeys hfit), parts,
    List.map_map]
  rfl

theorem sum_minutesOf [DecidableEq κ] :
    (keys.map (d.minutesOf keys)).sum = ((d.total + 3000) / centUnits : ℕ) := by
  have hnd : ((d.parts keys).map Prod.fst).Nodup := by
    rw [parts_labels]
    exact hkeys.nodup_iff.mpr d.nodup
  have hsum := Apportion.sum_share hnd (covers hkeys hfit)
  rw [parts, List.map_map, ← parts] at hsum
  rw [← roundHalfUp_minutePart hfit, ← hsum]
  rfl

/-- **A bucket of whole hundredths gets what it holds.** -/
theorem minutesOf_whole [DecidableEq κ] {key : κ} (hk : key ∈ keys)
    (hwhole : centUnits ∣ d.secs key) :
    d.minutesOf keys key = (d.secs key / centUnits : ℕ) := by
  have hnd : ((d.parts keys).map Prod.fst).Nodup := by
    rw [parts_labels]
    exact hkeys.nodup_iff.mpr d.nodup
  have hsec := secs_fit hkeys hfit hk
  rw [minutesOf, Apportion.share_of_whole hnd (covers hkeys hfit) (List.mem_map_of_mem hk),
    (floor_minutePart hsec).1]
  intro hfrac
  exact (fractional_minutePart hsec key).mp hfrac hwhole

end Fits

theorem minutesOf_nonneg [DecidableEq κ] (key : κ) : 0 ≤ d.minutesOf keys key := by
  have hfloor : 0 ≤ ⌊minutePart (d.secs key)⌋ := Int.floor_nonneg.mpr (minutePart_nonneg _)
  unfold minutesOf Apportion.share
  dsimp only
  split <;> omega

/-- **Empty buckets change nobody's minutes.** -/
theorem minutesOf_congr [DecidableEq κ] {d' : Partition κ} {keys' : List κ}
    (hkeys : keys.Perm d.keys) (hkeys' : keys'.Perm d'.keys) (hsecs : d.secs = d'.secs) (htotal : d.total = d'.total)
    (hfit : d.total < monthUnits)
    (hheld : (keys.filter fun key => d.secs key ≠ 0) = keys'.filter fun key => d.secs key ≠ 0)
    (key : κ) : d.minutesOf keys key = d'.minutesOf keys' key := by
  -- both allocations are the allocation over the buckets that hold something
  have hdrop : ∀ (e : Partition κ) (ks : List κ), ∀ p ∈ e.parts ks,
      (decide (e.secs p.1 ≠ 0)) = false → p.2 = 0 := by
    intro e ks p hp h0
    obtain ⟨k, -, rfl⟩ := List.mem_map.mp hp
    have hz : e.secs k = 0 := by simpa using h0
    simp [hz]
  have hparts : ∀ (e : Partition κ) (ks : List κ),
      (e.parts ks).filter (fun p => decide (e.secs p.1 ≠ 0)) =
        e.parts (ks.filter fun k => e.secs k ≠ 0) := by
    intro e ks
    rw [parts, List.filter_map, parts]
    rfl
  rw [minutesOf, minutesOf, ← Apportion.share_filter _ (hdrop d keys) (covers hkeys hfit),
    ← Apportion.share_filter _ (hdrop d' keys') (covers hkeys' (htotal ▸ hfit)), hparts, hparts,
    ← htotal, ← hsecs, ← hheld]
  simp only [parts, hsecs]

/-! ## One side of a partition -/

/-- The minutes given to the keys on one side. -/
def sideMinutes [DecidableEq κ] (d : Partition κ) (keys : List κ) (side : κ → Bool) : ℤ :=
  ((keys.filter side).map (d.minutesOf keys)).sum

theorem sideMinutes_nonneg [DecidableEq κ] (side : κ → Bool) : 0 ≤ d.sideMinutes keys side := by
  apply List.sum_nonneg
  intro m hm
  obtain ⟨key, -, rfl⟩ := List.mem_map.mp hm
  exact minutesOf_nonneg key

theorem sum_filter_add_not {α : Type} (f : α → ℤ) (side : α → Bool) (l : List α) :
    ((l.filter side).map f).sum + ((l.filter fun a => !side a).map f).sum = (l.map f).sum := by
  induction l with
  | nil => rfl
  | cons a l ih =>
    cases ha : side a with
    | true => simp [ha, ← ih]; ring
    | false => simp [ha, ← ih]; ring

/-- The two sides share out the whole month. -/
theorem sideMinutes_add_not [DecidableEq κ] (hkeys : keys.Perm d.keys)
    (hfit : d.total < monthUnits) (side : κ → Bool) :
    d.sideMinutes keys side + d.sideMinutes keys (fun key => !side key) =
      ((d.total + 3000) / centUnits : ℕ) := by
  rw [sideMinutes, sideMinutes, sum_filter_add_not, sum_minutesOf hkeys hfit]

end Partition

/-! ## A partition read off the rows -/

/-- The seconds of all the rows together. -/
def billedTotal (rows : List UsageRow) : ℕ := (rows.map UsageRow.billedSeconds).sum

@[simp] theorem billedTotal_append (rows rows' : List UsageRow) :
    billedTotal (rows ++ rows') = billedTotal rows + billedTotal rows' := by
  simp [billedTotal]

section Reads

variable {κ : Type} [DecidableEq κ]

/-- `d`, listed in the order of `keys`, is what the rows hold by `bucket`. -/
structure Reads (d : Partition κ) (keys : List κ) (bucket : UsageRow → κ)
    (rows : List UsageRow) : Prop where
  perm : keys.Perm d.keys
  secs : d.secs = bucketSeconds bucket rows
  filed : ∀ row ∈ rows, bucket row ∈ d.keys

/-- The rows of one side. -/
def sideRows (bucket : UsageRow → κ) (side : κ → Bool) (rows : List UsageRow) : List UsageRow :=
  rows.filter fun row => side (bucket row)

theorem bucketSeconds_cons (bucket : UsageRow → κ) (row : UsageRow) (rows : List UsageRow)
    (key : κ) : bucketSeconds bucket (row :: rows) key =
      (if bucket row = key then row.billedSeconds else 0) + bucketSeconds bucket rows key := by
  unfold bucketSeconds
  split
  · rename_i h; simp [h]
  · rename_i h; simp [h]

theorem bucketSeconds_snoc (bucket : UsageRow → κ) (row : UsageRow) (rows : List UsageRow)
    (key : κ) : bucketSeconds bucket (rows ++ [row]) key =
      bucketSeconds bucket rows key + if bucket row = key then row.billedSeconds else 0 := by
  induction rows with
  | nil => rw [List.nil_append, bucketSeconds_cons]; simp [bucketSeconds]
  | cons r rows ih => rw [List.cons_append, bucketSeconds_cons, ih, bucketSeconds_cons]; omega

theorem bucketSeconds_eq_zero {bucket : UsageRow → κ} {rows : List UsageRow} {key : κ}
    (h : ∀ row ∈ rows, bucket row ≠ key) : bucketSeconds bucket rows key = 0 := by
  have : (rows.filter fun row => bucket row = key) = [] := by
    rw [List.filter_eq_nil_iff]
    intro row hrow
    simpa using h row hrow
  rw [bucketSeconds, this]
  rfl

theorem sum_single {l : List κ} (hnd : l.Nodup) (a : κ) (n : ℕ) :
    (l.map fun key => if a = key then n else 0).sum = if a ∈ l then n else 0 := by
  induction l with
  | nil => rfl
  | cons k l ih =>
    obtain ⟨hk, hl⟩ := List.nodup_cons.mp hnd
    rw [List.map_cons, List.sum_cons, ih hl]
    by_cases h : a = k
    · subst h; simp [hk]
    · simp [h]

/-- Adding up the buckets of one side is adding up its rows. -/
theorem sum_bucketSeconds {bucket : UsageRow → κ} (side : κ → Bool) {keys : List κ}
    (hnd : keys.Nodup) (rows : List UsageRow) (hfiled : ∀ row ∈ rows, bucket row ∈ keys) :
    ((keys.filter side).map (bucketSeconds bucket rows)).sum =
      billedTotal (sideRows bucket side rows) := by
  induction rows with
  | nil =>
    have hz : ∀ l : List κ, (l.map (bucketSeconds bucket [])).sum = 0 := by
      intro l
      induction l with
      | nil => rfl
      | cons k l ih => rw [List.map_cons, List.sum_cons, ih]; rfl
    exact hz _
  | cons row rows ih =>
    have ih' := ih fun r hr => hfiled r (List.mem_cons_of_mem row hr)
    -- one bucket gains the row's seconds, and it is on the side the row is on
    have hgain : ((keys.filter side).map
        fun key => if bucket row = key then row.billedSeconds else 0).sum =
          if side (bucket row) then row.billedSeconds else 0 := by
      have hmem : bucket row ∈ keys.filter side ↔ side (bucket row) = true := by
        rw [List.mem_filter]
        exact ⟨fun h => h.2, fun h => ⟨hfiled row (by simp), h⟩⟩
      rw [sum_single (hnd.filter side)]
      simp only [hmem]
    have hfun : bucketSeconds bucket (row :: rows) = fun key =>
        (if bucket row = key then row.billedSeconds else 0) + bucketSeconds bucket rows key :=
      funext (bucketSeconds_cons bucket row rows)
    rw [hfun, List.sum_map_add, hgain, ih', sideRows, sideRows]
    cases hs : side (bucket row) with
    | true => simp [hs, billedTotal]
    | false => simp [hs, billedTotal]

theorem sum_map_div {α : Type} {f : α → ℕ} {l : List α} (h : ∀ a ∈ l, centUnits ∣ f a) :
    (l.map fun a => f a / centUnits).sum = (l.map f).sum / centUnits := by
  induction l with
  | nil => simp
  | cons a l ih =>
    obtain ⟨n, hn⟩ : centUnits ∣ f a := h a (by simp)
    have hpos : 0 < centUnits := by norm_num [centUnits]
    rw [List.map_cons, List.sum_cons, ih fun b hb => h b (List.mem_cons_of_mem a hb),
      List.map_cons, List.sum_cons, hn, Nat.mul_div_cancel_left n hpos, Nat.mul_add_div hpos]

theorem dvd_billedTotal {rows : List UsageRow} (h : ∀ row ∈ rows, centUnits ∣ row.billedSeconds) :
    centUnits ∣ billedTotal rows := by
  apply List.dvd_sum
  intro n hn
  obtain ⟨row, hrow, rfl⟩ := List.mem_map.mp hn
  exact h row hrow

/-- Empty buckets are given nothing. -/
theorem sideMinutes_held {d : Partition κ} {keys : List κ} (hkeys : keys.Perm d.keys)
    (hfit : d.total < monthUnits) (side : κ → Bool) :
    d.sideMinutes keys side =
      (((keys.filter side).filter fun key => d.secs key ≠ 0).map (d.minutesOf keys)).sum := by
  have hzero : ∀ key ∈ keys, d.secs key = 0 → d.minutesOf keys key = 0 := by
    intro key hk h0
    rw [Partition.minutesOf_whole hkeys hfit hk (by simp [h0]), h0]
    simp
  have hall : ∀ l : List κ, (∀ key ∈ l, key ∈ keys) → (l.map (d.minutesOf keys)).sum =
      ((l.filter fun key => d.secs key ≠ 0).map (d.minutesOf keys)).sum := by
    intro l hl
    induction l with
    | nil => rfl
    | cons key l ih =>
      have ih' := ih fun k hk => hl k (List.mem_cons_of_mem key hk)
      by_cases h0 : d.secs key = 0
      · simp [h0, hzero key (hl key (by simp)) h0, ih']
      · simp [h0, ih']
  exact hall _ fun key hk => (List.mem_filter.mp hk).1

namespace Reads

variable {d : Partition κ} {keys : List κ} {bucket : UsageRow → κ} {rows : List UsageRow}

theorem total (h : Reads d keys bucket rows) : d.total = billedTotal rows := by
  have hsum := sum_bucketSeconds (fun _ => true) d.nodup rows h.filed
  have hall : sideRows bucket (fun _ => true) rows = rows := by simp [sideRows]
  rw [hall, List.filter_true] at hsum
  rw [Partition.total, h.secs, hsum]

/-- **A side whose rows are all whole hundredths is given exactly its seconds.** -/
theorem sideMinutes_whole (h : Reads d keys bucket rows) (hfit : billedTotal rows < monthUnits)
    {side : κ → Bool}
    (hwhole : ∀ row ∈ sideRows bucket side rows, centUnits ∣ row.billedSeconds) :
    d.sideMinutes keys side = (billedTotal (sideRows bucket side rows) / centUnits : ℕ) := by
  have hkey : ∀ key ∈ keys.filter side, centUnits ∣ d.secs key := by
    intro key hkey
    rw [h.secs, bucketSeconds]
    apply List.dvd_sum
    intro n hn
    obtain ⟨row, hrow, rfl⟩ := List.mem_map.mp hn
    rw [List.mem_filter, decide_eq_true_eq] at hrow
    refine hwhole row (List.mem_filter.mpr ⟨hrow.1, ?_⟩)
    rw [hrow.2]
    exact (List.mem_filter.mp hkey).2
  have hsum := sum_bucketSeconds side (h.perm.nodup_iff.mpr d.nodup) rows
    fun row hrow => h.perm.mem_iff.mpr (h.filed row hrow)
  rw [← h.secs] at hsum
  rw [← hsum, ← sum_map_div hkey, Partition.sideMinutes, Nat.cast_list_sum, List.map_map]
  congr 1
  apply List.map_congr_left
  intro key hmem
  have hfit' : d.total < monthUnits := by rwa [h.total]
  exact Partition.minutesOf_whole h.perm hfit' (List.mem_filter.mp hmem).1 (hkey key hmem)

/-- The minutes of the two sides, as the month's and the seconds of a whole side. -/
theorem sides (h : Reads d keys bucket rows) (hfit : billedTotal rows < monthUnits)
    {side : κ → Bool}
    (hwhole : ∀ row ∈ sideRows bucket side rows, centUnits ∣ row.billedSeconds) :
    d.sideMinutes keys side = (billedTotal (sideRows bucket side rows) / centUnits : ℕ) ∧
      d.sideMinutes keys (fun key => !side key) =
        ((billedTotal rows + 3000) / centUnits : ℕ) -
          (billedTotal (sideRows bucket side rows) / centUnits : ℕ) := by
  have hfit' : d.total < monthUnits := by rwa [h.total]
  have hadd := Partition.sideMinutes_add_not h.perm hfit' side
  rw [h.total] at hadd
  have hone := h.sideMinutes_whole hfit hwhole
  exact ⟨hone, by omega⟩

/-- **One more row lowers neither side**, as long as one of them holds whole hundredths
only. -/
theorem sideMinutes_mono {row : UsageRow} {d' : Partition κ} {keys' : List κ}
    (h : Reads d keys bucket rows) (h' : Reads d' keys' bucket (rows ++ [row]))
    (hfit : billedTotal (rows ++ [row]) < monthUnits) {side : κ → Bool}
    (hwhole : ∀ r ∈ sideRows bucket side (rows ++ [row]), centUnits ∣ r.billedSeconds) :
    d.sideMinutes keys side ≤ d'.sideMinutes keys' side ∧
      d.sideMinutes keys (fun key => !side key) ≤ d'.sideMinutes keys' (fun key => !side key) := by
  have hsplit : sideRows bucket side (rows ++ [row]) =
      sideRows bucket side rows ++ sideRows bucket side [row] := by
    simp [sideRows]
  have hfit0 : billedTotal rows < monthUnits := by
    rw [billedTotal_append] at hfit
    omega
  rw [hsplit] at hwhole
  have hpast := fun r hr => hwhole r (List.mem_append_left _ hr)
  obtain ⟨hin, hout⟩ := h.sides hfit0 hpast
  obtain ⟨hin', hout'⟩ := h'.sides hfit (by rwa [hsplit])
  have hdvd : centUnits ∣ billedTotal (sideRows bucket side rows) := dvd_billedTotal hpast
  rw [hin, hout, hin', hout', hsplit, billedTotal_append, billedTotal_append]
  have hone : billedTotal [row] = row.billedSeconds := by simp [billedTotal]
  cases hs : side (bucket row) with
  | true =>
    -- the row is whole and on the whole side: its hundredths leave the other side's alone
    have hrow : billedTotal (sideRows bucket side [row]) = row.billedSeconds := by
      simp [sideRows, hs, billedTotal]
    have hd : centUnits ∣ row.billedSeconds :=
      hwhole row (List.mem_append_right _ (by simp [sideRows, hs]))
    rw [hrow, hone]
    unfold centUnits at *
    omega
  | false =>
    have hrow : billedTotal (sideRows bucket side [row]) = 0 := by
      simp [sideRows, hs, billedTotal]
    rw [hrow, hone]
    unfold centUnits at *
    omega

/-- **The rows decide a side's minutes**: two readings of them differ in empty buckets at
most. -/
theorem sideMinutes_congr {d' : Partition κ} {keys' : List κ} (h : Reads d keys bucket rows)
    (h' : Reads d' keys' bucket rows) (hfit : billedTotal rows < monthUnits)
    (hheld : (keys.filter fun key => d.secs key ≠ 0) = keys'.filter fun key => d.secs key ≠ 0)
    (side : κ → Bool) : d.sideMinutes keys side = d'.sideMinutes keys' side := by
  have hsecs : d.secs = d'.secs := h.secs.trans h'.secs.symm
  have htotal : d.total = d'.total := h.total.trans h'.total.symm
  have hfit1 : d.total < monthUnits := by rwa [h.total]
  have hfit2 : d'.total < monthUnits := by rwa [h'.total]
  rw [sideMinutes_held h.perm hfit1, sideMinutes_held h'.perm hfit2, ← hsecs]
  have hside : ∀ ks : List κ, ((ks.filter side).filter fun key => d.secs key ≠ 0) =
      (ks.filter fun key => d.secs key ≠ 0).filter side := by
    intro ks
    rw [List.filter_filter, List.filter_filter]
    congr 1
    funext key
    exact Bool.and_comm _ _
  rw [hside, hside, hheld]
  congr 1
  apply List.map_congr_left
  intro key _
  exact Partition.minutesOf_congr h.perm h'.perm hsecs htotal hfit1 hheld key

end Reads

end Reads

end Calevate.Billing
