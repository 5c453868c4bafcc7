import Calevate.AutoRecharge.Recharge
import Calevate.Lib.Table

/-!
# The monthly cap

The charges of a calendar month never take more than the cap, and one charge at most can
still move money, in every run that meets two conditions the code does not see to: a charge
is marked failed only once its money is out of reach, and a claim measures the month that it
creates its charge in. The invariant is over our rows: what is pending or captured in a
month is within the cap, and a failed row has no money.
-/

namespace Calevate.AutoRecharge

open Lib Lib.Calendar

/-! ## What is to hold -/

namespace World

/-- What the charges created in the month have taken. -/
def takenIn (w : World) (month : ℕ) : ℕ :=
  ((w.charges.filter fun charge =>
    charge.money = .taken ∧ billingMonth charge.createdAt = month).map (·.amount)).sum

/-- The charge's money will not be taken. -/
def GoneOf (w : World) (id : ℕ) : Prop :=
  ∀ charge ∈ w.charges, charge.id = id → charge.status = .pending → charge.money = .gone

instance (w : World) (id : ℕ) : Decidable (w.GoneOf id) :=
  inferInstanceAs (Decidable (∀ charge ∈ w.charges, _ → _ → _))

/-- A step that fails only charges whose money is out of reach, and claims under the cap
within one month. -/
def InMonth (cap : ℕ) (w : World) : Action → Prop
  | .claim _ _ readAgo createdAgo =>
    (∀ s ∈ w.settings, s.monthlyCap ≤ cap) ∧
      billingMonth (w.clock - readAgo) = billingMonth (w.clock - createdAgo)
  | .failStart id _ => w.GoneOf id
  | .settle order _ false _ =>
    ∀ charge ∈ w.toSettle order false, charge.money ≠ .unasked → w.GoneOf charge.id
  | .expire ago => ∀ id ∈ w.unanswered (w.clock - ago), w.GoneOf id
  | _ => True

instance (cap : ℕ) (w : World) (action : Action) : Decidable (w.InMonth cap action) := by
  unfold InMonth
  split <;> infer_instance

end World

/-! ## The invariant -/

/-- A failed row has no money, and a captured one has taken its. -/
structure Charge.Settled (charge : Charge) : Prop where
  failed : charge.status = .failed → charge.money = .gone
  captured : charge.status = .captured → charge.money = .taken

/-- The charge counts in the month. -/
def Charge.countsIn (month : ℕ) (charge : Charge) : Bool :=
  charge.status ≠ .failed ∧ billingMonth charge.createdAt = month

/-- The rows of an account under a cap. -/
structure Within (cap : ℕ) (charges : List Charge) : Prop where
  ids : (charges.map (·.id)).Nodup
  settled : ∀ charge ∈ charges, charge.Settled
  capped : ∀ month, ((charges.filter (·.countsIn month)).map (·.amount)).sum ≤ cap
  pending : ((charges.filter (·.status = .pending)).map fun _ => 1).sum ≤ 1

/-- A row moved on: no failed row is taken up again and none becomes pending. -/
structure Charge.Moves (charge charge' : Charge) : Prop where
  id : charge'.id = charge.id
  amount : charge'.amount = charge.amount
  createdAt : charge'.createdAt = charge.createdAt
  pending : charge'.status = .pending → charge.status = .pending
  unfailed : charge'.status ≠ .failed → charge.status ≠ .failed
  settled : charge'.Settled

theorem Charge.Settled.moves {charge : Charge} (h : charge.Settled) : charge.Moves charge :=
  ⟨rfl, rfl, rfl, fun hpending => hpending, fun hunfailed => hunfailed, h⟩

namespace Within

variable {cap : ℕ} {charges : List Charge}

theorem nil (cap : ℕ) : Within cap [] := ⟨by simp, by simp, by simp, by simp⟩

theorem map (h : Within cap charges) {f : Charge → Charge}
    (hf : ∀ charge ∈ charges, charge.Moves (f charge)) : Within cap (charges.map f) where
  ids := by
    have hids : (charges.map f).map (·.id) = charges.map (·.id) := by
      rw [List.map_map]
      exact List.map_congr_left fun charge hcharge => (hf charge hcharge).id
    rw [hids]
    exact h.ids
  settled := by
    intro charge' hcharge'
    obtain ⟨charge, hcharge, rfl⟩ := List.mem_map.mp hcharge'
    exact (hf charge hcharge).settled
  capped month := by
    refine le_trans (Table.sum_filter_map_le fun charge hcharge hcounts => ?_) (h.capped month)
    have hmoves := hf charge hcharge
    simp only [Charge.countsIn, decide_eq_true_eq, hmoves.createdAt] at hcounts ⊢
    exact ⟨⟨hmoves.unfailed hcounts.1, hcounts.2⟩, hmoves.amount⟩
  pending := by
    refine le_trans (Table.sum_filter_map_le fun charge hcharge hpending => ?_) h.pending
    have hmoves := hf charge hcharge
    exact ⟨by simpa using hmoves.pending (by simpa using hpending), rfl⟩

end Within

namespace World

variable {cap limit : ℕ} {w : World}

theorem updateCharge_within (h : Within cap w.charges) {id : ℕ} {f : Charge → Charge}
    (hf : ∀ charge ∈ w.charges, charge.id = id → charge.Settled → charge.Moves (f charge)) :
    Within cap (w.updateCharge id f).charges := by
  refine h.map fun charge hcharge => ?_
  have hsettled := h.settled charge hcharge
  split
  next hid => exact hf charge hcharge hid hsettled
  next => exact hsettled.moves

/-- A charge's money moves alone, while it is neither taken nor out of reach. -/
theorem money_within (h : Within cap w.charges) (id : ℕ) {p : Charge → Prop} [DecidablePred p]
    {money : Money} (hp : ∀ charge, p charge → charge.money ≠ .taken ∧ charge.money ≠ .gone) :
    Within cap (w.updateCharge id fun charge =>
      if p charge then { charge with money := money } else charge).charges := by
  refine updateCharge_within h fun charge _ _ hsettled => ?_
  split
  next hmoves =>
    obtain ⟨htaken, hgone⟩ := hp charge hmoves
    refine ⟨rfl, rfl, rfl, fun hpending => hpending, fun hunfailed => hunfailed, ?_⟩
    exact ⟨fun hfailed => absurd (hsettled.failed hfailed) hgone,
      fun hcaptured => absurd (hsettled.captured hcaptured) htaken⟩
  next => exact hsettled.moves

theorem nameOrder_within (h : Within cap w.charges) (id order : ℕ) :
    Within cap (w.nameOrder id order).charges := by
  unfold nameOrder
  split
  · exact h
  · exact updateCharge_within h fun charge _ _ hsettled =>
      ⟨rfl, rfl, rfl, fun hpending => hpending, fun hunfailed => hunfailed,
        hsettled.failed, hsettled.captured⟩

theorem notePayment_within (h : Within cap w.charges) (id payment : ℕ) :
    Within cap (w.notePayment id payment).charges := by
  refine updateCharge_within h fun charge _ _ hsettled => ?_
  split
  · exact ⟨rfl, rfl, rfl, fun hpending => hpending, fun hunfailed => hunfailed,
      hsettled.failed, hsettled.captured⟩
  · exact hsettled.moves

/-- A failure of a charge whose money is gone. -/
theorem failCharge_within (h : Within cap w.charges) {id : ℕ} (hgone : w.GoneOf id)
    (code : Option String) : Within cap (w.failCharge limit id code).charges := by
  unfold failCharge
  split
  · refine updateCharge_within h fun charge hcharge hid hsettled => ?_
    unfold failing
    split
    next hpending =>
      exact ⟨rfl, rfl, rfl, nofun, fun hunfailed => absurd rfl hunfailed,
        fun _ => hgone charge hcharge hid hpending, nofun⟩
    next => exact hsettled.moves
  · exact h

theorem toSettle_mem {order : ℕ} {captured : Bool} {charge : Charge}
    (h : w.toSettle order captured = some charge) :
    charge ∈ w.charges ∧ (charge.status = .pending ∨ charge.status = .failed ∧ captured) := by
  have hfound := List.find?_some h
  simp only [decide_eq_true_eq] at hfound
  exact ⟨List.mem_of_find?_eq_some h, hfound.2⟩

/-- A capture finds its charge pending: a failed one has no money to report. -/
theorem settleCharge_within (h : Within cap w.charges) {order : ℕ} {payment : Option ℕ}
    {captured : Bool} {code : Option String}
    (hgone : w.InMonth cap (.settle order payment captured code)) :
    Within cap (w.settleCharge limit order payment captured code).charges := by
  unfold settleCharge
  split
  · exact h
  next found hfound =>
    obtain ⟨hmem, hstatus⟩ := toSettle_mem hfound
    have hfoundSettled := h.settled found hmem
    cases captured with
    | true =>
      rw [if_pos rfl]
      split
      next htaken =>
        have hpending : found.status = .pending := by
          obtain hpending | ⟨hfailed, -⟩ := hstatus
          · exact hpending
          · have := hfoundSettled.failed hfailed
            rw [htaken] at this
            cases this
        refine updateCharge_within h fun charge hcharge hid _ => ?_
        obtain rfl : charge = found := List.inj_on_of_nodup_map h.ids hcharge hmem hid
        refine ⟨rfl, rfl, rfl, nofun, fun _ hfailed => ?_, nofun, fun _ => htaken⟩
        rw [hpending] at hfailed
        cases hfailed
      next => exact h
    | false =>
      rw [if_neg (by simp)]
      split
      next => exact h
      next hasked => exact failCharge_within h (hgone found hfound hasked) code

theorem failing_status (charge : Charge) (code : Option String) (now : ℕ) :
    (failing code now charge).status ≠ .pending := by
  unfold failing
  split
  · exact nofun
  next hpending => exact hpending

/-- What is out of reach stays so while other charges are failed. -/
theorem GoneOf.failCharge {id : ℕ} (h : w.GoneOf id) (id' : ℕ) (code : Option String) :
    (w.failCharge limit id' code).GoneOf id := by
  unfold World.failCharge
  split
  · intro charge' hcharge' hid hpending
    obtain ⟨charge, hcharge, rfl⟩ := List.mem_map.mp hcharge'
    by_cases hid' : charge.id = id'
    · rw [if_pos hid'] at hpending
      exact absurd hpending (failing_status charge code _)
    · rw [if_neg hid'] at hid hpending ⊢
      exact h charge hcharge hid hpending
  · exact h

theorem expireUnanswered_within (h : Within cap w.charges) {now : ℕ}
    (hgone : ∀ id ∈ w.unanswered now, w.GoneOf id) :
    Within cap (w.expireUnanswered limit now).charges := by
  unfold expireUnanswered
  generalize w.unanswered now = ids at hgone
  induction ids generalizing w with
  | nil => exact h
  | cons id ids ih =>
    refine ih (failCharge_within h (hgone id List.mem_cons_self) _) fun id' hid' => ?_
    exact (hgone id' (List.mem_cons_of_mem id hid')).failCharge id _

theorem monthSpent_eq (t : ℕ) :
    w.monthSpent t = ((w.charges.filter (·.countsIn (billingMonth t))).map (·.amount)).sum :=
  rfl

/-- A claim found room under the cap, and nothing pending. -/
theorem room_of_claimed {balance : ℤ} {readAt amount : ℕ}
    (h : w.claimOutcome balance readAt = .claimed amount) :
    (∃ s ∈ w.settings, w.monthSpent readAt + amount ≤ s.monthlyCap) ∧
      ∀ charge ∈ w.charges, charge.status ≠ .pending := by
  unfold claimOutcome at h
  split at h
  · cases h
  next s hs =>
    split_ifs at h with hoff habove hcap hflight
    obtain rfl : s.amount = amount := by simpa using h
    exact ⟨⟨s, hs, by omega⟩, by simpa using hflight⟩

/-- A claim creates its charge where the month has room for it and nothing is pending. -/
theorem claimRecharge_within (h : Within cap w.charges) {id : ℕ} {balance : ℤ}
    {readAt createdAt : ℕ} (hcap : ∀ s ∈ w.settings, s.monthlyCap ≤ cap)
    (hmonth : billingMonth readAt = billingMonth createdAt) :
    Within cap (w.claimRecharge id balance readAt createdAt).charges := by
  unfold claimRecharge
  split
  · exact h
  next hfresh =>
    split
    next amount hclaimed =>
      obtain ⟨hroom, hidle⟩ := room_of_claimed hclaimed
      refine ⟨?_, ?_, ?_, ?_⟩
      · rw [List.map_cons, List.nodup_cons]
        refine ⟨?_, h.ids⟩
        simpa [newCharge] using hfresh
      · rintro charge hcharge
        rw [List.mem_cons] at hcharge
        obtain rfl | hcharge := hcharge
        · exact ⟨nofun, nofun⟩
        · exact h.settled charge hcharge
      · intro month
        by_cases hin : billingMonth createdAt = month
        · obtain ⟨s, hs, hroom⟩ := hroom
          rw [monthSpent_eq, hmonth, hin] at hroom
          rw [List.filter_cons_of_pos (by simpa [Charge.countsIn, newCharge] using hin),
            List.map_cons, List.sum_cons]
          have hcap := hcap s hs
          simp only [newCharge]
          omega
        · rw [List.filter_cons_of_neg (by simpa [Charge.countsIn, newCharge] using hin)]
          exact h.capped month
      · have hnone : w.charges.filter (·.status = .pending) = [] := by
          simpa [List.filter_eq_nil_iff] using hidle
        simp [newCharge, hnone]
    next => exact h

@[simp]
theorem saveAutoRecharge_charges (w : World) (prefs : Preferences) :
    (w.saveAutoRecharge prefs).charges = w.charges := by
  unfold saveAutoRecharge
  split
  · rfl
  · split <;> split <;> rfl

@[simp]
theorem beginMandate_charges (w : World) (auth : Authorisation) :
    (w.beginMandate auth).charges = w.charges := by
  unfold beginMandate
  split <;> rfl

@[simp]
theorem checkOrder_charges (w : World) (token : Token) :
    (w.checkOrder token).charges = w.charges := by
  unfold checkOrder
  split <;> rfl

@[simp]
theorem resume_charges (w : World) (what : Underway) :
    (w.resume what).charges = w.charges := by
  unfold resume
  split
  · split <;> rfl
  · rfl

theorem step_within (h : Within cap w.charges) {action : Action}
    (hmonth : w.InMonth cap action) : Within cap (w.step limit action).charges := by
  cases action with
  | claim id balance readAgo createdAgo => exact claimRecharge_within h hmonth.1 hmonth.2
  | nameOrder id order => exact nameOrder_within h id order
  | askMoney id => exact money_within h id fun charge hp => by simp [hp.1]
  | notePayment id payment => exact notePayment_within h id payment
  | giveUp id => exact money_within h id fun charge hp => by simp [hp]
  | provider id takes => exact money_within h id fun charge hp => by simp [hp]
  | failStart id code => exact failCharge_within h hmonth code
  | settle order payment captured code => exact settleCharge_within h hmonth
  | expire ago => exact expireUnanswered_within h hmonth
  | save prefs => rw [step, saveAutoRecharge_charges]; exact h
  | beginMandate auth => rw [step, beginMandate_charges]; exact h
  | checkOrder token => rw [step, checkOrder_charges]; exact h
  | resume what => rw [step, resume_charges]; exact h
  | tokenStatus token status => exact h
  | cancelMandate => exact h
  | wait d => exact h

/-! ## The cap is kept -/

theorem takenIn_le (h : Within cap w.charges) (month : ℕ) : w.takenIn month ≤ cap := by
  have hle : w.takenIn month ≤
      ((w.charges.filter (·.countsIn month)).map (·.amount)).sum := by
    rw [takenIn]
    nth_rewrite 1 [← List.map_id w.charges]
    refine Table.sum_filter_map_le fun charge hcharge htaken => ⟨?_, rfl⟩
    simp only [id, decide_eq_true_eq, Charge.countsIn] at htaken ⊢
    refine ⟨fun hfailed => ?_, htaken.2⟩
    have hgone := (h.settled charge hcharge).failed hfailed
    rw [htaken.1] at hgone
    cases hgone
  exact hle.trans (h.capped month)

/-- A charge that can move money is pending, and no two are. -/
theorem canMove_le_one (h : Within cap w.charges) :
    (w.charges.filter (·.canMove)).length ≤ 1 := by
  have hle : ((w.charges.filter (·.canMove)).map fun _ => 1).sum ≤
      ((w.charges.filter (·.status = .pending)).map fun _ => 1).sum := by
    nth_rewrite 1 [← List.map_id w.charges]
    refine Table.sum_filter_map_le fun charge hcharge hmoves => ⟨?_, rfl⟩
    have hsettled := h.settled charge hcharge
    cases hstatus : charge.status with
    | pending => rfl
    | captured => simp [Charge.canMove, hsettled.captured hstatus] at hmoves
    | failed => simp [Charge.canMove, hsettled.failed hstatus] at hmoves
  have hlength (l : List Charge) : (l.map fun _ => 1).sum = l.length := by simp
  rw [hlength] at hle
  exact hle.trans h.pending

/-- **The cap is kept.** In every run whose steps are in the month, the charges created in one
month take no more than the cap, and no two charges can move money at once. -/
theorem taken_within_cap (limit cap : ℕ) (actions : List Action)
    (h : Run.Guarded (step limit) (InMonth cap) empty actions) :
    (∀ month, (run limit actions).takenIn month ≤ cap) ∧
      ((run limit actions).charges.filter (·.canMove)).length ≤ 1 := by
  have hwithin : Within cap (run limit actions).charges :=
    @Run.Guarded.inv _ _ (step limit) (InMonth cap) (fun w => Within cap w.charges)
      (fun w action hw hmonth => step_within hw hmonth) empty actions (Within.nil cap) h
  exact ⟨takenIn_le hwithin, canMove_le_one hwithin⟩

/-- Auto-recharge of two thousand rupees is switched on under a cap of as much. -/
def capped : List Action :=
  [.beginMandate ⟨1, 7, .upi, 500000, 1, ⟨50000, 200000, 200000⟩⟩, .checkOrder ⟨1, 1⟩,
    .resume (.remember ⟨1, 1⟩), .tokenStatus ⟨1, 1⟩ .confirmed,
    .save ⟨true, 50000, 200000, 200000⟩]

/-- A charge is claimed, and its money asked for. -/
def asked (id : ℕ) : List Action := [.claim id 0 0 0, .nameOrder id (10 + id), .askMoney id]

/-- Its money is taken and reported. -/
def captured (id : ℕ) : List Action :=
  [.provider id true, .settle (10 + id) none true none]

theorem taken_within_cap_captured :
    (∀ month, (run 3 (capped ++ (asked 1 ++ (captured 1 ++ asked 2)))).takenIn month ≤ 200000) ∧
      ((run 3 (capped ++ (asked 1 ++ (captured 1 ++ asked 2)))).charges.filter
        (·.canMove)).length ≤ 1 :=
  taken_within_cap 3 200000 (capped ++ (asked 1 ++ (captured 1 ++ asked 2))) (by decide +kernel)

/-- A charge is not answered for four days and expires; a second one is started, and both can
move money. The second is captured, and then the first: the cap is passed. -/
theorem lateCapture_passes_cap :
    ((run 3 (capped ++ (asked 1 ++ (.wait (4 * day) :: .expire 0 :: asked 2)))).charges.filter
        (·.canMove)).length = 2 ∧
      (run 3 (capped ++ (asked 1 ++ (.wait (4 * day) :: .expire 0 :: (asked 2 ++
        (captured 2 ++ captured 1)))))).takenIn (billingMonth 0) = 400000 ∧
      ∀ s ∈ (run 3 (capped ++ (asked 1 ++ (.wait (4 * day) :: .expire 0 :: (asked 2 ++
        (captured 2 ++ captured 1)))))).settings, s.monthlyCap = 200000 := by
  decide +kernel

end World

end Calevate.AutoRecharge
