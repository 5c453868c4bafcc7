import Calevate.Campaigns.Ladder

/-!
# A rung and the call it is charged for

The claim does not clear `last_call_id`. Until the new call is linked the row points at the
call of an earlier attempt, which has ended, and whoever looks in between judges the new
attempt by the old call. `charged_for_own_call` is what holds apart from that window: in a
run where nobody looks between a claim and its link, every call a contact was judged by was
linked after the claim it was charged to was taken.

The invariant `Pointing` follows the pointer from the newest claim to the call.
-/

namespace Calevate.Campaigns

open Lib Dispatch

/-! ## The window -/

/-- The contact has been linked under its newest claim. -/
def Line.linked (l : Line) : Bool := l.claims.head?.any fun claim => claim.call.isSome

/-- The touch does not judge a contact that was claimed and is not linked yet. The tick of
an older claim does not write its dial's failure, and the reaper does not exhaust what has
been claimed since it read it. -/
def Owned (now : ℕ) (l : Line) : Touch → Prop
  | .settleUnansweredDial => l.unanswered now = true → l.linked = true
  | .readStranded => l.stranded now = true → l.linked = true
  | .resolveCampaignContact c status => status ≠ .completed → l.row.lastCallId = some c →
      l.row.status = .dialing → l.linked = true
  | .exhaustStranded m => ∀ mark ∈ l.marks[m]?, l.row.status = .dialing →
      mark.claims = l.claims.length
  | .failDial k => ∀ claim ∈ l.claims[k]?, claim.alive = true → claim.call.isSome = true →
      l.row.status = .dialing → k = 0
  | _ => True

instance (now : ℕ) (l : Line) (t : Touch) : Decidable (Owned now l t) := by
  cases t <;> unfold Owned <;> infer_instance

/-- Every contact an event touches, it touches outside the window. -/
def OutsideWindow (s : Dispatch) (event : Event) : Prop :=
  ∀ p ∈ s.lines.zipIdx, ∀ t ∈ s.touches event p.2, Owned s.now p.1 t

instance (s : Dispatch) (event : Event) : Decidable (OutsideWindow s event) :=
  inferInstanceAs (Decidable (∀ p ∈ _, _))

/-- The call was linked after the claim it is charged to was taken. -/
def Charge.Own (charge : Charge) : Prop := charge.under = charge.claims

instance (charge : Charge) : Decidable charge.Own := inferInstanceAs (Decidable (_ = _))

/-! ## The invariant -/

/-- **The invariant of the pointer.** -/
structure Pointing (l : Line) : Prop where
  handed : ∀ k claim c, l.claims[k]? = some claim → claim.call = some c →
    ∃ call, l.calls[c]? = some call ∧ (k = 0 → call.under = l.claims.length)
  last : l.linked = true → ∃ call, l.lastCall = some call ∧ call.under = l.claims.length
  marked : ∀ mark ∈ l.marks, mark.Own
  charged : ∀ charge ∈ l.charges, charge.Own

variable {policy : RetryPolicy} {now : ℕ} {l : Line}

theorem pointing_added (phone : String) : Pointing (.added phone) where
  handed := fun _ _ _ h => nomatch h
  last := nofun
  marked := fun _ h => nomatch h
  charged := fun _ h => nomatch h

/-- Every writer of the row but the link keeps the pointer. -/
theorem Pointing.setRow (h : Pointing l) {row : Contact}
    (hrow : row.lastCallId = l.row.lastCallId) : Pointing (l.setRow row) where
  handed := h.handed
  last := by
    intro hlinked
    have hlast : (l.setRow row).lastCall = l.lastCall := by
      unfold Line.lastCall Line.setRow
      rw [hrow]
    rw [hlast]
    exact h.last hlinked
  marked := h.marked
  charged := h.charged

theorem linked_setClaim (l : Line) (k : ℕ) {f : Claim → Claim}
    (hf : ∀ claim, (f claim).call = claim.call) : (l.setClaim k f).linked = l.linked := by
  unfold Line.linked Line.setClaim
  cases l.claims with
  | nil => rw [List.modify_nil]
  | cons newest older =>
    cases k with
    | zero => rw [List.modify_zero_cons, List.head?_cons, Option.any_some, hf]; rfl
    | succ k => rfl

/-- A claim is written without its call. -/
theorem Pointing.setClaim (h : Pointing l) (k : ℕ) {f : Claim → Claim}
    (hf : ∀ claim, (f claim).call = claim.call) : Pointing (l.setClaim k f) where
  handed := by
    intro j claim c hj hc
    have hlen : (l.setClaim k f).claims.length = l.claims.length := List.length_modify ..
    rw [Line.setClaim, List.getElem?_modify] at hj
    obtain ⟨old, hold, rfl⟩ := Option.map_eq_some_iff.mp hj
    rw [hlen]
    apply h.handed j old c hold
    split at hc
    · rw [← hf old]
      exact hc
    · exact hc
  last := by
    rw [linked_setClaim l k hf]
    have hlen : (l.setClaim k f).claims.length = l.claims.length := List.length_modify ..
    rw [hlen]
    exact h.last
  marked := h.marked
  charged := h.charged

theorem Pointing.finish (h : Pointing l) (k : ℕ) : Pointing (l.finish k) :=
  h.setClaim k fun _ => rfl

/-- A call is written without what it was linked under. -/
theorem Pointing.setCall (h : Pointing l) (c : ℕ) {f : Call → Call}
    (hf : ∀ call, (f call).under = call.under) : Pointing (l.setCall c f) := by
  have hcall : ∀ (d : ℕ) (call : Call), l.calls[d]? = some call →
      ∃ call', (l.setCall c f).calls[d]? = some call' ∧ call'.under = call.under := by
    intro d call hd
    rw [Line.setCall, List.getElem?_modify, hd]
    refine ⟨_, rfl, ?_⟩
    split
    · exact hf call
    · rfl
  refine ⟨?_, ?_, h.marked, h.charged⟩
  · intro k claim d hk hd
    obtain ⟨call, hget, hunder⟩ := h.handed k claim d hk hd
    obtain ⟨call', hget', heq⟩ := hcall d call hget
    exact ⟨call', hget', fun hzero => heq.trans (hunder hzero)⟩
  · intro hlinked
    obtain ⟨call, hlast, hunder⟩ := h.last hlinked
    obtain ⟨d, hd, hget⟩ := Option.bind_eq_some_iff.mp hlast
    obtain ⟨call', hget', heq⟩ := hcall d call hget
    exact ⟨call', Option.bind_eq_some_iff.mpr ⟨d, hd, hget'⟩, heq.trans hunder⟩

/-! ## Claiming, linking and charging -/

theorem Pointing.claim (h : Pointing l) (now : ℕ) : Pointing (l.claim now) := by
  unfold Line.claim
  split
  · refine ⟨?_, nofun, h.marked, h.charged⟩
    intro k claim c hk hc
    cases k with
    | zero =>
      -- the new claim has no call yet
      obtain rfl := Option.some.inj hk
      exact nomatch hc
    | succ k =>
      obtain ⟨call, hget, -⟩ := h.handed k claim c hk hc
      exact ⟨call, hget, nofun⟩
  · exact h

theorem Pointing.linkContactToCall (h : Pointing l) (now k : ℕ) :
    Pointing (l.linkContactToCall now k) := by
  unfold Line.linkContactToCall
  split
  · exact h
  · rename_i claim₀ hk₀
    split
    · split
      · refine ⟨?_, ?_, h.marked, h.charged⟩
        · intro j claim c hj hc
          dsimp only at hj ⊢
          rw [List.length_modify]
          rw [List.getElem?_modify] at hj
          obtain ⟨old, hold, rfl⟩ := Option.map_eq_some_iff.mp hj
          split at hc
          · -- the claim that is linked has the new call
            obtain rfl := Option.some.inj hc
            exact ⟨_, List.getElem?_concat_length, fun _ => rfl⟩
          · obtain ⟨call, hget, hunder⟩ := h.handed j old c hold hc
            have hlt : c < l.calls.length := (List.getElem?_eq_some_iff.mp hget).1
            exact ⟨call, (List.getElem?_append_left hlt).trans hget, hunder⟩
        · intro _
          refine ⟨_, List.getElem?_concat_length, ?_⟩
          exact (List.length_modify ..).symm
      · exact h.finish k
    · exact h

/-- A contact is judged, by a call of its newest claim or by none. -/
theorem Pointing.recordFailure (h : Pointing l) (attempts : ℕ) {call : Option Call}
    (hown : l.row.status = .dialing → ∀ c, call = some c → c.under = l.claims.length) :
    Pointing (l.recordFailure policy now attempts call) := by
  unfold Line.recordFailure
  split
  · rename_i hd
    have hrow : (Campaigns.recordFailure policy l.row attempts now).lastCallId =
        l.row.lastCallId := by
      unfold Campaigns.recordFailure exhaustContact
      rw [if_pos hd, if_pos hd]
      split <;> rfl
    have hset := h.setRow hrow
    refine ⟨hset.handed, hset.last, h.marked, ?_⟩
    intro charge hcharge
    rcases List.mem_append.mp hcharge with hold | hnew
    · exact h.charged charge hold
    · obtain ⟨c, hc, rfl⟩ := List.mem_map.mp hnew
      exact hown hd c (Option.mem_toList.mp hc)
  · exact h

/-- What the row points at is the newest claim's, once that is linked. -/
theorem Pointing.own_last (h : Pointing l) (hlinked : l.linked = true) :
    ∀ c, l.lastCall = some c → c.under = l.claims.length := by
  intro c hc
  obtain ⟨call, hcall, hunder⟩ := h.last hlinked
  rw [hc] at hcall
  rw [Option.some.inj hcall]
  exact hunder

theorem Pointing.settle (h : Pointing l) (now : ℕ) (how : Settle) : Pointing (l.settle now how) := by
  have hrow : (l.row.settle now how).lastCallId = l.row.lastCallId := by cases how <;> rfl
  unfold Line.settle
  split
  · dsimp only
    split
    · exact h.setRow hrow
    · exact (h.setRow hrow).setClaim 0 fun _ => rfl
  · exact h

theorem lastCallId_exhaustContact (c : Contact) : (exhaustContact c).lastCallId = c.lastCallId := by
  unfold exhaustContact
  split <;> rfl

/-! ## Every touch -/

/-- **A touch outside the window keeps the invariant.** -/
theorem Pointing.touch (h : Pointing l) {t : Touch} (hown : Owned now l t) :
    Pointing (l.touch policy now t) := by
  cases t with
  | claim => exact h.claim now
  | refuseContact k rule =>
    simp only [Line.touch, Line.refuseContact]
    split
    · exact (h.settle now _).finish k
    · exact h
  | linkContactToCall k => exact h.linkContactToCall now k
  | closeUnplacedDial k =>
    simp only [Line.touch, Line.closeUnplacedDial]
    split
    · exact h
    · split
      · exact h
      · split
        · exact h.setCall _ fun call => by split <;> rfl
        · exact h
  | placed k stamped =>
    simp only [Line.touch, Line.placed]
    split
    · exact h
    · split
      · exact h
      · split
        · exact (h.setCall _ fun call => by split <;> rfl).finish k
        · exact h
  | settleUnconfirmedDial k =>
    simp only [Line.touch, Line.settleUnconfirmedDial]
    split
    · exact (h.setRow (lastCallId_exhaustContact l.row)).finish k
    · exact h
  | failDial k =>
    simp only [Line.touch, Line.failDial]
    split
    · exact h
    · rename_i claim hk
      split
      · rename_i halive
        apply (h.recordFailure claim.attempts _).finish k
        -- the failed dial is the newest claim's, so its call is
        intro hd call hcall
        obtain ⟨c, hc, hget⟩ := Option.bind_eq_some_iff.mp hcall
        have hzero := hown claim hk halive (by rw [hc]; rfl) hd
        obtain ⟨call', hget', hunder⟩ := h.handed k claim c hk hc
        rw [hget] at hget'
        rw [Option.some.inj hget']
        exact hunder hzero
      · exact h
  | abandon k => exact h.finish k
  | resolveCampaignContact c status =>
    simp only [Line.touch, Line.resolveCampaignContact]
    split
    · rename_i hrow
      split
      · exact h.setRow rfl
      · rename_i hstatus
        exact h.recordFailure _ fun _ => h.own_last (hown hstatus hrow.1 hrow.2)
    · exact h
  | closeCalledOffDial c person =>
    simp only [Line.touch, Line.closeCalledOffDial]
    split
    · split
      · apply Pointing.settle
        exact h.setCall c fun _ => rfl
      · exact h.setCall c fun _ => rfl
    · exact h
  | upsertCallRow c status => exact h.setCall c fun call => by split <;> rfl
  | settleUnansweredDial =>
    simp only [Line.touch, Line.settleUnansweredDial]
    split
    · rename_i hun
      exact h.recordFailure _ fun _ => h.own_last (hown hun)
    · exact h
  | readStranded =>
    simp only [Line.touch, Line.readStranded]
    split
    · rename_i hstranded
      refine ⟨h.handed, h.last, ?_, h.charged⟩
      intro mark hmark
      rcases List.mem_append.mp hmark with hold | hnew
      · exact h.marked mark hold
      · obtain ⟨call, hcall, rfl⟩ := List.mem_map.mp hnew
        exact h.own_last (hown hstranded) call (Option.mem_toList.mp hcall)
    · exact h
  | exhaustStranded m =>
    simp only [Line.touch, Line.exhaustStranded]
    split
    · exact h
    · rename_i mark hmark
      have hrest : ∀ mark' ∈ l.marks.eraseIdx m, mark'.Own :=
        fun mark' hm => h.marked mark' (List.mem_of_mem_eraseIdx hm)
      split
      · rename_i hd
        have hset := h.setRow (lastCallId_exhaustContact l.row)
        refine ⟨hset.handed, hset.last, hrest, ?_⟩
        intro charge hcharge
        rcases List.mem_append.mp hcharge with hold | hnew
        · exact h.charged charge hold
        · rw [List.mem_singleton.mp hnew]
          have hread : mark.under = mark.claims := h.marked mark (List.mem_of_getElem? hmark)
          exact hread.trans (hown mark hmark hd)
      · exact ⟨h.handed, h.last, hrest, h.charged⟩
  | reapStuckDialing =>
    simp only [Line.touch, Line.reapStuckDialing]
    split
    · exact h.recordFailure _ (by simp)
    · exact h
  | scrubContact =>
    apply h.setRow
    unfold scrubContact
    split <;> rfl
  | suppressContact =>
    apply h.setRow
    unfold suppressContact
    split <;> rfl
  | eraseContact suffix =>
    apply h.setRow
    unfold eraseContact
    split <;> rfl

/-! ## Every run -/

theorem pointing_step (s : Dispatch) (event : Event) (h : ∀ l ∈ s.lines, Pointing l)
    (hout : OutsideWindow s event) : ∀ l ∈ (step policy s event).lines, Pointing l := by
  have htouched : ∀ l ∈ s.touched policy event, Pointing l := by
    intro l' hl'
    obtain ⟨i, hi, rfl⟩ := List.mem_mapIdx.mp hl'
    have hline : Pointing s.lines[i] := h _ (List.getElem_mem hi)
    split
    · exact hline
    · rename_i t ht
      exact hline.touch (hout (s.lines[i], i) (List.mk_mem_zipIdx_iff_getElem?.mpr
        (List.getElem?_eq_getElem hi)) t ht)
  cases event with
  | wait seconds => exact h
  | addContact phone =>
    simp only [step]
    split
    · exact h
    · intro l hl
      rcases List.mem_append.mp hl with hold | hnew
      · exact h l hold
      · rw [List.mem_singleton.mp hnew]
        exact pointing_added phone
  | claimContacts slots locked running => exact htouched
  | settleUnansweredDials locked => exact htouched
  | reapStuckDialing locked => exact htouched
  | touch i t => exact htouched

/-- **A rung is charged for its own call**, in every run that judges no contact between a
claim and its link. -/
theorem charged_for_own_call (policy : RetryPolicy) (events : List Event)
    (hout : Run.Guarded (step policy) OutsideWindow .empty events) :
    ∀ l ∈ (run policy events).lines, ∀ charge ∈ l.charges, charge.Own := by
  have h : ∀ l ∈ (run policy events).lines, Pointing l := by
    apply hout.inv (fun s event => pointing_step s event)
    exact fun _ hl => nomatch hl
  exact fun l hl => (h l hl).charged

/-- The second try is linked and rings out as the first did. -/
def secondTryRung : List Event :=
  secondTry ++ [.touch 0 (.linkContactToCall 0), .touch 0 (.placed 0 true),
    .touch 0 (.upsertCallRow 1 .noAnswer), .wait 121, .settleUnansweredDials []]

theorem secondTryRung_own :
    ((run threeTries secondTryRung).lines.map Line.charges) = [[⟨1, 1⟩, ⟨2, 2⟩]] ∧
      ∀ l ∈ (run threeTries secondTryRung).lines, ∀ charge ∈ l.charges, charge.Own :=
  ⟨by decide +kernel, charged_for_own_call threeTries secondTryRung (by decide +kernel)⟩

/-- The worker dies after the second claim; half a minute later the next tick looks. -/
def crashedTry : List Event :=
  secondTry ++ [.touch 0 (.abandon 0), .wait 30, .settleUnansweredDials []]

/-- The second attempt is spent on the first one's call, and nobody was dialled. -/
theorem crashedTry_charged :
    ((run threeTries crashedTry).lines.map fun l =>
      (l.row.status, l.row.attempts, l.calls.length)) = [(.pending, 2, 1)] ∧
      ∃ l ∈ (run threeTries crashedTry).lines, ∃ charge ∈ l.charges, ¬ charge.Own := by
  exact ⟨by decide +kernel, by decide +kernel⟩

end Calevate.Campaigns
