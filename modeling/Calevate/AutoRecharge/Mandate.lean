import Calevate.AutoRecharge.Recharge
import Mathlib.Data.List.Induction

/-!
# The mandate behind auto-recharge

Auto-recharge that is on is on under a confirmed token of the latest authorisation, for an
amount within its limit, and once a mandate is withdrawn nothing is charged before it is
authorised and switched on again. `live_mandate` has this of every run that meets two
conditions the code does not see to: nothing confirms the token of a withdrawn mandate, and
no token is kept of an authorisation that was begun over.
-/

namespace Calevate.AutoRecharge

open Lib

/-! ## What is to hold -/

/-- On only under a confirmed token of the latest authorisation, within its limit. -/
def World.Lawful (w : World) : Prop :=
  ∀ s ∈ w.settings, s.enabled = true →
    s.mandateStatus = .confirmed ∧
      (∃ token, s.tokenId = some token ∧ w.orders.head? = some token.order) ∧
      ∃ max, s.mandateMax = some max ∧ s.amount ≤ max

/-- Auto-recharge is on. -/
def World.IsOn (w : World) : Prop := ∃ s ∈ w.settings, s.enabled = true

/-- Of what came after a withdrawal: a mandate was begun, and then auto-recharge was switched
on. -/
def World.Reauthorised (limit : ℕ) (w : World) (after : List Action) : Prop :=
  ∃ (a : List Action) (auth : Authorisation) (b : List Action) (prefs : Preferences)
      (c : List Action),
    after = a ++ Action.beginMandate auth :: (b ++ Action.save prefs :: c) ∧
      prefs.enabled = true ∧
      ((a ++ [Action.beginMandate auth]).foldl (World.step limit) w).withdrawn = false ∧
      ((a ++ Action.beginMandate auth :: (b ++ [Action.save prefs])).foldl
        (World.step limit) w).IsOn

/-- A step that makes no more of a mandate than the client did. -/
def World.Honours (w : World) : Action → Prop
  | .tokenStatus token .confirmed =>
    w.withdrawn = true → ∀ s ∈ w.settings, s.tokenId ≠ some token
  | .resume (.remember token) => ∀ s ∈ w.settings, s.mandateOrderId = some token.order
  | _ => True

instance (w : World) (action : Action) : Decidable (w.Honours action) := by
  unfold World.Honours
  split <;> infer_instance

/-! ## The invariant -/

/-- What the settings keep, under the latest order and whether it was withdrawn. -/
structure Settings.Sound (order : Option ℕ) (withdrawn : Bool) (s : Settings) : Prop where
  on : s.enabled = true → s.MaySwitchOn s.amount
  token : ∀ token, s.tokenId = some token → order = some token.order
  latest : s.mandateOrderId = order
  limit : s.mandateOrderId.isSome = true → s.mandateMax.isSome = true
  unconfirmed : withdrawn = true → s.mandateStatus ≠ .confirmed

namespace Settings

variable {order : Option ℕ} {withdrawn : Bool} {s s' : Settings}

theorem fresh_sound (prefs : Preferences) : (fresh prefs).Sound none withdrawn where
  on := by simp [fresh]
  token := by simp [fresh]
  latest := rfl
  limit := by simp [fresh]
  unconfirmed := by simp [fresh]

/-- The client's preferences, where they leave it off or the row may be switched on. -/
theorem Sound.preferring (h : s.Sound order withdrawn) {prefs : Preferences}
    (hmay : prefs.enabled = true → s.MaySwitchOn prefs.amount) :
    (s.preferring prefs).Sound order withdrawn where
  on := hmay
  token := h.token
  latest := h.latest
  limit := h.limit
  unconfirmed := h.unconfirmed

theorem offered_sound (auth : Authorisation) :
    (offered auth).Sound (some auth.order) false where
  on := by simp [offered]
  token := by simp [offered]
  latest := rfl
  limit := by simp [offered]
  unconfirmed := by simp

theorem authorising_sound (s : Settings) (auth : Authorisation) :
    (s.authorising auth).Sound (some auth.order) false where
  on := by simp [authorising]
  token := by simp [authorising]
  latest := rfl
  limit := by simp [authorising]
  unconfirmed := by simp

/-- A token of the latest order. -/
theorem Sound.remembering (h : s.Sound order withdrawn) {token : Token}
    (hown : s.mandateOrderId = some token.order) :
    (s.remembering token).Sound order withdrawn := by
  unfold Settings.remembering
  split
  · refine ⟨fun hon => ?_, fun token' htoken => ?_, h.latest, h.limit, h.unconfirmed⟩
    · obtain ⟨hconfirmed, -, hmax⟩ := h.on hon
      exact ⟨hconfirmed, rfl, hmax⟩
    · cases htoken
      rw [← h.latest, hown]
  · exact h

/-- A token's status, where it confirms no withdrawn mandate. -/
theorem Sound.tokenStatus (h : s.Sound order withdrawn) {token : Token} {status : MandateStatus}
    (hfaithful : status = .confirmed → withdrawn = true → s.tokenId ≠ some token) :
    (s.tokenStatus token status).Sound order withdrawn := by
  unfold Settings.tokenStatus
  split
  next hown =>
    refine ⟨fun hon => ?_, h.token, h.latest, h.limit, fun hwithdrawn hstatus => ?_⟩
    · by_cases hstatus : status = .confirmed
      · -- it stays on under a confirmed mandate only, and that one is not confirmed anew
        have hon : s.enabled = true := by simpa [hstatus] using hon
        exact absurd ((h.on hon).1.trans hstatus.symm) hown.2
      · simp [hstatus] at hon
    · exact hfaithful hstatus hwithdrawn hown.1
  next => exact h

theorem Sound.withdrawing (h : s.Sound order withdrawn) (sawToken : Bool) :
    (s.withdrawing sawToken).Sound order true := by
  cases sawToken with
  | true => exact ⟨by simp [Settings.withdrawing], h.token, h.latest, h.limit,
      by simp [Settings.withdrawing]⟩
  | false => exact ⟨by simp [Settings.withdrawing], h.token, h.latest, h.limit,
      by simp [Settings.withdrawing]⟩

/-- The same mandate and amount, and on only if it was. -/
structure Weakens (s s' : Settings) : Prop where
  on : s'.enabled = true → s.enabled = true
  amount : s'.amount = s.amount
  token : s'.tokenId = s.tokenId
  status : s'.mandateStatus = s.mandateStatus
  max : s'.mandateMax = s.mandateMax
  order : s'.mandateOrderId = s.mandateOrderId

theorem Weakens.refl (s : Settings) : s.Weakens s := ⟨id, rfl, rfl, rfl, rfl, rfl⟩

theorem Weakens.trans {s'' : Settings} (h : s.Weakens s') (h' : s'.Weakens s'') :
    s.Weakens s'' where
  on := h.on ∘ h'.on
  amount := h'.amount.trans h.amount
  token := h'.token.trans h.token
  status := h'.status.trans h.status
  max := h'.max.trans h.max
  order := h'.order.trans h.order

theorem Weakens.sound (h : s.Weakens s') (hs : s.Sound order withdrawn) :
    s'.Sound order withdrawn where
  on hon := by
    have hmay := hs.on (h.on hon)
    rw [MaySwitchOn, h.status, h.token, h.max, h.amount]
    exact hmay
  token := by rw [h.token]; exact hs.token
  latest := by rw [h.order]; exact hs.latest
  limit := by rw [h.order, h.max]; exact hs.limit
  unconfirmed := by rw [h.status]; exact hs.unconfirmed

theorem countingFailure_weakens (s : Settings) (limit : ℕ) :
    s.Weakens (s.countingFailure limit) where
  on := by
    intro hon
    simp only [countingFailure] at hon
    split at hon
    · cases hon
    · exact hon
  amount := rfl
  token := rfl
  status := rfl
  max := rfl
  order := rfl

end Settings

/-- The actions that write the mandate or the switch. -/
def Action.onMandate : Action → Bool
  | .save _ => true
  | .beginMandate _ => true
  | .tokenStatus _ _ => true
  | .resume _ => true
  | _ => false

namespace World

variable {limit : ℕ} {w w' : World}

/-- The invariant of a run: no authorisation without settings, and sound settings. -/
structure Sound (w : World) : Prop where
  none_begun : w.settings = none → w.orders = []
  settings : ∀ s ∈ w.settings, s.Sound w.orders.head? w.withdrawn

theorem empty_sound : empty.Sound := ⟨fun _ => rfl, by simp [empty]⟩

theorem Sound.updateSettings (h : w.Sound) {f : Settings → Settings}
    (hf : ∀ s ∈ w.settings, s.Sound w.orders.head? w.withdrawn →
      (f s).Sound w.orders.head? w.withdrawn) :
    (w.updateSettings f).Sound := by
  refine ⟨fun hnone => h.none_begun (by simpa [World.updateSettings] using hnone), ?_⟩
  intro s' hs'
  obtain ⟨s, hs, rfl⟩ := Option.map_eq_some_iff.mp hs'
  exact hf s hs (h.settings s hs)

/-! ## Steps of charges leave the mandate -/

/-- The same mandate, and on only if it was. -/
structure Weakens (w w' : World) : Prop where
  orders : w'.orders = w.orders
  withdrawn : w'.withdrawn = w.withdrawn
  settings : Option.Rel Settings.Weakens w.settings w'.settings

theorem Weakens.of_map {f : Settings → Settings} (hf : ∀ s : Settings, s.Weakens (f s))
    (horders : w'.orders = w.orders) (hwithdrawn : w'.withdrawn = w.withdrawn)
    (hsettings : w'.settings = w.settings.map f) : w.Weakens w' := by
  refine ⟨horders, hwithdrawn, ?_⟩
  rw [hsettings]
  cases w.settings with
  | none => exact .none
  | some s => exact .some (hf s)

theorem Weakens.of_eq (horders : w'.orders = w.orders) (hwithdrawn : w'.withdrawn = w.withdrawn)
    (hsettings : w'.settings = w.settings) : w.Weakens w' :=
  .of_map Settings.Weakens.refl horders hwithdrawn (by simp [hsettings])

theorem Weakens.refl (w : World) : w.Weakens w := .of_eq rfl rfl rfl

theorem Weakens.trans {w'' : World} (h : w.Weakens w') (h' : w'.Weakens w'') :
    w.Weakens w'' where
  orders := h'.orders.trans h.orders
  withdrawn := h'.withdrawn.trans h.withdrawn
  settings := by
    have hsettings := h.settings
    have hsettings' := h'.settings
    cases hw : w.settings <;> cases hw' : w'.settings <;> cases hw'' : w''.settings <;>
      rw [hw, hw'] at hsettings <;> rw [hw', hw''] at hsettings' <;>
      cases hsettings <;> cases hsettings'
    · exact .none
    next hs hs' => exact .some (hs.trans hs')

theorem Weakens.sound (h : w.Weakens w') (hw : w.Sound) : w'.Sound := by
  obtain ⟨horders, hwithdrawn, hsettings⟩ := h
  have hnone := hw.none_begun
  have hsound := hw.settings
  refine ⟨?_, ?_⟩
  all_goals rw [horders]
  · intro hw'
    rw [hw'] at hsettings
    cases hw : w.settings with
    | none => exact hnone hw
    | some s => rw [hw] at hsettings; cases hsettings
  · intro s' hs'
    rw [hwithdrawn]
    rw [Option.mem_def.mp hs'] at hsettings
    cases hw : w.settings with
    | none => rw [hw] at hsettings; cases hsettings
    | some s =>
      rw [hw] at hsettings
      cases hsettings with
      | some hweakens => exact hweakens.sound (hsound s hw)

theorem Weakens.isOn (h : w.Weakens w') (hon : w'.IsOn) : w.IsOn := by
  obtain ⟨s', hs', hon⟩ := hon
  have hsettings := h.settings
  rw [Option.mem_def.mp hs'] at hsettings
  cases hw : w.settings with
  | none => rw [hw] at hsettings; cases hsettings
  | some s =>
    rw [hw] at hsettings
    cases hsettings with
    | some hweakens => exact ⟨s, hw, hweakens.on hon⟩

theorem failCharge_weakens (w : World) (limit id : ℕ) (code : Option String) :
    w.Weakens (w.failCharge limit id code) := by
  unfold failCharge
  split
  · exact .of_map (Settings.countingFailure_weakens · limit) rfl rfl rfl
  · exact .refl w

theorem settleCharge_weakens (w : World) (limit order : ℕ) (payment : Option ℕ)
    (captured : Bool) (code : Option String) :
    w.Weakens (w.settleCharge limit order payment captured code) := by
  unfold settleCharge
  split
  · exact .refl w
  · split
    · split
      · -- a capture takes back the count of failures
        refine .of_map (f := fun s => { s with consecutiveFailures := 0 }) (fun s => ?_) rfl rfl rfl
        exact ⟨id, rfl, rfl, rfl, rfl, rfl⟩
      · exact .refl w
    · split
      · exact .refl w
      · exact w.failCharge_weakens limit _ code

theorem expireUnanswered_weakens (w : World) (limit now : ℕ) :
    w.Weakens (w.expireUnanswered limit now) :=
  @Run.foldl_inv _ _ _ (fun w' => w.Weakens w')
    (fun w' id h => h.trans (w'.failCharge_weakens limit id _)) _ (.refl w) _

theorem claimRecharge_weakens (w : World) (id : ℕ) (balance : ℤ) (readAt createdAt : ℕ) :
    w.Weakens (w.claimRecharge id balance readAt createdAt) := by
  unfold claimRecharge
  split
  · exact .refl w
  · split
    · exact .of_eq rfl rfl rfl
    · exact .refl w

/-- Every other step leaves the mandate. -/
theorem step_weakens (w : World) {action : Action} (h : action.onMandate = false) :
    w.Weakens (w.step limit action) := by
  cases action with
  | save prefs => cases h
  | beginMandate auth => cases h
  | tokenStatus token status => cases h
  | resume what => cases h
  | checkOrder token =>
    simp only [step, checkOrder]
    split
    · exact .of_eq rfl rfl rfl
    · exact .refl w
  | nameOrder id order =>
    simp only [step, nameOrder]
    split
    · exact .refl w
    · exact .of_eq rfl rfl rfl
  | claim id balance readAgo createdAgo => exact w.claimRecharge_weakens id balance _ _
  | failStart id code => exact w.failCharge_weakens limit id code
  | settle order payment captured code =>
    exact w.settleCharge_weakens limit order payment captured code
  | expire ago => exact w.expireUnanswered_weakens limit _
  | cancelMandate => exact .of_eq rfl rfl rfl
  | askMoney id => exact .of_eq rfl rfl rfl
  | notePayment id payment => exact .of_eq rfl rfl rfl
  | giveUp id => exact .of_eq rfl rfl rfl
  | provider id takes => exact .of_eq rfl rfl rfl
  | wait d => exact .of_eq rfl rfl rfl

/-! ## Steps of the mandate -/

theorem Sound.saveAutoRecharge (h : w.Sound) (prefs : Preferences) :
    (w.saveAutoRecharge prefs).Sound := by
  unfold World.saveAutoRecharge
  split
  · exact h
  · split
    next hnone =>
      split
      · exact h
      · refine ⟨by simp, ?_⟩
        simp only [Option.mem_def, Option.some.injEq, h.none_begun hnone]
        rintro s rfl
        exact Settings.fresh_sound prefs
    next s hs =>
      split
      · exact h
      next hmay =>
        refine ⟨by simp, ?_⟩
        rintro s' ⟨⟩
        exact (h.settings s hs).preferring fun hon => by simpa [hon] using hmay

theorem Sound.beginMandate (h : w.Sound) (auth : Authorisation) :
    (w.beginMandate auth).Sound := by
  unfold World.beginMandate
  split
  · refine ⟨by simp, ?_⟩
    rintro s' ⟨⟩
    cases w.settings with
    | none => exact Settings.offered_sound auth
    | some s => exact s.authorising_sound auth
  · exact h

theorem Sound.resume (h : w.Sound) {what : Underway} (hhonours : w.Honours (.resume what)) :
    (w.resume what).Sound := by
  unfold World.resume
  split
  · cases what with
    | remember token =>
      have h := h.updateSettings (f := fun s => s.remembering token)
        fun s hs hsound => hsound.remembering (hhonours s hs)
      exact ⟨h.none_begun, h.settings⟩
    | cancel sawToken =>
      refine ⟨fun hnone => h.none_begun (by simpa using hnone), ?_⟩
      intro s' hs'
      obtain ⟨s, hs, rfl⟩ := Option.map_eq_some_iff.mp hs'
      exact (h.settings s hs).withdrawing sawToken
  · exact h

theorem Sound.step (h : w.Sound) {action : Action} (hhonours : w.Honours action) :
    (w.step limit action).Sound := by
  cases action with
  | save prefs => exact h.saveAutoRecharge prefs
  | beginMandate auth => exact h.beginMandate auth
  | tokenStatus token status =>
    refine h.updateSettings fun s hs hsound => hsound.tokenStatus ?_
    rintro rfl hwithdrawn
    exact hhonours hwithdrawn s hs
  | resume what => exact h.resume hhonours
  | _ => exact (w.step_weakens rfl).sound h

/-- What the invariant says of auto-recharge that is on. -/
theorem Sound.lawful (h : w.Sound) : w.Lawful := by
  intro s hs hon
  have hsound := h.settings s hs
  obtain ⟨hconfirmed, htoken, hmax⟩ := hsound.on hon
  obtain ⟨token, htoken⟩ := Option.isSome_iff_exists.mp htoken
  have hlatest := hsound.token token htoken
  have hlimit : s.mandateMax.isSome := hsound.limit (by rw [hsound.latest, hlatest]; rfl)
  obtain ⟨max, hlimit⟩ := Option.isSome_iff_exists.mp hlimit
  exact ⟨hconfirmed, ⟨token, htoken, hlatest⟩, max, hlimit, hmax max hlimit⟩

/-- Nothing withdrawn is on. -/
theorem Sound.off_of_withdrawn (h : w.Sound) (hwithdrawn : w.withdrawn = true) : ¬ w.IsOn := by
  rintro ⟨s, hs, hon⟩
  have hsound := h.settings s hs
  exact hsound.unconfirmed hwithdrawn (hsound.on hon).1

/-! ## After a withdrawal -/

@[simp]
theorem saveAutoRecharge_withdrawn (w : World) (prefs : Preferences) :
    (w.saveAutoRecharge prefs).withdrawn = w.withdrawn := by
  unfold World.saveAutoRecharge
  split
  · rfl
  · split <;> split <;> rfl

/-- Only a mandate begun lifts a withdrawal, and it leaves auto-recharge off. -/
theorem begun_of_lifted {action : Action} (hwithdrawn : w.withdrawn = true)
    (hlifted : (w.step limit action).withdrawn = false) :
    (∃ auth, action = .beginMandate auth) ∧ ¬ (w.step limit action).IsOn := by
  cases action with
  | beginMandate auth =>
    refine ⟨⟨auth, rfl⟩, ?_⟩
    simp only [World.step, World.beginMandate] at hlifted ⊢
    split at hlifted
    next hbegun =>
      rw [if_pos hbegun]
      rintro ⟨s', ⟨⟩, hon⟩
      cases hs : w.settings <;> simp [hs, Settings.offered, Settings.authorising] at hon
    next => rw [hwithdrawn] at hlifted; cases hlifted
  | save prefs =>
    rw [World.step, saveAutoRecharge_withdrawn, hwithdrawn] at hlifted
    cases hlifted
  | tokenStatus token status =>
    have hkept : (w.step limit (.tokenStatus token status)).withdrawn = w.withdrawn := rfl
    rw [hkept, hwithdrawn] at hlifted
    cases hlifted
  | resume what =>
    simp only [World.step, World.resume] at hlifted
    split at hlifted
    · cases what <;> simp_all
    · rw [hwithdrawn] at hlifted; cases hlifted
  | _ =>
    rw [(w.step_weakens rfl).withdrawn, hwithdrawn] at hlifted
    cases hlifted

/-- Only the client's preferences switch it on. -/
theorem saved_of_on {action : Action} (hoff : ¬ w.IsOn) (hon : (w.step limit action).IsOn) :
    ∃ prefs, action = .save prefs ∧ prefs.enabled = true := by
  cases action with
  | save prefs =>
    refine ⟨prefs, rfl, ?_⟩
    by_contra hprefs
    refine hoff ?_
    simp only [World.step, World.saveAutoRecharge] at hon
    split at hon
    · exact hon
    · split at hon
      · simp [IsOn, Settings.fresh] at hon
      · simp [hprefs, IsOn, Settings.preferring] at hon
  | beginMandate auth =>
    simp only [World.step, World.beginMandate] at hon
    split at hon
    · obtain ⟨s', ⟨⟩, hon⟩ := hon
      cases hs : w.settings <;> simp [hs, Settings.offered, Settings.authorising] at hon
    · exact absurd hon hoff
  | tokenStatus token status =>
    obtain ⟨s', hs', hon⟩ := hon
    obtain ⟨s, hs, rfl⟩ := Option.map_eq_some_iff.mp hs'
    refine absurd ⟨s, hs, ?_⟩ hoff
    unfold Settings.tokenStatus at hon
    split at hon
    · simp only at hon
      split at hon
      · exact hon
      · cases hon
    · exact hon
  | resume what =>
    simp only [World.step, World.resume] at hon
    split at hon
    · cases what with
      | remember token =>
        obtain ⟨s', hs', hon⟩ := hon
        obtain ⟨s, hs, rfl⟩ := Option.map_eq_some_iff.mp hs'
        refine absurd ⟨s, hs, ?_⟩ hoff
        unfold Settings.remembering at hon
        split at hon <;> exact hon
      | cancel sawToken =>
        obtain ⟨s', hs', hon⟩ := hon
        obtain ⟨s, hs, rfl⟩ := Option.map_eq_some_iff.mp hs'
        cases sawToken <;> simp [Settings.withdrawing] at hon
    · exact absurd hon hoff
  | _ => exact absurd ((w.step_weakens rfl).isOn hon) hoff

/-- A mandate begun since `w`, and switched on since if it is on now. -/
def Begun (limit : ℕ) (w : World) (after : List Action) : Prop :=
  ∃ (a : List Action) (auth : Authorisation) (b : List Action),
    after = a ++ Action.beginMandate auth :: b ∧
      ((a ++ [Action.beginMandate auth]).foldl (step limit) w).withdrawn = false ∧
      ((after.foldl (step limit) w).IsOn → w.Reauthorised limit after)

/-- After a withdrawal the mandate stays withdrawn until one is begun. -/
theorem withdrawn_or_begun (hwithdrawn : w.withdrawn = true) (after : List Action) :
    (after.foldl (step limit) w).withdrawn = true ∨ w.Begun limit after := by
  induction after using List.reverseRecOn with
  | nil => exact .inl hwithdrawn
  | append_singleton after action ih =>
    by_cases hstays : ((after ++ [action]).foldl (step limit) w).withdrawn = true
    · exact .inl hstays
    refine .inr ?_
    rw [Bool.not_eq_true] at hstays
    have hfold : (after ++ [action]).foldl (step limit) w =
        (after.foldl (step limit) w).step limit action := by simp
    obtain hwas | ⟨a, auth, b, rfl, hlifted, hsaved⟩ := ih
    · -- this step lifts the withdrawal
      have hstep := hfold ▸ hstays
      obtain ⟨⟨auth, rfl⟩, hoff⟩ := begun_of_lifted hwas hstep
      exact ⟨after, auth, [], rfl, hstays, fun hon => absurd (hfold ▸ hon) hoff⟩
    · refine ⟨a, auth, b ++ [action], by simp, hlifted, fun hon => ?_⟩
      by_cases hwas : ((a ++ Action.beginMandate auth :: b).foldl (step limit) w).IsOn
      · -- it was switched on before
        obtain ⟨a', auth', b', prefs, c, hsplit, henabled, hlifted', hon'⟩ := hsaved hwas
        exact ⟨a', auth', b', prefs, c ++ [action], by simp [hsplit], henabled, hlifted', hon'⟩
      · obtain ⟨prefs, rfl, henabled⟩ := saved_of_on hwas (hfold ▸ hon)
        refine ⟨a, auth, b, prefs, [], by simp, henabled, hlifted, ?_⟩
        simpa using hon

/-! ## The mandate is live -/

/-- A charge is started only by auto-recharge that is on. -/
theorem isOn_of_claimed {balance : ℤ} {readAt amount : ℕ}
    (h : w.claimOutcome balance readAt = .claimed amount) : w.IsOn := by
  unfold claimOutcome at h
  split at h
  · cases h
  next s hs =>
    split at h
    · cases h
    next hon => exact ⟨s, hs, by simp_all⟩

/-- **The mandate is live.** In every run whose steps honour the mandate, auto-recharge that is
on is on under a confirmed token of the latest authorisation and for an amount within its
limit; and after `cancel_mandate` no charge is started before a mandate was begun and
auto-recharge switched on under it. -/
theorem live_mandate (limit : ℕ) (actions : List Action)
    (h : Run.Guarded (step limit) Honours empty actions) :
    (run limit actions).Lawful ∧
      ∀ before sawToken after, actions = before ++ .resume (.cancel sawToken) :: after →
        .cancel sawToken ∈ (run limit before).underway →
          ∀ balance readAt amount,
            (run limit actions).claimOutcome balance readAt = .claimed amount →
              ((run limit before).step limit (.resume (.cancel sawToken))).Reauthorised
                limit after := by
  have hsound : (run limit actions).Sound :=
    @Run.Guarded.inv _ _ (step limit) Honours Sound
      (fun w action hw hhonours => hw.step hhonours) empty actions empty_sound h
  refine ⟨hsound.lawful, ?_⟩
  rintro before sawToken after rfl hunderway balance readAt amount hclaimed
  have hon := isOn_of_claimed hclaimed
  have hwithdrawn :
      ((run limit before).step limit (.resume (.cancel sawToken))).withdrawn = true := by
    simp [step, resume, hunderway]
  have hrun : run limit (before ++ .resume (.cancel sawToken) :: after) =
      after.foldl (step limit) ((run limit before).step limit (.resume (.cancel sawToken))) := by
    simp [run]
  obtain hstays | ⟨a, auth, b, -, -, hsaved⟩ := withdrawn_or_begun hwithdrawn after
  · exact absurd hon (hsound.off_of_withdrawn (hrun ▸ hstays))
  · exact hsaved (hrun ▸ hon)

/-- An authorisation of an order, for at most five thousand rupees. -/
def approval (order : ℕ) : Authorisation where
  order := order
  customerId := 7
  method := .upi
  maxDebit := 500000
  userId := 1
  offered := ⟨50000, 200000, 1000000⟩

def switchOn : Action := .save ⟨true, 50000, 200000, 1000000⟩

/-- An order authorised, its token kept and confirmed, and auto-recharge switched on. -/
def authorised (order : ℕ) : List Action :=
  [.beginMandate (approval order), .checkOrder ⟨order, 1⟩, .resume (.remember ⟨order, 1⟩),
    .tokenStatus ⟨order, 1⟩ .confirmed, switchOn]

theorem live_mandate_renewed :
    (run 3 ((authorised 1 ++ [.cancelMandate]) ++
      Action.resume (.cancel true) :: authorised 2)).Lawful ∧
      ((run 3 (authorised 1 ++ [.cancelMandate])).step 3 (.resume (.cancel true))).Reauthorised 3
        (authorised 2) := by
  have hlive := live_mandate 3
    ((authorised 1 ++ [.cancelMandate]) ++ Action.resume (.cancel true) :: authorised 2)
    (by decide)
  exact ⟨hlive.1, hlive.2 _ true _ rfl (by decide) 0 0 200000 (by decide)⟩

/-- The mandate is withdrawn, its `token.confirmed` is delivered again, and auto-recharge is
switched on: the next charge is started. And a token whose order was checked is kept after
the mandate was begun over: it is confirmed, and auto-recharge runs on it. -/
theorem confirmedAgain_charged :
    (Underway.cancel true ∈ (run 3 (authorised 1 ++ [.cancelMandate])).underway ∧
      (run 3 ((authorised 1 ++ [.cancelMandate]) ++ Action.resume (.cancel true) ::
        [.tokenStatus ⟨1, 1⟩ .confirmed, switchOn])).claimOutcome 0 0 = .claimed 200000 ∧
      ¬ ((run 3 (authorised 1 ++ [.cancelMandate])).step 3 (.resume (.cancel true))).Reauthorised
        3 [.tokenStatus ⟨1, 1⟩ .confirmed, switchOn]) ∧
      ¬ (run 3 [.beginMandate (approval 1), .checkOrder ⟨1, 1⟩, .beginMandate (approval 2),
        .resume (.remember ⟨1, 1⟩), .tokenStatus ⟨1, 1⟩ .confirmed, switchOn]).Lawful := by
  refine ⟨⟨by decide, by decide, ?_⟩, fun hlawful => ?_⟩
  · rintro ⟨a, auth, b, prefs, c, hsplit, -⟩
    have hmem : Action.beginMandate auth ∈
        [Action.tokenStatus ⟨1, 1⟩ .confirmed, switchOn] := by rw [hsplit]; simp
    simp [switchOn] at hmem
  · obtain ⟨-, ⟨token, htoken, hlatest⟩, -⟩ := hlawful _ rfl rfl
    cases htoken
    revert hlatest
    decide

end World

end Calevate.AutoRecharge
