import Calevate.Callbacks.Claims

/-!
# Ticks in one piece

A tick claims in the transaction that expired what was stale before, so no claim of it takes
a stale row. A run in which that is so is a list of *blocks*: the passes of a tick at one
instant, or any other statement. `Keeps` is what a property of a row and its entries has to
satisfy to hold through every such run; it may ask something of the tick that comes to what
it claimed.
-/

namespace Calevate.Callbacks

open Lib

/-- The passes of a tick, or a statement that is no claim. -/
inductive Block where
  | tick (q limit : ℕ) (locked : List ℕ)
  | other (action : Action)

def Block.actions : Block → List Action
  | .tick q limit locked => World.passes q limit locked
  | .other (.claim _ _ _) => []
  | .other action => [action]

/-- **What a property of rows has to keep**: no claim takes a stale row, and a tick that may wait
for the hours of the campaign comes to its claim as `P` asks. -/
structure Keeps (R : ℕ → List Entry → Callback → Prop)
    (P : ℕ → List Entry → DueCallback → Prop) : Prop where
  new : ∀ now b, R now [] (newCallback b now)
  wait : ∀ {now es r} d, R now es r → R (now + d) es r
  turn : ∀ {db : Db} {now : ℕ} {who : Who} {r r' : Callback} {deeds : List Deed}
    {es : List Entry}, Turn db now who r r' deeds → (who = .claimer → stale now r = false) →
      (∀ callback, who = .holder callback true → callback.id = r.id → P now es callback) →
        R now es r → R now (Db.entriesOf r.id deeds ++ es) r'

namespace World

variable {w : World} {R : ℕ → List Entry → Callback → Prop}
variable {P : ℕ → List Entry → DueCallback → Prop}

def block (w : World) (b : Block) : World := b.actions.foldl step w

/-- A run of blocks. -/
def runBlocks (blocks : List Block) : World := blocks.foldl block empty

/-- The property holds of every row. -/
def Keep (R : ℕ → List Entry → Callback → Prop) (w : World) : Prop :=
  Journal.Sound Callback.id Entry.callback (R w.clock) w.db.callbacks

/-- The entries about a call-back. -/
def entriesAbout (w : World) (id : ℕ) : List Entry :=
  Journal.about Entry.callback id w.db.callbacks.entries

/-- The tick that comes to its claim comes to it as `P` asks. -/
def Comes (P : ℕ → List Entry → DueCallback → Prop) (w : World) : Action → Prop
  | .decide tick id _ | .dial tick id _ _ =>
    ∀ k ∈ w.undialled tick id, P w.clock (w.entriesAbout id) k.callback
  | _ => True

/-- See `Comes`; the passes of a tick come to nothing. -/
def ComesAt (P : ℕ → List Entry → DueCallback → Prop) (w : World) : Block → Prop
  | .tick _ _ _ => True
  | .other a => w.Comes P a

instance [∀ now es callback, Decidable (P now es callback)] (w : World) :
    ∀ b : Block, Decidable (w.ComesAt P b)
  | .other (.decide tick id _) | .other (.dial tick id _ _) =>
    inferInstanceAs (Decidable (∀ k ∈ w.undialled tick id,
      P w.clock (w.entriesAbout id) k.callback))
  | .tick _ _ _ | .other (.book _) | .other (.cancelForPhones _ _) | .other .settleDialled
  | .other (.callOff _) | .other .hold | .other (.release _) | .other .expire
  | .other (.claim _ _ _) | .other (.conclude _ _ _) | .other (.crash _) | .other (.setCall _ _)
  | .other (.setCampaign _ _) | .other (.wait _) => isTrue trivial

/-- The turn of a tick that may wait is on a claim it has not dialled. -/
theorem turnOf_waits {a : Action} {callback : DueCallback}
    (hwho : w.turnOf a = .holder callback true) :
    ∃ tick k, w.undialled tick callback.id = some k ∧ k.callback = callback ∧
      ((∃ finding, a = .decide tick callback.id finding) ∨
        ∃ callId campaignId, a = .dial tick callback.id callId campaignId) := by
  cases a with
  | decide tick id finding =>
    cases hfind : w.undialled tick id with
    | none => simp [turnOf, hfind] at hwho
    | some k =>
      obtain ⟨-, -, rfl⟩ := undialled_mem hfind
      obtain rfl : k.callback = callback := by simpa [turnOf, hfind] using hwho
      exact ⟨tick, k, hfind, rfl, .inl ⟨finding, rfl⟩⟩
  | dial tick id callId campaignId =>
    cases hfind : w.undialled tick id with
    | none => simp [turnOf, hfind] at hwho
    | some k =>
      obtain ⟨-, -, rfl⟩ := undialled_mem hfind
      simp only [turnOf, hfind] at hwho
      split at hwho
      · obtain rfl : k.callback = callback := by simpa using hwho
        exact ⟨tick, k, hfind, rfl, .inr ⟨callId, campaignId, rfl⟩⟩
      · cases hwho
  | conclude tick id answer =>
    simp only [turnOf] at hwho
    split at hwho <;> cases hwho
  | _ => cases hwho

theorem Comes.holder {a : Action} (h : w.Comes P a) {callback : DueCallback}
    (hwho : w.turnOf a = .holder callback true) :
    P w.clock (w.entriesAbout callback.id) callback := by
  obtain ⟨tick, k, hfind, rfl, ⟨finding, rfl⟩ | ⟨callId, campaignId, rfl⟩⟩ := turnOf_waits hwho
  · exact h k hfind
  · exact h k hfind

/-- **A statement that is no claim keeps the property.** -/
theorem step_keeps (hR : Keeps R P) (hs : w.Sound) (h : w.Keep R) {a : Action}
    (ha : w.turnOf a ≠ .claimer) (hcomes : w.Comes P a) : (w.step a).Keep R := by
  have hrow : ∀ r ∈ w.db.callbacks.rows, ∀ r' deeds, Turn w.db w.clock (w.turnOf a) r r' deeds →
      R w.clock (w.db.about r) r →
        R w.clock (Db.entriesOf r.id deeds ++ w.db.about r) r' := by
    intro r _ r' deeds ht hrow
    apply hR.turn ht (fun hclaim => absurd hclaim ha) _ hrow
    intro callback hwho hid
    have hp := hcomes.holder hwho
    rw [hid] at hp
    exact hp
  have hmoves : (∀ callback, w.turnOf a ≠ .holder callback true) →
      (w.step a).clock = w.clock → (w.step a).Keep R := by
    intro hnot hnow
    unfold Keep
    rw [hnow]
    exact (step_moves hs a).sound h
      (fun _ _ _ _ _ _ ht hrow => hR.turn ht (fun hclaim => absurd hclaim ha)
        (fun callback hwho => absurd hwho (hnot callback)) hrow)
      fun b => hR.new _ b
  cases a with
  | wait d =>
    have ht := Db.paused_turned w.db w.clock d
    exact ht.sound h (fun r hr _ _ hturn hrow' => hR.wait d (hrow r hr _ _ hturn hrow'))
      fun _ _ hrow' => hR.wait d hrow'
  | claim q limit locked => exact absurd rfl ha
  | decide tick id finding =>
    have hnow : (w.step (.decide tick id finding)).clock = w.clock := by
      simp only [step]
      split <;> rfl
    unfold Keep
    rw [hnow]
    exact (decide_turned w tick id finding).sound h hrow fun _ _ hrow' => hrow'
  | dial tick id callId campaignId =>
    have hnow : (w.step (.dial tick id callId campaignId)).clock = w.clock := by
      simp only [step]
      split
      · split
        · rfl
        · split <;> rfl
      · rfl
    unfold Keep
    rw [hnow]
    exact (dial_turned hs tick id callId campaignId).sound h hrow fun _ _ hrow' => hrow'
  | conclude tick id answer =>
    apply hmoves
    · intro callback hwho
      simp only [turnOf] at hwho
      split at hwho <;> cases hwho
    · simp only [step]
      split <;> rfl
  | _ => exact hmoves (fun _ hwho => by cases hwho) rfl

/-- A claim keeps it where nothing is stale. -/
theorem claim_keeps (hR : Keeps R P) (hs : w.Sound) (h : w.Keep R) (q limit : ℕ)
    (locked : List ℕ) (hfresh : ∀ r ∈ w.db.callbacks.rows, stale w.clock r = false) :
    (w.step (.claim q limit locked)).Keep R := by
  have ht : w.db.Turned w.clock .claimer (w.db.claimDue q limit locked w.clock) :=
    Db.claimDue_turned hs.table.keys q limit locked
  refine ht.sound h ?_ fun _ _ hrow => hrow
  intro r hr r' deeds hturn hrow
  exact hR.turn hturn (fun _ => hfresh r hr) (fun _ hwho => by cases hwho) hrow

/-- Nothing is stale after an expiry pass. -/
theorem expire_fresh (w : World) :
    ∀ r ∈ (w.step .expire).db.callbacks.rows, stale (w.step .expire).clock r = false := by
  intro r hr
  rcases Journal.mem_rewrite.1 hr with ⟨-, hnot⟩ | ⟨r0, -, -, rfl⟩
  · exact hnot
  · simp [stale]

/-- **A block keeps it.** -/
theorem block_keeps (hR : Keeps R P) (hs : w.Sound) (h : w.Keep R) {b : Block}
    (hcomes : w.ComesAt P b) : (w.block b).Sound ∧ (w.block b).Keep R := by
  cases b with
  | tick q limit locked =>
    have h1 := step_keeps hR hs h (a := .settleDialled) (by simp [turnOf]) trivial
    have hs1 := step_sound hs .settleDialled
    have h2 := step_keeps hR hs1 h1 (a := .callOff none) (by simp [turnOf]) trivial
    have hs2 := step_sound hs1 (.callOff none)
    have h3 := step_keeps hR hs2 h2 (a := .hold) (by simp [turnOf]) trivial
    have hs3 := step_sound hs2 .hold
    have h4 := step_keeps hR hs3 h3 (a := .release locked) (by simp [turnOf]) trivial
    have hs4 := step_sound hs3 (.release locked)
    have h5 := step_keeps hR hs4 h4 (a := .expire) (by simp [turnOf]) trivial
    have hs5 := step_sound hs4 .expire
    exact ⟨step_sound hs5 (.claim q limit locked),
      claim_keeps hR hs5 h5 q limit locked (expire_fresh _)⟩
  | other a =>
    by_cases hclaim : w.turnOf a = .claimer
    · cases a with
      | claim q limit locked => exact ⟨hs, h⟩
      | decide tick id finding => exact absurd hclaim (w.turnOf_decide tick id finding).not_claimer
      | dial tick id callId campaignId =>
        exact absurd hclaim (w.turnOf_dial tick id callId campaignId).not_claimer
      | conclude tick id answer =>
        exact absurd hclaim (w.turnOf_conclude tick id answer).not_claimer
      | _ => simp [turnOf] at hclaim
    · have hactions : (Block.other a).actions = [a] := by
        cases a with
        | claim q limit locked => exact absurd rfl hclaim
        | _ => rfl
      rw [block, hactions]
      exact ⟨step_sound hs a, step_keeps hR hs h hclaim hcomes⟩

/-- **And so does every run of blocks**, each tick of which comes to its claims as `P` asks. -/
theorem blocks_keep (hR : Keeps R P) {blocks : List Block}
    (hcomes : Run.Guarded block (ComesAt P) empty blocks) :
    (runBlocks blocks).Sound ∧ (runBlocks blocks).Keep R := by
  refine @Run.Guarded.inv _ _ block (ComesAt P) (fun w => w.Sound ∧ w.Keep R) ?_ empty blocks
    ⟨empty_sound, Journal.Sound.empty⟩ hcomes
  rintro w b ⟨hs, h⟩ hb
  exact block_keeps hR hs h hb

/-- Nothing is asked. -/
theorem comes_true (w : World) (blocks : List Block) :
    Run.Guarded block (ComesAt fun _ _ _ => True) w blocks := by
  induction blocks generalizing w with
  | nil => trivial
  | cons b blocks ih =>
    refine ⟨?_, ih _⟩
    cases b with
    | tick q limit locked => trivial
    | other a => cases a <;> simp [ComesAt, Comes]

end World

end Calevate.Callbacks
