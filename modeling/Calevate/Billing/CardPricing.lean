import Calevate.Billing.Credit
import Calevate.Lib.Ladder

/-!
# The card and the amount paid

An amount is priced at the largest pack it would have bought. What keeps a bigger payment from
buying a dearer minute is not in that rule but in the veto a card passes before it is recorded
(`cardRefusals`): each pack of the ladder is compared with the next one up, and by
`Ladder.climbs` that is every pack with every bigger one. A payment honoured as a pack paid that
pack's price, so it is the pack the rule picks (`packFor_of_packPaidFor`).
-/

namespace Calevate

namespace Billing

open Lib

/-! ## The ladder -/

/-- A card over a ladder no two packs of which cost the same. -/
structure LadderCard extends RateCard where
  amounts_nodup : (packs.map CreditPack.amountInr).Nodup

/-- `PACK_CATALOGUE`. -/
def packCatalogue : List CreditPack :=
  [{ packId := "starter", amountInr := 20000000 },
   { packId := "growth", amountInr := 50000000 },
   { packId := "scale", amountInr := 100000000 },
   { packId := "plus", amountInr := 150000000 },
   { packId := "pro", amountInr := 250000000 },
   { packId := "max", amountInr := 500000000 }]

theorem packCatalogue_ne : packCatalogue ≠ [] := by decide

theorem packCatalogue_amounts : (packCatalogue.map CreditPack.amountInr).Nodup := by decide

/-- `service.RateCard`: the catalogue's ladder at the rates a card publishes. -/
def catalogueCard (cells : String → LotRates) : LadderCard where
  packs := packCatalogue
  packs_ne := packCatalogue_ne
  cells := cells
  amounts_nodup := packCatalogue_amounts

/-! ## The veto -/

/-- A pack as a card sells it. -/
structure SoldPack where
  pack : CreditPack
  clearInrPerMin : ℤ
  studioInrPerMin : ℤ

/-- `CreditPack.inr_per_min`. -/
def SoldPack.inrPerMin (p : SoldPack) : VoiceTier → ℤ
  | .value => p.clearInrPerMin
  | .premium => p.studioInrPerMin

/-- `rates.VOICE_TIERS`. -/
def voiceTiers : List VoiceTier := [.value, .premium]

/-- `list_rates.card_with_rates`: the ladder priced at a card's cells. -/
def RateCard.sold (c : RateCard) : List SoldPack :=
  c.packs.map fun p => ⟨p, (c.ofPack p).clearInrPerMin, (c.ofPack p).studioInrPerMin⟩

/-- What a minute costs: a floor for each voice, and the gateway's share of the sale once it is
known. -/
structure FloorCosts where
  floor : VoiceTier → ℚ
  gatewayFee : Option ℚ

/-- `gateway_fee_inr_per_min`. -/
def FloorCosts.gatewayFeeInrPerMin (f : FloorCosts) (rate : ℤ) : ℚ :=
  match f.gatewayFee with
  | none => 0
  | some fee => Dec.ctx (rate * fee)

/-- The part of `RateMargin` a refusal reads. -/
structure RateMargin where
  rate : ℤ
  cost : ℤ

/-- `RateMargin.below_cost`. -/
def RateMargin.belowCost (m : RateMargin) : Bool := decide (m.rate < m.cost)

/-- `pack_rate_margin`. -/
def packRateMargin (f : FloorCosts) (p : SoldPack) (voice : VoiceTier) : RateMargin :=
  let rate := p.inrPerMin voice
  ⟨rate, money (Dec.ctx (f.floor voice + f.gatewayFeeInrPerMin rate))⟩

/-- `card_margins`. -/
def cardMargins (f : FloorCosts) (card : List SoldPack) : List (String × VoiceTier × RateMargin) :=
  card.flatMap fun p => voiceTiers.map fun voice => (p.pack.packId, voice, packRateMargin f p voice)

/-- One break of a card, with the figures its sentence names. -/
inductive CardRefusal
  | belowCost (packId : String) (voice : VoiceTier) (verdict : RateMargin)
  | studioBelowClear (packId : String) (studio clear : ℤ)
  | dearerMinute (bigger smaller : SoldPack) (voice : VoiceTier)

/-- **`card_refusals`.** -/
def cardRefusals (f : FloorCosts) (card : List SoldPack) : List CardRefusal :=
  ((cardMargins f card).filter fun m => m.2.2.belowCost).map
      (fun m => CardRefusal.belowCost m.1 m.2.1 m.2.2) ++
    (card.filter fun p => p.studioInrPerMin < p.clearInrPerMin).map
      (fun p => .studioBelowClear p.pack.packId p.studioInrPerMin p.clearInrPerMin) ++
    (Ladder.steps (card.insertionSort fun p q => p.pack.amountInr ≤ q.pack.amountInr)).flatMap
      fun s => (voiceTiers.filter fun voice => s.1.inrPerMin voice < s.2.inrPerMin voice).map
        fun voice => .dearerMinute s.2 s.1 voice

theorem mem_voiceTiers (voice : VoiceTier) : voice ∈ voiceTiers := by
  cases voice <;> decide

/-- **A card that is not refused never charges a bigger pack more.** -/
theorem rate_le_of_cardRefusals_nil {f : FloorCosts} {card : List SoldPack} {p q : SoldPack}
    (h : cardRefusals f card = []) (hp : p ∈ card) (hq : q ∈ card)
    (hlt : p.pack.amountInr < q.pack.amountInr) (voice : VoiceTier) :
    q.inrPerMin voice ≤ p.inrPerMin voice := by
  rw [cardRefusals, List.append_eq_nil_iff, List.flatMap_eq_nil_iff] at h
  refine Ladder.climbs (R := fun p q => q.inrPerMin voice ≤ p.inrPerMin voice)
    (fun x y z hxy hyz => le_trans hyz hxy) (fun p => p.pack.amountInr) (fun s hs => ?_) hp hq hlt
  have hstep := h.2 s hs
  rw [List.map_eq_nil_iff, List.filter_eq_nil_iff] at hstep
  have hvoice := hstep voice (mem_voiceTiers voice)
  rw [decide_eq_true_eq] at hvoice
  omega

/-! ## The pack an amount is priced at -/

/-- The pack whose rates `for_amount` gives: the largest the amount reaches, or the smallest. -/
def RateCard.packFor (c : RateCard) (amountInr : ℤ) : CreditPack :=
  match c.packs.filter fun p => p.amountInr ≤ amountInr with
  | [] => c.smallestPack
  | p :: ps => Ladder.best (fun q best => best.amountInr < q.amountInr) p ps

variable {c : RateCard} {a b amountInr : ℤ} {packId : Option String} {p : CreditPack}

theorem RateCard.forAmount_eq (c : RateCard) (amountInr : ℤ) :
    c.forAmount amountInr = c.ofPack (c.packFor amountInr) := by
  rw [RateCard.forAmount, RateCard.packFor]
  cases c.packs.filter fun p => p.amountInr ≤ amountInr <;> rfl

theorem RateCard.smallestPack_mem (c : RateCard) : c.smallestPack ∈ c.packs := by
  have hmem := Ladder.best_mem (fun p best : CreditPack => p.amountInr < best.amountInr)
    (c.packs.head c.packs_ne) c.packs.tail
  rw [List.cons_head_tail] at hmem
  exact hmem

theorem RateCard.smallestPack_le (hp : p ∈ c.packs) : c.smallestPack.amountInr ≤ p.amountInr := by
  have hleast := Ladder.best_unbeaten
    (fun p best : CreditPack => p.amountInr < best.amountInr) (c.packs.head c.packs_ne) c.packs.tail
    (by intro x y; omega) (by intro x y z; omega) p
  rw [List.cons_head_tail] at hleast
  exact not_lt.mp (hleast hp)

theorem RateCard.packFor_mem (c : RateCard) (amountInr : ℤ) : c.packFor amountInr ∈ c.packs := by
  rw [RateCard.packFor]
  split
  case h_1 => exact c.smallestPack_mem
  case h_2 p ps hafforded =>
    have hmem := Ladder.best_mem (fun q best : CreditPack => best.amountInr < q.amountInr) p ps
    rw [← hafforded] at hmem
    exact (List.mem_filter.mp hmem).1

/-- **The pack reached** is at least as large as any the amount affords. -/
theorem RateCard.le_packFor (hp : p ∈ c.packs) (hle : p.amountInr ≤ amountInr) :
    p.amountInr ≤ (c.packFor amountInr).amountInr := by
  have hmem : p ∈ c.packs.filter fun p => p.amountInr ≤ amountInr :=
    List.mem_filter.mpr ⟨hp, decide_eq_true hle⟩
  rw [RateCard.packFor]
  split
  case h_1 hnone =>
    rw [hnone] at hmem
    exact nomatch hmem
  case h_2 q qs hafforded =>
    rw [hafforded] at hmem
    exact not_lt.mp (Ladder.best_unbeaten
      (fun q best : CreditPack => best.amountInr < q.amountInr) q qs
      (by intro x y; omega) (by intro x y z; omega) p hmem)

/-- Either the amount pays for its pack, or it pays for none and the pack is the smallest. -/
theorem RateCard.packFor_cases (c : RateCard) (amountInr : ℤ) :
    (c.packFor amountInr).amountInr ≤ amountInr ∨ c.packFor amountInr = c.smallestPack := by
  rw [RateCard.packFor]
  split
  case h_1 => exact Or.inr rfl
  case h_2 p ps hafforded =>
    have hmem := Ladder.best_mem (fun q best : CreditPack => best.amountInr < q.amountInr) p ps
    rw [← hafforded] at hmem
    exact Or.inl (of_decide_eq_true (List.mem_filter.mp hmem).2)

/-- **A bigger amount reaches no smaller pack.** -/
theorem RateCard.packFor_mono (hab : a ≤ b) :
    (c.packFor a).amountInr ≤ (c.packFor b).amountInr := by
  rcases c.packFor_cases a with hpaid | hsmallest
  · exact RateCard.le_packFor (c.packFor_mem a) (hpaid.trans hab)
  · rw [hsmallest]
    exact RateCard.smallestPack_le (c.packFor_mem b)

theorem LadderCard.eq_of_amountInr {c : LadderCard} {p q : CreditPack} (hp : p ∈ c.packs)
    (hq : q ∈ c.packs) (h : p.amountInr = q.amountInr) : p = q :=
  List.inj_on_of_nodup_map c.amounts_nodup hp hq h

/-- A payment honoured as a pack is of a pack on sale, and of its price. -/
theorem packPaidFor_some (h : c.packPaidFor packId amountInr = some p) :
    p ∈ c.packs ∧ p.amountInr = amountInr := by
  cases packId with
  | none => exact nomatch h
  | some pid =>
    obtain ⟨hfind, hprice⟩ := Option.filter_eq_some_iff.mp h
    exact ⟨List.mem_of_find?_eq_some hfind, of_decide_eq_true hprice⟩

/-- **A payment honoured as a pack is priced at that pack.** -/
theorem packFor_of_packPaidFor {c : LadderCard} (h : c.packPaidFor packId amountInr = some p) :
    c.packFor amountInr = p := by
  obtain ⟨hp, hprice⟩ := packPaidFor_some h
  have hreach := RateCard.le_packFor hp hprice.le
  apply LadderCard.eq_of_amountInr (c.packFor_mem amountInr) hp
  rcases c.packFor_cases amountInr with hpaid | hsmallest
  · omega
  · have hleast := RateCard.smallestPack_le hp
    rw [hsmallest] at hreach ⊢
    omega

/-! ## The card -/

theorem mem_sold {c : RateCard} {p : CreditPack} (hp : p ∈ c.packs) :
    (⟨p, (c.ofPack p).clearInrPerMin, (c.ofPack p).studioInrPerMin⟩ : SoldPack) ∈ c.sold :=
  List.mem_map_of_mem hp

/-- **A card that is not refused prices monotonely.** A bigger amount is never given a dearer
minute, on either voice; and a payment honoured as a pack is given neither a better rate nor a
better bonus than the card gives for the amount itself. -/
theorem forAmount_antitone (c : LadderCard) (f : FloorCosts) (h : cardRefusals f c.sold = []) :
    (∀ a b : ℤ, a ≤ b → ∀ voice : VoiceTier,
      (c.forAmount b).rateFor voice ≤ (c.forAmount a).rateFor voice) ∧
    ∀ (packId : Option String) (amountInr : ℤ) (p : CreditPack),
      c.packPaidFor packId amountInr = some p →
        (∀ voice : VoiceTier, (c.forAmount amountInr).rateFor voice ≤ (c.ofPack p).rateFor voice) ∧
        p.bonusCredits ≤ (c.packFor amountInr).bonusCredits := by
  constructor
  · intro a b hab voice
    rw [c.forAmount_eq, c.forAmount_eq]
    have ha := c.packFor_mem a
    have hb := c.packFor_mem b
    rcases lt_or_eq_of_le (c.packFor_mono hab) with hlt | heq
    · have hrate := rate_le_of_cardRefusals_nil h (mem_sold ha) (mem_sold hb) hlt voice
      cases voice <;> exact hrate
    · rw [LadderCard.eq_of_amountInr ha hb heq]
  · intro packId amountInr p hpaid
    rw [c.forAmount_eq, packFor_of_packPaidFor hpaid]
    exact ⟨fun _ => le_refl _, le_refl _⟩

/-- The founder's card: every pack at four and a half rupees a minute, and at six. -/
def foundersCard : LadderCard := catalogueCard fun _ => ⟨45000, 60000, by decide, by decide⟩

/-- Floors of ₹3.1491 and ₹5.0256, the gateway's fee not known. -/
def baseFloors : FloorCosts where
  floor := fun
    | .value => 31491
    | .premium => 50256
  gatewayFee := none

theorem forAmount_antitone_foundersCard :
    (∀ a b : ℤ, a ≤ b → ∀ voice : VoiceTier,
      (foundersCard.forAmount b).rateFor voice ≤ (foundersCard.forAmount a).rateFor voice) ∧
    ∀ (packId : Option String) (amountInr : ℤ) (p : CreditPack),
      foundersCard.packPaidFor packId amountInr = some p →
        (∀ voice : VoiceTier,
          (foundersCard.forAmount amountInr).rateFor voice ≤
            (foundersCard.ofPack p).rateFor voice) ∧
        p.bonusCredits ≤ (foundersCard.packFor amountInr).bonusCredits :=
  forAmount_antitone foundersCard baseFloors
    (List.length_eq_zero_iff.mp (by decide +kernel))

end Billing

end Calevate
