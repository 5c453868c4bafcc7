import Calevate.Lib.Rotation
import Mathlib.Data.String.Basic

/-!
# Fleet walks

A job walks the directory of clients in the order of their ids until its budget is spent, and the
next pass starts behind the last one reached, which Redis keeps as a hint. As long as Redis keeps
it, an item that stays in the directory waits for no other item twice, wherever the passes end
and whatever else comes and goes, `walk_fair`.
-/

namespace Calevate.Platform

open Lib.Rotation

/-- The ids a pass finds, each once. -/
structure Directory where
  keys : List String
  nodup : keys.Nodup
  written : ∀ k ∈ keys, k ≠ ""

/-- The directory in the order of its keys. -/
def Directory.sorted (d : Directory) : List String := d.keys.insertionSort (· ≤ ·)

/-- A pass of a walk. It ends where its budget is spent, or where a loop body does not finish. -/
structure Pass where
  directory : Directory
  /-- Redis answers when the cursor is read. -/
  readable : Bool
  /-- The loop bodies that finish, and whether Redis takes the cursor after each. -/
  bodies : List Bool

/-- `WalkCursor.last`. -/
def lastReached (cursor : Option String) (readable : Bool) : Option String :=
  if readable then cursor.filter (· ≠ "") else none

/-- The loop of a walk: the items completed, and the cursor it leaves. -/
def walkItems : List String → List Bool → Option String → List String × Option String
  | k :: items, taken :: bodies, cursor =>
    let rest := walkItems items bodies (if taken then some k else cursor)
    (k :: rest.1, rest.2)
  | _, _, cursor => ([], cursor)

/-- **`resumed_walk`**. -/
def resumedWalk (cursor : Option String) (p : Pass) : List String × Option String :=
  walkItems (rotateAfter p.directory.sorted (lastReached cursor p.readable)) p.bodies cursor

/-- The visits of a walk, pass after pass. -/
def visits (cursor : Option String) : List Pass → List (Visit String)
  | [] => []
  | p :: passes =>
    (resumedWalk cursor p).1.map (p.directory.keys, ·) ++
      visits (resumedWalk cursor p).2 passes

/-- Redis answers throughout a pass. -/
def Pass.Kept (p : Pass) : Prop := p.readable = true ∧ ∀ taken ∈ p.bodies, taken = true

instance (p : Pass) : Decidable p.Kept := inferInstanceAs (Decidable (_ ∧ _))

/-! ## One pass -/

theorem Directory.mem_sorted {d : Directory} {k : String} : k ∈ d.sorted ↔ k ∈ d.keys :=
  List.mem_insertionSort (· ≤ ·)

theorem Directory.sorted_lt (d : Directory) : d.sorted.Pairwise (· < ·) := by
  have hle : d.sorted.Pairwise (· ≤ ·) := List.pairwise_insertionSort (· ≤ ·) d.keys
  have hnodup : d.sorted.Nodup := (List.perm_insertionSort (· ≤ ·) d.keys).nodup_iff.mpr d.nodup
  exact hle.imp₂ (fun a b hab hne => lt_of_le_of_ne hab hne) hnodup

theorem walkItems_fst (items : List String) (bodies : List Bool) (cursor : Option String) :
    (walkItems items bodies cursor).1 = items.take bodies.length := by
  induction items generalizing bodies cursor with
  | nil => simp [walkItems]
  | cons k items ih =>
    cases bodies with
    | nil => rfl
    | cons taken bodies => exact congrArg (k :: ·) (ih _ _)

/-- The cursor is left on the last item completed. -/
theorem walkItems_snd (items : List String) {bodies : List Bool} (cursor : Option String)
    (hkept : ∀ taken ∈ bodies, taken = true) :
    (walkItems items bodies cursor).2 =
      (walkItems items bodies cursor).1.getLast?.or cursor := by
  induction items generalizing bodies cursor with
  | nil => simp [walkItems]
  | cons k items ih =>
    cases bodies with
    | nil => rfl
    | cons taken bodies =>
      obtain ⟨rfl, hrest⟩ := List.forall_mem_cons.mp hkept
      have htail := ih (some k) hrest
      show (walkItems items bodies (some k)).2 =
        (k :: (walkItems items bodies (some k)).1).getLast?.or cursor
      rw [htail, List.getLast?_cons, Option.some_or]
      cases (walkItems items bodies (some k)).1.getLast? with
      | none => rfl
      | some last => rfl

/-- The items of a pass are walked in turn, from behind the cursor. -/
theorem chain_resumedWalk (cursor : Option String) {p : Pass} (hkept : p.Kept) :
    (resumedWalk cursor p).1.IsChain (Follows p.directory.keys) ∧
      ∀ k ∈ cursor, k ≠ "" → ∀ v ∈ (resumedWalk cursor p).1.head?,
        Follows p.directory.keys k v := by
  have hkeys : ∀ {u v : String}, Follows p.directory.sorted u v →
      Follows p.directory.keys u v := fun h => h.congr fun _ => Directory.mem_sorted
  have hsorted := p.directory.sorted_lt
  unfold resumedWalk lastReached
  rw [walkItems_fst, if_pos hkept.1]
  cases hlast : cursor.filter (· ≠ "") with
  | none =>
    refine ⟨((isChain_of_sorted hsorted).take _).imp fun _ _ => hkeys, ?_⟩
    intro k hk hne
    have hfilter : cursor.filter (· ≠ "") = some k := by
      rw [Option.mem_def.mp hk]
      exact Option.filter_some_pos (by simpa using hne)
    rw [hfilter] at hlast
    cases hlast
  | some a =>
    have hchain := (isChain_rotateAfter hsorted a).imp fun _ _ => hkeys
    obtain ⟨hfirst, hrest⟩ := List.isChain_cons.mp hchain
    refine ⟨hrest.take _, ?_⟩
    intro k hk hne v hv
    have hka : k = a := by
      rw [Option.mem_def.mp hk, Option.filter_some_pos (by simpa using hne)] at hlast
      exact Option.some.inj hlast
    rw [hka]
    refine hfirst v ?_
    cases hcount : p.bodies.length with
    | zero =>
      rw [hcount] at hv
      cases hv
    | succ n =>
      rw [hcount] at hv
      rwa [List.head?_take, if_neg (Nat.succ_ne_zero n)] at hv

theorem resumedWalk_written {cursor : Option String} {p : Pass} :
    ∀ v ∈ (resumedWalk cursor p).1, v ≠ "" := by
  intro v hv
  unfold resumedWalk at hv
  rw [walkItems_fst] at hv
  have hmem := mem_rotateAfter.mp (List.mem_of_mem_take hv)
  exact p.directory.written v ((Directory.mem_sorted).mp hmem)

/-! ## Pass after pass -/

/-- **A walk goes in turn, wherever its passes end.** -/
theorem chain_visits (cursor : Option String) {passes : List Pass}
    (hkept : ∀ p ∈ passes, p.Kept) :
    (visits cursor passes).IsChain Next ∧
      ∀ k ∈ cursor, k ≠ "" → ∀ q ∈ (visits cursor passes).head?, Follows q.1 k q.2 := by
  induction passes generalizing cursor with
  | nil => exact ⟨List.isChain_nil, fun _ _ _ _ hq => by cases hq⟩
  | cons p passes ih =>
    obtain ⟨hp, hpasses⟩ := List.forall_mem_cons.mp hkept
    obtain ⟨hrest, hjoin⟩ := ih (resumedWalk cursor p).2 hpasses
    obtain ⟨hpass, hfirst⟩ := chain_resumedWalk cursor hp
    have hcursor : (resumedWalk cursor p).2 = (resumedWalk cursor p).1.getLast?.or cursor :=
      walkItems_snd _ _ hp.2
    rw [visits]
    refine ⟨List.isChain_append.mpr ⟨?_, hrest, ?_⟩, ?_⟩
    · exact (List.isChain_map _).mpr hpass
    · intro u hu q hq
      rw [List.getLast?_map] at hu
      obtain ⟨k, hk, rfl⟩ := Option.map_eq_some_iff.mp hu
      refine hjoin k ?_ (resumedWalk_written k (List.mem_of_getLast? hk)) q hq
      rw [hcursor, hk]
      rfl
    · intro k hk hne q hq
      cases hdone : (resumedWalk cursor p).1 with
      | nil =>
        rw [hdone, List.map_nil, List.nil_append] at hq
        refine hjoin k ?_ hne q hq
        rw [hcursor, hdone]
        exact hk
      | cons v rest =>
        rw [hdone] at hq
        obtain rfl := Option.some.inj hq
        exact hfirst k hk hne v (by rw [hdone]; rfl)

/-- The visits of a stretch between two of one item. -/
theorem chain_stretch {l before mid after : List (Visit String)} (h : l.IsChain Next)
    (hsplit : l = before ++ mid ++ after) : mid.IsChain Next := by
  rw [hsplit] at h
  exact (List.isChain_append.mp (List.isChain_append.mp h).1).2.1

/-- **Fleet walks are fair.** While Redis keeps the cursor, the items completed follow each other
round the directory; a stretch that does not come to an item that is there throughout comes to no
other item twice; and between two visits of an item every other item there throughout is
completed, exactly once if the item itself stays too. -/
theorem walk_fair (cursor : Option String) (passes : List Pass) (hkept : ∀ p ∈ passes, p.Kept) :
    (visits cursor passes).IsChain Next ∧
    (∀ before mid after y, visits cursor passes = before ++ mid ++ after →
      (∀ p ∈ mid.tail, y ∈ p.1) → (∀ p ∈ mid, p.2 ≠ y) → (mid.map Prod.snd).Nodup) ∧
    ∀ before mid after d e x y,
      visits cursor passes = before ++ ((d, x) :: mid ++ [(e, x)]) ++ after →
      (∀ p ∈ mid, p.2 ≠ x) → y ≠ x → (∀ p ∈ mid, y ∈ p.1) → y ∈ e →
        y ∈ mid.map Prod.snd ∧
          ((∀ p ∈ mid, x ∈ p.1) → (mid.map Prod.snd).count y = 1) := by
  have hchain := (chain_visits cursor hkept).1
  have hstretch : ∀ before mid after y, visits cursor passes = before ++ mid ++ after →
      (∀ p ∈ mid.tail, y ∈ p.1) → (∀ p ∈ mid, p.2 ≠ y) → (mid.map Prod.snd).Nodup :=
    fun _ _ _ _ hsplit => nodup_of_next (chain_stretch hchain hsplit)
  refine ⟨hchain, hstretch, ?_⟩
  intro before mid after d e x y hsplit hbetween hne hpresent hlast
  have hmem : y ∈ mid.map Prod.snd := by
    by_contra hnot
    have hnodup := hstretch before _ after y hsplit ?_ ?_
    · rw [List.cons_append, List.map_cons, List.map_append] at hnodup
      exact (List.nodup_cons.mp hnodup).1 (List.mem_append_right _ (List.mem_singleton_self x))
    · intro p hp
      rcases List.mem_append.mp hp with hp | hp
      · exact hpresent p hp
      · rw [List.mem_singleton.mp hp]
        exact hlast
    · intro p hp
      rcases List.mem_append.mp hp with hp | hp
      · rcases List.mem_cons.mp hp with rfl | hp
        · exact hne.symm
        · rintro rfl
          exact hnot (List.mem_map_of_mem hp)
      · rw [List.mem_singleton.mp hp]
        exact hne.symm
  refine ⟨hmem, fun hstays => ?_⟩
  have hsplit' : visits cursor passes = (before ++ [(d, x)]) ++ mid ++ ((e, x) :: after) := by
    rw [hsplit]
    simp
  have hnodup := hstretch _ mid _ x hsplit'
    (fun p hp => hstays p (List.mem_of_mem_tail hp)) hbetween
  exact List.count_eq_one_of_mem hnodup hmem

/-- Two clients, of whom the second is away for two passes. -/
def bothClients : Directory := ⟨["acme", "birla"], by decide, by decide⟩

def firstClient : Directory := ⟨["acme"], by decide, by decide⟩

/-- A first pass that ends after one client: the next one begins with the other. -/
theorem walk_fair_cutShort :
    (visits none [⟨bothClients, true, [true]⟩, ⟨bothClients, true, [true, true]⟩]).map Prod.snd =
      ["acme", "birla", "acme"] ∧
    (visits none [⟨bothClients, true, [true]⟩, ⟨bothClients, true, [true, true]⟩]).IsChain Next :=
  ⟨by decide +kernel, (walk_fair none _ (by decide)).1⟩

/-- An item that is away for a round meets the others twice between its visits, and a walk whose
cursor Redis does not give back starts at the first client again. -/
theorem walk_unfair :
    (¬ ∀ passes : List Pass, (∀ p ∈ passes, p.Kept) →
      ∀ before mid after d e x y,
        visits none passes = before ++ ((d, x) :: mid ++ [(e, x)]) ++ after →
        (∀ p ∈ mid, p.2 ≠ x) → y ≠ x → (∀ p ∈ mid, y ∈ p.1) → y ∈ e →
          (mid.map Prod.snd).count y = 1) ∧
    ¬ ∀ passes : List Pass,
      ∀ before mid after d e x y,
        visits none passes = before ++ ((d, x) :: mid ++ [(e, x)]) ++ after →
        (∀ p ∈ mid, p.2 ≠ x) → y ≠ x → (∀ p ∈ mid, x ∈ p.1 ∧ y ∈ p.1) → y ∈ e →
          (mid.map Prod.snd).count y = 1 := by
  constructor
  · intro hall
    have hcount := hall [⟨bothClients, true, [true, true]⟩, ⟨firstClient, true, [true]⟩,
        ⟨firstClient, true, [true]⟩, ⟨bothClients, true, [true]⟩] (by decide)
      [(["acme", "birla"], "acme")] [(["acme"], "acme"), (["acme"], "acme")] []
      ["acme", "birla"] ["acme", "birla"] "birla" "acme" (by decide +kernel) (by decide)
      (by decide) (by decide) (by decide)
    exact absurd hcount (by decide)
  · intro hall
    have hcount := hall [⟨bothClients, false, [true]⟩, ⟨bothClients, false, [true]⟩]
      [] [] [] ["acme", "birla"] ["acme", "birla"] "acme" "birla" (by decide +kernel) (by decide)
      (by decide) (by decide) (by decide)
    exact absurd hcount (by decide)

end Calevate.Platform
