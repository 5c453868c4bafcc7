import Calevate.Compliance.DoNotCall
import Calevate.Lib.Run
import Mathlib.Data.List.Nodup

/-!
# Opt-outs

A person's own request, once it is accepted for an account, keeps the number refused for it
until an attested restore takes it off: `optout_kept_iff` says of each acceptance whether it
does, whatever comes after. It does just if it leaves a row of the account's own. The single
add always does; the bulk add does not of a number it finds on the platform's list only, nor
of one that is taken off the account's list under it.
-/

namespace Calevate.Compliance

open Lib

namespace World

variable {normalizePhone : String → Option String}
variable {w w' : World} {tenant : ℕ} {phone : String}

/-! ## What is to hold -/

/-- A restore of the number for the account. -/
def Restores (w : World) (tenant : ℕ) (phone : String) : Action → Prop
  | .restoreOptout account id ground note latestEvidence =>
    ∃ entry, w.restoreOptout account id ground note latestEvidence = .ok entry ∧
      entry.tenant = some tenant ∧ entry.phone = phone
  | _ => False

/-- The step accepts the person's own request for the account. -/
def Accepts (w : World) (tenant : ℕ) (phone : String) : Action → Prop
  | .commitNumbers id =>
    ∃ call inserting, w.ready id = some (call, inserting) ∧ call.tenant = some tenant ∧
      call.source.restorable = true ∧ phone ∈ call.unique
  | .addToDnc account number source =>
    account = tenant ∧ number = phone ∧ source.restorable = true
  | _ => False

/-- The number is inserted, or it is on the account's own list already. -/
def LeavesRow (w : World) (tenant : ℕ) (phone : String) : Action → Prop
  | .commitNumbers id =>
    ∀ call inserting, w.ready id = some (call, inserting) →
      phone ∈ inserting ∨ w.onList (some tenant) phone = true
  | _ => True

/-- A restore names the newest opt-out record of the number. -/
theorem named_of_restores {id : ℕ} {ground : Ground} {note : String} {latest : Option ℕ}
    {entry : Entry} (h : w.restoreOptout tenant id ground note latest = .ok entry) :
    entry ∈ w.entries ∧ entry.id = id ∧ entry.tenant = some tenant ∧
      entry.source.restorable = true ∧ w.newestEvidence tenant entry.phone = latest := by
  unfold restoreOptout at h
  split at h
  · cases h
  split at h
  · cases h
  next found hfound =>
    split_ifs at h with hglobal hsource hstale
    obtain rfl : found = entry := by simpa using h
    have hmem := List.mem_of_find?_eq_some hfound
    have hseen := List.find?_some hfound
    simp only [decide_eq_true_eq, hglobal, or_false] at hseen
    exact ⟨hmem, hseen.1, hseen.2, by simpa using hsource, by simpa using hstale⟩

/-! ## Rows -/

theorem onList_iff {tenant : Option ℕ} :
    w.onList tenant phone = true ↔
      ∃ entry ∈ w.entries, entry.tenant = tenant ∧ entry.phone = phone := by
  simp [onList]

theorem refuses_iff :
    w.refuses tenant phone = true ↔
      ∃ entry ∈ w.entries, entry.phone = phone ∧
        (entry.tenant = some tenant ∨ entry.tenant = none) := by
  simp [refuses]

/-- The number is on the account's own list, and not for the account to take off. -/
def OptedOut (w : World) (tenant : ℕ) (phone : String) : Prop :=
  ∃ entry ∈ w.entries,
    entry.tenant = some tenant ∧ entry.phone = phone ∧ entry.source.removable = false

theorem OptedOut.refuses (h : w.OptedOut tenant phone) : w.refuses tenant phone = true := by
  obtain ⟨entry, hmem, htenant, hphone, -⟩ := h
  exact (refuses_iff).mpr ⟨entry, hmem, hphone, .inl htenant⟩

theorem OptedOut.of_subset (h : w.OptedOut tenant phone) (hsub : w.entries ⊆ w'.entries) :
    w'.OptedOut tenant phone := by
  obtain ⟨entry, hmem, hentry⟩ := h
  exact ⟨entry, hsub hmem, hentry⟩

theorem insertRow_subset (w : World) (tenant : Option ℕ) (source : Source) (phone : String) :
    w.entries ⊆ (w.insertRow tenant source phone).entries := by
  unfold insertRow
  split
  · exact fun entry hmem => hmem
  · exact fun entry hmem => List.mem_cons_of_mem _ hmem

theorem insertRow_onList (w : World) (tenant : Option ℕ) (source : Source) (phone : String) :
    (w.insertRow tenant source phone).onList tenant phone = true := by
  unfold insertRow
  split
  next hlisted => exact hlisted
  next => exact (onList_iff).mpr ⟨_, List.mem_cons_self, rfl, rfl⟩

/-- A row inserted is of the number. -/
theorem mem_insertRow {tenant : Option ℕ} {source : Source} {entry : Entry}
    (h : entry ∈ (w.insertRow tenant source phone).entries) :
    entry ∈ w.entries ∨ entry.phone = phone := by
  unfold insertRow at h
  split at h
  · exact .inl h
  · rw [List.mem_cons] at h
    obtain rfl | h := h
    · exact .inr rfl
    · exact .inl h

/-- The inserts of a bulk add. -/
def insertRows (w : World) (tenant : Option ℕ) (source : Source) (phones : List String) :
    World :=
  phones.foldl (fun w phone => w.insertRow tenant source phone) w

theorem insertRows_subset (w : World) (tenant : Option ℕ) (source : Source)
    (phones : List String) : w.entries ⊆ (w.insertRows tenant source phones).entries :=
  @Run.foldl_inv _ _ (fun w phone => insertRow w tenant source phone)
    (fun w' => w.entries ⊆ w'.entries)
    (fun w' phone h _ hmem => w'.insertRow_subset tenant source phone (h hmem)) w
    (fun _ hmem => hmem) phones

theorem mem_insertRows {tenant : Option ℕ} {source : Source} {phones : List String}
    {entry : Entry} (h : entry ∈ (w.insertRows tenant source phones).entries) :
    entry ∈ w.entries ∨ entry.phone ∈ phones := by
  induction phones generalizing w with
  | nil => exact .inl h
  | cons phone phones ih =>
    obtain h | h := ih h
    · obtain h | rfl := mem_insertRow h
      · exact .inl h
      · exact .inr List.mem_cons_self
    · exact .inr (List.mem_cons_of_mem _ h)

/-- Every number of an insert is listed after it. -/
theorem insertRows_onList {tenant : Option ℕ} {source : Source} {phones : List String}
    (h : phone ∈ phones ∨ w.onList tenant phone = true) :
    (w.insertRows tenant source phones).onList tenant phone = true := by
  induction phones generalizing w with
  | nil => exact h.resolve_left (by simp)
  | cons head phones ih =>
    refine ih ?_
    obtain h | h := h
    · rw [List.mem_cons] at h
      obtain rfl | h := h
      · exact .inr (w.insertRow_onList tenant source phone)
      · exact .inl h
    · obtain ⟨entry, hmem, hentry⟩ := (onList_iff).mp h
      exact .inr ((onList_iff).mpr ⟨entry, w.insertRow_subset tenant source head hmem, hentry⟩)

@[simp]
theorem upgraded_id (tenant : ℕ) (phones : List String) (source : Source) (entry : Entry) :
    (upgraded tenant phones source entry).id = entry.id := by
  unfold upgraded
  split <;> rfl

@[simp]
theorem upgraded_tenant (tenant : ℕ) (phones : List String) (source : Source) (entry : Entry) :
    (upgraded tenant phones source entry).tenant = entry.tenant := by
  unfold upgraded
  split <;> rfl

@[simp]
theorem upgraded_phone (tenant : ℕ) (phones : List String) (source : Source) (entry : Entry) :
    (upgraded tenant phones source entry).phone = entry.phone := by
  unfold upgraded
  split <;> rfl

/-- A source only ever gets stronger. -/
theorem upgraded_unremovable (account : ℕ) (phones : List String) (source : Source)
    {entry : Entry} (h : entry.source.removable = false) :
    (upgraded account phones source entry).source.removable = false := by
  unfold upgraded
  split
  next hupgrades => simpa using hupgrades.2.2.2
  next => exact h

/-- The UPDATE keeps the rows, but for their sources. -/
theorem mem_upgrade {account : Option ℕ} {phones : List String} {source : Source} {entry' : Entry}
    (h : entry' ∈ (w.upgrade account phones source).entries) :
    ∃ entry ∈ w.entries, entry'.tenant = entry.tenant ∧ entry'.phone = entry.phone := by
  cases account with
  | none => exact ⟨entry', h, rfl, rfl⟩
  | some account =>
    obtain ⟨entry, hmem, rfl⟩ := List.mem_map.mp h
    exact ⟨entry, hmem, by simp, by simp⟩

theorem OptedOut.upgrade (h : w.OptedOut tenant phone) (account : Option ℕ) (phones : List String)
    (source : Source) : (w.upgrade account phones source).OptedOut tenant phone := by
  cases account with
  | none => exact h
  | some account =>
    obtain ⟨entry, hmem, htenant, hphone, hsource⟩ := h
    exact ⟨_, List.mem_map_of_mem hmem, by simpa using htenant, by simpa using hphone,
      upgraded_unremovable account phones source hsource⟩

/-- A listed number is opted out by the UPDATE of a person's request. -/
theorem optedOut_upgrade {phones : List String} {source : Source}
    (hlisted : w.onList (some tenant) phone = true) (hmem : phone ∈ phones)
    (hsource : source.restorable = true) :
    (w.upgrade (some tenant) phones source).OptedOut tenant phone := by
  obtain ⟨entry, hentry, htenant, hphone⟩ := (onList_iff).mp hlisted
  have hstronger : source.removable = false := by
    cases source <;> simp_all [Source.restorable, Source.removable]
  refine ⟨_, List.mem_map_of_mem hentry, by simpa using htenant, by simpa using hphone, ?_⟩
  by_cases hremovable : entry.source.removable = true
  · have hupgraded : upgraded tenant phones source entry = { entry with source := source } := by
      rw [upgraded, if_pos ⟨htenant, hphone ▸ hmem, hremovable, by simp [hstronger]⟩]
    rw [hupgraded]
    exact hstronger
  · exact upgraded_unremovable tenant phones source (by simpa using hremovable)

/-! ## Ids -/

/-- Ids are unique and used up in order. -/
structure Ordered (w : World) : Prop where
  ids : (w.entries.map (·.id)).Nodup
  below : ∀ entry ∈ w.entries, entry.id < w.nextId

theorem Ordered.eq_of_id (h : w.Ordered) {entry entry' : Entry} (hmem : entry ∈ w.entries)
    (hmem' : entry' ∈ w.entries) (hid : entry.id = entry'.id) : entry = entry' :=
  List.inj_on_of_nodup_map h.ids hmem hmem' hid

theorem Ordered.insertRow (h : w.Ordered) (tenant : Option ℕ) (source : Source)
    (phone : String) : (w.insertRow tenant source phone).Ordered := by
  unfold World.insertRow
  split
  · exact h
  · refine ⟨?_, fun entry hmem => ?_⟩
    · rw [List.map_cons, List.nodup_cons]
      refine ⟨fun hused => ?_, h.ids⟩
      obtain ⟨entry, hmem, hid⟩ := List.mem_map.mp hused
      exact (h.below entry hmem).ne hid
    · rw [List.mem_cons] at hmem
      obtain rfl | hmem := hmem
      · exact Nat.lt_succ_self _
      · exact Nat.lt_succ_of_lt (h.below entry hmem)

theorem Ordered.insertRows (h : w.Ordered) (tenant : Option ℕ) (source : Source)
    (phones : List String) : (w.insertRows tenant source phones).Ordered :=
  Run.foldl_inv (fun _ phone hw => hw.insertRow tenant source phone) h phones

theorem Ordered.upgrade (h : w.Ordered) (account : Option ℕ) (phones : List String)
    (source : Source) : (w.upgrade account phones source).Ordered := by
  cases account with
  | none => exact h
  | some account =>
    refine ⟨?_, fun entry hmem => ?_⟩
    · have hids : (w.entries.map (upgraded account phones source)).map (·.id) =
          w.entries.map (·.id) := by simp
      exact hids ▸ h.ids
    · obtain ⟨entry, hentry, rfl⟩ := List.mem_map.mp hmem
      rw [upgraded_id]
      exact h.below entry hentry

theorem Ordered.delete (h : w.Ordered) (found : Except Problem Entry) :
    (w.delete found).Ordered := by
  unfold World.delete
  split
  · exact h
  · exact ⟨h.ids.sublist (List.filter_sublist.map _),
      fun entry hmem => h.below entry (List.mem_of_mem_filter hmem)⟩

theorem Ordered.step (h : w.Ordered) (action : Action) :
    (w.step normalizePhone action).Ordered := by
  cases action with
  | readNumbers id tenant raw source =>
    simp only [World.step, readNumbers]
    split
    · exact h
    · exact ⟨h.ids, h.below⟩
  | insertNumbers id => exact ⟨h.ids, h.below⟩
  | commitNumbers id =>
    simp only [World.step, commitNumbers]
    split
    · exact h
    next call inserting _ =>
      have hinserted := h.insertRows call.tenant call.source inserting
      have hupgraded := hinserted.upgrade call.tenant call.unique call.source
      exact ⟨hupgraded.ids, hupgraded.below⟩
  | addToDnc tenant phone source =>
    simp only [World.step, addToDnc]
    split
    · exact h.upgrade _ _ _
    · exact h.insertRow _ _ _
  | recordEvidence tenant phone capturedAt =>
    exact ⟨h.ids, fun entry hmem => Nat.lt_succ_of_lt (h.below entry hmem)⟩
  | removeEntry tenant id => exact h.delete _
  | removeGlobalEntry id => exact h.delete _
  | restoreOptout tenant id ground note latestEvidence => exact h.delete _

theorem run_ordered (normalizePhone : String → Option String) (actions : List Action) :
    (run normalizePhone actions).Ordered :=
  Run.foldl_inv (fun _ action hw => hw.step action) ⟨List.nodup_nil, by simp [empty]⟩ actions

/-! ## An opt-out stays -/

/-- A delete of another row. -/
theorem OptedOut.delete (h : w.OptedOut tenant phone) (hordered : w.Ordered)
    {found : Except Problem Entry}
    (hother : ∀ entry, found = .ok entry → entry ∈ w.entries ∧
      ¬ (entry.tenant = some tenant ∧ entry.phone = phone ∧ entry.source.removable = false)) :
    (w.delete found).OptedOut tenant phone := by
  unfold World.delete
  split
  · exact h
  next found =>
    obtain ⟨entry, hmem, hentry⟩ := h
    obtain ⟨hfound, hdiffers⟩ := hother found rfl
    refine ⟨entry, List.mem_filter.mpr ⟨hmem, ?_⟩, hentry⟩
    have hne : entry.id ≠ found.id := by
      intro hid
      rw [hordered.eq_of_id hmem hfound hid] at hentry
      exact hdiffers hentry
    simpa using hne

theorem commitNumbers_eq {id : ℕ} {call : Adding} {inserting : List String}
    (h : w.ready id = some (call, inserting)) :
    w.commitNumbers id =
      { (w.insertRows call.tenant call.source inserting).upgrade call.tenant call.unique
          call.source with
        adding := w.adding.erase call } := by
  unfold commitNumbers
  rw [h]
  rfl

/-- What a removal deletes is the account's to take off. -/
theorem removeEntry_ok {account id : ℕ} {entry : Entry}
    (h : w.removeEntry account id = .ok entry) :
    entry ∈ w.entries ∧ entry.source.removable = true := by
  unfold removeEntry at h
  split at h
  · cases h
  next found hfound =>
    split_ifs at h with hglobal hremovable
    obtain rfl : found = entry := by simpa using h
    exact ⟨List.mem_of_find?_eq_some hfound, by simpa using hremovable⟩

theorem removeGlobalEntry_ok {id : ℕ} {entry : Entry}
    (h : w.removeGlobalEntry id = .ok entry) : entry ∈ w.entries ∧ entry.tenant = none := by
  unfold removeGlobalEntry at h
  split at h
  · cases h
  next found hfound =>
    obtain rfl : found = entry := by simpa using h
    have hseen := List.find?_some hfound
    simp only [decide_eq_true_eq] at hseen
    exact ⟨List.mem_of_find?_eq_some hfound, hseen.2⟩

/-- Only a restore takes an opt-out off. -/
theorem OptedOut.step (h : w.OptedOut tenant phone) (hordered : w.Ordered) {action : Action}
    (hkept : ¬ w.Restores tenant phone action) :
    (w.step normalizePhone action).OptedOut tenant phone := by
  cases action with
  | readNumbers id account raw source =>
    simp only [World.step, readNumbers]
    split <;> exact h
  | insertNumbers id => exact h
  | recordEvidence account number capturedAt => exact h
  | commitNumbers id =>
    cases hready : w.ready id with
    | none =>
      simp only [World.step, commitNumbers, hready]
      exact h
    | some ready =>
      rw [World.step, commitNumbers_eq hready]
      have hinserted := h.of_subset (w.insertRows_subset ready.1.tenant ready.1.source ready.2)
      exact hinserted.upgrade ready.1.tenant ready.1.unique ready.1.source
  | addToDnc account number source =>
    simp only [World.step, addToDnc]
    split
    · exact h.upgrade _ _ _
    · exact h.of_subset (w.insertRow_subset _ _ _)
  | removeEntry account id =>
    refine h.delete hordered fun entry hok => ?_
    obtain ⟨hmem, hremovable⟩ := removeEntry_ok hok
    exact ⟨hmem, fun hentry => by simp [hremovable] at hentry⟩
  | removeGlobalEntry id =>
    refine h.delete hordered fun entry hok => ?_
    obtain ⟨hmem, hglobal⟩ := removeGlobalEntry_ok hok
    exact ⟨hmem, fun hentry => by simp [hglobal] at hentry⟩
  | restoreOptout account id ground note latestEvidence =>
    refine h.delete hordered fun entry hok => ?_
    refine ⟨(named_of_restores hok).1, fun hentry => ?_⟩
    exact hkept ⟨entry, hok, hentry.1, hentry.2.1⟩

/-- So it stays through any steps but a restore. -/
theorem OptedOut.run (h : w.OptedOut tenant phone) (hordered : w.Ordered) {after : List Action}
    (hkept : Run.Guarded (World.step normalizePhone)
      (fun w action => ¬ w.Restores tenant phone action) w after) :
    (after.foldl (World.step normalizePhone) w).OptedOut tenant phone :=
  (@Run.Guarded.inv _ _ (World.step normalizePhone)
    (fun w action => ¬ w.Restores tenant phone action)
    (fun w => w.OptedOut tenant phone ∧ w.Ordered)
    (fun _ action hw hrestores => ⟨hw.1.step hw.2 hrestores, hw.2.step action⟩)
    w after ⟨h, hordered⟩ hkept).1

/-- An acceptance that leaves a row opts the number out. -/
theorem optedOut_of_accepts {action : Action} (haccepts : w.Accepts tenant phone action)
    (hleaves : w.LeavesRow tenant phone action) :
    (w.step normalizePhone action).OptedOut tenant phone := by
  cases action with
  | commitNumbers id =>
    obtain ⟨call, inserting, hready, htenant, hsource, hmem⟩ := haccepts
    have hlisted : (w.insertRows (some tenant) call.source inserting).onList (some tenant)
        phone = true := insertRows_onList (hleaves call inserting hready)
    rw [World.step, commitNumbers_eq hready, htenant]
    exact optedOut_upgrade hlisted hmem hsource
  | addToDnc account number source =>
    obtain ⟨rfl, rfl, hsource⟩ := haccepts
    simp only [World.step, addToDnc]
    split
    next hlisted => exact optedOut_upgrade hlisted List.mem_cons_self hsource
    next hunlisted =>
      have hstronger : source.removable = false := by
        cases source <;> simp_all [Source.restorable, Source.removable]
      exact ⟨_, by rw [insertRow, if_neg hunlisted]; exact List.mem_cons_self, rfl, rfl,
        hstronger⟩
  | _ => cases haccepts

/-! ## An opt-out swallowed -/

/-- Lift the platform's entries of the ids. -/
def lifting (ids : List ℕ) : List Action := ids.map .removeGlobalEntry

theorem lifting_entries (ids : List ℕ) {entry : Entry}
    (h : entry ∈ ((lifting ids).foldl (step normalizePhone) w).entries) :
    entry ∈ w.entries ∧ (entry.tenant = none → entry.id ∉ ids) := by
  induction ids generalizing w with
  | nil => exact ⟨h, by simp⟩
  | cons id ids ih =>
    obtain ⟨hmem, hlater⟩ := ih h
    simp only [step, delete] at hmem
    split at hmem
    next hrefused =>
      refine ⟨hmem, fun hglobal hid => ?_⟩
      rw [List.mem_cons] at hid
      obtain rfl | hid := hid
      · -- a refusal says that the platform has no entry of the id
        unfold removeGlobalEntry at hrefused
        split at hrefused
        next hnone =>
          have hnot := List.find?_eq_none.mp hnone entry hmem
          simp [hglobal] at hnot
        next => cases hrefused
      · exact hlater hglobal hid
    next found hfound =>
      rw [List.mem_filter, decide_eq_true_eq] at hmem
      refine ⟨hmem.1, fun hglobal hid => ?_⟩
      rw [List.mem_cons] at hid
      obtain rfl | hid := hid
      · have hsame : found.id = entry.id := by
          unfold removeGlobalEntry at hfound
          split at hfound
          · cases hfound
          next lifted hlifted =>
            obtain rfl : lifted = found := by simpa using hfound
            have hseen := List.find?_some hlifted
            simp only [decide_eq_true_eq] at hseen
            exact hseen.1
        exact hmem.2 hsame.symm
      · exact hlater hglobal hid

/-- Without a row of its own, the account may dial the number once the platform's are lifted. -/
theorem not_refuses_of_lifting (hown : w.onList (some tenant) phone = false) :
    ((lifting (w.entries.map (·.id))).foldl (step normalizePhone) w).refuses tenant phone =
      false := by
  by_contra hrefused
  rw [Bool.not_eq_false, refuses_iff] at hrefused
  obtain ⟨entry, hmem, hphone, hscope⟩ := hrefused
  obtain ⟨hmem, hlifted⟩ := lifting_entries _ hmem
  obtain htenant | hglobal := hscope
  · have hlisted : w.onList (some tenant) phone = true :=
      (onList_iff).mpr ⟨entry, hmem, htenant, hphone⟩
    rw [hown] at hlisted
    cases hlisted
  · exact hlifted hglobal (List.mem_map_of_mem hmem)

/-- A lifting restores nothing. -/
theorem lifting_guarded (ids : List ℕ) (w : World) :
    Run.Guarded (step normalizePhone) (fun w action => ¬ w.Restores tenant phone action) w
      (lifting ids) := by
  induction ids generalizing w with
  | nil => trivial
  | cons id ids ih => exact ⟨fun hrestores => hrestores, ih _⟩

/-- **An accepted opt-out is kept** through every sequence of steps without a restore of it, if
and only if its acceptance leaves a row of the account's own. -/
theorem optout_kept_iff (normalizePhone : String → Option String) (before : List Action)
    (tenant : ℕ) (phone : String) (action : Action)
    (haccepts : (run normalizePhone before).Accepts tenant phone action) :
    (∀ after : List Action,
      Run.Guarded (step normalizePhone) (fun w action => ¬ w.Restores tenant phone action)
          ((run normalizePhone before).step normalizePhone action) after →
        (after.foldl (step normalizePhone)
          ((run normalizePhone before).step normalizePhone action)).refuses tenant phone =
            true) ↔
      (run normalizePhone before).LeavesRow tenant phone action := by
  have hordered := run_ordered normalizePhone before
  constructor
  · intro hkept
    cases action with
    | commitNumbers id =>
      intro call inserting hready
      by_contra hswallowed
      rw [not_or] at hswallowed
      have hown : ((run normalizePhone before).step normalizePhone
          (.commitNumbers id)).onList (some tenant) phone = false := by
        rw [← Bool.not_eq_true, onList_iff, step, commitNumbers_eq hready]
        rintro ⟨entry', hmem', htenant', hphone'⟩
        obtain ⟨entry, hmem, htenant, hphone⟩ := mem_upgrade hmem'
        rw [htenant] at htenant'
        rw [hphone] at hphone'
        obtain hmem | hmem := mem_insertRows hmem
        · exact hswallowed.2 ((onList_iff).mpr ⟨entry, hmem, htenant', hphone'⟩)
        · exact hswallowed.1 (hphone' ▸ hmem)
      have hlifted := @not_refuses_of_lifting normalizePhone _ _ _ hown
      rw [hkept _ (lifting_guarded _ _)] at hlifted
      cases hlifted
    | _ => trivial
  · intro hleaves after hguarded
    have hopted := @optedOut_of_accepts normalizePhone _ _ _ action haccepts hleaves
    exact (hopted.run (hordered.step action) hguarded).refuses

/-- An account enters a person's request for a number. -/
def customerRequest (number : String) : List Action :=
  [.readNumbers 0 (some 1) [number] .customerRequest, .insertNumbers 0]

theorem optout_kept_iff_fresh :
    ([Action.removeEntry 1 0, .removeGlobalEntry 0].foldl (step some)
      ((run some (customerRequest "+919876543210")).step some (.commitNumbers 0))).refuses 1
        "+919876543210" = true := by
  refine (optout_kept_iff some (customerRequest "+919876543210") 1 "+919876543210"
    (.commitNumbers 0) ?_).mpr ?_ _ ⟨fun hrestores => hrestores, fun hrestores => hrestores, trivial⟩
  · exact ⟨⟨0, some 1, .customerRequest, ["+919876543210"], 0, ["+919876543210"],
      some ["+919876543210"]⟩, ["+919876543210"], by decide, rfl, rfl, by decide⟩
  · rintro call inserting hready
    have hinserts : (run some (customerRequest "+919876543210")).ready 0 =
        some (⟨0, some 1, .customerRequest, ["+919876543210"], 0, ["+919876543210"],
          some ["+919876543210"]⟩, ["+919876543210"]) := by decide
    rw [hinserts] at hready
    cases hready
    exact .inl (by decide)

/-- The platform blocks a number, its person's request is accepted by an account, and the
platform's entry is lifted: the account may dial the number, and nothing restored it. -/
theorem swallowed_dialable :
    (run some (Action.readNumbers 7 none ["+919876543210"] .regulator ::
      .insertNumbers 7 :: .commitNumbers 7 :: customerRequest "+919876543210")).Accepts 1
        "+919876543210" (.commitNumbers 0) ∧
      Run.Guarded (step some) (fun w action => ¬ w.Restores 1 "+919876543210" action)
        ((run some (Action.readNumbers 7 none ["+919876543210"] .regulator ::
          .insertNumbers 7 :: .commitNumbers 7 :: customerRequest "+919876543210")).step some
            (.commitNumbers 0)) [.removeGlobalEntry 0] ∧
      (run some (Action.readNumbers 7 none ["+919876543210"] .regulator ::
        .insertNumbers 7 :: .commitNumbers 7 :: (customerRequest "+919876543210" ++
          [.commitNumbers 0, .removeGlobalEntry 0]))).refuses 1 "+919876543210" = false := by
  refine ⟨⟨⟨0, some 1, .customerRequest, ["+919876543210"], 0, [], some []⟩, [], by decide, rfl,
    rfl, by decide⟩, ⟨fun hrestores => hrestores, trivial⟩, by decide⟩

end World

end Calevate.Compliance
