import Calevate.Lib.Table

/-!
# Tables with a journal

A table whose statements write down what they did: `rewrite` is an `UPDATE` that leaves an
entry for each row it picked, and `insert` one that leaves entries for the new row. `Sound`
is a property of every row and of the entries about it, which is how a count kept in a row
is held against what was done to the row. A statement keeps it when it keeps it of the row
it picks (`Sound.rewrite`); the rows it leaves alone have the entries they had.
-/

namespace Lib

/-- The rows, and the entries with the newest first. -/
structure Journal (α ε : Type) where
  rows : List α
  entries : List ε

namespace Journal

variable {α κ ε : Type} [DecidableEq κ]

/-- The entries about a key. -/
def about (subject : ε → κ) (k : κ) (entries : List ε) : List ε :=
  entries.filter fun e => subject e = k

/-- `UPDATE … SET f WHERE p`, with an entry for each row it picks. -/
def rewrite (p : α → Bool) (f : α → α) (note : α → List ε) (t : Journal α ε) : Journal α ε :=
  ⟨Table.update p f t.rows, (t.rows.filter p).flatMap note ++ t.entries⟩

/-- `INSERT`, with its entries. -/
def insert (x : α) (entries : List ε) (t : Journal α ε) : Journal α ε :=
  ⟨t.rows ++ [x], entries ++ t.entries⟩

/-- Keys are unique, every entry is about a row, and a property holds of every row and the
entries about it. -/
structure Sound (key : α → κ) (subject : ε → κ) (R : List ε → α → Prop) (t : Journal α ε) :
    Prop where
  keys : (t.rows.map key).Nodup
  known : ∀ e ∈ t.entries, ∃ x ∈ t.rows, key x = subject e
  rows : ∀ x ∈ t.rows, R (about subject (key x) t.entries) x

section Sound

variable {key : α → κ} {subject : ε → κ} {R R' : List ε → α → Prop} {t : Journal α ε}
variable {p : α → Bool} {f : α → α} {note : α → List ε}

theorem about_append (k : κ) (es es' : List ε) :
    about subject k (es ++ es') = about subject k es ++ about subject k es' :=
  List.filter_append es es'

theorem about_eq_self {k : κ} {es : List ε} (h : ∀ e ∈ es, subject e = k) :
    about subject k es = es := by
  rw [about, List.filter_eq_self]
  intro e he
  simpa using h e he

theorem about_eq_nil {k : κ} {es : List ε} (h : ∀ e ∈ es, subject e ≠ k) :
    about subject k es = [] := by
  rw [about, List.filter_eq_nil_iff]
  intro e he
  simpa using h e he

/-- Of the entries an update leaves, those about a row are the ones it left for the row. -/
theorem about_notes {rows : List α} (hkeys : (rows.map key).Nodup)
    (hnote : ∀ x, ∀ e ∈ note x, subject e = key x) {x : α} (hx : x ∈ rows) :
    about subject (key x) ((rows.filter p).flatMap note) = if p x then note x else [] := by
  induction rows with
  | nil => cases hx
  | cons y rows ih =>
    rw [List.map_cons, List.nodup_cons] at hkeys
    obtain ⟨hy, hkeys⟩ := hkeys
    have hhead : ((y :: rows).filter p).flatMap note =
        (if p y then note y else []) ++ (rows.filter p).flatMap note := by
      by_cases hpy : p y = true
      · simp [hpy]
      · simp [hpy]
    rw [hhead, about_append]
    rcases List.mem_cons.1 hx with rfl | hx
    · -- nothing further down is about the head
      have hrest : about subject (key x) ((rows.filter p).flatMap note) = [] := by
        apply about_eq_nil
        intro e he
        obtain ⟨z, hz, he⟩ := List.mem_flatMap.1 he
        rw [hnote z e he]
        intro hzx
        exact hy (hzx ▸ List.mem_map_of_mem (List.mem_filter.1 hz).1)
      rw [hrest, List.append_nil]
      split
      · exact about_eq_self (hnote x)
      · rfl
    · have hne : key y ≠ key x := by
        intro hyx
        exact hy (hyx ▸ List.mem_map_of_mem hx)
      have hnone : about subject (key x) (if p y then note y else []) = [] := by
        split
        · apply about_eq_nil
          intro e he
          rw [hnote y e he]
          exact hne
        · rfl
      rw [hnone, List.nil_append, ih hkeys hx]

theorem mem_rewrite {y : α} : y ∈ (t.rewrite p f note).rows ↔
    (y ∈ t.rows ∧ p y = false) ∨ ∃ x ∈ t.rows, p x = true ∧ y = f x :=
  Table.mem_update

/-- A row has a successor after an update. -/
theorem mem_rewrite_of_mem {x : α} (hx : x ∈ t.rows) :
    (if p x then f x else x) ∈ (t.rewrite p f note).rows :=
  List.mem_map_of_mem hx

/-- A statement that picks no row writes nothing. -/
theorem rewrite_of_notAny (h : t.rows.any p = false) : t.rewrite p f note = t := by
  have hnone : t.rows.filter p = [] := by
    rw [List.filter_eq_nil_iff]
    exact List.any_eq_false.1 h
  simp [Journal.rewrite, Table.update_of_notAny h, hnone]

/-- **A statement keeps what it keeps of the rows it picks.** -/
theorem Sound.rewrite (h : Sound key subject R t) (hkey : ∀ x, key (f x) = key x)
    (hnote : ∀ x, ∀ e ∈ note x, subject e = key x)
    (hit : ∀ x ∈ t.rows, p x = true → R (about subject (key x) t.entries) x →
      R' (note x ++ about subject (key x) t.entries) (f x))
    (miss : ∀ x ∈ t.rows, p x = false → R (about subject (key x) t.entries) x →
      R' (about subject (key x) t.entries) x) :
    Sound key subject R' (t.rewrite p f note) := by
  have hstays : ∀ x, key (if p x then f x else x) = key x := by
    intro x
    split
    · exact hkey x
    · rfl
  refine ⟨?_, ?_, ?_⟩
  · have hsame : (t.rewrite p f note).rows.map key = t.rows.map key := Table.map_update hkey
    rw [hsame]
    exact h.keys
  · intro e he
    rcases List.mem_append.1 he with he | he
    · obtain ⟨x, hx, he⟩ := List.mem_flatMap.1 he
      refine ⟨_, mem_rewrite_of_mem (List.mem_filter.1 hx).1, ?_⟩
      rw [hstays, hnote x e he]
    · obtain ⟨x, hx, hxe⟩ := h.known e he
      exact ⟨_, mem_rewrite_of_mem hx, by rw [hstays, hxe]⟩
  · intro y hy
    rcases (mem_rewrite).1 hy with ⟨hy, hpy⟩ | ⟨x, hx, hpx, rfl⟩
    · have habout : about subject (key y) (t.rewrite p f note).entries =
          about subject (key y) t.entries := by
        simp only [Journal.rewrite, about_append, about_notes h.keys hnote hy, hpy]
        rfl
      rw [habout]
      exact miss y hy hpy (h.rows y hy)
    · have habout : about subject (key (f x)) (t.rewrite p f note).entries =
          note x ++ about subject (key x) t.entries := by
        simp only [Journal.rewrite, hkey, about_append, about_notes h.keys hnote hx, hpx, if_true]
      rw [habout]
      exact hit x hx hpx (h.rows x hx)

/-- **A new row starts with its own entries.** -/
theorem Sound.insert (h : Sound key subject R t) {x : α} {es : List ε}
    (hfresh : ∀ y ∈ t.rows, key y ≠ key x) (hes : ∀ e ∈ es, subject e = key x) (hrow : R' es x)
    (hrest : ∀ y ∈ t.rows, R (about subject (key y) t.entries) y →
      R' (about subject (key y) t.entries) y) :
    Sound key subject R' (t.insert x es) := by
  refine ⟨?_, ?_, ?_⟩
  · simp only [Journal.insert, List.map_append, List.map_cons, List.map_nil]
    rw [List.nodup_append]
    refine ⟨h.keys, List.nodup_singleton _, ?_⟩
    intro k hk k' hk'
    obtain ⟨y, hy, rfl⟩ := List.mem_map.1 hk
    rw [List.mem_singleton.1 hk']
    exact hfresh y hy
  · intro e he
    rcases List.mem_append.1 he with he | he
    · exact ⟨x, by simp [Journal.insert], (hes e he).symm⟩
    · obtain ⟨y, hy, hye⟩ := h.known e he
      exact ⟨y, by simp [Journal.insert, hy], hye⟩
  · intro y hy
    rcases List.mem_append.1 hy with hy | hy
    · have habout : about subject (key y) (t.insert x es).entries =
          about subject (key y) t.entries := by
        have hnone : about subject (key y) es = [] := by
          apply about_eq_nil
          intro e he
          rw [hes e he]
          exact (hfresh y hy).symm
        simp only [Journal.insert, about_append, hnone, List.nil_append]
      rw [habout]
      exact hrest y hy (h.rows y hy)
    · rw [List.mem_singleton.1 hy]
      have habout : about subject (key x) (t.insert x es).entries = es := by
        -- no row carries the new key, so no entry is about it
        have hnone : about subject (key x) t.entries = [] := by
          apply about_eq_nil
          intro e he hex
          obtain ⟨z, hz, hze⟩ := h.known e he
          exact hfresh z hz (hze.trans hex)
        simp only [Journal.insert, about_append, hnone, List.append_nil, about_eq_self hes]
      rw [habout]
      exact hrow

theorem Sound.mono (h : Sound key subject R t)
    (hrow : ∀ x ∈ t.rows, R (about subject (key x) t.entries) x →
      R' (about subject (key x) t.entries) x) : Sound key subject R' t :=
  ⟨h.keys, h.known, fun x hx => hrow x hx (h.rows x hx)⟩

theorem Sound.empty : Sound key subject R ⟨[], []⟩ :=
  ⟨List.nodup_nil, by simp, by simp⟩

end Sound

end Journal

end Lib
