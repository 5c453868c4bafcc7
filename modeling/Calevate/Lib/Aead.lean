import Mathlib.Data.Nat.Notation

/-!
# Authenticated encryption

A cipher encrypts data under a key and a nonce and binds it to associated data; decryption gives
the data back or refuses. It is ideal where what was encrypted under one key for one context opens
under no other key and for no other context. The labelled cipher writes the key, the nonce and
the context out in front of the data: it hides nothing, and is ideal (`labelled_ideal`).
-/

namespace Lib

namespace Aead

/-- Bytes. -/
abbrev Bytes := List UInt8

/-- The ways a ciphertext does not open. -/
inductive Unopenable where
  | invalidTag
  | valueError
  deriving DecidableEq, Repr

/-- A cipher: the arguments are the key, the nonce, the data and the associated data. -/
structure Cipher where
  encrypt : Bytes → Bytes → Bytes → Bytes → Bytes
  decrypt : Bytes → Bytes → Bytes → Bytes → Except Unopenable Bytes

/-- A key of one of the three sizes. -/
def GoodKey (key : Bytes) : Prop := key.length = 16 ∨ key.length = 24 ∨ key.length = 32

/-- A nonce of a size that is taken. -/
def GoodNonce (nonce : Bytes) : Prop := 8 ≤ nonce.length ∧ nonce.length ≤ 128

instance (key : Bytes) : Decidable (GoodKey key) := inferInstanceAs (Decidable (_ ∨ _))

instance (nonce : Bytes) : Decidable (GoodNonce nonce) := inferInstanceAs (Decidable (_ ∧ _))

/-- **An ideal cipher.** What it encrypts opens, and under the same key and for the same context
only. -/
structure Cipher.Ideal (cipher : Cipher) : Prop where
  opens : ∀ {key nonce : Bytes} (data aad : Bytes), GoodKey key → GoodNonce nonce →
    cipher.decrypt key nonce (cipher.encrypt key nonce data aad) aad = .ok data
  authentic : ∀ {key nonce data aad key' nonce' data' aad' : Bytes}, GoodKey key → GoodNonce nonce →
    cipher.decrypt key' nonce' (cipher.encrypt key nonce data aad) aad' = .ok data' →
      key' = key ∧ aad' = aad

/-! ## An ideal cipher -/

/-- A text that tells where it ends. -/
def frame : Bytes → Bytes
  | [] => [0]
  | b :: rest => 1 :: b :: frame rest

theorem frame_append_inj {a b x y : Bytes} (h : frame a ++ x = frame b ++ y) : a = b ∧ x = y := by
  induction a generalizing b with
  | nil =>
    cases b with
    | nil => exact ⟨rfl, (List.cons.inj h).2⟩
    | cons c b => exact absurd (List.cons.inj h).1 (by decide)
  | cons c a ih =>
    cases b with
    | nil => exact absurd (List.cons.inj h).1 (by decide)
    | cons d b =>
      obtain ⟨-, htail⟩ := List.cons.inj h
      obtain ⟨rfl, hrest⟩ := List.cons.inj htail
      obtain ⟨rfl, hxy⟩ := ih hrest
      exact ⟨rfl, hxy⟩

/-- What stands in front of the data. -/
def label (key nonce aad : Bytes) : Bytes := frame key ++ (frame nonce ++ frame aad)

theorem label_append_inj {key nonce aad key' nonce' aad' x y : Bytes}
    (h : label key nonce aad ++ x = label key' nonce' aad' ++ y) :
    key = key' ∧ aad = aad' ∧ x = y := by
  unfold label at h
  simp only [List.append_assoc] at h
  obtain ⟨hkey, hrest⟩ := frame_append_inj h
  obtain ⟨-, hrest⟩ := frame_append_inj hrest
  obtain ⟨haad, hxy⟩ := frame_append_inj hrest
  exact ⟨hkey, haad, hxy⟩

/-- The labelled cipher. -/
def labelled : Cipher where
  encrypt key nonce data aad := label key nonce aad ++ data
  decrypt key nonce text aad :=
    if ¬ GoodKey key ∨ ¬ GoodNonce nonce then .error .valueError
    else if (label key nonce aad).isPrefixOf text then .ok (text.drop (label key nonce aad).length)
    else .error .invalidTag

theorem labelled_ideal : labelled.Ideal where
  opens := by
    intro key nonce data aad hkey hnonce
    unfold labelled
    dsimp only
    rw [if_neg (by simp [hkey, hnonce]), if_pos (List.isPrefixOf_iff_prefix.mpr (List.prefix_append ..)),
      List.drop_left]
  authentic := by
    intro key nonce data aad key' nonce' data' aad' hkey hnonce h
    unfold labelled at h
    dsimp only at h
    split at h
    case isTrue => cases h
    case isFalse =>
      split at h
      case isFalse => cases h
      case isTrue hbegins =>
        obtain ⟨rest, hrest⟩ := List.isPrefixOf_iff_prefix.mp hbegins
        obtain ⟨hkey', haad', -⟩ := label_append_inj hrest
        exact ⟨hkey', haad'⟩

end Aead

end Lib
