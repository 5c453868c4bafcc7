import Calevate.Lib.Aead

/-!
# Envelopes

A secret is encrypted under a key of its own, which is wrapped under the deployment's key; a
rotation wraps it again and leaves the payload alone. What was sealed opens for its own context
through every rotation that keeps the wrapping key, and for no other. Opening refuses by name,
except for a payload that opens and is no text: its decoding raises, `envelope_text_iff`.
-/

namespace Calevate.Platform

open Lib.Aead

/-! ## Texts -/

/-- `str.encode`. -/
def encode (text : String) : Bytes := text.toUTF8.data.toList

/-- `bytes.decode`. -/
def decode? (data : Bytes) : Option String := String.fromUTF8? ⟨data.toArray⟩

theorem decode?_encode (text : String) : decode? (encode text) = some text := by
  unfold decode? encode
  have hsame : (⟨text.toUTF8.data.toList.toArray⟩ : ByteArray) = text.toUTF8 := by simp
  rw [hsame]
  unfold String.fromUTF8?
  rw [dif_pos (show text.toUTF8.IsValidUTF8 from text.isValidUTF8)]
  rfl

theorem encode_inj {a b : String} (h : encode a = encode b) : a = b := by
  have hdecoded := decode?_encode a
  rw [h, decode?_encode] at hdecoded
  exact (Option.some.inj hdecoded).symm

/-! ## The envelope -/

/-- A key-encryption key. -/
structure Kek where
  kekId : ℕ
  material : Bytes
  sized : material.length = 32

theorem Kek.good (k : Kek) : GoodKey k.material := .inr (.inr k.sized)

/-- The keys a deployment can unwrap with, and the one it wraps with. -/
structure KekRing where
  active : Kek
  retired : List Kek

/-- `all_keys`. -/
def KekRing.allKeys (ring : KekRing) : List Kek := ring.active :: ring.retired

structure Envelope where
  ciphertext : Bytes
  nonce : Bytes
  dekWrapped : Bytes
  dekNonce : Bytes
  kekId : ℕ

/-- Twelve random bytes. -/
structure Nonce where
  bytes : Bytes
  sized : bytes.length = 12

theorem Nonce.good (n : Nonce) : GoodNonce n.bytes := by
  unfold GoodNonce
  rw [n.sized]
  decide

/-- Thirty-two random bytes. -/
structure Dek where
  bytes : Bytes
  sized : bytes.length = 32

theorem Dek.good (d : Dek) : GoodKey d.bytes := .inr (.inr d.sized)

inductive Refusal where
  /-- `platform_secret_unwrappable`. -/
  | unwrappable
  /-- `platform_secret_corrupt`. -/
  | corrupt
  deriving DecidableEq, Repr

inductive Raised where
  | refused (r : Refusal)
  | unicodeDecodeError
  deriving DecidableEq, Repr

section

variable (cipher : Cipher)

/-- `seal_bytes`. -/
def sealBytes (data : Bytes) (context : String) (ring : KekRing) (dek : Dek)
    (nonce dekNonce : Nonce) : Envelope where
  ciphertext := cipher.encrypt dek.bytes nonce.bytes data (encode context)
  nonce := nonce.bytes
  dekWrapped := cipher.encrypt ring.active.material dekNonce.bytes dek.bytes (encode context)
  dekNonce := dekNonce.bytes
  kekId := ring.active.kekId

/-- `seal`. -/
def sealText (plaintext context : String) (ring : KekRing) (dek : Dek) (nonce dekNonce : Nonce) :
    Envelope :=
  sealBytes cipher (encode plaintext) context ring dek nonce dekNonce

/-- The loop over the ring: the first key that opens the wrapped key. -/
def openDek (envelope : Envelope) (aad : Bytes) : List Kek → Option Bytes
  | [] => none
  | candidate :: keys =>
    match cipher.decrypt candidate.material envelope.dekNonce envelope.dekWrapped aad with
    | .ok dek => some dek
    | .error _ => openDek envelope aad keys

/-- `unseal_bytes`. -/
def unsealBytes (envelope : Envelope) (context : String) (ring : KekRing) : Except Refusal Bytes :=
  match openDek cipher envelope (encode context) ring.allKeys with
  | none => .error .unwrappable
  | some dek =>
    match cipher.decrypt dek envelope.nonce envelope.ciphertext (encode context) with
    | .ok data => .ok data
    | .error _ => .error .corrupt

/-- `unseal`. The decoding stands behind the reading, outside what is caught there. -/
def unsealText (envelope : Envelope) (context : String) (ring : KekRing) : Except Raised String :=
  match unsealBytes cipher envelope context ring with
  | .error r => .error (.refused r)
  | .ok data =>
    match decode? data with
    | some text => .ok text
    | none => .error .unicodeDecodeError

/-- `rewrap`. -/
def rewrap (envelope : Envelope) (context : String) (ring : KekRing) (dekNonce : Nonce) :
    Except Refusal Envelope :=
  match openDek cipher envelope (encode context) ring.allKeys with
  | none => .error .unwrappable
  | some dek => .ok
    { ciphertext := envelope.ciphertext
      nonce := envelope.nonce
      dekWrapped := cipher.encrypt ring.active.material dekNonce.bytes dek (encode context)
      dekNonce := dekNonce.bytes
      kekId := ring.active.kekId }

end

/-! ## The life of a secret -/

/-- A stored envelope, the deployment's ring, and the key the envelope is wrapped under. -/
structure Stored where
  envelope : Envelope
  ring : KekRing
  wrappedBy : Kek

inductive Event where
  | rotate (ring : KekRing)
  | rewrap (dekNonce : Nonce)

/-- One event in the life of a secret. -/
def Stored.step (cipher : Cipher) (context : String) (s : Stored) : Event → Except Refusal Stored
  | .rotate ring => .ok { s with ring := ring }
  | .rewrap dekNonce =>
    match rewrap cipher s.envelope context s.ring dekNonce with
    | .error r => .error r
    | .ok envelope => .ok ⟨envelope, s.ring, s.ring.active⟩

/-- The events one after the other. -/
def Stored.run (cipher : Cipher) (context : String) : Stored → List Event → Except Refusal Stored
  | s, [] => .ok s
  | s, e :: events =>
    match s.step cipher context e with
    | .error r => .error r
    | .ok s' => Stored.run cipher context s' events

/-- No rotation drops the key a secret is wrapped under at the time. -/
def KeepsKey : Kek → KekRing → List Event → Prop
  | _, _, [] => True
  | wrappedBy, _, .rotate ring :: events => wrappedBy ∈ ring.allKeys ∧ KeepsKey wrappedBy ring events
  | _, ring, .rewrap _ :: events => KeepsKey ring.active ring events

/-- A secret as it is sealed. -/
def sealed (cipher : Cipher) (data : Bytes) (context : String) (ring : KekRing) (dek : Dek)
    (nonce dekNonce : Nonce) : Stored :=
  ⟨sealBytes cipher data context ring dek nonce dekNonce, ring, ring.active⟩

/-- The envelope holds the data for the context, and its key is in the ring. -/
structure Stored.Holds (cipher : Cipher) (s : Stored) (data : Bytes) (context : String) (dek : Dek)
    (nonce dekNonce : Nonce) : Prop where
  ciphertext : s.envelope.ciphertext = cipher.encrypt dek.bytes nonce.bytes data (encode context)
  nonce : s.envelope.nonce = nonce.bytes
  wrapped : s.envelope.dekWrapped =
    cipher.encrypt s.wrappedBy.material dekNonce.bytes dek.bytes (encode context)
  dekNonce : s.envelope.dekNonce = dekNonce.bytes
  kept : s.wrappedBy ∈ s.ring.allKeys

variable {cipher : Cipher} {s : Stored} {data : Bytes} {context : String} {dek : Dek}
  {nonce dekNonce : Nonce} {ring : KekRing}

theorem sealed_holds (cipher : Cipher) (data : Bytes) (context : String) (ring : KekRing) (dek : Dek)
    (nonce dekNonce : Nonce) :
    (sealed cipher data context ring dek nonce dekNonce).Holds cipher data context dek nonce
      dekNonce where
  ciphertext := rfl
  nonce := rfl
  wrapped := rfl
  dekNonce := rfl
  kept := List.mem_cons_self

/-- **Only the wrapping key opens the wrapped key**, and it opens it. -/
theorem openDek_of_holds (hideal : cipher.Ideal)
    (h : s.Holds cipher data context dek nonce dekNonce) {keys : List Kek}
    (hkeys : s.wrappedBy ∈ keys) :
    openDek cipher s.envelope (encode context) keys = some dek.bytes := by
  induction keys with
  | nil => cases hkeys
  | cons k keys ih =>
    have hown := hideal.opens dek.bytes (encode context) s.wrappedBy.good dekNonce.good
    unfold openDek
    rw [h.dekNonce, h.wrapped]
    cases hopened : cipher.decrypt k.material dekNonce.bytes
        (cipher.encrypt s.wrappedBy.material dekNonce.bytes dek.bytes (encode context))
        (encode context) with
    | ok found =>
      have hkey := (hideal.authentic s.wrappedBy.good dekNonce.good hopened).1
      rw [hkey, hown] at hopened
      rw [Except.ok.inj hopened]
    | error e =>
      refine ih ?_
      rcases List.mem_cons.mp hkeys with rfl | htail
      · rw [hown] at hopened
        cases hopened
      · exact htail

/-- No key opens the wrapped key for another context. -/
theorem openDek_other (hideal : cipher.Ideal)
    (h : s.Holds cipher data context dek nonce dekNonce) {other : String} (hother : other ≠ context)
    (keys : List Kek) : openDek cipher s.envelope (encode other) keys = none := by
  induction keys with
  | nil => rfl
  | cons k keys ih =>
    unfold openDek
    rw [h.dekNonce, h.wrapped] at *
    cases hopened : cipher.decrypt k.material dekNonce.bytes
        (cipher.encrypt s.wrappedBy.material dekNonce.bytes dek.bytes (encode context))
        (encode other) with
    | ok found =>
      have haad := (hideal.authentic s.wrappedBy.good dekNonce.good hopened).2
      exact absurd (encode_inj haad) hother
    | error e => exact ih

theorem unsealBytes_of_holds (hideal : cipher.Ideal)
    (h : s.Holds cipher data context dek nonce dekNonce) :
    unsealBytes cipher s.envelope context s.ring = .ok data := by
  unfold unsealBytes
  rw [openDek_of_holds hideal h h.kept]
  dsimp only
  rw [h.nonce, h.ciphertext, hideal.opens data (encode context) dek.good nonce.good]

/-- One event keeps what an envelope holds. -/
theorem step_holds (hideal : cipher.Ideal) (h : s.Holds cipher data context dek nonce dekNonce)
    {e : Event} {events : List Event} (hkeeps : KeepsKey s.wrappedBy s.ring (e :: events)) :
    ∃ s' dekNonce', s.step cipher context e = .ok s' ∧
      s'.Holds cipher data context dek nonce dekNonce' ∧ KeepsKey s'.wrappedBy s'.ring events := by
  cases e with
  | rotate ring =>
    obtain ⟨hkept, hrest⟩ := hkeeps
    refine ⟨_, dekNonce, rfl, ?_, hrest⟩
    exact {
      ciphertext := h.ciphertext
      nonce := h.nonce
      wrapped := h.wrapped
      dekNonce := h.dekNonce
      kept := hkept }
  | rewrap fresh =>
    have hopened := openDek_of_holds hideal h h.kept
    refine ⟨⟨⟨s.envelope.ciphertext, s.envelope.nonce,
      cipher.encrypt s.ring.active.material fresh.bytes dek.bytes (encode context), fresh.bytes,
      s.ring.active.kekId⟩, s.ring, s.ring.active⟩, fresh, ?_, ?_, hkeeps⟩
    · unfold Stored.step rewrap
      dsimp only
      rw [hopened]
    · exact {
        ciphertext := h.ciphertext
        nonce := h.nonce
        wrapped := rfl
        dekNonce := rfl
        kept := List.mem_cons_self }

/-- **A sealed secret holds through its life.** -/
theorem run_holds (hideal : cipher.Ideal) {events : List Event} :
    ∀ {s : Stored} {dekNonce : Nonce}, s.Holds cipher data context dek nonce dekNonce →
      KeepsKey s.wrappedBy s.ring events →
      ∃ s' dekNonce', s.run cipher context events = .ok s' ∧
        s'.Holds cipher data context dek nonce dekNonce' := by
  induction events with
  | nil => exact fun h _ => ⟨_, _, rfl, h⟩
  | cons e events ih =>
    intro s dekNonce h hkeeps
    obtain ⟨s', dekNonce', hstep, hholds, hrest⟩ := step_holds hideal h hkeeps
    obtain ⟨s'', dekNonce'', hrun, hholds'⟩ := ih hholds hrest
    refine ⟨s'', dekNonce'', ?_, hholds'⟩
    unfold Stored.run
    rw [hstep]
    exact hrun

/-! ## Opening -/

/-- The text or one of the two refusals. -/
def TextOrRefusal (answer : Except Raised String) : Prop :=
  (∃ text, answer = .ok text) ∨ ∃ r, answer = .error (.refused r)

/-- The payload of an envelope: what the first key that opens the wrapped key leads to. -/
def Payload (cipher : Cipher) (envelope : Envelope) (context : String) (ring : KekRing)
    (data : Bytes) : Prop :=
  ∃ before key after dek, ring.allKeys = before ++ key :: after ∧
    (∀ b ∈ before, ∀ found, cipher.decrypt b.material envelope.dekNonce envelope.dekWrapped
      (encode context) ≠ .ok found) ∧
    cipher.decrypt key.material envelope.dekNonce envelope.dekWrapped (encode context) = .ok dek ∧
    cipher.decrypt dek envelope.nonce envelope.ciphertext (encode context) = .ok data

theorem openDek_eq_some {envelope : Envelope} {aad found : Bytes} {keys : List Kek} :
    openDek cipher envelope aad keys = some found ↔
      ∃ before key after, keys = before ++ key :: after ∧
        (∀ b ∈ before, ∀ f, cipher.decrypt b.material envelope.dekNonce envelope.dekWrapped aad ≠
          .ok f) ∧
        cipher.decrypt key.material envelope.dekNonce envelope.dekWrapped aad = .ok found := by
  induction keys with
  | nil =>
    refine iff_of_false (by simp [openDek]) ?_
    rintro ⟨before, key, after, hsplit, -⟩
    cases before <;> cases hsplit
  | cons k keys ih =>
    unfold openDek
    cases hopened : cipher.decrypt k.material envelope.dekNonce envelope.dekWrapped aad with
    | ok f =>
      constructor
      · intro h
        rw [← Option.some.inj h]
        exact ⟨[], k, keys, rfl, by simp, hopened⟩
      · rintro ⟨before, key, after, hsplit, hbefore, hkey⟩
        cases before with
        | nil =>
          obtain ⟨rfl, -⟩ := List.cons.inj hsplit
          rw [hopened] at hkey
          exact congrArg some (Except.ok.inj hkey)
        | cons b before =>
          obtain ⟨rfl, -⟩ := List.cons.inj hsplit
          exact absurd hopened (hbefore k List.mem_cons_self f)
    | error e =>
      dsimp only
      rw [ih]
      constructor
      · rintro ⟨before, key, after, rfl, hbefore, hkey⟩
        refine ⟨k :: before, key, after, rfl, List.forall_mem_cons.mpr ⟨?_, hbefore⟩, hkey⟩
        intro f hf
        rw [hopened] at hf
        cases hf
      · rintro ⟨before, key, after, hsplit, hbefore, hkey⟩
        cases before with
        | nil =>
          obtain ⟨rfl, -⟩ := List.cons.inj hsplit
          rw [hopened] at hkey
          cases hkey
        | cons b before =>
          obtain ⟨rfl, htail⟩ := List.cons.inj hsplit
          exact ⟨before, key, after, htail, (List.forall_mem_cons.mp hbefore).2, hkey⟩

theorem unsealBytes_eq_ok {envelope : Envelope} {found : Bytes} :
    unsealBytes cipher envelope context ring = .ok found ↔
      Payload cipher envelope context ring found := by
  unfold unsealBytes Payload
  cases hdek : openDek cipher envelope (encode context) ring.allKeys with
  | none =>
    refine iff_of_false (by simp) ?_
    rintro ⟨before, key, after, dek, hsplit, hbefore, hkey, -⟩
    have hsome := (openDek_eq_some).mpr ⟨before, key, after, hsplit, hbefore, hkey⟩
    rw [hdek] at hsome
    cases hsome
  | some dek =>
    dsimp only
    constructor
    · intro h
      obtain ⟨before, key, after, hsplit, hbefore, hkey⟩ := (openDek_eq_some).mp hdek
      refine ⟨before, key, after, dek, hsplit, hbefore, hkey, ?_⟩
      cases hpayload : cipher.decrypt dek envelope.nonce envelope.ciphertext (encode context) with
      | ok data =>
        rw [hpayload] at h
        exact congrArg Except.ok (Except.ok.inj h)
      | error e =>
        rw [hpayload] at h
        cases h
    · rintro ⟨before, key, after, dek', hsplit, hbefore, hkey, hpayload⟩
      have hsome := (openDek_eq_some).mpr ⟨before, key, after, hsplit, hbefore, hkey⟩
      obtain rfl := Option.some.inj (hdek.symm.trans hsome)
      rw [hpayload]

/-- Opening gives a text or a refusal exactly where the payload is a text, if it opens. -/
theorem unsealText_textOrRefusal (envelope : Envelope) (context : String) (ring : KekRing) :
    TextOrRefusal (unsealText cipher envelope context ring) ↔
      ∀ data, Payload cipher envelope context ring data → (decode? data).isSome := by
  unfold unsealText
  cases hbytes : unsealBytes cipher envelope context ring with
  | error r =>
    refine iff_of_true (.inr ⟨r, rfl⟩) ?_
    intro data hpayload
    rw [(unsealBytes_eq_ok).mpr hpayload] at hbytes
    cases hbytes
  | ok found =>
    have hpayload := (unsealBytes_eq_ok).mp hbytes
    have honly : ∀ data, Payload cipher envelope context ring data → data = found := by
      intro data hdata
      rw [(unsealBytes_eq_ok).mpr hdata] at hbytes
      exact Except.ok.inj hbytes
    cases hdecoded : decode? found with
    | some text =>
      dsimp only
      rw [hdecoded]
      refine iff_of_true (.inl ⟨text, rfl⟩) ?_
      intro data hdata
      rw [honly data hdata, hdecoded]
      rfl
    | none =>
      dsimp only
      rw [hdecoded]
      refine iff_of_false ?_ ?_
      · rintro (⟨text, h⟩ | ⟨r, h⟩) <;> cases h
      · intro hall
        have hsome := hall found hpayload
        rw [hdecoded] at hsome
        cases hsome

/-- **Envelopes open to their plaintext, for their own context only**, through every rotation that
keeps the wrapping key; and opening gives a text or one of the two refusals exactly where the
payload, if it opens, is a text. -/
theorem envelope_text_iff (hideal : cipher.Ideal) :
    (∀ plaintext context ring dek nonce dekNonce events, KeepsKey ring.active ring events →
      ∃ s, (sealed cipher (encode plaintext) context ring dek nonce dekNonce).run cipher context
          events = .ok s ∧
        unsealText cipher s.envelope context s.ring = .ok plaintext ∧
        ∀ other ≠ context, ∀ ring', ∃ r,
          unsealText cipher s.envelope other ring' = .error (.refused r)) ∧
    ∀ envelope context ring, TextOrRefusal (unsealText cipher envelope context ring) ↔
      ∀ data, Payload cipher envelope context ring data → (decode? data).isSome := by
  refine ⟨?_, unsealText_textOrRefusal⟩
  intro plaintext context ring dek nonce dekNonce events hkeeps
  have hsealed := sealed_holds cipher (encode plaintext) context ring dek nonce dekNonce
  obtain ⟨s, dekNonce', hrun, hholds⟩ := run_holds hideal hsealed hkeeps
  refine ⟨s, hrun, ?_, ?_⟩
  · unfold unsealText
    rw [unsealBytes_of_holds hideal hholds]
    dsimp only
    rw [decode?_encode]
  · intro other hother ring'
    refine ⟨.unwrappable, ?_⟩
    unfold unsealText unsealBytes
    rw [openDek_other hideal hholds hother]

/-- A key of one byte over and over. -/
def plainKek (b : UInt8) : Kek := ⟨b.toNat, List.replicate 32 b, List.length_replicate⟩

def plainDek : Dek := ⟨List.replicate 32 7, List.length_replicate⟩

def plainNonce (b : UInt8) : Nonce := ⟨List.replicate 12 b, List.length_replicate⟩

/-- A secret sealed under one key, wrapped again under the next, the first one then dropped. -/
theorem envelope_text_rotated :
    ∃ s, (sealed labelled (encode "sk-live") "platform_secret:sarvam" ⟨plainKek 1, []⟩ plainDek
        (plainNonce 2) (plainNonce 3)).run labelled "platform_secret:sarvam"
        [.rotate ⟨plainKek 4, [plainKek 1]⟩, .rewrap (plainNonce 5), .rotate ⟨plainKek 4, []⟩] =
          .ok s ∧
      unsealText labelled s.envelope "platform_secret:sarvam" s.ring = .ok "sk-live" ∧
      ∀ other ≠ "platform_secret:sarvam", ∀ ring', ∃ r,
        unsealText labelled s.envelope other ring' = .error (.refused r) :=
  (envelope_text_iff labelled_ideal).1 _ _ _ _ _ _ _
    ⟨List.mem_cons_of_mem _ List.mem_cons_self, List.mem_cons_self, trivial⟩

/-- An uploaded document is no text: opened as one, its envelope raises a third exception. -/
theorem envelope_raises :
    ¬ ∀ cipher : Cipher, cipher.Ideal → ∀ envelope context ring,
      TextOrRefusal (unsealText cipher envelope context ring) := by
  intro hall
  have hholds := sealed_holds labelled [0xff] "kb_upload" ⟨plainKek 1, []⟩ plainDek
    (plainNonce 2) (plainNonce 3)
  have hbytes := unsealBytes_of_holds labelled_ideal hholds
  have htext := (unsealText_textOrRefusal _ _ _).mp (hall labelled labelled_ideal _ _ _) _
    ((unsealBytes_eq_ok).mp hbytes)
  exact absurd htext (by decide)

end Calevate.Platform
