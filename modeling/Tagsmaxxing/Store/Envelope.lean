import Tagsmaxxing.Core.Kek

/-! # The envelope of an encrypted blob (`encrypted_blob.rs`)

A stored blob is a header of 76 bytes (magic, version, the wrapped data key and the payload's nonce) and the
payload. `sealEnvelope` and `assemble` write it; `openEnvelope` cuts the fields out at their offsets, and
each cut is a slice that would panic past the end. The module compares it with `Layout.read`, which gets
the five fields as they are: `exists_layout` says that every text of 76 bytes or more has fields, and
`openEnvelope_bytes` that the offsets find them. -/

namespace Tagsmaxxing.Envelope

open List Exec

/-! ## The format -/

def magic : List UInt8 := [0x45, 0x42, 0x6c]

def version : UInt8 := 1

def keySize : ℕ := 32

def tagSize : ℕ := 16

def wrappedDekBlock : ℕ := nonceSize + keySize + tagSize

def headerSize : ℕ := 3 + 1 + wrappedDekBlock + nonceSize

def offVersion : ℕ := 3

def offWrappedDek : ℕ := 4

def offPayloadNonce : ℕ := offWrappedDek + wrappedDekBlock

/-- What `seal` draws: the data key, the payload's nonce and the randomness of the KEK. -/
structure Draws (ρ : Type) where
  dek : Fill keySize
  payloadNonce : Fill nonceSize
  wrap : ρ

/-- `seal`: the wrapped data key, and the payload behind its nonce. -/
def sealEnvelope {ρ : Type} (aes : Aes256Gcm) (kek : KeyEncryptionKey ρ) (draws : Draws ρ)
    (plaintext : List UInt8) : Exec (List UInt8 × List UInt8) := do
  let dek ← filled "failed to generate DEK: " draws.dek
  let payloadNonce ← filled "failed to generate payload nonce: " draws.payloadNonce
  let payloadCt ← ofOption "DEK encryption failed: aead::Error" (aes.encrypt dek payloadNonce plaintext)
  let wrapped ← context "KEK wrap failed" (kek.wrap draws.wrap dek.toList)
  return (wrapped, payloadNonce.toList ++ payloadCt)

def assemble (wrappedDek encryptedPayload : List UInt8) : List UInt8 :=
  magic ++ [version] ++ wrappedDek ++ encryptedPayload

/-- A byte as two hexadecimal digits. -/
def hexByte (b : UInt8) : String :=
  String.ofList [Nat.digitChar (b.toNat / 16), Nat.digitChar (b.toNat % 16)]

/-- `open`. -/
def openEnvelope {ρ : Type} (aes : Aes256Gcm) (kek : KeyEncryptionKey ρ) (raw : List UInt8) :
    Exec (List UInt8) := do
  ensure (headerSize ≤ raw.length)
    ("encrypted blob too short: " ++ toString raw.length ++ " bytes (need at least " ++
      toString headerSize ++ ")")
  let magicBytes ← slice raw 0 3
  ensure (magicBytes = magic)
    ("not an encrypted blob (bad magic bytes: [" ++ ", ".intercalate (magicBytes.map hexByte) ++ "])")
  let found ← index raw offVersion
  ensure (found = version)
    ("unsupported encrypted blob version " ++ toString found ++ " (expected " ++ toString version ++ ")")
  let wrappedDek ← slice raw offWrappedDek offPayloadNonce
  let payloadNonce ← slice raw offPayloadNonce headerSize
  let payloadCtAndTag ← slice raw headerSize raw.length
  let dek ← context "KEK unwrap failed (wrong key or corrupted data)" (kek.unwrap wrappedDek)
  ensure (dek.length = keySize)
    ("unwrapped DEK has wrong size: " ++ toString dek.length ++ " (expected " ++ toString keySize ++ ")")
  let dekArr ← toArray keySize dek
  let pnonce ← toArray nonceSize payloadNonce
  ofOption "DEK decryption failed (corrupted data): aead::Error" (aes.decrypt dekArr pnonce payloadCtAndTag)

/-! ## The fields of a blob -/

/-- The five fields, each of its size. -/
structure Layout where
  magicBytes : List.Vector UInt8 3
  version : UInt8
  wrappedDek : List.Vector UInt8 wrappedDekBlock
  payloadNonce : List.Vector UInt8 nonceSize
  payload : List UInt8

namespace Layout

/-- The fields one after the other. -/
def bytes (l : Layout) : List UInt8 :=
  l.magicBytes.toList ++ l.version :: (l.wrappedDek.toList ++ (l.payloadNonce.toList ++ l.payload))

/-- `open` on the fields themselves. -/
def read {ρ : Type} (aes : Aes256Gcm) (kek : KeyEncryptionKey ρ) (l : Layout) : Exec (List UInt8) := do
  ensure (l.magicBytes.toList = magic)
    ("not an encrypted blob (bad magic bytes: [" ++ ", ".intercalate (l.magicBytes.toList.map hexByte) ++ "])")
  ensure (l.version = Envelope.version)
    ("unsupported encrypted blob version " ++ toString l.version ++ " (expected " ++
      toString Envelope.version ++ ")")
  let dek ← context "KEK unwrap failed (wrong key or corrupted data)" (kek.unwrap l.wrappedDek.toList)
  ensure (dek.length = keySize)
    ("unwrapped DEK has wrong size: " ++ toString dek.length ++ " (expected " ++ toString keySize ++ ")")
  let dekArr ← toArray keySize dek
  ofOption "DEK decryption failed (corrupted data): aead::Error" (aes.decrypt dekArr l.payloadNonce l.payload)

theorem length_bytes (l : Layout) : l.bytes.length = headerSize + l.payload.length := by
  simp only [bytes, length_append, length_cons, List.Vector.toList_length, headerSize]
  omega

end Layout

variable {raw : List UInt8}

/-- A text of at least the header's size has the five fields. -/
theorem exists_layout (h : headerSize ≤ raw.length) : ∃ l : Layout, raw = l.bytes := by
  have hsize : headerSize = 3 + (1 + (wrappedDekBlock + nonceSize)) := rfl
  rw [hsize] at h
  obtain ⟨magicBytes, rest, rfl⟩ := exists_vector_append (Nat.le_of_add_right_le h)
  rw [length_append, magicBytes.toList_length] at h
  cases rest with
  | nil =>
    rw [length_nil] at h
    omega
  | cons v rest =>
    rw [length_cons] at h
    have hrest : wrappedDekBlock + nonceSize ≤ rest.length := by omega
    obtain ⟨wrappedDek, rest, rfl⟩ := exists_vector_append (Nat.le_of_add_right_le hrest)
    rw [length_append, wrappedDek.toList_length] at hrest
    obtain ⟨payloadNonce, payload, rfl⟩ := exists_vector_append (Nat.le_of_add_le_add_left hrest)
    exact ⟨⟨magicBytes, v, wrappedDek, payloadNonce, payload⟩, rfl⟩

theorem openEnvelope_bytes {ρ : Type} (aes : Aes256Gcm) (kek : KeyEncryptionKey ρ) (l : Layout) :
    openEnvelope aes kek l.bytes = l.read aes kek := by
  have hm : l.magicBytes.toList.length = 3 := l.magicBytes.toList_length
  have hw : l.wrappedDek.toList.length = wrappedDekBlock := l.wrappedDek.toList_length
  have hn : l.payloadNonce.toList.length = nonceSize := l.payloadNonce.toList_length
  have hlen : headerSize ≤ l.bytes.length := by
    rw [l.length_bytes]
    exact Nat.le_add_right _ _
  have hmagic : slice l.bytes 0 3 = .ok l.magicBytes.toList := slice_append [] _ _ rfl (by rw [hm])
  have hversion : index l.bytes offVersion = .ok l.version := index_append _ _ _ hm
  have hwrapped : slice l.bytes offWrappedDek offPayloadNonce = .ok l.wrappedDek.toList := by
    have hsplit : l.bytes = (l.magicBytes.toList ++ [l.version]) ++
        (l.wrappedDek.toList ++ (l.payloadNonce.toList ++ l.payload)) := by
      simp [Layout.bytes]
    rw [hsplit]
    exact slice_append _ _ _ (by rw [length_append, hm]; rfl) (by rw [hw]; rfl)
  have hnonce : slice l.bytes offPayloadNonce headerSize = .ok l.payloadNonce.toList := by
    have hsplit : l.bytes = (l.magicBytes.toList ++ [l.version] ++ l.wrappedDek.toList) ++
        (l.payloadNonce.toList ++ l.payload) := by
      simp [Layout.bytes]
    rw [hsplit]
    exact slice_append _ _ _ (by rw [length_append, length_append, hm, hw]; rfl) (by rw [hn]; rfl)
  have hpayload : slice l.bytes headerSize l.bytes.length = .ok l.payload := by
    have hsplit : l.bytes = (l.magicBytes.toList ++ [l.version] ++ l.wrappedDek.toList ++
        l.payloadNonce.toList) ++ (l.payload ++ []) := by
      simp [Layout.bytes]
    rw [l.length_bytes, hsplit]
    exact slice_append _ _ _ (by rw [length_append, length_append, length_append, hm, hw, hn]; rfl) rfl
  rw [openEnvelope, ensure_of_true hlen]
  simp only [ok_bind, hmagic, hversion, hwrapped, hnonce, hpayload, toArray_toList, Layout.read]

/-! ## What is read is what was written -/

variable {p w : List UInt8}

section Codec

variable {ρ : Type} {aes : Aes256Gcm} {kek : KeyEncryptionKey ρ}

theorem sealEnvelope_eq_ok_iff {draws : Draws ρ} {e : List UInt8} : sealEnvelope aes kek draws p = .ok (w, e) ↔
      ∃ dek n ct, draws.dek = .ok dek ∧ draws.payloadNonce = .ok n ∧ aes.encrypt dek n p = some ct ∧
        kek.wrap draws.wrap dek.toList = .ok w ∧ e = n.toList ++ ct := by
  simp only [sealEnvelope, bind_eq_ok_iff, filled_eq_ok_iff, ofOption_eq_ok_iff, context_eq_ok_iff, pure_eq_ok,
    Exec.ok.injEq, Prod.mk.injEq]
  constructor
  · rintro ⟨dek, hdek, n, hn, ct, hct, w, hw, rfl, rfl⟩
    exact ⟨dek, n, ct, hdek, hn, hct, hw, rfl⟩
  · rintro ⟨dek, n, ct, hdek, hn, hct, hw, rfl⟩
    exact ⟨dek, hdek, n, hn, ct, hct, w, hw, rfl, rfl⟩

/-- The fields are read as `p` if the key unwraps and the payload decrypts to `p` under it. -/
theorem Layout.read_eq_ok_iff {l : Layout} : l.read aes kek = .ok p ↔
      l.magicBytes.toList = magic ∧ l.version = Envelope.version ∧
        ∃ dek : List.Vector UInt8 keySize, kek.unwrap l.wrappedDek.toList = .ok dek.toList ∧
          aes.decrypt dek l.payloadNonce l.payload = some p := by
  simp only [Layout.read, bind_eq_ok_iff, ensure_eq_ok_iff, context_eq_ok_iff, toArray_eq_ok_iff, ofOption_eq_ok_iff]
  constructor
  · rintro ⟨-, hmagic, -, hversion, _, hunwrap, -, -, dek, rfl, hdecrypt⟩
    exact ⟨hmagic, hversion, dek, hunwrap, hdecrypt⟩
  · rintro ⟨hmagic, hversion, dek, hunwrap, hdecrypt⟩
    exact ⟨(), hmagic, (), hversion, dek.toList, hunwrap, (), dek.toList_length, dek, rfl, hdecrypt⟩

theorem Layout.read_ne_panicked (h : kek.Faithful) (l : Layout) : l.read aes kek ≠ .panicked := by
  refine bind_ne_panicked (ensure_ne_panicked _ _) fun _ _ => ?_
  refine bind_ne_panicked (ensure_ne_panicked _ _) fun _ _ => ?_
  refine bind_ne_panicked (context_ne_panicked (h.unwrap_ne_panicked _)) fun dek _ => ?_
  -- the length is checked right before the copy into an array
  refine bind_ne_panicked (ensure_ne_panicked _ _) fun _ hlen => ?_
  refine bind_ne_panicked (toArray_ne_panicked (ensure_eq_ok_iff.1 hlen)) fun _ _ => ?_
  exact ofOption_ne_panicked _ _

theorem openEnvelope_short (aes : Aes256Gcm) (kek : KeyEncryptionKey ρ) (h : ¬headerSize ≤ raw.length) :
    ∃ msg, openEnvelope aes kek raw = .error msg := by
  rw [openEnvelope, ensure, if_neg h]
  exact ⟨_, rfl⟩

theorem openEnvelope_ne_panicked (h : kek.Faithful) (raw : List UInt8) :
    openEnvelope aes kek raw ≠ .panicked := by
  by_cases hlen : headerSize ≤ raw.length
  · obtain ⟨l, rfl⟩ := exists_layout hlen
    rw [openEnvelope_bytes]
    exact l.read_ne_panicked h
  · obtain ⟨msg, hmsg⟩ := openEnvelope_short aes kek hlen
    rw [hmsg]
    simp

theorem assemble_eq_bytes (hw : w.length = wrappedDekBlock) (n : List.Vector UInt8 nonceSize) (ct : List UInt8) :
    assemble w (n.toList ++ ct) = Layout.bytes ⟨⟨magic, rfl⟩, version, ⟨w, hw⟩, n, ct⟩ := by
  simp [assemble, Layout.bytes, List.Vector.toList]

/-- `open` returns `p` exactly for the envelopes assembled from a seal of `p`. -/
theorem openEnvelope_eq_ok_iff (h : kek.Faithful) : openEnvelope aes kek raw = .ok p ↔
      ∃ draws w e, sealEnvelope aes kek draws p = .ok (w, e) ∧ raw = assemble w e := by
  constructor
  · intro hopen
    by_cases hlen : headerSize ≤ raw.length
    · obtain ⟨l, rfl⟩ := exists_layout hlen
      rw [openEnvelope_bytes, Layout.read_eq_ok_iff] at hopen
      obtain ⟨hmagic, hversion, dek, hunwrap, hdecrypt⟩ := hopen
      obtain ⟨r, hwrap⟩ := h.unwrap_eq_ok_iff.1 hunwrap
      have hencrypt := aes.decrypt_eq_some_iff.1 hdecrypt
      refine ⟨⟨.ok dek, .ok l.payloadNonce, r⟩, l.wrappedDek.toList, l.payloadNonce.toList ++ l.payload, ?_, ?_⟩
      · exact sealEnvelope_eq_ok_iff.2 ⟨dek, l.payloadNonce, l.payload, rfl, rfl, hencrypt, hwrap, rfl⟩
      · simp [Layout.bytes, assemble, hmagic, hversion]
    · obtain ⟨msg, hmsg⟩ := openEnvelope_short aes kek hlen
      cases hmsg.symm.trans hopen
  · rintro ⟨draws, w, e, hseal, rfl⟩
    obtain ⟨dek, n, ct, -, -, hencrypt, hwrap, rfl⟩ := sealEnvelope_eq_ok_iff.1 hseal
    have hw : w.length = wrappedDekBlock := h.length_wrap dek.toList_length hwrap
    rw [assemble_eq_bytes hw, openEnvelope_bytes, Layout.read_eq_ok_iff]
    exact ⟨rfl, rfl, dek, h.unwrap_eq_ok_iff.2 ⟨_, hwrap⟩, aes.decrypt_eq_some_iff.2 hencrypt⟩

end Codec

/-! ## With a file KEK -/

/-- Where the generator delivers, every plaintext that the cipher takes is sealed. -/
theorem exists_sealEnvelope (aes : Aes256Gcm) (kek : FileKek) (dek : List.Vector UInt8 keySize)
    (n kekNonce : List.Vector UInt8 nonceSize) (h : p.length ≤ aes.limit) :
    ∃ w e, sealEnvelope aes (kek.toKek aes) ⟨.ok dek, .ok n, .ok kekNonce⟩ p = .ok (w, e) := by
  obtain ⟨ct, hct⟩ := aes.exists_encrypt dek n h
  have hdek : dek.toList.length ≤ aes.limit := by
    rw [dek.toList_length]
    exact aes.keySize_le_limit
  obtain ⟨wct, hwct⟩ := aes.exists_encrypt kek.key kekNonce hdek
  have hwrap := FileKek.encryptWithKek_eq_ok_iff.2 ⟨kekNonce, wct, rfl, hwct, rfl⟩
  exact ⟨_, _, sealEnvelope_eq_ok_iff.2 ⟨dek, n, ct, rfl, rfl, hct, hwrap, rfl⟩⟩

/-- Under every file KEK: sealing succeeds, what was sealed is opened, nothing makes `open` panic, and
    nothing but an envelope assembled from a seal of `p` is opened as `p`. -/
theorem envelope_codec (aes : Aes256Gcm) (kek : FileKek) :
    (∀ dek n kekNonce p, p.length ≤ aes.limit →
      ∃ w e, sealEnvelope aes (kek.toKek aes) ⟨.ok dek, .ok n, .ok kekNonce⟩ p = .ok (w, e)) ∧
    (∀ draws p w e, sealEnvelope aes (kek.toKek aes) draws p = .ok (w, e) →
      openEnvelope aes (kek.toKek aes) (assemble w e) = .ok p) ∧
    (∀ raw, openEnvelope aes (kek.toKek aes) raw ≠ .panicked) ∧
    (∀ raw p, openEnvelope aes (kek.toKek aes) raw = .ok p →
      ∃ draws w e, sealEnvelope aes (kek.toKek aes) draws p = .ok (w, e) ∧ raw = assemble w e) := by
  have hfaithful := FileKek.faithful aes kek
  refine ⟨?_, ?_, ?_, ?_⟩
  · intro dek n kekNonce p hp
    exact exists_sealEnvelope aes kek dek n kekNonce hp
  · intro draws p w e hseal
    exact (openEnvelope_eq_ok_iff hfaithful).2 ⟨draws, w, e, hseal, rfl⟩
  · intro raw
    exact openEnvelope_ne_panicked hfaithful raw
  · intro raw p hopen
    exact (openEnvelope_eq_ok_iff hfaithful).1 hopen

/-- A key of zeros. -/
def zeroKek : FileKek := ⟨List.Vector.replicate 32 0⟩

/-- Three bytes sealed with zeros for randomness are opened, under the cipher that only appends a tag. -/
theorem envelope_codec_zeroKek :
    ∃ w e, sealEnvelope (Aead.tagOnly 32 nonceSize 16) (zeroKek.toKek (Aead.tagOnly 32 nonceSize 16))
        ⟨.ok (List.Vector.replicate 32 0), .ok (List.Vector.replicate nonceSize 0),
          .ok (List.Vector.replicate nonceSize 0)⟩ [1, 2, 3] = .ok (w, e) ∧
      openEnvelope (Aead.tagOnly 32 nonceSize 16) (zeroKek.toKek (Aead.tagOnly 32 nonceSize 16))
        (assemble w e) = .ok [1, 2, 3] := by
  obtain ⟨w, e, hseal⟩ := (envelope_codec (Aead.tagOnly 32 nonceSize 16) zeroKek).1
    (List.Vector.replicate 32 0) (List.Vector.replicate nonceSize 0) (List.Vector.replicate nonceSize 0)
    [1, 2, 3] (by decide)
  exact ⟨w, e, hseal, (envelope_codec (Aead.tagOnly 32 nonceSize 16) zeroKek).2.1 _ _ w e hseal⟩

end Tagsmaxxing.Envelope
