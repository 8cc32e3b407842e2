import Tagsmaxxing.Lib.Aead
import Tagsmaxxing.Lib.Exec

/-! # Key encryption keys (`kek.rs`)

A KEK wraps and unwraps data encryption keys. `FileKek` is the implementation that holds an AES-256 key;
its `wrap` puts a random nonce in front of the ciphertext, and its `unwrap` takes it from there. The cipher
is a parameter, and so is what the random generator fills an array with. `Faithful` is what a user of a KEK
relies on; `FileKek.faithful` proves it. -/

namespace Tagsmaxxing

open Exec

def nonceSize : ℕ := 12

/-- AES-256-GCM: the sizes of its keys, nonces and tags. -/
abbrev Aes256Gcm : Type := Aead 32 nonceSize 16

/-- What `SysRng::try_fill_bytes` does to an array: the bytes, or the generator's error. -/
abbrev Fill (n : ℕ) : Type := Except String (List.Vector UInt8 n)

/-- The array after a fill; `what` is the message its error is given. -/
def filled {n : ℕ} (what : String) : Fill n → Exec (List.Vector UInt8 n)
  | .ok bytes => .ok bytes
  | .error e => .error (what ++ e)

/-- `KeyEncryptionKey`; `ρ` is the randomness a `wrap` consumes. -/
structure KeyEncryptionKey (ρ : Type) where
  wrap : ρ → List UInt8 → Exec (List UInt8)
  unwrap : List UInt8 → Exec (List UInt8)

structure FileKek where
  key : List.Vector UInt8 32

namespace FileKek

def encryptWithKek (aes : Aes256Gcm) (kek : FileKek) (nonceBytes : Fill nonceSize) (plaintext : List UInt8) :
    Exec (List UInt8) := do
  let nonce ← filled "failed to generate KEK nonce: " nonceBytes
  let ct ← ofOption "KEK wrap failed: aead::Error" (aes.encrypt kek.key nonce plaintext)
  return nonce.toList ++ ct

def decryptWithKek (aes : Aes256Gcm) (kek : FileKek) (wrapped : List UInt8) : Exec (List UInt8) := do
  ensure (nonceSize + 16 ≤ wrapped.length)
    ("wrapped data too short for AES-256-GCM: " ++ toString wrapped.length ++
      " bytes (need at least nonce+tag)")
  let nonce ← toArray nonceSize (← slice wrapped 0 nonceSize)
  let ctAndTag ← slice wrapped nonceSize wrapped.length
  ofOption "KEK unwrap failed (wrong key or corrupted data): aead::Error" (aes.decrypt kek.key nonce ctAndTag)

/-- `impl KeyEncryptionKey for FileKek`. -/
def toKek (aes : Aes256Gcm) (kek : FileKek) : KeyEncryptionKey (Fill nonceSize) where
  wrap := kek.encryptWithKek aes
  unwrap := kek.decryptWithKek aes

end FileKek

/-! ## What a KEK is relied on for -/

/-- `unwrap` never panics and returns exactly what was wrapped, and a wrapped key has 60 bytes. -/
structure KeyEncryptionKey.Faithful {ρ : Type} (kek : KeyEncryptionKey ρ) : Prop where
  unwrap_eq_ok_iff : ∀ {w d : List UInt8}, kek.unwrap w = .ok d ↔ ∃ r, kek.wrap r d = .ok w
  unwrap_ne_panicked : ∀ w, kek.unwrap w ≠ .panicked
  length_wrap : ∀ {r : ρ} {d w : List UInt8}, d.length = 32 → kek.wrap r d = .ok w → w.length = 60

theorem filled_eq_ok_iff {n : ℕ} {what : String} {x : Fill n} {v : List.Vector UInt8 n} :
    filled what x = .ok v ↔ x = .ok v := by
  cases x with
  | ok a | error e => simp [filled]

namespace FileKek

variable {aes : Aes256Gcm} {kek : FileKek} {w : List UInt8}

/-- A wrapped key is a nonce and a ciphertext under it. -/
theorem encryptWithKek_eq_ok_iff {r : Fill nonceSize} {d : List UInt8} : kek.encryptWithKek aes r d = .ok w ↔
      ∃ n ct, r = .ok n ∧ aes.encrypt kek.key n d = some ct ∧ w = n.toList ++ ct := by
  simp only [encryptWithKek, bind_eq_ok_iff, filled_eq_ok_iff, ofOption_eq_ok_iff, pure_eq_ok, Exec.ok.injEq]
  constructor
  · rintro ⟨n, hn, ct, hct, rfl⟩
    exact ⟨n, ct, hn, hct, rfl⟩
  · rintro ⟨n, ct, hn, hct, rfl⟩
    exact ⟨n, hn, ct, hct, rfl⟩

/-- What `decrypt_with_kek` makes of a nonce and at least a tag. -/
theorem decryptWithKek_append (n : List.Vector UInt8 nonceSize) {ct : List UInt8} (h : 16 ≤ ct.length) :
    kek.decryptWithKek aes (n.toList ++ ct) =
      ofOption "KEK unwrap failed (wrong key or corrupted data): aead::Error" (aes.decrypt kek.key n ct) := by
  have hn : n.toList.length = nonceSize := n.toList_length
  have hlen : nonceSize + 16 ≤ (n.toList ++ ct).length := by
    rw [List.length_append, hn]
    omega
  have hnonce : slice (n.toList ++ ct) 0 nonceSize = .ok n.toList :=
    slice_append [] n.toList ct rfl (by rw [hn, Nat.zero_add])
  have hct : slice (n.toList ++ ct) nonceSize (n.toList ++ ct).length = .ok ct := by
    have hend : nonceSize + ct.length = (n.toList ++ ct).length := by rw [List.length_append, hn]
    have hcut := slice_append n.toList ct [] hn hend
    rwa [List.append_nil] at hcut
  rw [decryptWithKek, ensure_of_true hlen]
  simp only [ok_bind, hnonce, hct, toArray_toList]

variable (aes : Aes256Gcm) (kek : FileKek)

theorem decryptWithKek_short (h : ¬nonceSize + 16 ≤ w.length) : ∃ msg, kek.decryptWithKek aes w = .error msg := by
  rw [decryptWithKek, ensure, if_neg h]
  exact ⟨_, rfl⟩

/-- A text of at least a nonce and a tag is a nonce and at least a tag. -/
theorem exists_nonce (h : nonceSize + 16 ≤ w.length) :
    ∃ (n : List.Vector UInt8 nonceSize) (ct : List UInt8), w = n.toList ++ ct ∧ 16 ≤ ct.length := by
  obtain ⟨n, ct, rfl⟩ := exists_vector_append (Nat.le_of_add_right_le h)
  rw [List.length_append, n.toList_length] at h
  exact ⟨n, ct, rfl, Nat.le_of_add_le_add_left h⟩

theorem faithful : (kek.toKek aes).Faithful where
  unwrap_eq_ok_iff := by
    intro w d
    show kek.decryptWithKek aes w = .ok d ↔ ∃ r, kek.encryptWithKek aes r d = .ok w
    constructor
    · intro h
      by_cases hlen : nonceSize + 16 ≤ w.length
      · obtain ⟨n, ct, rfl, hct⟩ := exists_nonce hlen
        rw [decryptWithKek_append n hct, ofOption_eq_ok_iff, aes.decrypt_eq_some_iff] at h
        exact ⟨.ok n, encryptWithKek_eq_ok_iff.2 ⟨n, ct, rfl, h, rfl⟩⟩
      · obtain ⟨msg, hmsg⟩ := decryptWithKek_short aes kek hlen
        cases hmsg.symm.trans h
    · rintro ⟨r, h⟩
      obtain ⟨n, ct, -, hct, rfl⟩ := encryptWithKek_eq_ok_iff.1 h
      have hlen := aes.length_encrypt hct
      rw [decryptWithKek_append n (by omega), ofOption_eq_ok_iff]
      exact aes.decrypt_eq_some_iff.2 hct
  unwrap_ne_panicked := by
    intro w
    show kek.decryptWithKek aes w ≠ .panicked
    by_cases hlen : nonceSize + 16 ≤ w.length
    · obtain ⟨n, ct, rfl, hct⟩ := exists_nonce hlen
      rw [decryptWithKek_append n hct]
      exact ofOption_ne_panicked _ _
    · obtain ⟨msg, hmsg⟩ := decryptWithKek_short aes kek hlen
      rw [hmsg]
      simp
  length_wrap := by
    intro r d w hd h
    obtain ⟨n, ct, -, hct, rfl⟩ := encryptWithKek_eq_ok_iff.1 h
    rw [List.length_append, n.toList_length, aes.length_encrypt hct, hd]
    rfl

end FileKek

end Tagsmaxxing
