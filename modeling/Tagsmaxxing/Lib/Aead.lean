import Mathlib.Data.Vector.Basic

/-! # Authenticated encryption

The interface of an authenticated cipher, idealised: decryption returns a plaintext exactly for the
ciphertexts that encryption makes of it under the same key and nonce. A ciphertext is longer than its
plaintext by the tag, and the cipher refuses plaintexts above a limit of its own. -/

/-- An authenticated cipher with keys, nonces and tags of fixed sizes. -/
structure Aead (keySize nonceSize tagSize : ℕ) where
  encrypt : List.Vector UInt8 keySize → List.Vector UInt8 nonceSize → List UInt8 → Option (List UInt8)
  decrypt : List.Vector UInt8 keySize → List.Vector UInt8 nonceSize → List UInt8 → Option (List UInt8)
  limit : ℕ
  /-- Every key can be encrypted in turn. -/
  keySize_le_limit : keySize ≤ limit
  isSome_encrypt : ∀ k n p, (encrypt k n p).isSome ↔ p.length ≤ limit
  length_encrypt : ∀ {k n p c}, encrypt k n p = some c → c.length = p.length + tagSize
  decrypt_eq_some_iff : ∀ {k n p c}, decrypt k n c = some p ↔ encrypt k n p = some c

namespace Aead

variable {keySize nonceSize tagSize : ℕ}

theorem exists_encrypt (aead : Aead keySize nonceSize tagSize) (k : List.Vector UInt8 keySize)
    (n : List.Vector UInt8 nonceSize) {p : List UInt8} (h : p.length ≤ aead.limit) :
    ∃ c, aead.encrypt k n p = some c :=
  Option.isSome_iff_exists.1 ((aead.isSome_encrypt k n p).2 h)

/-- The cipher that appends a tag of zeros and encrypts nothing has the interface. -/
def tagOnly (keySize nonceSize tagSize : ℕ) : Aead keySize nonceSize tagSize where
  encrypt _ _ p := if p.length ≤ keySize then some (p ++ List.replicate tagSize 0) else none
  decrypt _ _ c :=
    let p := c.take (c.length - tagSize)
    if p.length ≤ keySize ∧ c = p ++ List.replicate tagSize 0 then some p else none
  limit := keySize
  keySize_le_limit := le_refl _
  isSome_encrypt := by
    intro _ _ p
    split <;> simp_all
  length_encrypt := by
    intro _ _ p c h
    split at h
    · cases h
      simp
    · exact absurd h (by simp)
  decrypt_eq_some_iff := by
    intro _ _ p c
    simp only [Option.ite_none_right_eq_some, Option.some.injEq]
    constructor
    · rintro ⟨⟨hle, hc⟩, rfl⟩
      exact ⟨hle, hc.symm⟩
    · rintro ⟨hle, rfl⟩
      have htake : (p ++ List.replicate tagSize (0 : UInt8)).take
          ((p ++ List.replicate tagSize (0 : UInt8)).length - tagSize) = p := by
        simp
      rw [htake]
      exact ⟨⟨hle, rfl⟩, rfl⟩

end Aead
