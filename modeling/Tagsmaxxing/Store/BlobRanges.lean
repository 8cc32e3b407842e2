import Tagsmaxxing.Store.LocalBlob

/-! # Range reads (`blob.rs`, `encrypted_blob.rs`)

`get_range(start, end)` on a local store without a KEK reads a part of the file; on a local store with a KEK and on an
`EncryptedBlob` it decrypts the whole blob and cuts the range out. The local stores return nothing for a range that
starts at or past the end. `EncryptedBlob` refuses it, unless the blob is empty and the range starts at 0
(`getRange_agree_iff`). -/

namespace Tagsmaxxing.EncryptedBlob

open Exec Envelope
open LocalBlob (Bytes)

/-! ## `EncryptedBlob` -/

/-- The store under an `EncryptedBlob`, on states `σ`. -/
structure Inner (σ : Type) where
  put : String → Bytes → σ → σ × Exec Unit
  get : String → σ → Exec Bytes

section
variable {σ ρ : Type} (inner : Inner σ) (aes : Aes256Gcm) (kek : KeyEncryptionKey ρ)

def put (draws : Draws ρ) (key : String) (data : Bytes) (s : σ) : σ × Exec Unit :=
  match context ("encryption failed for key `" ++ key ++ "`") (sealEnvelope aes kek draws data) with
  | .ok (wrappedDek, encryptedPayload) =>
      let (s, result) := inner.put key (assemble wrappedDek encryptedPayload) s
      (s, context ("inner put failed for encrypted key `" ++ key ++ "`") result)
  | .error msg => (s, .error msg)
  | .panicked => (s, .panicked)

def get (key : String) (s : σ) : Exec Bytes := do
  let raw ← context ("inner get failed for encrypted key `" ++ key ++ "`") (inner.get key s)
  context ("decryption failed for key `" ++ key ++ "`") (openEnvelope aes kek raw)

def getRange (key : String) (start stop : ℕ) (s : σ) : Exec Bytes := do
  let plaintext ← get inner aes kek key s
  let e := min stop plaintext.length
  if start = 0 ∧ e = 0 ∧ plaintext = [] then .ok []
  else
    ensure (start < plaintext.length ∧ e ≤ plaintext.length ∧ start ≤ e)
      ("invalid range [" ++ toString start ++ "," ++ toString stop ++ ") for blob `" ++ key ++ "` (length "
        ++ toString plaintext.length ++ ")")
    slice plaintext start e

end

/-! ## The bytes of a range -/

/-- `p[min(start, n)..min(end, n)]`, where `n` is the length of `p`. -/
def clamped (p : Bytes) (start stop : ℕ) : Bytes := (p.take (min stop p.length)).drop (min start p.length)

theorem clamped_of_length_le {p : Bytes} {start : ℕ} (h : p.length ≤ start) (stop : ℕ) : clamped p start stop = [] := by
  rw [clamped, min_eq_right h]
  exact List.drop_eq_nil_of_le (List.length_take_le' ..)

theorem clamped_of_stop_le {p : Bytes} {start stop : ℕ} (h : min stop p.length ≤ start) :
    clamped p start stop = [] := by
  refine List.drop_eq_nil_of_le ?_
  rw [List.length_take]
  omega

theorem slice_eq_clamped {p : Bytes} {start stop : ℕ} (hstart : start ≤ p.length) (h : start ≤ stop) :
    slice p start (min stop p.length) = .ok (clamped p start stop) := by
  rw [slice, if_pos ⟨le_min h hstart, min_le_right ..⟩, clamped, min_eq_left hstart]

/-! ## The three stores -/

section
variable {π : Type} {paths : LocalBlob.Paths π} {aes : Aes256Gcm} {key : String} {p : Bytes} {start stop : ℕ}
  {disk : LocalBlob.Disk π}

theorem localBlob_getRange_none (hget : LocalBlob.get paths aes none key disk = .ok p) (h : start ≤ stop) :
    LocalBlob.getRange paths aes none key start stop disk = .ok (clamped p start stop) := by
  simp only [LocalBlob.get, bind_eq_ok_iff, ofOption_eq_ok_iff] at hget
  obtain ⟨path, hpath, bytes, hread, hdecode⟩ := hget
  obtain rfl : bytes = p := Exec.ok.inj hdecode
  simp only [LocalBlob.getRange, hpath, hread, ok_bind, ofOption_some]
  split
  next hpast => rw [clamped_of_length_le hpast]
  next hin => rw [if_neg (by omega), slice_eq_clamped (by omega) h]

theorem localBlob_getRange_some {kek : FileKek} (hget : LocalBlob.get paths aes (some kek) key disk = .ok p)
    (h : start ≤ stop) :
    LocalBlob.getRange paths aes (some kek) key start stop disk = .ok (clamped p start stop) := by
  simp only [LocalBlob.getRange, hget, ok_bind]
  split
  next hempty => rw [clamped_of_stop_le hempty]
  next hin => exact slice_eq_clamped (by omega) h

variable {ρ σ : Type} {s : σ} {kek : KeyEncryptionKey ρ} {inner : Inner σ}

/-- An `EncryptedBlob` returns the range if it starts within the blob, or at its start. -/
theorem getRange_eq_ok_iff (hget : get inner aes kek key s = .ok p) (h : start ≤ stop) :
    getRange inner aes kek key start stop s = .ok (clamped p start stop) ↔ start = 0 ∨ start < p.length := by
  simp only [getRange, hget, ok_bind]
  split
  next hempty =>
    obtain ⟨rfl, -, rfl⟩ := hempty
    simp [clamped]
  next hnot =>
    by_cases hin : start < p.length
    · rw [ensure_of_true (by omega), ok_bind, slice_eq_clamped (le_of_lt hin) h]
      simp [hin]
    · -- a blob that the range does not start in is refused, if it is not empty
      rw [ensure, if_neg (by omega), error_bind]
      have hstart : start ≠ 0 := by
        rintro rfl
        have hnil : p = [] := List.length_eq_zero_iff.1 (by omega)
        exact hnot ⟨rfl, by simp [hnil], hnil⟩
      simp [hin, hstart]

/-- What was put is stored, if the inner store reads back what it was given. -/
theorem get_put (hkek : kek.Faithful) {draws : Draws ρ}
    (hinner : ∀ raw, (inner.put key raw s).2 = .ok () → inner.get key (inner.put key raw s).1 = .ok raw)
    (h : (put inner aes kek draws key p s).2 = .ok ()) :
    get inner aes kek key (put inner aes kek draws key p s).1 = .ok p := by
  unfold put at h ⊢
  cases hseal : sealEnvelope aes kek draws p with
  | error msg | panicked => simp [hseal, context] at h
  | ok sealed =>
    obtain ⟨w, e⟩ := sealed
    simp only [hseal, context_ok] at h ⊢
    have hopen := (openEnvelope_eq_ok_iff hkek).2 ⟨draws, w, e, hseal, rfl⟩
    rw [get, hinner _ (context_eq_ok_iff.1 h), context_ok, ok_bind, hopen, context_ok]

/-- A range of a blob that is stored in all three stores: they all return the same bytes iff the range starts within
    the blob, or at its start. -/
theorem getRange_agree_iff {π' σ ρ : Type} {paths' : LocalBlob.Paths π'} {fileKek : FileKek} {inner : Inner σ}
    {kek : KeyEncryptionKey ρ} {disk : LocalBlob.Disk π} {disk' : LocalBlob.Disk π'} {s : σ}
    (hplain : LocalBlob.get paths aes none key disk = .ok p)
    (hsealed : LocalBlob.get paths' aes (some fileKek) key disk' = .ok p)
    (hinner : get inner aes kek key s = .ok p) (h : start ≤ stop) :
    (LocalBlob.getRange paths aes none key start stop disk = .ok (clamped p start stop) ∧
      LocalBlob.getRange paths' aes (some fileKek) key start stop disk' = .ok (clamped p start stop) ∧
      getRange inner aes kek key start stop s = .ok (clamped p start stop)) ↔
      start = 0 ∨ start < p.length := by
  rw [getRange_eq_ok_iff hinner h]
  exact ⟨fun hall => hall.2.2, fun hrange =>
    ⟨localBlob_getRange_none hplain h, localBlob_getRange_some hsealed h, hrange⟩⟩

end

/-! ## Three bytes -/

/-- A store of one blob. -/
def oneBlob : Inner Bytes where
  put _ raw _ := (raw, .ok ())
  get _ raw := .ok raw

/-- Zeros for randomness. -/
def zeroDraws : Draws (Fill nonceSize) :=
  ⟨.ok (List.Vector.replicate 32 0), .ok (List.Vector.replicate nonceSize 0), .ok (List.Vector.replicate nonceSize 0)⟩

/-- Three bytes, put into an `EncryptedBlob`. -/
def threeBytes : Bytes × Exec Unit :=
  put oneBlob (Aead.tagOnly ..) (zeroKek.toKek (Aead.tagOnly ..)) zeroDraws "k" [1, 2, 3] []

/-- The last byte of three, from all three stores. -/
theorem getRange_agree_last :
    LocalBlob.getRange LocalBlob.flat (Aead.tagOnly ..) none "k" 2 9 (fun _ => some (.file [1, 2, 3])) = .ok [3] ∧
      LocalBlob.getRange LocalBlob.flat (Aead.tagOnly ..) (some zeroKek) "k" 2 9
        (fun _ => some (.file [1, 2, 3])) = .ok [3] ∧
      getRange oneBlob (Aead.tagOnly ..) (zeroKek.toKek (Aead.tagOnly ..)) "k" 2 9 threeBytes.1 = .ok [3] :=
  (getRange_agree_iff (p := [1, 2, 3]) (by decide) (by decide)
    (get_put (FileKek.faithful _ zeroKek) (fun _ _ => rfl) (by decide +kernel)) (by decide)).2 (.inr (by decide))

/-- The empty range at the end of three bytes: a local store returns it, an `EncryptedBlob` an error. -/
theorem getRange_at_end_refused :
    threeBytes.2 = .ok () ∧
      LocalBlob.getRange LocalBlob.flat (Aead.tagOnly ..) none "k" 3 3 (fun _ => some (.file [1, 2, 3])) = .ok [] ∧
      getRange oneBlob (Aead.tagOnly ..) (zeroKek.toKek (Aead.tagOnly ..)) "k" 3 3 threeBytes.1 =
        .error "invalid range [3,3) for blob `k` (length 3)" := by
  decide +kernel

end Tagsmaxxing.EncryptedBlob
