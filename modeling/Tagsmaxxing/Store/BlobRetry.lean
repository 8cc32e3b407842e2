import Tagsmaxxing.Store.LocalBlob

/-! # Retrying a failed put of the local blob store

A `put` creates its file under the final name and writes into it, so a failed write leaves a part of the bytes where
the next `put` looks for a finished blob. The retry then returns without writing, and `get` reads the part.
(`streaming_put` writes to a temporary file and renames it.) `retry_reads_iff` says which failures can be retried: those
that leave nothing behind, or the whole of the bytes, if the retry does not lose its own write. -/

namespace Tagsmaxxing.LocalBlob

open Exec Envelope

section
variable {π : Type} [DecidableEq π] {paths : Paths π} {aes : Aes256Gcm} {kek : Option FileKek} {key : String}
  {data : Bytes} {disk : Disk π} {fault : Option PutFailure} {draws : Draws (Fill nonceSize)}

/-- After a put that returned `Ok`, the data are read if it found nothing and lost nothing, or found a file that
    holds them. -/
theorem get_put_iff (hok : (put paths aes kek fault draws key data disk).2 = .ok ()) :
    get paths aes kek key (put paths aes kek fault draws key data disk).1 = .ok data ↔
      (∀ node, disk (paths.resolve key) = some node → ∃ bytes, node = .file bytes ∧ Holds aes kek data bytes) ∧
        ¬(disk (paths.resolve key) = none ∧ Loses kek data fault) := by
  have hkey := traversal_of_put_ok hok
  cases hnode : disk (paths.resolve key) with
  | none =>
    obtain ⟨bytes, hbytes, hfile⟩ := put_ok_of_none hnode hok
    simp [get_eq_ok_iff hkey hfile, decode_kept_iff hbytes]
  | some node =>
    rw [put_of_some hnode]
    simp [get_eq_ok_iff hkey hnode, decode_eq_ok_iff_holds]

/-! ## What a failed put leaves -/

theorem toStore_error {msg : String} (h : toStore aes kek draws key data = .error msg) : firstByte msg = some 0x65 := by
  cases kek with
  | none => cases h
  | some kek =>
    simp only [toStore] at h
    cases hseal : sealEnvelope aes (kek.toKek aes) draws data with
    | ok sealed => simp [hseal] at h
    | panicked => simp [hseal, context] at h
    | error e =>
      rw [hseal, context, error_bind] at h
      rw [← Exec.error.inj h]
      have hhead : firstByte "envelope encryption failed for key `" = some 0x65 := by decide
      exact firstByte_append (firstByte_append hhead key) _

/-- A put that fails at a step of the file system leaves its path alone, up to what the step has written. -/
theorem put_failed {f : PutFailure} (h : (put paths aes kek (some f) draws key data disk).2 = .error (f.error key)) :
    traversal key = false ∧
      (f.written = none ∧
          (put paths aes kek (some f) draws key data disk).1 (paths.resolve key) = disk (paths.resolve key) ∨
        disk (paths.resolve key) = none ∧ ∃ n bytes, f.written = some n ∧ toStore aes kek draws key data = .ok bytes ∧
          (put paths aes kek (some f) draws key data disk).1 (paths.resolve key) = some (.file (bytes.take n))) := by
  have hfirst := firstByte_error f key
  cases hpath : blobPath paths (some f) key with
  | panicked => simp [put, hpath] at h
  | error msg =>
    simp only [put, hpath] at h ⊢
    by_cases hkey : traversal key = false
    · refine ⟨hkey, .inl ⟨?_, trivial⟩⟩
      cases f with
      | prefixDir | canonicalize => rfl
      | dirs made | create | write written | sync written => simp [blobPath, hkey] at hpath
    · have hmsg : msg = "invalid blob key: path traversal rejected" := by
        simpa [blobPath, ensure, hkey] using hpath.symm
      rw [← Exec.error.inj h, hmsg] at hfirst
      exact absurd hfirst (by decide)
  | ok path =>
    obtain ⟨hkey, hmade, hcanonical, rfl⟩ := blobPath_eq_ok_iff.1 hpath
    refine ⟨hkey, ?_⟩
    simp only [put, hpath] at h ⊢
    cases hnode : disk (paths.resolve key) with
    | some node => simp [hnode] at h
    | none =>
      simp only [hnode, Option.isSome_none, Bool.false_eq_true, if_false] at h ⊢
      cases hbytes : toStore aes kek draws key data with
      | panicked => simp [hbytes] at h
      | error msg =>
        have hmsg : Exec.error msg = (.error (f.error key) : Exec Unit) := by simpa only [hbytes] using h
        rw [← Exec.error.inj hmsg, toStore_error hbytes] at hfirst
        exact absurd hfirst (by decide)
      | ok bytes =>
        simp only [hbytes] at h ⊢
        have hleft := store_failed (by simpa using hmade) (by simpa using hcanonical) hnode h
        cases hwritten : f.written with
        | none => exact .inl ⟨rfl, by rw [hleft, hwritten]; rfl⟩
        | some n => exact .inr ⟨trivial, n, bytes, rfl, rfl, by rw [hleft, hwritten]; rfl⟩

/-- A put that failed at a step of the file system, and a later one that returned `Ok`, with anything done elsewhere in
    between: the data are read iff what was at the path at first, if anything, holds the data, the step that failed did
    not leave a part of the bytes there, and the later put, if it found nothing, did not lose a part. -/
theorem retry_reads_iff {f : PutFailure} {fault : Option PutFailure} {draws draws' : Draws (Fill nonceSize)}
    {later : Disk π} (h : (put paths aes kek (some f) draws key data disk).2 = .error (f.error key))
    (hlater : later (paths.resolve key) = (put paths aes kek (some f) draws key data disk).1 (paths.resolve key))
    (hok : (put paths aes kek fault draws' key data later).2 = .ok ()) :
    get paths aes kek key (put paths aes kek fault draws' key data later).1 = .ok data ↔
      (∀ node, disk (paths.resolve key) = some node → ∃ bytes, node = .file bytes ∧ Holds aes kek data bytes) ∧
        ¬f.leavesPart kek data ∧ ¬(later (paths.resolve key) = none ∧ Loses kek data fault) := by
  rw [get_put_iff hok]
  obtain ⟨-, ⟨hwritten, hleft⟩ | ⟨hfree, n, bytes, hwritten, hbytes, hleft⟩⟩ := put_failed h
  · have hpart : ¬f.leavesPart kek data := by simp [PutFailure.leavesPart, hwritten]
    rw [hlater, hleft, and_iff_right hpart]
  · rw [not_leavesPart_iff hwritten hbytes, decode_eq_ok_iff_holds, hlater, hleft, hfree]
    simp

/-- Without a KEK, a sync that fails after one byte of three: the retry returns `Ok` and the blob stays one byte. So it
    does if nothing was left behind, and one byte is all that the retry can write: nobody reports that. -/
theorem retry_keeps_part :
    (put flat (Aead.tagOnly ..) none (some (.sync 1)) noDraws "k" [1, 2, 3] fun _ => none).2 =
        .error "failed to sync blob at key `k`" ∧
      (put flat (Aead.tagOnly ..) none none noDraws "k" [1, 2, 3]
        (put flat (Aead.tagOnly ..) none (some (.sync 1)) noDraws "k" [1, 2, 3] fun _ => none).1).2 = .ok () ∧
      get flat (Aead.tagOnly ..) none "k" (put flat (Aead.tagOnly ..) none none noDraws "k" [1, 2, 3]
        (put flat (Aead.tagOnly ..) none (some (.sync 1)) noDraws "k" [1, 2, 3] fun _ => none).1).1 = .ok [1] ∧
    (put flat (Aead.tagOnly ..) none (some (.write 1)) noDraws "k" [1, 2, 3] fun _ => none).2 = .ok () ∧
      get flat (Aead.tagOnly ..) none "k"
        (put flat (Aead.tagOnly ..) none (some (.write 1)) noDraws "k" [1, 2, 3] fun _ => none).1 = .ok [1] := by
  decide +kernel

theorem retry_reads_after_create :
    get flat (Aead.tagOnly ..) none "k" (put flat (Aead.tagOnly ..) none none noDraws "k" [1, 2, 3]
      (put flat (Aead.tagOnly ..) none (some .create) noDraws "k" [1, 2, 3] fun _ => none).1).1 = .ok [1, 2, 3] :=
  (@retry_reads_iff _ _ flat (Aead.tagOnly ..) none "k" [1, 2, 3] (fun _ => none) .create none noDraws noDraws _
    (by decide) rfl (by decide)).2 ⟨by simp, by simp [PutFailure.leavesPart, PutFailure.written], by simp [Loses]⟩

end

end Tagsmaxxing.LocalBlob
