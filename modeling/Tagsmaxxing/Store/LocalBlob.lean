import Tagsmaxxing.Store.Envelope

/-! # The local blob store (`blob.rs`)

`LocalBlob` keeps each blob in a file below its prefix directory. With a key encryption key (KEK) configured, `put`
stores an envelope instead of the bytes, and `get` opens what starts like one. A `put` first asks whether anything is
at its path and, if so, leaves it at that. The file is a `tokio::fs::File`, which writes in the background: a write
that fails is reported by the next one, and one that fails in the last buffer by nobody, so that `put` returns `Ok`.

How a key is resolved to a place in the file system is a parameter (`Paths`): two keys may name the same file, and a
path has the directories above it. The KEK is the one that `LocalBlob::new` reads from the environment, a `FileKek`. -/

namespace Tagsmaxxing.LocalBlob

open Exec Envelope

abbrev Bytes := List UInt8

/-! ## The disk -/

/-- What is at a path. -/
inductive Node
  | dir
  | file (bytes : Bytes)
deriving DecidableEq

/-- How the file system resolves the keys below the prefix directory. -/
structure Paths (π : Type) where
  resolve : String → π
  /-- the directories between the prefix directory and a path -/
  parents : π → List π
  not_mem_parents : ∀ path, path ∉ parents path

/-- Keys that are names in the prefix directory. -/
def flat : Paths String where
  resolve key := key
  parents _ := []
  not_mem_parents _ := List.not_mem_nil

section
variable {π : Type}

abbrev Disk (π : Type) := π → Option Node

/-- The bytes of a file. -/
def Disk.read (disk : Disk π) (path : π) : Option Bytes :=
  match disk path with
  | some (.file bytes) => some bytes
  | _ => none

/-- Make the directories that are missing. -/
def Disk.mkdirs [DecidableEq π] (disk : Disk π) (dirs : List π) : Disk π :=
  fun path => if path ∈ dirs ∧ disk path = none then some .dir else disk path

end

/-! ## Keys -/

/-- `key.contains("..")`. -/
def containsDots : List Char → Bool
  | '.' :: '.' :: _ => true
  | _ :: cs => containsDots cs
  | [] => false

/-- Keys that `blob_path` refuses. -/
def traversal (key : String) : Bool :=
  containsDots key.toList || key.toList.head? == some '/' || key.toList.head? == some '\\'

/-- The file-system step of a `put` that fails. A failed write or sync may leave any part of the bytes from the
    start of the file; of the parent directories, some may have been made. -/
inductive PutFailure
  | prefixDir
  | canonicalize
  | dirs (made : ℕ)
  | create
  | write (written : ℕ)
  | sync (written : ℕ)
deriving DecidableEq

/-- The size of the buffers in which a `tokio::fs::File` writes. -/
def maxBufSize : ℕ := 2 * 1024 * 1024

/-- Whether a write of `len` bytes that fails after `written` of them is reported: by the write of the next buffer.
    `sync_all` waits for the last one, and keeps its error to itself. -/
def writeReported (len written : ℕ) : Bool := decide ((written / maxBufSize + 1) * maxBufSize < len)

/-- The error of a `put` of the key that fails at the step. -/
def PutFailure.error (key : String) : PutFailure → String
  | .prefixDir => "failed to create prefix directory for blob storage"
  | .canonicalize => "failed to resolve prefix directory"
  | .dirs _ => "failed to create parent directories for blob at key `" ++ key ++ "`"
  | .create => "failed to create blob file at key `" ++ key ++ "`"
  | .write _ => "failed to write blob at key `" ++ key ++ "`"
  | .sync _ => "failed to sync blob at key `" ++ key ++ "`"

section
variable {π : Type} (paths : Paths π)

def blobPath (fault : Option PutFailure) (key : String) : Exec π := do
  ensure (traversal key = false) "invalid blob key: path traversal rejected"
  ensure (fault ≠ some .prefixDir) (PutFailure.prefixDir.error key)
  ensure (fault ≠ some .canonicalize) (PutFailure.canonicalize.error key)
  return paths.resolve key

/-! ## Operations -/

variable (aes : Aes256Gcm) (kek : Option FileKek)

def isEnvelope (raw : Bytes) : Bool := decide (3 ≤ raw.length) && raw.take 3 == magic

/-- The bytes to store: an envelope if a KEK is provisioned. -/
def toStore (draws : Draws (Fill nonceSize)) (key : String) (data : Bytes) : Exec Bytes :=
  match kek with
  | some kek => do
      let (wrappedDek, encryptedPayload) ← context ("envelope encryption failed for key `" ++ key ++ "`")
        (sealEnvelope aes (kek.toKek aes) draws data)
      return assemble wrappedDek encryptedPayload
  | none => .ok data

/-- The random draws of a `put` that does not get to them. -/
def noDraws : Draws (Fill nonceSize) := ⟨.error "", .error "", .error ""⟩

variable [DecidableEq π]

/-- `LocalBlob::put`, from the creation of the parent directories on. -/
def store (fault : Option PutFailure) (key : String) (path : π) (bytes : Bytes) (disk : Disk π) : Disk π × Exec Unit :=
  let parents := paths.parents path
  match fault with
  | some (.dirs made) => (disk.mkdirs (parents.take made), .error ((PutFailure.dirs made).error key))
  | _ =>
      -- a file where a directory should be
      if parents.any fun dir => (disk.read dir).isSome then (disk, .error ((PutFailure.dirs 0).error key))
      else
        let disk := disk.mkdirs parents
        match fault with
        | some .create => (disk, .error (PutFailure.create.error key))
        | some (.write written) =>
            (Function.update disk path (some (.file (bytes.take written))),
              if writeReported bytes.length written then .error ((PutFailure.write written).error key) else .ok ())
        | some (.sync written) =>
            (Function.update disk path (some (.file (bytes.take written))),
              .error ((PutFailure.sync written).error key))
        | _ => (Function.update disk path (some (.file bytes)), .ok ())

def put (fault : Option PutFailure) (draws : Draws (Fill nonceSize)) (key : String) (data : Bytes) (disk : Disk π) :
    Disk π × Exec Unit :=
  match blobPath paths fault key with
  | .ok path =>
      if (disk path).isSome then (disk, .ok ())
      else
        match toStore aes kek draws key data with
        | .ok bytes => store paths fault key path bytes disk
        | .error msg => (disk, .error msg)
        | .panicked => (disk, .panicked)
  | .error msg => (disk, .error msg)
  | .panicked => (disk, .panicked)

omit [DecidableEq π] in
/-- What `get` makes of the bytes of a file: envelopes are opened if there is a KEK. -/
def decode (key : String) (data : Bytes) : Exec Bytes :=
  match kek with
  | some kek =>
      if isEnvelope data then
        context ("envelope decryption failed for key `" ++ key ++ "`") (openEnvelope aes (kek.toKek aes) data)
      else .ok data
  | none => .ok data

omit [DecidableEq π] in
def get (key : String) (disk : Disk π) : Exec Bytes := do
  let path ← blobPath paths none key
  let data ← ofOption ("failed to read blob at key `" ++ key ++ "`") (disk.read path)
  decode aes kek key data

omit [DecidableEq π] in
/-- `LocalBlob::get_range`. Without a KEK, a range that ends before it starts is an arithmetic overflow. -/
def getRange (key : String) (start stop : ℕ) (disk : Disk π) : Exec Bytes :=
  match kek with
  | some _ => do
      let plaintext ← get paths aes kek key disk
      let e := min stop plaintext.length
      if e ≤ start then .ok [] else slice plaintext start e
  | none => do
      let path ← blobPath paths none key
      let file ← ofOption ("failed to open blob at key `" ++ key ++ "` for range read") (disk.read path)
      if file.length ≤ start then .ok []
      else
        let e := min stop file.length
        if e < start then .panicked else slice file start e

end

/-! ## What is stored is read back -/

/-- The file holds the data, as it is or sealed with the KEK. -/
def Holds (aes : Aes256Gcm) (kek : Option FileKek) (data bytes : Bytes) : Prop :=
  match kek with
  | none => bytes = data
  | some kek =>
      isEnvelope bytes = false ∧ bytes = data ∨
        ∃ draws w e, sealEnvelope aes (kek.toKek aes) draws data = .ok (w, e) ∧ bytes = assemble w e

section
variable {aes : Aes256Gcm} {kek : Option FileKek} {raw : Bytes}

/-- Three bytes of an envelope are enough to look like one. -/
theorem isEnvelope_take_assemble (w e : Bytes) (n : ℕ) :
    isEnvelope ((assemble w e).take n) = decide (3 ≤ n) := by
  have hbytes : assemble w e = 0x45 :: 0x42 :: 0x6c :: (version :: (w ++ e)) := by simp [assemble, magic]
  rw [hbytes]
  rcases n with - | - | - | n
  · rfl
  · rfl
  · rfl
  · simp [isEnvelope, magic]

theorem isEnvelope_assemble (w e : Bytes) : isEnvelope (assemble w e) = true := by
  simp [isEnvelope, assemble, magic]

theorem take_assemble {n : ℕ} (hn : n ≤ 3) (w e : Bytes) : (assemble w e).take n = magic.take n := by
  rw [assemble, List.append_assoc, List.append_assoc, List.take_append_of_le_length hn]

/-- How many bytes are stored for the data. -/
def storedLength (kek : Option FileKek) (data : Bytes) : ℕ :=
  match kek with
  | some _ => headerSize + (data.length + tagSize)
  | none => data.length

theorem length_of_openEnvelope {kek : FileKek} {p : Bytes}
    (h : openEnvelope aes (kek.toKek aes) raw = .ok p) : raw.length = headerSize + (p.length + tagSize) := by
  have hfaithful := FileKek.faithful aes kek
  obtain ⟨draws, w, e, hseal, rfl⟩ := (openEnvelope_eq_ok_iff hfaithful).1 h
  obtain ⟨dek, n, ct, -, -, hct, hwrap, rfl⟩ := sealEnvelope_eq_ok_iff.1 hseal
  have hw : w.length = wrappedDekBlock := hfaithful.length_wrap dek.toList_length hwrap
  have hlength : ct.length = p.length + tagSize := aes.length_encrypt hct
  rw [assemble_eq_bytes hw, Layout.length_bytes, hlength]

variable {draws : Draws (Fill nonceSize)} {data bytes : Bytes} {key : String}

theorem toStore_some_eq_ok_iff {kek : FileKek} :
    toStore aes (some kek) draws key data = .ok bytes ↔
      ∃ w e, sealEnvelope aes (kek.toKek aes) draws data = .ok (w, e) ∧ bytes = assemble w e := by
  rw [toStore, bind_eq_ok_iff]
  constructor
  · rintro ⟨⟨w, e⟩, hseal, hbytes⟩
    exact ⟨w, e, context_eq_ok_iff.1 hseal, (Exec.ok.inj hbytes).symm⟩
  · rintro ⟨w, e, hseal, rfl⟩
    exact ⟨(w, e), context_eq_ok_iff.2 hseal, rfl⟩

theorem decode_some_eq_ok_iff {kek : FileKek} : decode aes (some kek) key raw = .ok data ↔
      isEnvelope raw = true ∧ openEnvelope aes (kek.toKek aes) raw = .ok data ∨
        isEnvelope raw = false ∧ raw = data := by
  simp only [decode]
  split
  next h => simp [h, context_eq_ok_iff]
  next h => simp [h]

section

variable (h : toStore aes kek draws key data = .ok bytes)

include h

theorem decode_toStore :
    decode aes kek key bytes = .ok data := by
  cases kek with
  | none =>
    cases h
    rfl
  | some kek =>
    obtain ⟨w, e, hseal, rfl⟩ := toStore_some_eq_ok_iff.1 h
    refine decode_some_eq_ok_iff.2 (.inl ⟨isEnvelope_assemble w e, ?_⟩)
    exact (openEnvelope_eq_ok_iff (FileKek.faithful aes kek)).2 ⟨draws, w, e, hseal, rfl⟩

theorem length_toStore :
    bytes.length = storedLength kek data := by
  cases kek with
  | none =>
    cases h
    rfl
  | some kek =>
    obtain ⟨w, e, hseal, rfl⟩ := toStore_some_eq_ok_iff.1 h
    have hopen := (openEnvelope_eq_ok_iff (FileKek.faithful aes kek)).2 ⟨draws, w, e, hseal, rfl⟩
    exact length_of_openEnvelope hopen

/-- A part of what is stored reads back as the data only if it is the whole, or so short that it is taken for
    plaintext and happens to be the data. -/
theorem decode_take_iff (n : ℕ) :
    decode aes kek key (bytes.take n) = .ok data ↔
      storedLength kek data ≤ n ∨ kek.isSome = true ∧ n < 3 ∧ magic.take n = data := by
  have hlength := length_toStore h
  by_cases hwhole : storedLength kek data ≤ n
  · rw [List.take_of_length_le (by omega)]
    exact iff_of_true (decode_toStore h) (.inl hwhole)
  cases kek with
  | none =>
    cases h
    refine iff_of_false (fun hdecode => ?_) (by simp [hwhole])
    have := congrArg List.length (Exec.ok.inj hdecode)
    rw [List.length_take] at this
    simp only [storedLength] at hwhole
    omega
  | some kek =>
    obtain ⟨w, e, -, rfl⟩ := toStore_some_eq_ok_iff.1 h
    rw [decode_some_eq_ok_iff, isEnvelope_take_assemble]
    simp only [hwhole, false_or, Option.isSome_some, true_and, decide_eq_true_eq, decide_eq_false_iff_not, not_le]
    by_cases hshort : n < 3
    · simp [hshort, take_assemble (le_of_lt hshort)]
    · -- it looks like an envelope, and is too short for one of the data
      refine iff_of_false ?_ (fun hplain => hshort hplain.1)
      rintro (⟨-, hopen⟩ | ⟨hplain, -⟩)
      · have hfull := length_of_openEnvelope hopen
        rw [List.length_take] at hfull
        simp only [storedLength] at hwhole hlength
        omega
      · exact hshort hplain

end

theorem decode_eq_ok_iff_holds (key : String) :
    decode aes kek key bytes = .ok data ↔ Holds aes kek data bytes := by
  cases kek with
  | none => simp [decode, Holds]
  | some kek =>
    rw [decode_some_eq_ok_iff, openEnvelope_eq_ok_iff (FileKek.faithful aes kek), Holds]
    constructor
    · rintro (⟨-, hseal⟩ | hplain)
      · exact .inr hseal
      · exact .inl hplain
    · rintro (hplain | ⟨draws, w, e, hseal, rfl⟩)
      · exact .inr hplain
      · exact .inl ⟨isEnvelope_assemble w e, draws, w, e, hseal, rfl⟩

end

/-! ## What a put does to the disk -/

section
variable {π : Type} {paths : Paths π} {fault : Option PutFailure} {path : π} {disk : Disk π} {key : String}
  {bytes data : Bytes}

theorem blobPath_eq_ok_iff : blobPath paths fault key = .ok path ↔
      traversal key = false ∧ fault ≠ some .prefixDir ∧ fault ≠ some .canonicalize ∧ paths.resolve key = path := by
  simp [blobPath, bind_eq_ok_iff, ensure_eq_ok_iff]

theorem blobPath_of_valid (h : traversal key = false) :
    blobPath paths none key = .ok (paths.resolve key) :=
  blobPath_eq_ok_iff.2 ⟨h, by simp, by simp, rfl⟩

variable [DecidableEq π]

theorem mkdirs_of_not_mem {dirs : List π} (h : path ∉ dirs) (disk : Disk π) :
    disk.mkdirs dirs path = disk path := if_neg fun hmem => h hmem.1

variable {node : Node}

theorem mkdirs_of_some (h : disk path = some node) (dirs : List π) :
    disk.mkdirs dirs path = some node := by
  rw [Disk.mkdirs, if_neg (by simp [h]), h]

/-- How many bytes the failure leaves in the file, if it leaves one. -/
def PutFailure.written : PutFailure → Option ℕ
  | .write written => some written
  | .sync written => some written
  | _ => none

/-- The failure leaves a file that ends before the bytes to be stored do. With a KEK, up to two bytes of the magic are
    read as plaintext, which may be the data. -/
def PutFailure.leavesPart (kek : Option FileKek) (data : Bytes) (f : PutFailure) : Prop :=
  ∃ n, f.written = some n ∧ n < storedLength kek data ∧ ¬(kek.isSome = true ∧ n < 3 ∧ magic.take n = data)

/-- A part of the bytes is lost by a put that returns `Ok`: its write failed and was not reported. -/
def Loses (kek : Option FileKek) (data : Bytes) (fault : Option PutFailure) : Prop :=
  ∃ n, fault = some (.write n) ∧ (PutFailure.write n).leavesPart kek data

/-! ### Which step failed, from the error -/

/-- The first byte of a text. -/
def firstByte (s : String) : Option UInt8 := s.toByteArray.data.toList.head?

theorem firstByte_append {s : String} {b : UInt8} (h : firstByte s = some b) (t : String) :
    firstByte (s ++ t) = some b := by
  unfold firstByte at h ⊢
  rw [String.toByteArray_append, ByteArray.data_append, Array.toList_append, List.head?_append, h]
  rfl

/-- The errors of the file system start with an `f`, the others do not. -/
theorem firstByte_error (f : PutFailure) (key : String) : firstByte (f.error key) = some 0x66 := by
  have happend : ∀ head, firstByte head = some 0x66 → firstByte (head ++ key ++ "`") = some 0x66 :=
    fun head h => firstByte_append (firstByte_append h key) _
  cases f with
  | prefixDir => exact (by decide : firstByte "failed to create prefix directory for blob storage" = some 0x66)
  | canonicalize => exact (by decide : firstByte "failed to resolve prefix directory" = some 0x66)
  | dirs made => exact happend "failed to create parent directories for blob at key `" (by decide)
  | create => exact happend "failed to create blob file at key `" (by decide)
  | write written => exact happend "failed to write blob at key `" (by decide)
  | sync written => exact happend "failed to sync blob at key `" (by decide)

variable {f : PutFailure}

/-- The errors tell the making of the directories from what comes after it. -/
theorem error_dirs_ne (h : f = .create ∨ f.written.isSome = true) (key : String) :
    (PutFailure.dirs 0).error key ≠ f.error key := by
  intro htext
  cases f with
  | prefixDir | canonicalize | dirs made => cases h <;> contradiction
  | create | write written | sync written =>
    unfold PutFailure.error at htext
    rw [String.append_left_inj, String.append_left_inj] at htext
    revert htext
    decide

theorem store_keeps {other : π} (hne : other ≠ path) (h : disk other = some node) (fault : Option PutFailure) :
    (store paths fault key path bytes disk).1 other = some node := by
  have hdirs := mkdirs_of_some h
  have hwrite : ∀ dirs file, Function.update (disk.mkdirs dirs) path file other = some node := by
    intro dirs file
    rw [Function.update_of_ne hne, hdirs]
  rcases fault with - | (- | - | made | - | written | written) <;> simp only [store]
  case some.dirs => exact hdirs _
  all_goals split
  all_goals first
    | exact h
    | exact hdirs _
    | exact hwrite _ _

/-- What a put that returns `Ok` has written: all of the bytes, but for a write that failed and was not reported. -/
def kept (fault : Option PutFailure) (bytes : Bytes) : Bytes :=
  match fault with
  | some (.write written) => bytes.take written
  | _ => bytes

theorem store_ok (h : (store paths fault key path bytes disk).2 = .ok ()) :
    (store paths fault key path bytes disk).1 path = some (.file (kept fault bytes)) := by
  rcases fault with - | (- | - | made | - | written | written)
  case some.dirs => cases h
  all_goals
    simp only [store] at h ⊢
    split at h
    · cases h
    next hclear =>
      rw [if_neg hclear]
      first
        | exact Function.update_self ..
        | cases h

/-- A put that gets as far as the step that fails leaves at its path what the step has written. -/
theorem store_failed (hmade : f ≠ .prefixDir) (hcanonical : f ≠ .canonicalize) (hfree : disk path = none)
    (h : (store paths (some f) key path bytes disk).2 = .error (f.error key)) :
    (store paths (some f) key path bytes disk).1 path = f.written.map fun n => .file (bytes.take n) := by
  have hdirs : ∀ dirs, (∀ dir ∈ dirs, dir ∈ paths.parents path) → disk.mkdirs dirs path = none := by
    intro dirs hsub
    rw [mkdirs_of_not_mem (fun hmem => paths.not_mem_parents path (hsub path hmem)), hfree]
  have hall := hdirs (paths.parents path) fun _ h => h
  cases f with
  | prefixDir => exact absurd rfl hmade
  | canonicalize => exact absurd rfl hcanonical
  | dirs made => exact hdirs _ fun _ hmem => List.mem_of_mem_take hmem
  | create | write written | sync written =>
    by_cases hblocked : ((paths.parents path).any fun dir => (disk.read dir).isSome) = true
    · simp only [store, hblocked, if_true] at h
      exact absurd (Exec.error.inj h) (error_dirs_ne (by simp [PutFailure.written]) key)
    · simp only [store, hblocked, PutFailure.written, Option.map_none, Option.map_some]
      first
      | exact hall
      | exact Function.update_self ..

/-! ### A whole put, and a get -/

variable {aes : Aes256Gcm} {kek : Option FileKek} {draws : Draws (Fill nonceSize)}

omit [DecidableEq π] in
theorem not_leavesPart_iff {n : ℕ} (hwritten : f.written = some n) (h : toStore aes kek draws key data = .ok bytes) :
    ¬f.leavesPart kek data ↔ decode aes kek key (bytes.take n) = .ok data := by
  rw [decode_take_iff h]
  simp only [PutFailure.leavesPart, hwritten, Option.some.injEq, exists_eq_left']
  rw [not_and_or, not_lt, not_not]

omit [DecidableEq π] in
theorem decode_kept_iff (h : toStore aes kek draws key data = .ok bytes) :
    decode aes kek key (kept fault bytes) = .ok data ↔ ¬Loses kek data fault := by
  rcases fault with - | (- | - | made | - | written | written)
  case some.write =>
    simp only [Loses, kept, Option.some.injEq, PutFailure.write.injEq, exists_eq_left']
    exact (not_leavesPart_iff rfl h).symm
  all_goals exact iff_of_true (decode_toStore h) (by simp [Loses])

theorem put_of_some (h : disk (paths.resolve key) = some node) (fault : Option PutFailure) :
    (put paths aes kek fault draws key data disk).1 = disk := by
  unfold put
  split
  next path hpath =>
    rw [blobPath_eq_ok_iff] at hpath
    rw [← hpath.2.2.2, h]
    rfl
  · rfl
  · rfl

theorem traversal_of_put_ok (h : (put paths aes kek fault draws key data disk).2 = .ok ()) : traversal key = false := by
  unfold put at h
  split at h
  next hpath => exact (blobPath_eq_ok_iff.1 hpath).1
  · cases h
  · cases h

theorem put_keeps (h : disk path = some node) (fault : Option PutFailure) :
    (put paths aes kek fault draws key data disk).1 path = some node := by
  by_cases hpath : path = paths.resolve key
  · subst hpath
    rw [put_of_some h]
    exact h
  · unfold put
    split
    next hresolved =>
      obtain ⟨-, -, -, rfl⟩ := blobPath_eq_ok_iff.1 hresolved
      split
      · exact h
      · split
        · exact store_keeps hpath h fault
        · exact h
        · exact h
    · exact h
    · exact h

/-- A put that returns `Ok` where nothing was has stored the bytes, or a part of them. -/
theorem put_ok_of_none (hfree : disk (paths.resolve key) = none)
    (h : (put paths aes kek fault draws key data disk).2 = .ok ()) :
    ∃ bytes, toStore aes kek draws key data = .ok bytes ∧
      (put paths aes kek fault draws key data disk).1 (paths.resolve key) = some (.file (kept fault bytes)) := by
  unfold put at h ⊢
  cases hpath : blobPath paths fault key with
  | error msg | panicked => simp [hpath] at h
  | ok path =>
    obtain ⟨-, -, -, rfl⟩ := blobPath_eq_ok_iff.1 hpath
    simp only [hpath, hfree, Option.isSome_none, Bool.false_eq_true, if_false] at h ⊢
    cases hbytes : toStore aes kek draws key data with
    | error msg | panicked => simp [hbytes] at h
    | ok bytes =>
      simp only [hbytes] at h ⊢
      exact ⟨bytes, rfl, store_ok h⟩

omit [DecidableEq π] in
/-- A get returns what the file at its path decodes to. -/
theorem get_eq_ok_iff (hkey : traversal key = false) (h : disk (paths.resolve key) = some node) :
    get paths aes kek key disk = .ok data ↔ ∃ bytes, node = .file bytes ∧ decode aes kek key bytes = .ok data := by
  rw [get, blobPath_of_valid hkey, ok_bind, Disk.read, h]
  cases node with
  | file bytes => simp
  | dir => simp [ofOption]

end

end Tagsmaxxing.LocalBlob
