import Mathlib.Data.List.Sort
import Tagsmaxxing.Lib.Keyed
import Tagsmaxxing.Lib.Run
import Tagsmaxxing.Lib.Utf8

/-! # The blob cache (`blob_cache.rs`)

`BlobCache` keeps copies of an inner backend's blobs: a file for each, and a row of metadata in SQLite.
Files and rows are written and removed one after the other, each of these calls can fail, and most of the
failures are swallowed. Every operation here takes the failures of its calls as an argument. -/

namespace Tagsmaxxing.BlobCache

open List Transition

abbrev Bytes := List UInt8

/-- SHA-256 in hexadecimal. -/
structure Sha256 where
  hex : Bytes → String

/-- `BlobCache`, without its connections. -/
structure Settings where
  cacheDir : String
  maxBytes : ℕ
  paranoid : Bool

def defaultCacheMaxGb : ℕ := 10

def Settings.new (cacheDir : String) (maxBytes : ℕ) (paranoid : Bool) : Settings :=
  ⟨cacheDir, if maxBytes = 0 then defaultCacheMaxGb * 1024 * 1024 * 1024 else maxBytes, paranoid⟩

/-- A row of `cache_entries`, under its key. -/
structure CacheEntry where
  filePath : String
  sizeBytes : ℕ
  accessSeq : ℕ
  sha256Hex : Option String
deriving DecidableEq

structure State where
  rows : Keyed String CacheEntry
  nextSeq : ℕ
  /-- what is on the disk -/
  files : String → Option Bytes
  /-- what the inner backend holds -/
  backend : String → Option Bytes

/-- A cache in a new directory. -/
def State.initial (backend : String → Option Bytes) : State := ⟨.empty, 0, fun _ => none, backend⟩

/-! ## Failures -/

/-- A call on the cache's side that can fail. -/
inductive Site
  | lookup
  | updateAccess
  | delete
  | upsert
  | totalSize
  | allEntries
  /-- `DELETE` of a key during eviction -/
  | evict (key : String)
  | deleteAll
  /-- `Path::exists` before a file is read; it then answers `false` -/
  | cached
  /-- `Path::exists` before a file is removed -/
  | exists (path : String)
  | metadata (path : String)
  | read
  | createDir
  | remove (path : String)
deriving DecidableEq

/-- How `std::fs::write` fails. -/
inductive WriteFailure
  /-- the file could not be opened -/
  | unopened
  /-- the file was truncated and a part of the data written -/
  | truncated (written : ℕ)
deriving DecidableEq

/-- What becomes of a call to the backend. -/
inductive Outcome
  | ok
  | failed
  /-- the call took effect, and an error was returned -/
  | failedLate
deriving DecidableEq

/-- The failures met by one operation. -/
structure Faults where
  fails : Site → Bool
  write : Option WriteFailure
  backend : Outcome

/-- Everything works. -/
def Faults.none : Faults := ⟨fun _ => false, .none, .ok⟩

/-! ## Metadata -/

/-- `None` is an error. -/
def dbLookup (f : Faults) (s : State) (key : String) : Option (Option CacheEntry) :=
  if f.fails .lookup then none else some (s.rows.get? key)

def dbUpsert (f : Faults) (s : State) (key : String) (filePath : String) (sizeBytes : ℕ)
    (sha256Hex : Option String) : State × Bool :=
  let seq := s.nextSeq
  let s := { s with nextSeq := seq + 1 }
  if f.fails .upsert then (s, false)
  else ({ s with rows := s.rows.upsert key ⟨filePath, sizeBytes, seq, sha256Hex⟩ }, true)

def dbUpdateAccess (f : Faults) (s : State) (key : String) : State :=
  let seq := s.nextSeq
  let s := { s with nextSeq := seq + 1 }
  if f.fails .updateAccess then s
  else { s with rows := s.rows.updateWhere (fun k _ => k == key) fun row => { row with accessSeq := seq } }

def dbDelete (f : Faults) (s : State) (key : String) : State :=
  if f.fails .delete then s else { s with rows := s.rows.deleteWhere fun k _ => k == key }

def dbDeleteAll (f : Faults) (s : State) : State × Bool :=
  if f.fails .deleteAll then (s, false) else ({ s with rows := .empty }, true)

def dbTotalSize (f : Faults) (s : State) : Option ℕ :=
  if f.fails .totalSize then none else some (s.rows.rows.foldl (fun total x => total + x.2.sizeBytes) 0)

/-- Least recently used first; equal numbers in the order of insertion. -/
def dbAllEntriesWithSizes (f : Faults) (s : State) : Option (List (String × CacheEntry)) :=
  if f.fails .allEntries then none
  else some (s.rows.rows.insertionSort fun a b => a.2.accessSeq ≤ b.2.accessSeq)

/-- The loop of `db_evict_lru`: the rows that are left, and the evicted keys and paths unless a deletion
    failed. -/
def evictLoop (f : Faults) (neededBytes : ℕ) : List (String × CacheEntry) → ℕ → Keyed String CacheEntry →
    List (String × String) → Keyed String CacheEntry × Option (List (String × String))
  | [], _, rows, evicted => (rows, some evicted)
  | (key, entry) :: entries, freed, rows, evicted =>
      if freed ≥ neededBytes then (rows, some evicted)
      else if f.fails (.evict key) then (rows, none)
      else evictLoop f neededBytes entries (freed + entry.sizeBytes) (rows.deleteWhere fun k _ => k == key)
        (evicted ++ [(key, entry.filePath)])

def dbEvictLru (f : Faults) (s : State) (neededBytes : ℕ) : State × Option (List (String × String)) :=
  match dbAllEntriesWithSizes f s with
  | none => (s, none)
  | some entries =>
      let looped := evictLoop f neededBytes entries 0 s.rows []
      ({ s with rows := looped.1 }, looped.2)

/-! ## Files -/

/-- `Path::exists`. -/
def pathExists (f : Faults) (site : Site) (s : State) (path : String) : Bool :=
  !f.fails site && (s.files path).isSome

/-- `std::fs::remove_file`, whether it fails or not. -/
def removeFile (f : Faults) (s : State) (path : String) : State :=
  if f.fails (.remove path) then s else { s with files := Function.update s.files path none }

/-- Remove the files that exist; failures are ignored. -/
def removeFiles (f : Faults) (s : State) (paths : List String) : State :=
  paths.foldl (fun s path => if pathExists f (.exists path) s path then removeFile f s path else s) s

section
variable (sha : Sha256) (cache : Settings)

/-- `{cache_dir}/{first_2_hex}/{full_hex}`. -/
def cacheFilePath (key : String) : String :=
  let hash := sha.hex key.toUTF8.data.toList
  cache.cacheDir ++ "/" ++ String.ofList (hash.toList.take 2) ++ "/" ++ hash

/-- `false` is an error. -/
def ensureCapacity (f : Faults) (s : State) (incomingBytes : ℕ) : State × Bool :=
  match dbTotalSize f s with
  | none => (s, false)
  | some current =>
      if current + incomingBytes ≤ cache.maxBytes then (s, true)
      else
        let evicted := dbEvictLru f s (current + incomingBytes - cache.maxBytes)
        match evicted.2 with
        | none => (evicted.1, false)
        | some pairs => (removeFiles f evicted.1 (pairs.map Prod.snd), true)

/-- `std::fs::write`. -/
def writeFile (f : Faults) (s : State) (path : String) (data : Bytes) : State × Bool :=
  match f.write with
  | none => ({ s with files := Function.update s.files path (some data) }, true)
  | some .unopened => (s, false)
  | some (.truncated written) => ({ s with files := Function.update s.files path (some (data.take written)) }, false)

def writeToCache (f : Faults) (s : State) (key : String) (data : Bytes) : State × Bool :=
  if f.fails .createDir then (s, false)
  else
    let written := writeFile f s (cacheFilePath sha cache key) data
    if written.2 then
      dbUpsert f written.1 key (cacheFilePath sha cache key) data.length (some (sha.hex data))
    else written

/-- The outer `None` is an error, the inner one a miss. -/
def readFromCache (f : Faults) (s : State) (filePath : String) (expectedSha : Option String) : Option (Option Bytes) :=
  if !pathExists f .cached s filePath then some none
  else if f.fails .read then none
  else
    match s.files filePath with
    | none => none
    | some data =>
        if cache.paranoid && expectedSha.any (fun expected => sha.hex data != expected) then some none
        else some (some data)

/-! ## Operations -/

/-- `false` is an error. -/
def put (f : Faults) (s : State) (key : String) (data : Bytes) : State × Bool :=
  let stored := { s with backend := Function.update s.backend key (some data) }
  match f.backend with
  | .failed => (s, false)
  | .failedLate => (stored, false)
  | .ok =>
      let room := ensureCapacity cache f stored data.length
      if room.2 then ((writeToCache sha cache f room.1 key data).1, true) else (room.1, true)

/-- What the cache has for a key: the outer `None` is an error, the inner one a miss. -/
def lookUp (f : Faults) (s : State) (key : String) : State × Option (Option Bytes) :=
  match dbLookup f s key with
  | none => (s, none)
  | some none => (s, some none)
  | some (some row) =>
      match readFromCache sha cache f s row.filePath row.sha256Hex with
      | none => (s, none)
      | some (some cached) => (dbUpdateAccess f s key, some (some cached))
      | some none => (dbDelete f s key, some none)

/-- The bytes, or an error if the backend has none. -/
def backendGet (f : Faults) (s : State) (key : String) : Option Bytes :=
  if f.backend = .ok then s.backend key else none

def get (f : Faults) (s : State) (key : String) : State × Option Bytes :=
  let found := lookUp sha cache f s key
  match found.2 with
  | none => (found.1, none)
  | some (some cached) => (found.1, some cached)
  | some none =>
      match backendGet f found.1 key with
      | none => (found.1, none)
      | some data =>
          ((writeToCache sha cache f (ensureCapacity cache f found.1 data.length).1 key data).1, some data)

/-- `false` is an error. -/
def delete (f : Faults) (s : State) (key : String) : State × Bool :=
  let gone := { s with backend := Function.update s.backend key none }
  match f.backend with
  | .failed => (s, false)
  | .failedLate => (gone, false)
  | .ok =>
      match dbLookup f gone key with
      | some (some row) => (dbDelete f (removeFile f gone row.filePath) key, true)
      | _ => (gone, true)

/-- The length of a file, counted if its metadata can be read, as the file is removed. -/
def removeCounting (f : Faults) (acc : State × ℕ) (path : String) : State × ℕ :=
  if pathExists f (.exists path) acc.1 path then
    let len := if f.fails (.metadata path) then 0 else ((acc.1.files path).map List.length).getD 0
    (removeFile f acc.1 path, acc.2 + len)
  else acc

/-- The bytes freed; `None` is an error. -/
def trim (f : Faults) (s : State) : State × Option ℕ :=
  match dbTotalSize f s with
  | none => (s, none)
  | some current =>
      if current ≤ cache.maxBytes then (s, some 0)
      else
        let evicted := dbEvictLru f s (current - cache.maxBytes)
        match evicted.2 with
        | none => (evicted.1, none)
        | some pairs =>
            let freed := (pairs.map Prod.snd).foldl (removeCounting f) (evicted.1, 0)
            (freed.1, some freed.2)

/-- `false` is an error: the entries could not be read, a file not removed or the rows not deleted. -/
def clear (f : Faults) (s : State) : State × Bool :=
  match dbAllEntriesWithSizes f s with
  | none => (s, false)
  | some entries =>
      let paths := entries.map fun x => x.2.filePath
      let errors := paths.any fun path => pathExists f (.exists path) s path && f.fails (.remove path)
      let cleared := dbDeleteAll f (removeFiles f s paths)
      (cleared.1, !errors && cleared.2)

/-! ## Runs -/

/-- An operation and the failures it meets. -/
inductive Act
  | put (key : String) (f : Faults)
  | get (key : String) (f : Faults)
  | delete (key : String) (f : Faults)
  | trim (f : Faults)
  | clear (f : Faults)

variable (content : String → Bytes)

/-- Keys are content-addressed: the data put under a key is always `content key`. -/
def step (s : State) : Act → Option State
  | .put key f => some (put sha cache f s key (content key)).1
  | .get key f => some (get sha cache f s key).1
  | .delete key f => some (delete f s key).1
  | .trim f => some (trim cache f s).1
  | .clear f => some (clear f s).1

end

/-! ## What can only go away

Eviction, trimming, clearing and the removal of stale rows take rows and files away and leave the backend
alone, whichever of their calls fail. -/

/-- Every row and file of `t` is one of `s`, up to the number of the last access. -/
structure Shrinks (s t : State) : Prop where
  backend : t.backend = s.backend
  files : ∀ path d, t.files path = some d → s.files path = some d
  rows : ∀ key row, t.rows.get? key = some row → ∃ row', s.rows.get? key = some row' ∧
    row'.filePath = row.filePath ∧ row'.sha256Hex = row.sha256Hex

variable {t : State} {rows : Keyed String CacheEntry}

namespace Shrinks

theorem refl (s : State) : Shrinks s s := ⟨rfl, fun _ _ h => h, fun _ row h => ⟨row, h, rfl, rfl⟩⟩

theorem trans {s u : State} (h : Shrinks s t) (h' : Shrinks t u) : Shrinks s u where
  backend := h'.backend.trans h.backend
  files path d hd := h.files path d (h'.files path d hd)
  rows key row hrow := by
    obtain ⟨row', hrow', hpath, hsha⟩ := h'.rows key row hrow
    obtain ⟨row'', hrow'', hpath', hsha'⟩ := h.rows key row' hrow'
    exact ⟨row'', hrow'', hpath'.trans hpath, hsha'.trans hsha⟩

theorem of_rows {s : State} (h : ∀ key row, rows.get? key = some row → s.rows.get? key = some row) :
    Shrinks s { s with rows := rows } :=
  ⟨rfl, fun _ _ hd => hd, fun key row hrow => ⟨row, h key row hrow, rfl, rfl⟩⟩

end Shrinks

theorem get?_deleteWhere_imp {p : String → CacheEntry → Bool} {key : String}
    {row : CacheEntry} (h : (rows.deleteWhere p).get? key = some row) : rows.get? key = some row := by
  rw [Keyed.get?_deleteWhere, Option.filter_eq_some_iff] at h
  exact h.1

section

variable (f : Faults)

include f

variable (s : State)

theorem shrinks_dbDelete (key : String) : Shrinks s (dbDelete f s key) := by
  rw [dbDelete]
  split
  · exact .refl s
  · exact .of_rows fun _ _ => get?_deleteWhere_imp

theorem shrinks_dbUpdateAccess (key : String) : Shrinks s (dbUpdateAccess f s key) := by
  simp only [dbUpdateAccess]
  split
  · exact ⟨rfl, fun _ _ h => h, fun _ row h => ⟨row, h, rfl, rfl⟩⟩
  · refine ⟨rfl, fun _ _ h => h, fun k row h => ?_⟩
    rw [Keyed.get?_updateWhere] at h
    obtain ⟨row', hrow', rfl⟩ := Option.map_eq_some_iff.1 h
    refine ⟨row', hrow', ?_⟩
    split
    all_goals exact ⟨rfl, rfl⟩

theorem shrinks_dbDeleteAll : Shrinks s (dbDeleteAll f s).1 := by
  rw [dbDeleteAll]
  split
  · exact .refl s
  · exact .of_rows fun _ _ h => by cases h

theorem evictLoop_subset (neededBytes : ℕ) (entries : List (String × CacheEntry)) (freed : ℕ)
    (rows : Keyed String CacheEntry) (evicted : List (String × String)) (key : String) (row : CacheEntry)
    (h : (evictLoop f neededBytes entries freed rows evicted).1.get? key = some row) :
    rows.get? key = some row := by
  induction entries generalizing freed rows evicted with
  | nil => exact h
  | cons entry entries ih =>
    rw [evictLoop] at h
    split at h
    · exact h
    · split at h
      · exact h
      · exact get?_deleteWhere_imp (ih _ _ _ h)

theorem shrinks_dbEvictLru (neededBytes : ℕ) : Shrinks s (dbEvictLru f s neededBytes).1 := by
  rw [dbEvictLru]
  split
  · exact .refl s
  · exact .of_rows fun key row => evictLoop_subset f neededBytes _ 0 s.rows [] key row

theorem shrinks_removeFile (path : String) : Shrinks s (removeFile f s path) := by
  rw [removeFile]
  split
  · exact .refl s
  · refine ⟨rfl, fun q d h => ?_, fun _ row h => ⟨row, h, rfl, rfl⟩⟩
    dsimp only at h
    rw [Function.update_apply] at h
    split at h
    · cases h
    · exact h

theorem shrinks_removeFiles (paths : List String) : Shrinks s (removeFiles f s paths) := by
  unfold removeFiles
  induction paths generalizing s with
  | nil => exact .refl s
  | cons path paths ih =>
    rw [foldl_cons]
    split
    · exact (shrinks_removeFile f s path).trans (ih _)
    · exact ih s

theorem shrinks_removeCounting (paths : List String) (acc : State × ℕ) :
    Shrinks acc.1 (paths.foldl (removeCounting f) acc).1 := by
  induction paths generalizing acc with
  | nil => exact .refl acc.1
  | cons path paths ih =>
    have hone : Shrinks acc.1 (removeCounting f acc path).1 := by
      rw [removeCounting]
      split
      · exact shrinks_removeFile f acc.1 path
      · exact .refl acc.1
    exact hone.trans (ih _)

end

section
variable {sha : Sha256} {cache : Settings} {content : String → Bytes}

section

variable (f : Faults) (s : State)

theorem shrinks_ensureCapacity (incomingBytes : ℕ) : Shrinks s (ensureCapacity cache f s incomingBytes).1 := by
  simp only [ensureCapacity]
  split
  · exact .refl s
  · split
    · exact .refl s
    · split
      · exact shrinks_dbEvictLru f s _
      · exact (shrinks_dbEvictLru f s _).trans (shrinks_removeFiles f _ _)

theorem shrinks_trim : Shrinks s (trim cache f s).1 := by
  simp only [trim]
  split
  · exact .refl s
  · split
    · exact .refl s
    · split
      · exact shrinks_dbEvictLru f s _
      next pairs _ =>
        exact (shrinks_dbEvictLru f s _).trans (shrinks_removeCounting f (pairs.map Prod.snd) (_, 0))

theorem shrinks_clear : Shrinks s (clear f s).1 := by
  rw [clear]
  split
  · exact .refl s
  · exact (shrinks_removeFiles f s _).trans (shrinks_dbDeleteAll f _)

theorem shrinks_lookUp (key : String) : Shrinks s (lookUp sha cache f s key).1 := by
  rw [lookUp]
  split
  · exact .refl s
  · exact .refl s
  · split
    · exact .refl s
    · exact shrinks_dbUpdateAccess f s key
    · exact shrinks_dbDelete f s key

end

/-! ## What the cache must not do -/

/-- No two of the keys have the same hash, and no content of one and a part of it. -/
structure Sha256.Separates (sha : Sha256) (content : String → Bytes) (keys : Set String) : Prop where
  names : Set.InjOn (fun key => sha.hex key.toUTF8.data.toList) keys
  parts : ∀ key ∈ keys, ∀ n, sha.hex ((content key).take n) = sha.hex (content key) → (content key).take n = content key

variable {keys : Set String}

/-- Every file name belongs to one key. -/
theorem cacheFilePath_injOn (hsha : sha.Separates content keys) : Set.InjOn (cacheFilePath sha cache) keys := by
  intro key hkey key' hkey' h
  refine hsha.names hkey hkey' ?_
  have hlist := congrArg String.toList h
  simp only [cacheFilePath, String.toList_append, String.toList_ofList, append_assoc,
    append_cancel_left_eq] at hlist
  -- the whole hash comes last, after a part whose length it determines
  have hlength := congrArg length hlist
  simp only [length_append, length_take] at hlength
  have hhash := (append_inj' hlist (by simp only [length_append]; omega)).2
  exact String.toList_injective (append_cancel_left hhash)

/-- The backend holds what its keys stand for, every row is in the name of its key and its content, and
    whatever would be accepted from a file is what the backend holds. -/
structure Faithful (sha : Sha256) (cache : Settings) (content : String → Bytes) (keys : Set String) (s : State) :
    Prop where
  backend : ∀ key d, s.backend key = some d → d = content key
  rows : ∀ key row, s.rows.get? key = some row →
    key ∈ keys ∧ row.filePath = cacheFilePath sha cache key ∧ row.sha256Hex = some (sha.hex (content key))
  hits : ∀ key row d, s.rows.get? key = some row → s.files (cacheFilePath sha cache key) = some d →
    (cache.paranoid = true → sha.hex d = sha.hex (content key)) → s.backend key = some d

namespace Faithful

theorem initial {backend : String → Option Bytes} (h : ∀ key d, backend key = some d → d = content key) :
    Faithful sha cache content keys (.initial backend) where
  backend := h
  rows key row hrow := by cases hrow
  hits key row d hrow := by cases hrow

theorem shrinks {s : State} (h : Faithful sha cache content keys s) (hs : Shrinks s t) :
    Faithful sha cache content keys t where
  backend key d hd := h.backend key d (by rw [← hs.backend]; exact hd)
  rows key row hrow := by
    obtain ⟨row', hrow', hpath, hsha⟩ := hs.rows key row hrow
    rw [← hpath, ← hsha]
    exact h.rows key row' hrow'
  hits key row d hrow hfile haccepted := by
    obtain ⟨row', hrow', -⟩ := hs.rows key row hrow
    rw [hs.backend]
    exact h.hits key row' d hrow' (hs.files _ d hfile) haccepted

variable {s : State} (h : Faithful sha cache content keys s) {key : String}

include h

theorem stored (key : String) :
    Faithful sha cache content keys { s with backend := Function.update s.backend key (some (content key)) } where
  backend k d hd := by
    dsimp only at hd
    rw [Function.update_apply] at hd
    split at hd
    next hk => rw [hk, Option.some.inj hd]
    · exact h.backend k d hd
  rows := h.rows
  hits k row d hrow hfile haccepted := by
    have hheld := h.hits k row d hrow hfile haccepted
    dsimp only
    rw [Function.update_apply]
    split
    next hk => rw [← hk, h.backend k d hheld]
    · exact hheld

/-- The file of a key is overwritten with something that can be read under its row. -/
theorem written (hsha : sha.Separates content keys) (hkey : key ∈ keys) {d : Bytes}
    (hd : ∀ row, s.rows.get? key = some row → (cache.paranoid = true → sha.hex d = sha.hex (content key)) →
      s.backend key = some d) :
    Faithful sha cache content keys
      { s with files := Function.update s.files (cacheFilePath sha cache key) (some d) } where
  backend := h.backend
  rows := h.rows
  hits k row d' hrow hfile haccepted := by
    dsimp only at hfile ⊢
    rw [Function.update_apply] at hfile
    split at hfile
    next hpath =>
      obtain rfl := cacheFilePath_injOn hsha (h.rows k row hrow).1 hkey hpath
      cases hfile
      exact hd row hrow haccepted
    · exact h.hits k row d' hrow hfile haccepted

theorem upserted (hkey : key ∈ keys) (hheld : s.backend key = some (content key))
    (hfile : s.files (cacheFilePath sha cache key) = some (content key)) (seq size nextSeq : ℕ) :
    Faithful sha cache content keys { s with
      nextSeq := nextSeq
      rows := s.rows.upsert key ⟨cacheFilePath sha cache key, size, seq, some (sha.hex (content key))⟩ } where
  backend := h.backend
  rows k row hrow := by
    rw [Keyed.get?_upsert] at hrow
    split at hrow
    next hk =>
      cases hrow
      rw [hk]
      exact ⟨hkey, rfl, rfl⟩
    · exact h.rows k row hrow
  hits k row d hrow hd haccepted := by
    rw [Keyed.get?_upsert] at hrow
    split at hrow
    next hk =>
      subst hk
      rw [hfile] at hd
      rw [hheld, ← Option.some.inj hd]
    · exact h.hits k row d hrow hd haccepted

end Faithful

/-! ## The failures that are not harmless -/

/-- The file of a key that has a row is truncated and not written to its end. -/
def damages (f : Faults) (s : State) (key : String) (data : Bytes) : Bool :=
  (s.rows.get? key).isSome && !f.fails .createDir &&
    match f.write with
    | some (.truncated written) => decide (written < data.length)
    | _ => false

/-- The backend loses a key that the cache keeps: its delete fails after it took effect, the row is not
    found, or neither the file nor the row goes away. -/
def outlives (f : Faults) (s : State) (key : String) : Bool :=
  match s.rows.get? key with
  | none => false
  | some row =>
      match f.backend with
      | .failed => false
      | .failedLate => true
      | .ok => f.fails .lookup || (f.fails (.remove row.filePath) && f.fails .delete)

section
variable (sha cache content)

/-- The step makes a file that can be accepted and is not what the backend holds. Without `paranoid` a
    truncated file is accepted. -/
def poisons (s : State) : Act → Bool
  | .put key f =>
      let room := ensureCapacity cache f
        { s with backend := Function.update s.backend key (some (content key)) } (content key).length
      !cache.paranoid && decide (f.backend = .ok) && room.2 && damages f room.1 key (content key)
  | .get key f =>
      let found := lookUp sha cache f s key
      match found.2 with
      | some none =>
          match backendGet f found.1 key with
          | some data => !cache.paranoid && damages f (ensureCapacity cache f found.1 data.length).1 key data
          | none => false
      | _ => false
  | .delete key f => outlives f s key
  | .trim _ => false
  | .clear _ => false

end

variable {key : String} {f : Faults} {s : State} {d : Bytes}

section

variable (h : Faithful sha cache content keys s)

include h

theorem lookUp_held (hhit : (lookUp sha cache f s key).2 = some (some d)) : s.backend key = some d := by
  rw [lookUp] at hhit
  split at hhit
  · cases hhit
  · cases hhit
  next row hlookup =>
    have hrow : s.rows.get? key = some row := by
      rw [dbLookup] at hlookup
      split at hlookup
      · cases hlookup
      · exact Option.some.inj hlookup
    obtain ⟨-, hpath, hsha⟩ := h.rows key row hrow
    split at hhit
    · cases hhit
    · next cached hread =>
      cases Option.some.inj hhit
      rw [readFromCache, hpath, hsha] at hread
      split at hread
      · cases hread
      · split at hread
        · cases hread
        · split at hread
          · cases hread
          · next data hfile =>
            split at hread
            · cases hread
            · next hvalid =>
              obtain rfl := Option.some.inj (Option.some.inj hread)
              refine h.hits key row data hrow hfile fun hparanoid => ?_
              -- the check of the hash has passed
              simpa only [hparanoid, Bool.true_and, Option.any_some, bne_iff_ne, ne_eq, not_not] using hvalid
    · cases hhit

section

variable (hsha : sha.Separates content keys) (hkey : key ∈ keys)

include hsha hkey

theorem faithful_writeToCache (hheld : s.backend key = some (content key))
    (hwhole : cache.paranoid = false → damages f s key (content key) = false) :
    Faithful sha cache content keys (writeToCache sha cache f s key (content key)).1 := by
  rw [writeToCache]
  split
  · exact h
  next hdir =>
  cases hwrite : f.write with
  | none =>
    have hwritten := h.written hsha hkey (d := content key) fun _ _ _ => hheld
    simp only [writeFile, hwrite, if_true, dbUpsert]
    split
    · exact ⟨hwritten.backend, hwritten.rows, hwritten.hits⟩
    · exact hwritten.upserted hkey hheld (Function.update_self ..) _ _ _
  | some failure =>
    cases failure with
    | unopened =>
      simp only [writeFile, hwrite]
      exact h
    | truncated written =>
      simp only [writeFile, hwrite]
      refine h.written hsha hkey fun row hrow haccepted => ?_
      rw [hheld, Option.some.injEq]
      cases hparanoid : cache.paranoid with
      | true => exact (hsha.parts key hkey written (haccepted hparanoid)).symm
      | false =>
        have hnot := hwhole hparanoid
        simp only [damages, hrow, hwrite, Option.isSome_some, Bool.true_and, Bool.and_eq_false_iff,
          Bool.not_eq_false', decide_eq_false_iff_not, not_lt] at hnot
        rcases hnot with hfails | hlong
        · exact absurd hfails hdir
        · exact (take_of_length_le hlong).symm

theorem faithful_put (hclean : poisons sha cache content s (.put key f) = false) :
    Faithful sha cache content keys (put sha cache f s key (content key)).1 := by
  have hstored := h.stored key
  simp only [poisons] at hclean
  simp only [put]
  cases hbackend : f.backend with
  | failed => exact h
  | failedLate => exact hstored
  | ok =>
    have hshrinks := @shrinks_ensureCapacity cache f
      { s with backend := Function.update s.backend key (some (content key)) } (content key).length
    dsimp only
    split
    next hroom =>
      refine faithful_writeToCache (hstored.shrinks hshrinks) hsha hkey ?_ fun hparanoid => ?_
      · rw [hshrinks.backend]
        exact Function.update_self ..
      · simpa [hparanoid, hbackend, hroom] using hclean
    · exact hstored.shrinks hshrinks

theorem faithful_get (hclean : poisons sha cache content s (.get key f) = false) :
    Faithful sha cache content keys (get sha cache f s key).1 := by
  have hfound := h.shrinks (@shrinks_lookUp sha cache f s key)
  simp only [poisons] at hclean
  simp only [get]
  split
  · exact hfound
  · exact hfound
  next hmiss =>
    rw [hmiss] at hclean
    split
    · exact hfound
    · next data hdata =>
      simp only [hdata, Bool.and_eq_false_iff, Bool.not_eq_false'] at hclean
      have hheld : (lookUp sha cache f s key).1.backend key = some data := by
        rw [backendGet] at hdata
        split at hdata
        · exact hdata
        · cases hdata
      have hshrinks := @shrinks_ensureCapacity cache f (lookUp sha cache f s key).1 data.length
      obtain rfl := hfound.backend key data hheld
      refine faithful_writeToCache (hfound.shrinks hshrinks) hsha hkey ?_ fun hparanoid => ?_
      · rw [hshrinks.backend, hheld]
      · rcases hclean with htrue | hwhole
        · cases hparanoid.symm.trans htrue
        · exact hwhole

end

/-- The backend loses a key of which the cache keeps no row, or no file. -/
theorem Faithful.lost (hs : Shrinks s t)
    (hgone : t.rows.get? key = none ∨ t.files (cacheFilePath sha cache key) = none) :
    Faithful sha cache content keys { t with backend := Function.update s.backend key none } := by
  have ht := h.shrinks hs
  refine ⟨fun k d hd => ?_, ht.rows, fun k row d hrow hfile haccepted => ?_⟩
  · dsimp only at hd
    rw [Function.update_apply] at hd
    split at hd
    · cases hd
    · exact h.backend k d hd
  · dsimp only at hrow hfile ⊢
    have hk : k ≠ key := by
      rintro rfl
      rcases hgone with hnone | hnone
      · cases hnone.symm.trans hrow
      · cases hnone.symm.trans hfile
    rw [Function.update_of_ne hk, ← hs.backend]
    exact ht.hits k row d hrow hfile haccepted

end

theorem dropped_withBackend (f : Faults) (s : State) (backend : String → Option Bytes) (path key : String) :
    dbDelete f (removeFile f { s with backend := backend } path) key =
      { dbDelete f (removeFile f s path) key with backend := backend } := by
  simp only [removeFile, dbDelete]
  split
  all_goals
    split <;> rfl

/-- Unless both calls fail, the row or its file is gone. -/
theorem dropped_gone (s : State) (path key : String) (h : f.fails (.remove path) = false ∨ f.fails .delete = false) :
    (dbDelete f (removeFile f s path) key).rows.get? key = none ∨
      (dbDelete f (removeFile f s path) key).files path = none := by
  rcases h with h | h
  · right
    simp only [dbDelete, removeFile, h]
    split
    all_goals exact Function.update_self ..
  · left
    simp only [dbDelete, h, Bool.false_eq_true, if_false, Keyed.get?_deleteWhere, Option.filter_eq_none_iff]
    simp

theorem faithful_delete (h : Faithful sha cache content keys s) (hclean : outlives f s key = false) :
    Faithful sha cache content keys (delete f s key).1 := by
  simp only [outlives] at hclean
  simp only [delete]
  cases hrow : s.rows.get? key with
  | none =>
    have hgone := h.lost (Shrinks.refl s) (.inl hrow)
    cases hbackend : f.backend with
    | failed => exact h
    | failedLate => exact hgone
    | ok =>
      simp only [dbLookup, hrow]
      split
      next hlookup =>
        split at hlookup
        all_goals cases hlookup
      · exact hgone
  | some row =>
    cases hbackend : f.backend with
    | failed => exact h
    | failedLate => simp [hrow, hbackend] at hclean
    | ok =>
      simp only [hrow, hbackend, Bool.or_eq_false_iff, Bool.and_eq_false_iff] at hclean
      obtain ⟨hfound, hremoved⟩ := hclean
      obtain ⟨-, hpath, -⟩ := h.rows key row hrow
      simp only [dbLookup, hfound, hrow, Bool.false_eq_true, if_false, dropped_withBackend]
      refine h.lost ((shrinks_removeFile f s _).trans (shrinks_dbDelete f _ key)) ?_
      rw [← hpath]
      exact dropped_gone s row.filePath key hremoved

/-- An operation on one of the keys, or on none. -/
def Act.Of (keys : Set String) : Act → Prop
  | .put key _ | .get key _ | .delete key _ => key ∈ keys
  | .trim _ | .clear _ => True

theorem faithful_step (hsha : sha.Separates content keys) {a : Act} (ha : a.Of keys)
    (hstep : step sha cache content s a = some t) (hclean : poisons sha cache content s a = false)
    (h : Faithful sha cache content keys s) : Faithful sha cache content keys t := by
  cases a with
  | put key f =>
    cases hstep
    exact faithful_put h hsha ha hclean
  | get key f =>
    cases hstep
    exact faithful_get h hsha ha hclean
  | delete key f =>
    cases hstep
    exact faithful_delete h hclean
  | trim f =>
    cases hstep
    exact h.shrinks (shrinks_trim f s)
  | clear f =>
    cases hstep
    exact h.shrinks (shrinks_clear f s)

/-- What a `get` returns, from the cache or from the backend, is what the backend holds. -/
theorem get_held (h : Faithful sha cache content keys s) (hget : (get sha cache f s key).2 = some d) :
    s.backend key = some d := by
  simp only [get] at hget
  split at hget
  · cases hget
  next cached hhit =>
    cases hget
    exact lookUp_held h hhit
  · split at hget <;> cases hget
    rename_i data hdata
    rw [backendGet] at hdata
    split at hdata
    · rw [← (@shrinks_lookUp sha cache f s key).backend]
      exact hdata
    · cases hdata

end

/-- Over every backend, with either setting of `paranoid`, after any operations on keys whose hashes do not collide,
    that met any failures but the ones that poison the cache: a `get` returns exactly what the backend holds. -/
theorem get_transparent (sha : Sha256) (cache : Settings) (content : String → Bytes) {keys : Set String}
    (hsha : sha.Separates content keys) {backend : String → Option Bytes}
    (hbackend : ∀ key d, backend key = some d → d = content key) {es : List (Edge State Act)} {s : State}
    (r : Run (Fires (step sha cache content)) (.initial backend) es s)
    (hclean : ∀ e ∈ es, e.label.Of keys ∧ poisons sha cache content e.src e.label = false)
    (f : Faults) (key : String) (d : Bytes) (hget : (get sha cache f s key).2 = some d) : s.backend key = some d :=
  get_held (r.edges_where (I := Faithful sha cache content keys) (Faithful.initial hbackend)
    (fun _ hstep hclean h => faithful_step hsha hclean.1 hstep hclean.2 h) hclean).1 hget

theorem latin1_injective : Function.Injective fun bytes : Bytes =>
    String.ofList (bytes.map fun b => Char.ofNat b.toNat) := by
  intro a b h
  refine map_injective_iff.2 (fun x y hxy => ?_) (String.ofList_injective h)
  have hvalid : ∀ z : UInt8, (Char.ofNat z.toNat).toNat = z.toNat := fun z =>
    Utf8.toNat_ofNat (z.toNat_lt.trans (by decide))
  exact UInt8.toNat_inj.1 (by rw [← hvalid x, hxy, hvalid y])

/-- A hash without collisions: the bytes themselves. -/
def Sha256.latin1 : Sha256 := ⟨fun bytes => String.ofList (bytes.map fun b => Char.ofNat b.toNat)⟩

theorem latin1_separates (content : String → Bytes) : Sha256.latin1.Separates content Set.univ where
  names := fun _ _ _ _ h => String.toByteArray_inj.1 (ByteArray.ext (Array.toList_inj.1 (latin1_injective h)))
  parts := fun _ _ _ h => latin1_injective h

private def failing (site : Site) : Faults := { Faults.none with fails := fun s => s == site }

private def torn (written : ℕ) : Faults := { Faults.none with write := some (.truncated written) }

/-- A lost row and a file that is not opened are harmless; the blob is fetched again. -/
theorem get_transparent_refetched : ∃ es s,
    Run (Fires (step .latin1 (.new "cache" 0 false) fun _ => [1, 2])) (.initial fun _ => none) es s ∧
      es.map Edge.label = [.put "k" (failing .upsert), .get "k" (torn 1), .put "k" Faults.none, .trim .none] ∧
      (get .latin1 (.new "cache" 0 false) .none s "k").2 = some [1, 2] ∧ s.backend "k" = some [1, 2] := by
  refine exists_run_of_imp (fun es s =>
    (∀ e ∈ es, ¬ poisons .latin1 (.new "cache" 0 false) (fun _ => [1, 2]) e.src e.label) ∧
      (get .latin1 (.new "cache" 0 false) .none s "k").2 = some [1, 2]) (by decide +kernel) ?_
  rintro es s r ⟨hclean, hget⟩
  have hall : ∀ a : Act, a.Of Set.univ := by
    intro a
    cases a <;> trivial
  exact ⟨hget, get_transparent .latin1 _ _ (latin1_separates _) (fun _ _ h => by cases h) r
    (fun e he => ⟨hall e.label, by simpa using hclean e he⟩) .none "k" [1, 2] hget⟩

/-- A blob is deleted and the row is not found: it can still be read. A blob is stored again and its file
    truncated: without `paranoid` a part of it is read. -/
theorem get_not_transparent :
    (∃ es s, Run (Fires (step .latin1 (.new "cache" 0 false) fun _ => [1, 2])) (.initial fun _ => none) es s ∧
      es.map Edge.label = [.put "k" .none, .delete "k" (failing .lookup)] ∧ s.backend "k" = none ∧
        (get .latin1 (.new "cache" 0 false) .none s "k").2 = some [1, 2]) ∧
    ∃ es s, Run (Fires (step .latin1 (.new "cache" 0 false) fun _ => [1, 2])) (.initial fun _ => none) es s ∧
      es.map Edge.label = [.put "k" .none, .put "k" (torn 1)] ∧ s.backend "k" = some [1, 2] ∧
        (get .latin1 (.new "cache" 0 false) .none s "k").2 = some [1] := by
  exact ⟨exists_run_of_holds (by decide +kernel), exists_run_of_holds (by decide +kernel)⟩

end Tagsmaxxing.BlobCache
