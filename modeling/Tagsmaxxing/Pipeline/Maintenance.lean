import Mathlib.Data.List.Rotate
import Tagsmaxxing.Core.Types
import Tagsmaxxing.Lib.Greedy

/-! # Maintenance jobs

The integrity scan (`integrity_scan.rs`) re-hashes a window of the file records that moves by one record a day,
so what lies beyond the last window of the year is never looked at (`selectSample_covers_iff`). The log janitor
(`janitor.rs`) removes the oldest log files until the rest fits (`pruneDirectory_spec`). -/

namespace Tagsmaxxing.Maintenance

open List

/-! ## The integrity scan -/

structure FileShaRecord where
  blobKey : String
  sha256 : Sha256

/-- `(records.len() * sample_pct).div_ceil(100)`; a slice of records is too short for the product to wrap. -/
def sampleSize (n samplePct : ℕ) : ℕ := (n * min samplePct 100 + 99) / 100

/-- The `indices` of `select_sample` on the day `ordinal0` of the year. -/
def sampleIndices (n samplePct ordinal0 : ℕ) : List ℕ :=
  ((List.range n).rotate (ordinal0 % n)).take (sampleSize n samplePct)

def selectSample (records : List FileShaRecord) (samplePct : UInt8) (ordinal0 : ℕ) : List FileShaRecord :=
  if records.isEmpty || samplePct == 0 then []
  else (sampleIndices records.length samplePct.toNat ordinal0).filterMap (records[·]?)

/-- The number of days of a year: `ordinal0` is below it. -/
def daysOfYear (leap : Bool) : ℕ := if leap then 366 else 365

variable {n samplePct : ℕ}

theorem mem_sampleIndices (ordinal0 i : ℕ) :
    i ∈ sampleIndices n samplePct ordinal0 ↔ ∃ k < n, k < sampleSize n samplePct ∧ (k + ordinal0) % n = i := by
  simp only [sampleIndices, mem_take_iff_getElem, getElem_rotate, getElem_range, length_rotate,
    length_range, Nat.add_mod_mod, lt_min_iff]
  constructor
  · rintro ⟨k, ⟨hsize, hn⟩, hk⟩
    exact ⟨k, hn, hsize, hk⟩
  · rintro ⟨k, hn, hsize, hk⟩
    exact ⟨k, ⟨hsize, hn⟩, hk⟩

/-- A window that starts on each of `days` days covers a list exactly when it ends behind it on the last one. -/
theorem sampleIndices_cover_iff (hpct : 1 ≤ samplePct) {days : ℕ} (hdays : 0 < days) :
    (∀ i < n, ∃ day < days, i ∈ sampleIndices n samplePct day) ↔ n < days + sampleSize n samplePct := by
  simp only [mem_sampleIndices]
  constructor
  · -- the record right behind the last window
    intro h
    by_contra hlong
    obtain ⟨day, hday, k, -, hk, hi⟩ := h (days - 1 + sampleSize n samplePct) (by omega)
    rw [Nat.mod_eq_of_lt (by omega)] at hi
    omega
  · intro hshort i hi
    have hsize : 0 < sampleSize n samplePct := by
      have : 1 ≤ n * min samplePct 100 := Nat.mul_pos (by omega) (by omega)
      unfold sampleSize
      omega
    by_cases hin : i < days
    · exact ⟨i, hin, 0, by omega, hsize, by rw [Nat.zero_add, Nat.mod_eq_of_lt hi]⟩
    · refine ⟨days - 1, by omega, i - (days - 1), by omega, by omega, ?_⟩
      rw [Nat.sub_add_cancel (by omega), Nat.mod_eq_of_lt hi]

/-- **Integrity sampling.** Every record is in the sample of some day of the year if and only if there are
    fewer records than days and one sample together. -/
theorem selectSample_covers_iff (records : List FileShaRecord) (samplePct : UInt8) (h1 : 1 ≤ samplePct)
    (h100 : samplePct ≤ 100) (leap : Bool) :
    (∀ day, selectSample records samplePct day =
      (sampleIndices records.length samplePct.toNat day).filterMap (records[·]?)) ∧
    ((∀ i < records.length, ∃ day < daysOfYear leap, i ∈ sampleIndices records.length samplePct.toNat day) ↔
      records.length < daysOfYear leap + (records.length * samplePct.toNat + 99) / 100) := by
  have hpct : 1 ≤ samplePct.toNat := UInt8.le_iff_toNat_le.1 h1
  have hle : samplePct.toNat ≤ 100 := UInt8.le_iff_toNat_le.1 h100
  constructor
  · intro day
    rw [selectSample, beq_eq_false_iff_ne.2 (by rintro rfl; cases hpct), Bool.or_false]
    split
    next hempty =>
      simp [List.isEmpty_iff.1 hempty]
    · rfl
  · rw [sampleIndices_cover_iff hpct (by cases leap <;> decide), sampleSize, Nat.min_eq_left hle]

/-- Two of five records are looked at each day, and each of them on some day. -/
theorem selectSample_covers_five :
    sampleSize 5 40 = 2 ∧ ∀ i < 5, ∃ day < daysOfYear false, i ∈ sampleIndices 5 40 day :=
  ⟨by decide, (selectSample_covers_iff (["a", "b", "c", "d", "e"].map fun key => ⟨key, _, Sha256.length_filled 0⟩) 40
    (by decide) (by decide) false).2.2 (by decide)⟩

/-- With four hundred records and one percent a day, the last record is never looked at. -/
theorem last_record_never_sampled :
    ¬ ∀ i < 400, ∃ day < daysOfYear true, i ∈ sampleIndices 400 1 day := by
  intro h
  obtain ⟨day, hday, hmem⟩ := h 399 (by decide)
  have hlast : day < 366 := hday
  obtain ⟨k, -, hk, hi⟩ := (mem_sampleIndices day 399).1 hmem
  simp only [sampleSize] at hk
  omega

/-! ## The log janitor -/

/-- What the janitor reads of `fs::Metadata`; a time that is not available is `none`. -/
structure Metadata where
  isFile : Bool
  len : ℕ
  modified : Option ℤ
  created : Option ℤ

/-- A directory entry; `none` is metadata that cannot be read. -/
structure DirEntry where
  fileName : List Char
  metadata : Option Metadata

/-- An element of `entries`. -/
structure LogFile where
  fileName : List Char
  size : ℕ
  modified : ℤ

/-- The log file of an entry, if it is one; an entry that cannot be read is `none`. -/
def logFile (pfx : List Char) (entry : Option DirEntry) : Option LogFile :=
  (entry.filter fun e => pfx.isPrefixOf e.fileName).bind fun e =>
    (e.metadata.filter Metadata.isFile).map fun m => ⟨e.fileName, m.len, m.modified.getD (m.created.getD 0)⟩

/-- The loop over the sorted files: the files removed and the files that stay. -/
def pruneLoop (fails : LogFile → Bool) : ℕ → List LogFile → List LogFile × List LogFile
  | _, [] => ([], [])
  | excess, file :: files =>
      if excess = 0 then ([], file :: files)
      else if fails file then
        let (removed, kept) := pruneLoop fails excess files
        (removed, file :: kept)
      else
        let (removed, kept) := pruneLoop fails (excess - file.size) files
        (file :: removed, kept)

/-- `prune_directory` on a directory that can be read: the files removed and the files that stay. -/
def pruneDirectory (fails : LogFile → Bool) (entries : List (Option DirEntry)) (maxBytes : ℕ) (pfx : List Char) :
    List LogFile × List LogFile :=
  let files := entries.filterMap (logFile pfx)
  let totalBytes := files.foldl (fun total file => min (total + file.size) (2 ^ 64 - 1)) 0
  if totalBytes ≤ maxBytes then ([], files)
  else pruneLoop fails (totalBytes - maxBytes) (files.insertionSort fun a b => a.modified ≤ b.modified)

/-- What the removal of a file takes off the total. -/
def freed (fails : LogFile → Bool) (file : LogFile) : ℕ := if fails file then 0 else file.size

variable (fails : LogFile → Bool)

theorem total_freed (files : List LogFile) :
    Greedy.total (freed fails) files = Greedy.total LogFile.size (files.filter fun file => !fails file) := by
  induction files with
  | nil => rfl
  | cons file files ih => cases h : fails file <;> simp [Greedy.total, freed, h, ih]

theorem total_filter_add (files : List LogFile) :
    Greedy.total LogFile.size (files.filter fails) + Greedy.total LogFile.size (files.filter fun file => !fails file) =
      Greedy.total LogFile.size files := by
  induction files with
  | nil => rfl
  | cons file files ih => cases h : fails file <;> simp [Greedy.total, h, ← ih] <;> omega

/-- The loop goes on until what it has freed is enough. -/
theorem pruneLoop_eq (excess : ℕ) (files : List LogFile) :
    let k := Greedy.count (freed fails) excess files
    pruneLoop fails excess files =
      ((files.take k).filter fun file => !fails file, (files.take k).filter fails ++ files.drop k) := by
  induction files generalizing excess with
  | nil => rfl
  | cons file files ih =>
    simp only [pruneLoop, Greedy.count]
    split
    · rfl
    · cases h : fails file <;> simp [freed, h, ih]

theorem foldl_saturating {files : List LogFile} {total : ℕ}
    (h : total + Greedy.total LogFile.size files < 2 ^ 64) :
    files.foldl (fun total file => min (total + file.size) (2 ^ 64 - 1)) total =
      total + Greedy.total LogFile.size files := by
  induction files generalizing total with
  | nil => rfl
  | cons file files ih =>
    rw [Greedy.total] at h ⊢
    rw [foldl_cons, Nat.min_eq_left (by omega), ih (by omega), Nat.add_assoc]

theorem mem_logFiles {pfx : List Char} {entries : List (Option DirEntry)} {file : LogFile}
    (h : file ∈ entries.filterMap (logFile pfx)) : ∃ e m, some e ∈ entries ∧ e.metadata = some m ∧
      m.isFile = true ∧ pfx <+: e.fileName ∧ file.fileName = e.fileName := by
  obtain ⟨entry, hmem, hfile⟩ := mem_filterMap.1 h
  simp only [logFile, Option.bind_eq_some_iff, Option.map_eq_some_iff, Option.filter_eq_some_iff] at hfile
  obtain ⟨e, ⟨rfl, hpfx⟩, m, ⟨hm, hisFile⟩, rfl⟩ := hfile
  exact ⟨e, m, hmem, hm, hisFile, isPrefixOf_iff_prefix.1 hpfx, rfl⟩

/-- **Log pruning.** Of the log files in the order of their age, those among the first `k` whose removal does
    not fail are removed. The rest fits unless only failures are left, and before each of the `k` attempts it
    did not fit. -/
theorem pruneDirectory_spec (fails : LogFile → Bool) (entries : List (Option DirEntry)) (maxBytes : ℕ)
    (pfx : List Char) (hsum : Greedy.total LogFile.size (entries.filterMap (logFile pfx)) < 2 ^ 64) :
    ∃ removed kept sorted k, pruneDirectory fails entries maxBytes pfx = (removed, kept) ∧
      sorted.Perm (entries.filterMap (logFile pfx)) ∧ sorted.Pairwise (fun a b => a.modified ≤ b.modified) ∧
      (∀ file ∈ sorted, ∃ e m, some e ∈ entries ∧ e.metadata = some m ∧ m.isFile = true ∧ pfx <+: e.fileName ∧
        file.fileName = e.fileName) ∧
      removed = (sorted.take k).filter (fun file => !fails file) ∧
      kept.Perm ((sorted.take k).filter fails ++ sorted.drop k) ∧
      (Greedy.total LogFile.size kept ≤ maxBytes ∨ ∀ file ∈ kept, fails file = true) ∧
      ∀ j < k, maxBytes < Greedy.total LogFile.size sorted -
        Greedy.total LogFile.size ((sorted.take j).filter fun file => !fails file) := by
  have hmem := @mem_logFiles pfx entries
  simp only [pruneDirectory]
  rw [foldl_saturating (by rwa [Nat.zero_add]), Nat.zero_add]
  generalize entries.filterMap (logFile pfx) = files at *
  have hperm := perm_insertionSort (fun a b : LogFile => a.modified ≤ b.modified) files
  have hsorted := pairwise_insertionSort (fun a b : LogFile => a.modified ≤ b.modified) files
  have htotal := Greedy.total_perm LogFile.size hperm
  generalize files.insertionSort (fun a b => a.modified ≤ b.modified) = sorted at *
  split
  next hle => exact ⟨_, _, sorted, 0, rfl, hperm, hsorted, fun _ h => hmem (hperm.mem_iff.1 h), rfl, hperm.symm,
    .inl hle, fun j hj => absurd hj (Nat.not_lt_zero j)⟩
  · have hloop := pruneLoop_eq fails (Greedy.total LogFile.size files - maxBytes) sorted
    have hshort := fun j => @Greedy.total_take_lt _ (freed fails) sorted j (Greedy.total LogFile.size files - maxBytes)
    have henough := Greedy.needed_le_total_take (freed fails) (Greedy.total LogFile.size files - maxBytes) sorted
    generalize Greedy.count (freed fails) (Greedy.total LogFile.size files - maxBytes) sorted = k at *
    simp only [total_freed] at hshort henough
    refine ⟨_, _, sorted, k, hloop, hperm, hsorted, fun _ h => hmem (hperm.mem_iff.1 h), rfl, .refl _, ?_, ?_⟩
    · rcases henough with henough | hall
      · have := total_filter_add fails (sorted.take k)
        have := Greedy.total_take_add_drop LogFile.size sorted k
        rw [Greedy.total_append]
        exact .inl (by omega)
      · simp [hall]
    · intro j hj
      have := hshort j hj
      omega

/-- Three log files, the oldest in the middle, an entry that cannot be read and a file that is no log. -/
def logDirectory : List (Option DirEntry) :=
  [some ⟨"kb.c".toList, some ⟨true, 6, some 3, none⟩⟩, some ⟨"kb.a".toList, some ⟨true, 5, some 1, none⟩⟩, none,
    some ⟨"kb.b".toList, some ⟨true, 4, none, some 2⟩⟩, some ⟨"notes".toList, some ⟨true, 9, some 0, none⟩⟩]

/-- The removal of the oldest fails, that of the next one is enough. -/
theorem pruneDirectory_three_files :
    ∃ removed kept, pruneDirectory (fun file => file.fileName == "kb.a".toList) logDirectory 11 "kb.".toList =
        (removed, kept) ∧
      removed.map LogFile.fileName = ["kb.b".toList] ∧ kept.map LogFile.fileName = ["kb.a".toList, "kb.c".toList] ∧
      (Greedy.total LogFile.size kept ≤ 11 ∨ ∀ file ∈ kept, (file.fileName == "kb.a".toList) = true) := by
  obtain ⟨removed, kept, -, -, heq, -, -, -, -, -, hfit, -⟩ := pruneDirectory_spec
    (fun file => file.fileName == "kb.a".toList) logDirectory 11 "kb.".toList (by decide +kernel)
  have hremoved : _ = removed := congrArg Prod.fst heq
  have hkept : _ = kept := congrArg Prod.snd heq
  refine ⟨removed, kept, heq, ?_, ?_, hfit⟩
  · rw [← hremoved]
    decide +kernel
  · rw [← hkept]
    decide +kernel

end Tagsmaxxing.Maintenance
