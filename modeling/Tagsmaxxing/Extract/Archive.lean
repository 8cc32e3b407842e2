import Tagsmaxxing.Extract.Text

/-! # Archives (`archive.rs`)

`ArchiveExtractor` walks the entries of a zip or tar archive, or takes a gzipped text, and puts the text-like
ones one after another under a header with their names. The crates that read the formats are parameters: any
entries, any contents, and contents that fail part way. -/

namespace Tagsmaxxing.Archive

/-! ## The formats -/

/-- What a reader yields: bytes, and then the end or an error. -/
structure Stream where
  bytes : List UInt8
  fails : Bool

/-- `take(cap).read_to_end`: once the cap is reached the reader is not asked again. -/
def Stream.readToEnd (stream : Stream) (cap : ℕ) : Option (List UInt8) :=
  if cap ≤ stream.bytes.length then some (stream.bytes.take cap)
  else if stream.fails then none
  else some stream.bytes

structure ZipEntry where
  isDir : Bool
  name : List Char
  size : ℕ
  compressedSize : ℕ
  content : Stream

structure TarEntry where
  isFile : Bool
  path : Option (List UInt8)
  content : Stream

/-- The crates `zip`, `tar` and `flate2`. An archive or an entry may be unreadable (`none`), and a reader may
    panic. -/
structure Readers where
  zip : List UInt8 → Option (List (Option ZipEntry))
  tar : List UInt8 → Option (List (Option TarEntry))
  gunzip : List UInt8 → Stream
  panics : List UInt8 → Bool

/-! ## The walk -/

def maxArchiveEntries : ℕ := 10000

def maxArchiveEntryBytes : ℕ := 4 * 1024 * 1024

def maxArchiveTotalUncompressedBytes : ℕ := 64 * 1024 * 1024

def maxArchiveCompressionRatio : ℕ := 200

def maxManifestNames : ℕ := 256

/-- `Harvest`, with `Harvest::default()`. -/
structure Harvest where
  text : List Char := []
  extracted : List (List Char) := []
  skipped : List (List Char) := []
  truncated : Bool := false
  format : String := ""

def isTar (bytes : List UInt8) : Bool :=
  decide (262 ≤ bytes.length) && (bytes.drop 257).take 5 == Utf8.encode "ustar".toList

def isTextLike (bytes : List UInt8) : Bool :=
  if bytes.isEmpty || bytes.contains 0 then false
  else
    let printable := bytes.countP fun b =>
      b == 0x09 || b == 0x0a || b == 0x0d || (0x20 ≤ b && b ≤ 0x7e) || 0x80 ≤ b
    decide (85 ≤ printable * 100 / bytes.length)

def isSafeEntryName (name : List Char) : Bool :=
  !name.isEmpty && name.head? != some '/' && name.head? != some '\\' && !name.contains '\x00' &&
    !(name.splitOnP fun c => c == '/' || c == '\\').any fun seg => seg == ['.', '.']

def pushEntryText (h : Harvest) (name : List Char) (content : List UInt8) : Harvest :=
  { h with
    extracted := h.extracted ++ [name]
    text := h.text ++ "\n--- ".toList ++ name ++ " ---\n".toList ++ Utf8.decodeLossy content ++ ['\n'] }

def Harvest.skip (h : Harvest) (name : List Char) : Harvest := { h with skipped := h.skipped ++ [name] }

/-- The end of both loops' bodies: read an entry within what is left of the total. The harvest, the new total,
    and whether the loop goes on. -/
def readEntry (name : List Char) (content : Stream) (total : ℕ) (h : Harvest) : Harvest × ℕ × Bool :=
  let budget := maxArchiveTotalUncompressedBytes - total
  if budget = 0 then ({ h with truncated := true }, total, false)
  else
    match content.readToEnd (min maxArchiveEntryBytes budget) with
    | none => (h, total, true)
    | some buf => (if isTextLike buf then pushEntryText h name buf else h.skip name, total + buf.length, true)

/-- A huge entry that was compressed away to almost nothing. -/
def ZipEntry.isBomb (entry : ZipEntry) : Bool :=
  decide (0 < entry.compressedSize) && decide (maxArchiveEntryBytes < entry.size) &&
    decide (maxArchiveCompressionRatio < entry.size / entry.compressedSize)

/-- The loop of `harvest_zip`; an entry that cannot be opened is passed over. -/
def zipLoop : List (Option ZipEntry) → ℕ → Harvest → Harvest
  | [], _, h => h
  | none :: entries, total, h => zipLoop entries total h
  | some entry :: entries, total, h =>
      if entry.isDir then zipLoop entries total h
      else if !isSafeEntryName entry.name || entry.isBomb then zipLoop entries total (h.skip entry.name)
      else
        let r := readEntry entry.name entry.content total h
        if r.2.2 then zipLoop entries r.2.1 r.1 else r.1

def harvestZip (readers : Readers) (bytes : List UInt8) : Harvest :=
  match readers.zip bytes with
  | none => { format := "zip" }
  | some entries =>
      zipLoop (entries.take maxArchiveEntries) 0
        { format := "zip", truncated := decide (maxArchiveEntries < entries.length) }

/-- `entry.path().ok().map(|p| p.to_string_lossy()).unwrap_or_default()`. -/
def TarEntry.name (entry : TarEntry) : List Char := (entry.path.map Utf8.decodeLossy).getD []

/-- The loop of `harvest_tar`; an error ends it. -/
def tarLoop : List (Option TarEntry) → ℕ → ℕ → Harvest → Harvest
  | [], _, _, h => h
  | none :: _, _, _, h => h
  | some entry :: entries, seen, total, h =>
      if maxArchiveEntries < seen + 1 then { h with truncated := true }
      else if !entry.isFile then tarLoop entries (seen + 1) total h
      else if !isSafeEntryName entry.name then tarLoop entries (seen + 1) total (h.skip entry.name)
      else
        let r := readEntry entry.name entry.content total h
        if r.2.2 then tarLoop entries (seen + 1) r.2.1 r.1 else r.1

def harvestTar (readers : Readers) (bytes : List UInt8) (format : String) : Harvest :=
  match readers.tar bytes with
  | none => { format := format }
  | some entries => tarLoop entries 0 0 { format := format }

def harvestGzip (readers : Readers) (bytes : List UInt8) : Harvest :=
  match (readers.gunzip bytes).readToEnd maxArchiveTotalUncompressedBytes with
  | none => { format := "gzip" }
  | some buf =>
      if isTar buf then harvestTar readers buf "tar.gz"
      else if isTextLike buf then pushEntryText { format := "gzip" } "(gzip)".toList buf
      else { format := "gzip" }

def harvestArchive (readers : Readers) (bytes : List UInt8) : Harvest :=
  if [0x50, 0x4b, 0x03, 0x04].isPrefixOf bytes || [0x50, 0x4b, 0x05, 0x06].isPrefixOf bytes then
    harvestZip readers bytes
  else if [0x1f, 0x8b].isPrefixOf bytes then harvestGzip readers bytes
  else if isTar bytes then harvestTar readers bytes "tar"
  else {}

/-- `ArchiveExtractor::extract`. The walk is a task of its own; if it panics, the harvest is empty. -/
def archiveExtract (readers : Readers) (file : RawFile) : Except String Extracted :=
  let harvest := if readers.panics file.bytes then {} else harvestArchive readers file.bytes
  let names := harvest.extracted.take maxManifestNames
  .ok
    { text := harvest.text
      metadata := .obj
        [ ("archive:format", .str harvest.format),
          ("archive:extracted_count", .int harvest.extracted.length),
          ("archive:skipped_count", .int harvest.skipped.length),
          ("archive:entries", .arr (names.map fun name => .str (String.ofList name))),
          ("archive:truncated", .bool harvest.truncated) ] }

/-! ## No NUL

Contents with a zero byte are not text-like, and names with a NUL are not safe. -/

/-- What the loops keep. -/
def Harvest.Storable (h : Harvest) : Prop := '\x00' ∉ h.text

theorem zero_not_mem_of_isTextLike {bytes : List UInt8} (h : isTextLike bytes = true) : 0 ∉ bytes := by
  rw [isTextLike] at h
  split at h
  · cases h
  next hcontains =>
    intro hzero
    exact hcontains (by simp [hzero])

theorem nul_not_mem_of_isSafeEntryName {name : List Char} (h : isSafeEntryName name = true) : '\x00' ∉ name := by
  simp only [isSafeEntryName, Bool.and_eq_true, Bool.not_eq_true', List.contains_eq_mem, decide_eq_false_iff_not] at h
  exact h.1.2

variable {h : Harvest}

theorem Harvest.Storable.push (hh : h.Storable) {name : List Char} (hname : '\x00' ∉ name) {content : List UInt8}
    (hcontent : isTextLike content = true) : (pushEntryText h name content).Storable := by
  have hlossy : '\x00' ∉ Utf8.decodeLossy content :=
    fun hnul => zero_not_mem_of_isTextLike hcontent (Utf8.zero_mem_of_decodeLossy hnul)
  have hopen : '\x00' ∉ "\n--- ".toList := by decide
  have hclose : '\x00' ∉ " ---\n".toList := by decide
  simp only [Harvest.Storable, pushEntryText, List.mem_append, not_or]
  exact ⟨⟨⟨⟨⟨hh, hopen⟩, hname⟩, hclose⟩, hlossy⟩, by decide⟩

theorem Harvest.Storable.readEntry (hh : h.Storable) {name : List Char} (hname : isSafeEntryName name = true)
    (content : Stream) (total : ℕ) : (readEntry name content total h).1.Storable := by
  rw [Archive.readEntry]
  split
  · exact hh
  · split
    · exact hh
    · dsimp only
      split
      next htext => exact hh.push (nul_not_mem_of_isSafeEntryName hname) htext
      · exact hh

theorem storable_zipLoop (entries : List (Option ZipEntry)) (total : ℕ) (hh : h.Storable) :
    (zipLoop entries total h).Storable := by
  induction entries generalizing total h with
  | nil => exact hh
  | cons entry entries ih =>
    cases entry with
    | none => exact ih total hh
    | some entry =>
      rw [zipLoop]
      split_ifs with hdir hskip
      · exact ih total hh
      · exact ih total hh
      · rw [Bool.or_eq_true, not_or, Bool.not_eq_true', Bool.not_eq_false] at hskip
        have hread := hh.readEntry hskip.1 entry.content total
        dsimp only
        split
        · exact ih _ hread
        · exact hread

theorem storable_tarLoop (entries : List (Option TarEntry)) (seen total : ℕ) (hh : h.Storable) :
    (tarLoop entries seen total h).Storable := by
  induction entries generalizing seen total h with
  | nil => exact hh
  | cons entry entries ih =>
    cases entry with
    | none => exact hh
    | some entry =>
      rw [tarLoop]
      split_ifs with hseen hfile hskip
      · exact hh
      · exact ih _ total hh
      · exact ih _ total hh
      · rw [Bool.not_eq_true', Bool.not_eq_false] at hskip
        have hread := hh.readEntry hskip entry.content total
        dsimp only
        split
        · exact ih _ _ hread
        · exact hread

theorem storable_empty (format : String) (truncated : Bool) :
    Harvest.Storable { format := format, truncated := truncated } := List.not_mem_nil

variable (readers : Readers) (bytes : List UInt8)

theorem storable_harvestTar (format : String) : (harvestTar readers bytes format).Storable := by
  rw [harvestTar]
  split
  · exact storable_empty format false
  · exact storable_tarLoop _ 0 0 (storable_empty format false)

theorem storable_harvestArchive : (harvestArchive readers bytes).Storable := by
  rw [harvestArchive]
  split
  · rw [harvestZip]
    split
    · exact storable_empty "zip" false
    · exact storable_zipLoop _ 0 (storable_empty "zip" _)
  · split
    · rw [harvestGzip]
      split
      · exact storable_empty "gzip" false
      · split
        · exact storable_harvestTar readers _ "tar.gz"
        · split
          next htext => exact (storable_empty "gzip" false).push (by decide) htext
          · exact storable_empty "gzip" false
    · split
      · exact storable_harvestTar readers bytes "tar"
      · exact storable_empty "" false

/-- For every archive and whatever the readers make of it. -/
theorem nul_not_mem_archiveExtract {readers : Readers} {file : RawFile} {extracted : Extracted}
    (h : archiveExtract readers file = .ok extracted) : '\x00' ∉ extracted.text := by
  cases h
  split
  · exact storable_empty "" false
  · exact storable_harvestArchive readers file.bytes

end Tagsmaxxing.Archive
