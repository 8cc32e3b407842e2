import Mathlib.Data.List.Infix
import Tagsmaxxing.Core.Types

/-! # Export (`export.rs`)

`run_export` writes everything a tenant has into one ZIP: a manifest, the blob of every file under a name
made from the file's path, and the rows as JSON lines. -/

namespace Tagsmaxxing.Export

open List

/-! ## The archive -/

structure Entry where
  name : String
  data : List UInt8
deriving DecidableEq

/-- Whether `start_file` takes a name after those it has taken before. -/
abbrev Policy := List String → String → Bool

/-- A writer that refuses a repeated name. -/
def Policy.unique : Policy := fun names name => name ∉ names

/-- A writer that takes any name. -/
def Policy.any : Policy := fun _ _ => true

/-- The finished entries and the open one. -/
structure ZipWriter where
  finished : List Entry
  current : Option Entry

namespace ZipWriter

def new : ZipWriter := ⟨[], none⟩

/-- `finish`, and what `start_file` does to the entry before. -/
def finish (zip : ZipWriter) : List Entry := zip.finished ++ zip.current.toList

def startFile (accepts : Policy) (zip : ZipWriter) (name : String) : Option ZipWriter :=
  if accepts (zip.finish.map Entry.name) name then some ⟨zip.finish, some ⟨name, []⟩⟩ else none

def writeAll (zip : ZipWriter) (data : List UInt8) : ZipWriter :=
  { zip with current := zip.current.map fun entry => { entry with data := entry.data ++ data } }

end ZipWriter

/-- Strips leading slashes; a path that is missing, empty or contains `..` is replaced by the blob key. -/
def safeZipPath (path : Option String) (blobKey : String) : String :=
  match path with
  | none => blobKey
  | some p =>
      let candidate := p.toList.dropWhile (· == '/')
      if candidate = [] ∨ ['.', '.'] <:+: candidate then blobKey else String.ofList candidate

/-- The entry of a file. -/
def entryName (file : FileRow) : String := safeZipPath file.path file.blobKey

/-! ## `run_export` -/

def exportSchemaVersion : ℕ := 1

def embedderId : String := "bge-m3"

def embedderDim : ℕ := 2560

structure Manifest where
  schemaVersion : ℕ
  embedderId : String
  embedderDim : ℕ
  exportedAt : Time
  tenantSlug : String
  documentCount : ℕ
  fileCount : ℕ
  totalBytes : ℕ

section
-- documents, tags and chunks are only passed on
variable {δ τ χ : Type}

/-- A line of `export.jsonl`. -/
inductive JsonlRecord (δ τ χ : Type)
  | document (data : δ)
  | file (data : FileRow)
  | tag (data : τ)
  | tagAlias (name : String) (tagId : Int)
  | documentTag (documentId tagId : Int)
  | chunk (data : χ)

/-- What the store has of a tenant. -/
structure TenantData (δ τ χ : Type) where
  documents : List δ
  files : List FileRow
  tags : List τ
  aliases : List (String × Int)
  docTags : List (Int × Int)
  chunks : List χ
  tenantSlug : String

/-- `ExportStore`; each query can fail. -/
structure ExportStore (δ τ χ : Type) where
  listDocuments : Int → Option (List δ)
  listFiles : Int → Option (List FileRow)
  listTags : Int → Option (List τ)
  listTagAliases : Int → Option (List (String × Int))
  listDocumentTags : Int → Option (List (Int × Int))
  listChunks : Int → Option (List χ)
  getTenantSlug : Int → Option String

/-- The seven queries, in order. -/
def ExportStore.read (store : ExportStore δ τ χ) (tenantId : Int) : Option (TenantData δ τ χ) := do
  let documents ← store.listDocuments tenantId
  let files ← store.listFiles tenantId
  let tags ← store.listTags tenantId
  let aliases ← store.listTagAliases tenantId
  let docTags ← store.listDocumentTags tenantId
  let chunks ← store.listChunks tenantId
  let tenantSlug ← store.getTenantSlug tenantId
  return ⟨documents, files, tags, aliases, docTags, chunks, tenantSlug⟩

/-- `serde_json`. -/
structure Serializer (δ τ χ : Type) where
  manifest : Manifest → List UInt8
  record : JsonlRecord δ τ χ → List UInt8

/-- The blob backend; `put` says whether it succeeds. -/
structure Blob where
  get : String → Option (List UInt8)
  put : String → List UInt8 → Bool

/-- `size_bytes as u64`, summed. -/
def totalBytes (files : List FileRow) : ℕ :=
  (files.filterMap FileRow.sizeBytes).foldl (fun total size => (total + (size % 2 ^ 64).toNat) % 2 ^ 64) 0

def TenantData.manifest (data : TenantData δ τ χ) (exportedAt : Time) : Manifest :=
  ⟨exportSchemaVersion, embedderId, embedderDim, exportedAt, data.tenantSlug, data.documents.length,
    data.files.length, totalBytes data.files⟩

/-- The lines of `export.jsonl`. -/
def TenantData.records (data : TenantData δ τ χ) : List (JsonlRecord δ τ χ) :=
  data.documents.map .document ++ data.files.map .file ++ data.tags.map .tag ++
    data.aliases.map (fun x => .tagAlias x.1 x.2) ++ data.docTags.map (fun x => .documentTag x.1 x.2) ++
    data.chunks.map .chunk

/-- The loop over the files. A blob that cannot be read leaves its entry empty. -/
def writeFiles (accepts : Policy) (blob : Blob) : List FileRow → ZipWriter → Option ZipWriter
  | [], zip => some zip
  | file :: files, zip =>
      match zip.startFile accepts (entryName file) with
      | none => none
      | some zip =>
          match blob.get file.blobKey with
          | some data => writeFiles accepts blob files (zip.writeAll data)
          | none => writeFiles accepts blob files zip

def writeJsonlLine (json : Serializer δ τ χ) (zip : ZipWriter) (record : JsonlRecord δ τ χ) : ZipWriter :=
  (zip.writeAll (json.record record)).writeAll [10]

/-- The ZIP in the temporary file. -/
def writeZip (accepts : Policy) (blob : Blob) (json : Serializer δ τ χ) (exportedAt : Time)
    (data : TenantData δ τ χ) : Option (List Entry) := do
  let zip ← ZipWriter.new.startFile accepts "manifest.json"
  let zip := (zip.writeAll (json.manifest (data.manifest exportedAt))).writeAll [10]
  let zip ← writeFiles accepts blob data.files zip
  let zip ← zip.startFile accepts "export.jsonl"
  return (data.records.foldl (writeJsonlLine json) zip).finish

/-- The key and the entries of the ZIP that is stored; `encode` is the file format and `sha256Hex` the hash
    of its bytes. -/
def runExport (accepts : Policy) (encode : List Entry → List UInt8) (sha256Hex : List UInt8 → String)
    (store : ExportStore δ τ χ) (blob : Blob) (json : Serializer δ τ χ) (now : Time) (tenantId : Int) :
    Option (String × List Entry) := do
  let data ← store.read tenantId
  let entries ← writeZip accepts blob json now data
  let blobKey := toString tenantId ++ "/export-" ++ sha256Hex (encode entries) ++ ".zip"
  if blob.put blobKey (encode entries) then return (blobKey, entries) else none

/-! ## What is written -/

/-- The entry of a file, complete. -/
def fileEntry (blob : Blob) (file : FileRow) : Entry := ⟨entryName file, (blob.get file.blobKey).getD []⟩

/-- The lines of the last entry. -/
def jsonl (json : Serializer δ τ χ) (records : List (JsonlRecord δ τ χ)) : List UInt8 :=
  records.flatMap fun record => json.record record ++ [10]

variable {accepts : Policy} {zip zip' : ZipWriter} {blob : Blob}

theorem ZipWriter.startFile_eq_some {name : String} (h : zip.startFile accepts name = some zip') :
    zip' = ⟨zip.finish, some ⟨name, []⟩⟩ := by
  rw [startFile] at h
  split at h
  · exact (Option.some.inj h).symm
  · cases h

theorem ZipWriter.startFile_of_notMem (haccepts : ∀ names name, name ∉ names → accepts names name = true)
    {name : String} (h : name ∉ zip.finish.map Entry.name) :
    zip.startFile accepts name = some ⟨zip.finish, some ⟨name, []⟩⟩ :=
  if_pos (haccepts _ _ h)

/-- Once it has all been written, the archive has gained the files' entries, in order. -/
theorem finish_writeFiles {files : List FileRow} (h : writeFiles accepts blob files zip = some zip') :
    zip'.finish = zip.finish ++ files.map (fileEntry blob) := by
  induction files generalizing zip with
  | nil =>
    cases h
    rw [map_nil, append_nil]
  | cons file files ih =>
    rw [writeFiles] at h
    split at h
    · cases h
    next started hstart =>
      obtain rfl := ZipWriter.startFile_eq_some hstart
      split at h
      · next data hdata =>
        rw [ih h, map_cons, fileEntry, hdata]
        simp [ZipWriter.finish, ZipWriter.writeAll]
      · next hnone =>
        rw [ih h, map_cons, fileEntry, hnone]
        simp [ZipWriter.finish]

/-- The loop comes to its end if no name is repeated. -/
theorem exists_writeFiles (haccepts : ∀ names name, name ∉ names → accepts names name = true) (blob : Blob)
    {files : List FileRow} (h : (zip.finish.map Entry.name ++ files.map entryName).Nodup) :
    ∃ zip', writeFiles accepts blob files zip = some zip' := by
  induction files generalizing zip with
  | nil => exact ⟨zip, rfl⟩
  | cons file files ih =>
    have hnew : entryName file ∉ zip.finish.map Entry.name := by
      intro hmem
      exact (nodup_append.1 h).2.2 _ hmem _ (mem_map_of_mem mem_cons_self) rfl
    have hstart := ZipWriter.startFile_of_notMem haccepts hnew
    rw [map_cons, append_cons] at h
    simp only [writeFiles, hstart]
    cases hblob : blob.get file.blobKey with
    | some data => exact ih (by simpa [ZipWriter.finish, ZipWriter.writeAll] using h)
    | none => exact ih (by simpa [ZipWriter.finish] using h)

theorem finish_writeJsonl (json : Serializer δ τ χ) (records : List (JsonlRecord δ τ χ)) (finished : List Entry)
    (entry : Entry) :
    (records.foldl (writeJsonlLine json) ⟨finished, some entry⟩).finish =
      finished ++ [⟨entry.name, entry.data ++ jsonl json records⟩] := by
  induction records generalizing entry with
  | nil => simp [ZipWriter.finish, jsonl]
  | cons record records ih =>
    have hline : writeJsonlLine json ⟨finished, some entry⟩ record =
        ⟨finished, some ⟨entry.name, entry.data ++ (json.record record ++ [10])⟩⟩ := by
      simp [writeJsonlLine, ZipWriter.writeAll]
    rw [foldl_cons, hline, ih]
    simp [jsonl]

/-- The archive, whenever there is one. -/
def archive (blob : Blob) (json : Serializer δ τ χ) (exportedAt : Time) (data : TenantData δ τ χ) : List Entry :=
  ⟨"manifest.json", json.manifest (data.manifest exportedAt) ++ [10]⟩ ::
    data.files.map (fileEntry blob) ++ [⟨"export.jsonl", jsonl json data.records⟩]

/-- The names of the files' entries are distinct, and none is one of the two reserved names. -/
def Distinct (files : List FileRow) : Prop :=
  (files.map entryName).Nodup ∧ ∀ file ∈ files, entryName file ≠ "manifest.json" ∧ entryName file ≠ "export.jsonl"

instance (files : List FileRow) : Decidable (Distinct files) := inferInstanceAs (Decidable (_ ∧ _))

theorem names_archive (blob : Blob) (json : Serializer δ τ χ) (exportedAt : Time) (data : TenantData δ τ χ) :
    (archive blob json exportedAt data).map Entry.name =
      "manifest.json" :: data.files.map entryName ++ ["export.jsonl"] := by
  simp [archive, fileEntry, Function.comp_def]

theorem nodup_names_iff (files : List FileRow) :
    ("manifest.json" :: files.map entryName ++ ["export.jsonl"]).Nodup ↔ Distinct files := by
  simp only [Distinct, cons_append, nodup_cons, mem_append, mem_map, mem_singleton,
    nodup_append, nodup_nil, not_or]
  constructor
  · rintro ⟨⟨hmanifest, -⟩, hnodup, -, hjsonl⟩
    refine ⟨hnodup, fun file hfile => ⟨fun heq => hmanifest ⟨file, hfile, heq⟩, fun heq => ?_⟩⟩
    exact hjsonl _ ⟨file, hfile, rfl⟩ _ rfl heq
  · rintro ⟨hnodup, hreserved⟩
    refine ⟨⟨?_, by decide⟩, hnodup, by simp, ?_⟩
    · rintro ⟨file, hfile, heq⟩
      exact (hreserved file hfile).1 heq
    · rintro name ⟨file, hfile, rfl⟩ b rfl
      exact (hreserved file hfile).2

variable {data : TenantData δ τ χ}

theorem writeZip_eq_some {json : Serializer δ τ χ} {exportedAt : Time} {entries : List Entry}
    (h : writeZip accepts blob json exportedAt data = some entries) :
    entries = archive blob json exportedAt data := by
  obtain ⟨zip, hzip, h⟩ := Option.bind_eq_some_iff.1 h
  obtain rfl := ZipWriter.startFile_eq_some hzip
  obtain ⟨zip', hzip', h⟩ := Option.bind_eq_some_iff.1 h
  obtain ⟨zip'', hzip'', h⟩ := Option.bind_eq_some_iff.1 h
  obtain rfl := ZipWriter.startFile_eq_some hzip''
  cases h
  rw [finish_writeJsonl, finish_writeFiles hzip', nil_append]
  simp [archive, ZipWriter.finish, ZipWriter.writeAll, ZipWriter.new]

theorem writeZip_of_distinct (haccepts : ∀ names name, name ∉ names → accepts names name = true) (blob : Blob)
    (json : Serializer δ τ χ) (exportedAt : Time) (h : Distinct data.files) :
    writeZip accepts blob json exportedAt data = some (archive blob json exportedAt data) := by
  have hnodup := (nodup_names_iff data.files).2 h
  obtain ⟨hfiles, -, hjsonl⟩ := nodup_append.1 hnodup
  have hmanifest : ZipWriter.new.startFile accepts "manifest.json" = some ⟨[], some ⟨"manifest.json", []⟩⟩ :=
    ZipWriter.startFile_of_notMem haccepts (by simp [ZipWriter.new, ZipWriter.finish])
  -- the writer after the manifest
  have hloop : ((⟨[], some ⟨"manifest.json", json.manifest (data.manifest exportedAt) ++ [10]⟩⟩ :
      ZipWriter).finish.map Entry.name ++ data.files.map entryName).Nodup := by
    simpa [ZipWriter.finish] using hfiles
  obtain ⟨zip, hzip⟩ := exists_writeFiles haccepts blob hloop
  have hlast : "export.jsonl" ∉ zip.finish.map Entry.name := by
    intro hmem
    refine hjsonl "export.jsonl" ?_ "export.jsonl" (by simp) rfl
    rw [finish_writeFiles hzip] at hmem
    simpa [ZipWriter.finish, fileEntry] using hmem
  have hwritten : writeZip accepts blob json exportedAt data =
      some (data.records.foldl (writeJsonlLine json) ⟨zip.finish, some ⟨"export.jsonl", []⟩⟩).finish :=
    Option.bind_eq_some_iff.2 ⟨_, hmanifest, Option.bind_eq_some_iff.2 ⟨zip, hzip,
      Option.bind_eq_some_iff.2 ⟨_, ZipWriter.startFile_of_notMem haccepts hlast, rfl⟩⟩⟩
  rw [hwritten, writeZip_eq_some hwritten]

end

/-- A page of document 1. -/
private def page (byte : UInt8) (path : Option String) (supersededAt : Option Time) : FileRow :=
  ⟨1, 1, 1, none, ⟨List.replicate 32 byte, Sha256.length_filled byte⟩, hexEncode (List.replicate 32 byte), path,
    none, none, "null", .ready, 0, supersededAt⟩

private def storeOf (files : List FileRow) : ExportStore Unit Unit Unit :=
  ⟨fun _ => some [], fun _ => some files, fun _ => some [], fun _ => some [], fun _ => some [], fun _ => some [],
    fun _ => some "acme"⟩

/-- Every blob is there. -/
private def blobs : Blob := ⟨fun key => some key.toUTF8.data.toList, fun _ _ => true⟩

private def emptyJson : Serializer Unit Unit Unit := ⟨fun _ => [], fun _ => []⟩

/-- Three pages with names of their own, two of them with one blob. -/
private def threePages : List FileRow :=
  [page 1 (some "/a.txt") none, page 1 (some "b/a.txt") none, page 2 (some "../c.txt") none]

end Tagsmaxxing.Export
