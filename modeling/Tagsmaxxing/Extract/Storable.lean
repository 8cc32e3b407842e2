import Tagsmaxxing.Extract.Archive
import Tagsmaxxing.Extract.Email
import Tagsmaxxing.Pipeline.Chunker

/-! # What the extractors hand to the database

`ingest_inner` cuts the extracted text into chunks and writes them to a `text` column, which cannot hold a NUL.
The extractors that run in the process take care of that in different ways, and two of them not at all. -/

namespace Tagsmaxxing

open Chunker

/-- The extractors of the runtime that read text in the process. -/
inductive InProcess
  | text
  | code
  | archive
  | email

/-- What the extractors get from elsewhere: Unicode's alphanumerics, the archive readers, the MIME parser. -/
structure ExtractEnv where
  isAlphanumeric : Char → Bool
  readers : Archive.Readers
  parse : List UInt8 → Option Email.Message

/-- `Extractor::extract`. -/
def InProcess.extract (env : ExtractEnv) : InProcess → RawFile → Except String Extracted
  | .text => Text.textExtract env.isAlphanumeric
  | .code => Text.codeExtract
  | .archive => Archive.archiveExtract env.readers
  | .email => Email.emailExtract env.parse

/-- What a `text` column takes. -/
def Storable (text : List Char) : Prop := '\x00' ∉ text

/-- The files whose NULs are not removed. -/
def InProcess.CarriesNul (env : ExtractEnv) (file : RawFile) : InProcess → Prop
  | .text => False
  | .code => 0 ∈ file.bytes
  | .archive => False
  | .email => ∃ message, env.parse (file.bytes.take Email.maxEmailBytes) = some message ∧
      ∃ part ∈ message.parts.take Email.maxEmailParts, part.CarriesNul

/-! ## Chunks -/

theorem chunkLoop_subset (text : Str) (fileId : Int) (pageNo : Option Int32) (tsOffset : Option Float) (w : Window)
    (start : ℕ) (idx : Int32) :
    ∀ chunk ∈ chunkLoop text fileId pageNo tsOffset w start idx, chunk.content ⊆ text.chars := by
  fun_induction chunkLoop text fileId pageNo tsOffset w start idx with
  | case1 => exact fun _ h => absurd h List.not_mem_nil
  | case2 start idx hlt endByte stop hstop ih =>
    exact List.forall_mem_cons.2 ⟨Utf8.slice_subset _ _ _, ih⟩
  | case3 => exact fun _ h => absurd h List.not_mem_nil

/-- `ingest_inner` chunks the text unchanged. -/
theorem storable_chunks {text : Str} (h : Storable text.chars) {fileId : Int} {pageNo : Option Int32}
    {tsOffset : Option Float} {chunkSize overlap : UInt64} {chunks : List TextChunk}
    (hchunks : chunkText text fileId pageNo tsOffset chunkSize overlap = .ok chunks) :
    ∀ chunk ∈ dedupIdenticalChunks chunks, Storable chunk.content := by
  intro chunk hchunk hnul
  have hmem := (dedupLoop_sublist [] chunks).subset hchunk
  rw [chunkText] at hchunks
  split at hchunks
  · split at hchunks
    · cases hchunks
      cases hmem
    · cases hchunks
      exact h (chunkLoop_subset text fileId pageNo tsOffset _ 0 0 chunk hmem hnul)
  · cases hchunks

/-! ## Which texts are storable -/

/-- For every file and each of the extractors, whatever the archive readers and the MIME parser return: the
    text is storable exactly if the file is not one whose NULs pass, and then so are all of its chunks. -/
theorem extract_storable_iff (env : ExtractEnv) (extractor : InProcess) (file : RawFile) {extracted : Extracted}
    (h : extractor.extract env file = .ok extracted) :
    (Storable extracted.text ↔ ¬ extractor.CarriesNul env file) ∧
      (¬ extractor.CarriesNul env file → ∀ text : Str, text.chars = extracted.text →
        ∀ fileId pageNo tsOffset chunkSize overlap chunks,
          chunkText text fileId pageNo tsOffset chunkSize overlap = .ok chunks →
            ∀ chunk ∈ dedupIdenticalChunks chunks, Storable chunk.content) := by
  have hiff : Storable extracted.text ↔ ¬ extractor.CarriesNul env file := by
    cases extractor with
    | text => exact iff_of_true (Text.nul_not_mem_textExtract h) not_false
    | code =>
      refine not_congr ?_
      rw [InProcess.CarriesNul, Text.bytes_of_codeExtract h]
      exact (Utf8.zero_mem_encode _).symm
    | archive => exact iff_of_true (Archive.nul_not_mem_archiveExtract h) not_false
    | email => exact not_congr (Email.nul_mem_emailExtract h)
  refine ⟨hiff, fun hno text htext fileId pageNo tsOffset chunkSize overlap chunks hchunks => ?_⟩
  refine storable_chunks ?_ hchunks
  rw [htext]
  exact hiff.2 hno

/-- Any parser and readers will do here. -/
def ExtractEnv.bare : ExtractEnv where
  isAlphanumeric := Char.isAlphanum
  readers := { zip := fun _ => none, tar := fun _ => none, gunzip := fun _ => ⟨[], false⟩, panics := fun _ => false }
  parse := fun _ => none

/-- `a`, NUL, `b` as a plain text. -/
def nulFile : RawFile := ⟨Utf8.encode ['a', '\x00', 'b'], some "text/plain", some "notes.txt"⟩

theorem extract_storable_text : ∃ extracted, InProcess.text.extract .bare nulFile = .ok extracted ∧
    extracted.text = ['a', 'b'] ∧ Storable extracted.text := by
  refine ⟨_, rfl, ?_, (extract_storable_iff .bare .text nulFile rfl).1.2 not_false⟩
  decide +kernel

/-- A message with one plain text part. -/
def Email.Message.plain (text : List Char) : Email.Message where
  fromAddr := none
  toAddr := none
  ccAddr := none
  subject := none
  date := none
  messageId := none
  contentType := none
  parts :=
    [{ isMultipart := false, isTextHtml := false, isText := true, isBinary := false, isMessage := false,
       textContents := some text, attachmentName := none }]

theorem utf8Len_nulFile : String.utf8Len ['a', '\x00', 'b'] < 2 ^ 63 := by decide

/-- The same bytes as code, and an e-mail whose part has them: the NUL is in the text and in the chunk that
    would be stored. -/
theorem extract_not_storable :
    (InProcess.code.extract .bare nulFile = .ok { text := ['a', '\x00', 'b'], metadata := .obj [] }) ∧
    (∃ extracted, InProcess.email.extract { ExtractEnv.bare with
        parse := fun bytes => (Utf8.decode bytes).toOption.map Email.Message.plain } nulFile = .ok extracted ∧
      extracted.text = ['a', '\x00', 'b']) ∧
    ((chunkText ⟨['a', '\x00', 'b'], utf8Len_nulFile⟩ 1 (some 1) none 2048 64).toOption.map fun chunks =>
      (dedupIdenticalChunks chunks).map (·.content)) = some [['a', '\x00', 'b']] ∧
    ¬ Storable ['a', '\x00', 'b'] := by
  refine ⟨Text.codeExtract_encode _ _ _, ⟨_, rfl, ?_⟩, ?_, ?_⟩
  · decide +kernel
  · decide +kernel
  · exact fun h => h (by decide)

end Tagsmaxxing
