import Mathlib.Data.Rat.Floor
import Tagsmaxxing.Lib.Table

/-! # Shared records and enumerations (`kb-core`)

The string enums of `kb-core` become inductive types; `asStr` is the one literal per variant that
the `str_enum!` macro derives everything from, and is given only where the code puts the string into
a value it returns. The row types are the columns of `0001_base_schema.sql` (with `0006`'s
`superseded_at`) that the modelled statements read or write; the primary key lives in the table
(`Serial`), not in the row. -/

namespace Tagsmaxxing

/-- A point in time, in seconds. Postgres `timestamptz` and `chrono::DateTime<Utc>` alike. -/
abbrev Time := ℚ

/-! ## Enumerations -/

inductive JobKind
  | ingest | reembed | export | retag | restoreTest | orphanGc | integrityScan | deleteTenant
  | sendEmail | refetch
deriving DecidableEq, Repr

inductive JobStatus
  | queued | running | failed | dead | done
deriving DecidableEq, Repr

def JobStatus.asStr : JobStatus → String
  | .queued => "queued"
  | .running => "running"
  | .failed => "failed"
  | .dead => "dead"
  | .done => "done"

inductive ProcessingStatus
  | pending | ready | failed
deriving DecidableEq, Repr

inductive DocKind
  | document | image | audio | video | identityDocument | code | archive | binary | email
deriving DecidableEq, Repr

/-! ## Digests -/

/-- `kb_core::hash::Sha256`: 32 raw bytes. -/
structure Sha256 where
  bytes : List UInt8
  length_eq : bytes.length = 32
deriving DecidableEq

theorem Sha256.length_filled (byte : UInt8) : (List.replicate 32 byte).length = 32 := List.length_replicate

/-- The lowercase hexadecimal digit of a nibble. -/
def hexDigit (n : ℕ) : Char :=
  if n < 10 then Char.ofNat (48 + n) else Char.ofNat (87 + n)

/-- `hex::encode`. -/
def hexEncode (bytes : List UInt8) : String :=
  String.ofList (bytes.flatMap fun b => [hexDigit (b.toNat / 16), hexDigit (b.toNat % 16)])

def Sha256.toHex (h : Sha256) : String := hexEncode h.bytes

/-! ## Rows -/

/-- A row of `documents`. The encrypted columns are written beside their plaintext and never read by
    a modelled statement. -/
structure DocumentRow where
  tenantId : Int
  title : Option String
  summary : Option String
  userNote : Option String
  kind : DocKind
  metaJson : String
  pageCount : Int32
  status : ProcessingStatus
  localOnly : Bool
deriving DecidableEq

/-- A row of `files`. `supersededAt = none` is a live row. -/
structure FileRow where
  tenantId : Int
  documentId : ℕ
  pageNo : Int32
  pageLabel : Option String
  sha256 : Sha256
  blobKey : String
  path : Option String
  mime : Option String
  sizeBytes : Option Int
  metaJson : String
  status : ProcessingStatus
  ingestedAt : Time
  supersededAt : Option Time
deriving DecidableEq

/-- A row of `jobs`. -/
structure JobRow where
  tenantId : Int
  createdBy : Option ℕ
  fileId : Option ℕ
  documentId : Option ℕ
  kind : JobKind
  priority : Int32
  status : JobStatus
  attempts : Int32
  lastError : Option String
  runAfter : Time
  createdAt : Time
  leaseExpiresAt : Option Time
  lockedBy : Option String
deriving DecidableEq

/-- The tables the queue and the ingest paths share. -/
structure Db where
  jobs : Serial JobRow
  documents : Serial DocumentRow
  files : Serial FileRow

end Tagsmaxxing
