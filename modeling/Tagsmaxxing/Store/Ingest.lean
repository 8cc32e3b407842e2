import Tagsmaxxing.Core.Types
import Tagsmaxxing.Lib.Run

/-! # Writing an ingest (`pg_store.rs`, `ingest_staging.rs`)

`transactional_ingest` (the finished document) and `create_pending_ingest` (the staged one) share one shape: take an
advisory lock keyed on the upload's hashes, look for a document whose file set is exactly this upload's
`(sha256, path)` pairs, write the document row (reused or new), upsert one file row per listed file, and commit. They
differ in the columns they write, in whether superseded rows count in the lookup, and in the tombstones that only
`transactional_ingest` writes.

Both run under row-level security: a statement sees, and may write, only rows of the transaction's tenant. The tables
for tags, chunks and embeddings are left out; the one statement on them that can fail by itself is the tag insert,
whose `VALUES` list is empty when there are no tags. -/

namespace Tagsmaxxing.Store

/-! ## Inputs -/

/-- `Document`, as the caller passes it. -/
structure Document where
  id : Int
  tenantId : Int
  title : Option String
  summary : Option String
  userNote : Option String
  kind : DocKind
  metaJson : String
  pageCount : Int32
  localOnly : Bool

/-- `FileRecord`, as the caller passes it. -/
structure FileRecord where
  tenantId : Int
  pageNo : Int32
  pageLabel : Option String
  sha256 : Sha256
  blobKey : String
  path : Option String
  mime : Option String
  sizeBytes : Option Int
  metaJson : String
  status : ProcessingStatus
  ingestedAt : Time

/-- What identifies a file within an upload. -/
def FileRecord.key (f : FileRecord) : Sha256 × Option String := (f.sha256, f.path)

/-- The same, of a stored row. -/
def rowKey (r : FileRow) : Sha256 × Option String := (r.sha256, r.path)

/-! ## The advisory lock -/

/-- `i64::from_le_bytes` of the first eight bytes. -/
def headLe (sha : Sha256) : BitVec 64 :=
  BitVec.ofNat 64 ((sha.bytes.take 8).foldr (fun b acc => b.toNat + 256 * acc) 0)

def ingestAdvisoryKey (tenantId : Int) (fileShas : List Sha256) : BitVec 64 :=
  fileShas.foldl (fun acc sha => acc ^^^ headLe sha) ((BitVec.ofInt 64 tenantId).rotateLeft 32)

/-! ## The lookup -/

/-- The rows of document `d` that the tenant sees. -/
def docRows (tenantId : Int) (d : ℕ) (t : Serial FileRow) : List (ℕ × FileRow) :=
  t.rows.filter fun r => r.2.tenantId == tenantId && r.2.documentId == d

/-- `COUNT(*)` of document `d`'s group in `files JOIN incoming`. -/
def joinCount (tenantId : Int) (files : List FileRecord) (t : Serial FileRow) (d : ℕ) : ℕ :=
  ((docRows tenantId d t).map fun r => files.countP fun f => f.key == rowKey r.2).sum

/-- Which of the two ingests. -/
inductive Mode
  /-- `transactional_ingest` -/
  | finalize
  /-- `create_pending_ingest` -/
  | stage
deriving DecidableEq

/-- The lookup's sub-select: live rows for `transactional_ingest`, all rows for staging. -/
def sizeCount (mode : Mode) (tenantId : Int) (t : Serial FileRow) (d : ℕ) : ℕ :=
  match mode with
  | .finalize => (docRows tenantId d t).countP fun r => r.2.supersededAt.isNone
  | .stage => (docRows tenantId d t).length

/-- The `HAVING` clause. -/
def hasFileSet (mode : Mode) (tenantId : Int) (files : List FileRecord) (t : Serial FileRow) (d : ℕ) : Bool :=
  joinCount tenantId files t d == files.length && sizeCount mode tenantId t d == files.length

/-- The reuse lookup: the smallest document id whose group qualifies. -/
def lookupFileSet (mode : Mode) (tenantId : Int) (files : List FileRecord) (t : Serial FileRow) : Option ℕ :=
  (((t.rows.filter fun r => r.2.tenantId == tenantId).map fun r => r.2.documentId).filter
    (hasFileSet mode tenantId files t)).min?

/-! ## Writing the rows -/

/-- The row an ingest writes for a file. -/
def fileRow (mode : Mode) (docId : ℕ) (f : FileRecord) : FileRow :=
  { tenantId := f.tenantId, documentId := docId, pageNo := f.pageNo, pageLabel := f.pageLabel,
    sha256 := f.sha256, blobKey := f.blobKey, path := f.path, mime := f.mime,
    sizeBytes := f.sizeBytes, metaJson := f.metaJson,
    status := match mode with
      | .finalize => f.status
      | .stage => .pending,
    ingestedAt := f.ingestedAt, supersededAt := none }

/-- Whether a stored row conflicts with a new one on `(tenant_id, sha256, document_id)`. -/
def conflicts (r x : FileRow) : Bool :=
  x.tenantId == r.tenantId && x.sha256 == r.sha256 && x.documentId == r.documentId

/-- `INSERT … ON CONFLICT (tenant_id, sha256, document_id) DO UPDATE … RETURNING id`. The update sets
    every other column, so the row ends up as the new one in both cases. -/
def upsertFile (r : FileRow) (t : Serial FileRow) : ℕ × Serial FileRow :=
  match t.rows.find? fun x => conflicts r x.2 with
  | some (id, _) => (id, t.modify id fun _ => r)
  | none => (t.next, t.insert r)

/-- The loop over the files: the returned ids and the table. A row of another tenant fails the
    policy's `WITH CHECK`. -/
def upsertFiles (mode : Mode) (tenantId : Int) (docId : ℕ) :
    List FileRecord → Serial FileRow → Except String (List ℕ × Serial FileRow)
  | [], t => .ok ([], t)
  | f :: fs, t =>
      if f.tenantId ≠ tenantId then
        .error (match mode with
          | .finalize => "failed to upsert file in transaction"
          | .stage => "failed to stage pending file")
      else
        let (id, t) := upsertFile (fileRow mode docId f) t
        match upsertFiles mode tenantId docId fs t with
        | .error e => .error e
        | .ok (ids, t) => .ok (id :: ids, t)

/-- Step 4.5: tombstone the live rows of the document that were not just written. -/
def supersedeOthers (tenantId : Int) (docId : ℕ) (fileIds : List ℕ) (now : Time)
    (t : Serial FileRow) : Serial FileRow :=
  t.updateWhere
    (fun id r => r.tenantId == tenantId && r.documentId == docId && !fileIds.contains id &&
      r.supersededAt.isNone)
    fun r => { r with supersededAt := some now }

/-- The columns `transactional_ingest` updates on an existing document. -/
def readyRow (doc : Document) (row : DocumentRow) : DocumentRow :=
  { row with tenantId := doc.tenantId, title := doc.title, summary := doc.summary,
             userNote := doc.userNote, kind := doc.kind, metaJson := doc.metaJson,
             pageCount := doc.pageCount, status := .ready }

/-- The document `transactional_ingest` inserts; `local_only` keeps the column's default. -/
def newReadyRow (doc : Document) : DocumentRow :=
  { tenantId := doc.tenantId, title := doc.title, summary := doc.summary, userNote := doc.userNote,
    kind := doc.kind, metaJson := doc.metaJson, pageCount := doc.pageCount, status := .ready,
    localOnly := false }

/-- The columns staging updates on an existing document. -/
def pendingRow (doc : Document) (row : DocumentRow) : DocumentRow :=
  { row with status := .pending, userNote := doc.userNote, localOnly := doc.localOnly }

/-- The document staging inserts: title and summary are not known yet. -/
def newPendingRow (doc : Document) : DocumentRow :=
  { tenantId := doc.tenantId, title := none, summary := none, userNote := doc.userNote,
    kind := doc.kind, metaJson := doc.metaJson, pageCount := doc.pageCount, status := .pending,
    localOnly := doc.localOnly }

/-- Step 1 of `transactional_ingest`: update the target document, or insert a new one when there is
    no target. Row-level security hides documents of other tenants from the update. -/
def resolveDocument (doc : Document) (targetId : ℕ) (documents : Serial DocumentRow) :
    Except String (ℕ × Serial DocumentRow) :=
  if 0 < targetId then
    match documents.get? targetId with
    | some row =>
        if row.tenantId = doc.tenantId then
          .ok (targetId, documents.modify targetId (readyRow doc))
        else .error "failed to update document in transaction"
    | none => .error "failed to update document in transaction"
  else .ok (documents.next, documents.insert (newReadyRow doc))

/-- The document id and the database after the commit. -/
def transactionalIngest (doc : Document) (files : List FileRecord) (tagIds : List ℕ) (now : Time)
    (db : Db) : Except String (ℕ × Db) :=
  let targetId :=
    if 0 < doc.id then doc.id.toNat
    else if files.isEmpty then 0
    else (lookupFileSet .finalize doc.tenantId files db.files).getD 0
  match resolveDocument doc targetId db.documents with
  | .error e => .error e
  | .ok (docId, documents) =>
      match upsertFiles .finalize doc.tenantId docId files db.files with
      | .error e => .error e
      | .ok (fileIds, t) =>
          if tagIds.isEmpty then .error "failed to insert document_tags"
          else .ok (docId, { db with
            documents := documents
            files := supersedeOthers doc.tenantId docId fileIds now t })

/-- The document id, the file ids, whether the document was reused, and the
    database. -/
def createPendingIngest (doc : Document) (files : List FileRecord) (db : Db) :
    Except String ((ℕ × List ℕ × Bool) × Db) :=
  if files.isEmpty then .error "create_pending_ingest: no files"
  else if doc.id ≠ 0 then
    .error ("create_pending_ingest: doc.id must be 0 (got " ++ toString doc.id ++ ")")
  else
    let (docId, reused, documents) :=
      match lookupFileSet .stage doc.tenantId files db.files with
      | some id =>
          (id, true, db.documents.updateWhere
            (fun i row => i == id && row.tenantId == doc.tenantId) (pendingRow doc))
      | none => (db.documents.next, false, db.documents.insert (newPendingRow doc))
    match upsertFiles .stage doc.tenantId docId files db.files with
    | .error e => .error e
    | .ok (fileIds, t) => .ok ((docId, fileIds, reused), { db with documents := documents, files := t })

/-- The file ids and the database. Rows are written under the transaction's
    tenant, whatever the records say. -/
def stagePendingFiles (tenantId : Int) (documentId : ℕ) (files : List FileRecord) (db : Db) :
    Except String (List ℕ × Db) :=
  if files.isEmpty then .error "stage_pending_files: no files"
  else if documentId = 0 then .error "stage_pending_files: document_id must be positive"
  else
    let visible (i : ℕ) (row : DocumentRow) : Bool := i == documentId && row.tenantId == tenantId
    if db.documents.rows.any fun r => visible r.1 r.2 then
      let documents := db.documents.updateWhere visible fun row => { row with status := .pending }
      match upsertFiles .stage tenantId documentId
          (files.map fun f => { f with tenantId := tenantId }) db.files with
      | .error e => .error e
      | .ok (fileIds, t) => .ok (fileIds, { db with documents := documents, files := t })
    else .error ("document " ++ toString documentId ++ " not found for tenant")

/-! ## The reads of the upload handlers -/

/-- The live rows of the document, in page order. -/
def getFilesForDocument (tenantId : Int) (docId : ℕ) (db : Db) : List (ℕ × FileRow) :=
  ((docRows tenantId docId db.files).filter fun r => r.2.supersededAt.isNone).mergeSort
    fun a b => decide (a.2.pageNo ≤ b.2.pageNo)

/-- The row, if the tenant sees it. -/
def getDocument (tenantId : Int) (docId : ℕ) (db : Db) : Option DocumentRow :=
  (db.documents.get? docId).filter fun row => row.tenantId == tenantId

/-- The jobs `count_pending_ingest_jobs` counts: work the system still owes. -/
def pendingIngest (j : JobRow) : Bool :=
  (j.kind == .ingest || j.kind == .refetch) &&
    (j.status == .queued || j.status == .running || j.status == .failed)

/-- The tenant's and all tenants' pending jobs. -/
def countPendingIngestJobs (tenantId : Int) (db : Db) : ℕ × ℕ :=
  (db.jobs.rows.countP fun r => pendingIngest r.2 && r.2.tenantId == tenantId,
    db.jobs.rows.countP fun r => pendingIngest r.2)

/-! ## Concurrent ingests

Any number of ingest transactions over one database. A transaction first takes its advisory lock,
which waits while another transaction holds the same key, and keeps it until it ends. Its statements
then work on its own view: under READ COMMITTED that is what is committed when they run, plus its own
writes, and nobody else sees those before the commit. `run` does all of them at once; that the view
cannot go stale before the commit is what the lock is for. A transaction may fail at any point. -/

/-- One call of an ingest. -/
structure Upload where
  mode : Mode
  doc : Document
  files : List FileRecord
  tagIds : List ℕ
  now : Time

/-- The key of the advisory lock the call takes. -/
def Upload.lockKey (u : Upload) : BitVec 64 :=
  ingestAdvisoryKey u.doc.tenantId (u.files.map FileRecord.sha256)

/-- The statements of the call, on a database. -/
def Upload.run (u : Upload) (db : Db) : Except String (ℕ × Db) :=
  match u.mode with
  | .finalize => transactionalIngest u.doc u.files u.tagIds u.now db
  | .stage => (createPendingIngest u.doc u.files db).map fun r => (r.1.1, r.2)

/-- A transaction holding its lock; `view` is what it will commit. -/
structure Txn where
  upload : Upload
  view : Option (ℕ × Db)

structure System where
  db : Db
  txns : Serial Txn

inductive Act
  | lock (u : Upload)
  | run (i : ℕ)
  | commit (i : ℕ)
  | abort (i : ℕ)

def step (s : System) : Act → Option System
  | .lock u =>
      if s.txns.rows.all fun r => r.2.upload.lockKey != u.lockKey then
        some { s with txns := s.txns.insert ⟨u, none⟩ }
      else none
  | .run i =>
      match s.txns.get? i with
      | some ⟨u, none⟩ =>
          match u.run s.db with
          | .ok r => some { s with txns := s.txns.modify i fun t => { t with view := some r } }
          | .error _ => some { s with txns := s.txns.erase i }
      | _ => none
  | .commit i =>
      match s.txns.get? i with
      | some ⟨_, some (_, db)⟩ => some { db := db, txns := s.txns.erase i }
      | _ => none
  | .abort i =>
      match s.txns.get? i with
      | some _ => some { s with txns := s.txns.erase i }
      | none => none

/-- The document id a commit returns to its caller. -/
def committed (e : Transition.Edge System Act) : Option ℕ :=
  match e.label with
  | .commit i => (e.src.txns.get? i).bind fun t => t.view.map Prod.fst
  | _ => none

end Tagsmaxxing.Store
