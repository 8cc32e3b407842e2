import Tagsmaxxing.Pipeline.DocumentBuilder
import Tagsmaxxing.Pipeline.JobQueue

/-! # Queued uploads and added pages (`handlers/ingest.rs`)

`process_upload_queued` and `process_add_page_queued` as a system: any number of requests of one tenant over one
database and one blob store. A request is a small state machine (`Phase`) of one step for each of its awaited
operations. An operation can succeed, fail, or be *lost* (it takes effect and the caller still sees an error, as when
the connection breaks after a `COMMIT` was sent), and a request can be dropped at any await.

The staging transaction and the enqueue are one step each: nothing of a transaction is visible before its commit.
Blobs are a map from keys to contents; putting is overwriting with the same content. -/

namespace Tagsmaxxing.IngestHandler

open Store

/-! ## Requests -/

structure IngestFile where
  bytes : List UInt8
  pageLabel : Option String
  path : Option String

/-- `ParsedUpload`; the form's grouping flag is not read by any path, and its CSRF token is checked
    before. -/
structure ParsedUpload where
  files : List IngestFile
  userNote : Option String

/-- The queue bounds of `kb_config::Ingest`. -/
structure Caps where
  maxPendingPerTenant : ℕ
  maxPendingGlobal : ℕ

/-- What a request stages: a new document, or pages of an existing one. -/
inductive Target
  | document (doc : Document)
  | pages (documentId : ℕ)

/-- The operation a request waits for. -/
inductive Phase
  /-- `count_pending_ingest_jobs` -/
  | admission (caps : Caps)
  /-- `get_files_for_document` -/
  | existingFiles (documentId : ℕ)
  /-- `get_document` -/
  | document (documentId : ℕ) (existing : ℕ)
  /-- `blob.put` of the head of `todo` -/
  | put (target : Target) (records : List FileRecord) (todo : List (FileRecord × List UInt8))
  /-- `create_pending_ingest` or `stage_pending_files` -/
  | stage (target : Target) (records : List FileRecord)
  /-- `job_queue.enqueue` -/
  | enqueue (documentId : ℕ) (records : List FileRecord)
  /-- `blob.delete` of the head of `todo`, in `cleanup_blobs`; `err` is the error to return -/
  | cleanup (todo : List String) (err : String)

/-- A request in flight. -/
structure Request where
  userId : Option ℕ
  localOnly : Bool
  upload : ParsedUpload
  phase : Phase

/-- What a request is answered with. -/
inductive Reply
  /-- The job, the document and the number of files of an accepted request. -/
  | accepted (jobId documentId files : ℕ)
  | rejected (e : Security.UploadRejected)
  | queueFull (tenantPending tenantCap globalPending globalCap : ℕ)
  | internal (err : String)
deriving DecidableEq

/-- `QueueFull`'s message. -/
def queueFullMessage (tenantPending tenantCap globalPending globalCap : ℕ) : String :=
  "ingest queue is full (tenant " ++ toString tenantPending ++ "/" ++ toString tenantCap ++
    ", global " ++ toString globalPending ++ "/" ++ toString globalCap ++ "); retry shortly"

/-- How an awaited operation ends. -/
inductive Outcome
  | ok
  /-- No effect, and an error. -/
  | failed (err : String)
  /-- The effect, and an error all the same. -/
  | lost (err : String)

/-- The database, the blob store, the requests in flight and the answers given. -/
structure Server where
  db : Db
  blobs : String → Option (List UInt8)
  requests : Serial Request
  replies : List (ℕ × Reply)

/-! ## The pure parts of the handlers -/

/-- The validation loop: the first rejected file's error. -/
def validateFiles (c : Content) : List IngestFile → Option Security.UploadRejected
  | [] => none
  | f :: fs =>
      match Security.validateUpload c.fromU8 f.bytes f.path Security.maxIndividualFileBytes with
      | .error e => some e
      | .ok () => validateFiles c fs

/-- The sanitized note of an upload. -/
def cleanNote (note : String) : String :=
  let note := stripControlChars note.toList
  String.ofList (if maxUserNoteBytes < String.utf8Len note then
    truncateToCharBoundary note maxUserNoteBytes else note)

/-- A file with its label and path sanitized. -/
def cleanFile (f : IngestFile) : PageInput :=
  ⟨f.bytes, f.pageLabel.bind sanitizeFilename, f.path.bind sanitizeFilename⟩

/-- The document and the records of an upload. -/
def buildUpload (c : Content) (tenantId : Int) (localOnly : Bool) (u : ParsedUpload) (now : Time) :
    Document × List FileRecord :=
  let userNote := u.userNote.map cleanNote
  let built := match u.files.map cleanFile with
    | [page] => DocumentBuilder.buildSingle c tenantId page.bytes page.path userNote now
    | pages => DocumentBuilder.buildMulti c tenantId pages userNote now
  ({ built.1 with localOnly := localOnly }, built.2)

/-- The records of added pages, numbered after the existing ones. -/
def buildPages (c : Content) (tenantId : Int) (existing : ℕ) (u : ParsedUpload) (now : Time) : List FileRecord :=
  (DocumentBuilder.buildMulti c tenantId (u.files.map cleanFile) none now).2.map fun r =>
    { r with pageNo := r.pageNo + Int32.ofNat existing }

/-- The staging transaction: the document id and the database. -/
def stageTarget (tenantId : Int) (records : List FileRecord) (db : Db) : Target → Except String (ℕ × Db)
  | .document doc => (createPendingIngest doc records db).map fun r => (r.1.1, r.2)
  | .pages documentId => (stagePendingFiles tenantId documentId records db).map fun r => (documentId, r.2)

/-- The keys `cleanup_blobs` deletes: each once, in the order of the records. -/
def cleanupKeys (records : List FileRecord) : List String :=
  records.foldl (fun seen r => if seen.contains r.blobKey then seen else seen ++ [r.blobKey]) []

/-! ## Steps -/

/-- The request ends with this answer. -/
def Server.finish (s : Server) (i : ℕ) (reply : Reply) : Server :=
  { s with requests := s.requests.erase i, replies := s.replies ++ [(i, reply)] }

/-- The request goes on with this phase. -/
def Server.goto (s : Server) (i : ℕ) (phase : Phase) : Server :=
  { s with requests := s.requests.modify i fun r => { r with phase := phase } }

/-- Start putting the records' blobs, or go straight to staging when there are none. -/
def Server.gotoPut (s : Server) (i : ℕ) (target : Target) (records : List FileRecord)
    (todo : List (FileRecord × List UInt8)) : Server :=
  s.goto i (if todo.isEmpty then .stage target records else .put target records todo)

/-- Clean up the remaining keys, or answer when there are none. -/
def Server.gotoCleanup (s : Server) (i : ℕ) (todo : List String) (err : String) : Server :=
  if todo.isEmpty then s.finish i (.internal err) else s.goto i (.cleanup todo err)

inductive Act
  /-- A queued upload arrives. -/
  | upload (userId : Option ℕ) (localOnly : Bool) (caps : Caps) (u : ParsedUpload)
  /-- An add-page request arrives. -/
  | addPage (userId : Option ℕ) (documentId : ℕ) (u : ParsedUpload)
  /-- The operation request `i` waits for ends. -/
  | advance (i : ℕ) (outcome : Outcome) (now : Time)
  /-- The request's future is dropped. -/
  | drop (i : ℕ)

/-- A request arrives; files that fail validation are answered at once. -/
def arrive (c : Content) (r : Request) (s : Server) : Server :=
  match validateFiles c r.upload.files with
  | some e => { s with
      requests := (s.requests.insert r).erase s.requests.next
      replies := s.replies ++ [(s.requests.next, .rejected e)] }
  | none => { s with requests := s.requests.insert r }

/-- One read of a handler: an error ends the request, an answer goes to `k`. -/
def onRead (s : Server) (i : ℕ) (outcome : Outcome) (k : Server) : Server :=
  match outcome with
  | .ok => k
  | .failed err | .lost err => s.finish i (.internal err)

/-- The admission check and, past it, the records. -/
def checkAdmission (c : Content) (tenantId : Int) (s : Server) (i : ℕ) (r : Request) (caps : Caps)
    (now : Time) : Server :=
  let pending := countPendingIngestJobs tenantId s.db
  if caps.maxPendingPerTenant ≤ pending.1 ∨ caps.maxPendingGlobal ≤ pending.2 then
    s.finish i (.queueFull pending.1 caps.maxPendingPerTenant pending.2 caps.maxPendingGlobal)
  else
    let built := buildUpload c tenantId r.localOnly r.upload now
    s.gotoPut i (.document built.1) built.2 (built.2.zip (r.upload.files.map IngestFile.bytes))

/-- The existence check of `process_add_page_queued` and, past it, the records. -/
def openDocument (c : Content) (tenantId : Int) (s : Server) (i : ℕ) (r : Request)
    (documentId existing : ℕ) (now : Time) : Server :=
  match getDocument tenantId documentId s.db with
  | none => s.finish i (.internal ("document " ++ toString documentId ++ " not found"))
  | some _ =>
      let records := buildPages c tenantId existing r.upload now
      s.gotoPut i (.pages documentId) records (records.zip (r.upload.files.map IngestFile.bytes))

/-- `blob.put`. A failed put ends the request without any clean-up. -/
def putBlob (s : Server) (i : ℕ) (target : Target) (records : List FileRecord) (f : FileRecord)
    (bytes : List UInt8) (rest : List (FileRecord × List UInt8)) (outcome : Outcome) : Server :=
  let stored : Server := { s with blobs := Function.update s.blobs f.blobKey (some bytes) }
  let err : Reply := .internal ("failed to store blob " ++ f.blobKey)
  match outcome with
  | .ok => stored.gotoPut i target records rest
  | .failed _ => s.finish i err
  | .lost _ => stored.finish i err

/-- The staging transaction; its failure cleans up. -/
def stageRecords (tenantId : Int) (s : Server) (i : ℕ) (target : Target) (records : List FileRecord)
    (outcome : Outcome) : Server :=
  match outcome, stageTarget tenantId records s.db target with
  | .ok, .ok (documentId, db) => { s with db := db }.goto i (.enqueue documentId records)
  | .ok, .error err => s.gotoCleanup i (cleanupKeys records) err
  | .failed err, _ => s.gotoCleanup i (cleanupKeys records) err
  | .lost err, .ok (_, db) => { s with db := db }.gotoCleanup i (cleanupKeys records) err
  | .lost err, .error _ => s.gotoCleanup i (cleanupKeys records) err

/-- `job_queue.enqueue`; its failure cleans up, although the rows are committed. -/
def enqueueJob (tenantId : Int) (s : Server) (i : ℕ) (r : Request) (documentId : ℕ)
    (records : List FileRecord) (outcome : Outcome) (now : Time) : Server :=
  let queued : Server :=
    { s with db := JobQueue.enqueue tenantId r.userId none (some documentId) .ingest 0 now s.db }
  match outcome with
  | .ok => queued.finish i (.accepted s.db.jobs.next documentId records.length)
  | .failed err => s.gotoCleanup i (cleanupKeys records) err
  | .lost err => queued.gotoCleanup i (cleanupKeys records) err

/-- `blob.delete` in `cleanup_blobs`; a failed delete is logged and passed over. -/
def deleteBlob (s : Server) (i : ℕ) (key : String) (rest : List String) (err : String) (outcome : Outcome) : Server :=
  match outcome with
  | .failed _ => s.gotoCleanup i rest err
  | .ok | .lost _ => { s with blobs := Function.update s.blobs key none }.gotoCleanup i rest err

/-- The operation request `i` waits for ends. -/
def advance (c : Content) (tenantId : Int) (s : Server) (i : ℕ) (r : Request) (outcome : Outcome)
    (now : Time) : Option Server :=
  match r.phase with
  | .admission caps => some (onRead s i outcome (checkAdmission c tenantId s i r caps now))
  | .existingFiles d =>
      some (onRead s i outcome
        (s.goto i (.document d (getFilesForDocument tenantId d s.db).length)))
  | .document d n => some (onRead s i outcome (openDocument c tenantId s i r d n now))
  | .put target records ((f, bytes) :: rest) => some (putBlob s i target records f bytes rest outcome)
  | .put _ _ [] => none
  | .stage target records => some (stageRecords tenantId s i target records outcome)
  | .enqueue d records => some (enqueueJob tenantId s i r d records outcome now)
  | .cleanup (key :: rest) err => some (deleteBlob s i key rest err outcome)
  | .cleanup [] _ => none

/-- One step of the tenant's requests. -/
def step (c : Content) (tenantId : Int) (s : Server) : Act → Option Server
  | .upload userId localOnly caps u => some (arrive c ⟨userId, localOnly, u, .admission caps⟩ s)
  | .addPage userId d u => some (arrive c ⟨userId, false, u, .existingFiles d⟩ s)
  | .advance i outcome now =>
      match s.requests.get? i with
      | some r => advance c tenantId s i r outcome now
      | none => none
  | .drop i =>
      match s.requests.get? i with
      | some _ => some { s with requests := s.requests.erase i }
      | none => none

end Tagsmaxxing.IngestHandler
