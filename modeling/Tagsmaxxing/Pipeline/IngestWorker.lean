import Tagsmaxxing.Pipeline.Refetch
import Tagsmaxxing.Pipeline.WorkerPool

/-! # Inline and queued ingests (`ingest.rs`, `ingest_worker.rs`)

An ingest runs its models under an effective `local_only` flag and then writes the document with
`transactional_ingest`. On the inline path the flag is the tenant's plan gate at the upload; on the queued path it is
the flag staged with the document, or'd with the plan gate when the worker takes the job.

`transactional_ingest` however has no `local_only` column in either of its statements: a new document gets the column's
default, and an existing one keeps what it has (`storedFlag_transactionalIngest`). A refetch job later reads the
stored flag. -/

namespace Tagsmaxxing.IngestWorker

open Option Store Statements
open IngestHandler (IngestFile cleanFile)

/-! ## The pipeline -/

/-- What the outside does during one ingest. `process` is what extraction, captioning, tagging,
    canonicalizing and embedding make of the pages and the note, when every model call is given this
    `local_only`; the two `failed` fields are the errors of the worker's reads, if they fail. -/
structure Outside (c : Content) where
  getDocumentFailed : Option String
  getFilesFailed : Option String
  getBlob : String → Except String (List UInt8)
  putBlob : String → Except String Unit
  truncateToTokenBudget : List Char → List Char
  process : Bool → List PageInput → Option String → Except String Refetch.Processed
  now : Time

variable {c : Content}

/-- The note as `ingest_inner` cleans it. -/
def Outside.cleanNote (o : Outside c) (note : String) : String :=
  String.ofList (o.truncateToTokenBudget
    (truncateToCharBoundary (stripControlChars note.toList) maxUserNoteBytes))

/-- Step 1: the document and its records. -/
def buildDocument (c : Content) (tenantId : Int) (pages : List PageInput) (userNote : Option String)
    (now : Time) : Document × List FileRecord :=
  match pages with
  | [page] => DocumentBuilder.buildSingle c tenantId page.bytes page.path userNote now
  | pages => DocumentBuilder.buildMulti c tenantId pages userNote now

/-- Step 2: one blob per record. -/
def storeBlobs (put : String → Except String Unit) : List FileRecord → Except String Unit
  | [] => .ok ()
  | f :: fs =>
      match put f.blobKey with
      | .error e => .error ("failed to store blob for " ++ f.blobKey ++ ": " ++ e)
      | .ok () => storeBlobs put fs

/-- Step 7b. -/
def readyRecords (records : List FileRecord) : List FileRecord :=
  records.map fun f => { f with status := .ready }

/-- The document of step 8. -/
def finalDocument (document : Document) (existingDocId : Option ℕ) (out : Refetch.Processed)
    (localOnly : Bool) : Document :=
  { document with
    id := (existingDocId.map Int.ofNat).getD document.id, title := some out.title,
    summary := some out.summary, kind := out.kind, metaJson := out.metaJson, pageCount := out.pageCount,
    localOnly := localOnly }

/-- The document id and the database. -/
def ingestInner (o : Outside c) (tenantId : Int) (files : List IngestFile) (userNote : Option String)
    (localOnly : Bool) (existingDocId : Option ℕ) (s : SourceDb) : Except String (ℕ × SourceDb) :=
  if files.isEmpty then .error "at least one file is required"
  else
    let note := userNote.map o.cleanNote
    let pages := files.map cleanFile
    let built := buildDocument c tenantId pages note o.now
    match storeBlobs o.putBlob built.2 with
    | .error e => .error e
    | .ok () =>
        match o.process localOnly pages note with
        | .error e => .error e
        | .ok out =>
            match transactionalIngest (finalDocument built.1 existingDocId out localOnly)
                (readyRecords built.2) out.tagIds o.now s.store with
            | .error e => .error e
            | .ok (docId, store) => .ok (docId, { s with
                store := store
                tags := Function.update s.tags docId out.tags
                liveChunks := Function.update s.liveChunks docId out.chunkCount })

/-- `IngestPipeline::ingest`, the inline path. -/
def ingest (o : Outside c) (tenantId : Int) (files : List IngestFile) (userNote : Option String)
    (localOnly : Bool) (s : SourceDb) : Except String (ℕ × SourceDb) :=
  ingestInner o tenantId files userNote localOnly none s

/-- `IngestPipeline::ingest_into`, into a staged document. -/
def ingestInto (o : Outside c) (tenantId : Int) (documentId : ℕ) (files : List IngestFile)
    (userNote : Option String) (localOnly : Bool) (s : SourceDb) : Except String (ℕ × SourceDb) :=
  if documentId = 0 then .error "ingest_into requires a positive document_id (got 0)"
  else ingestInner o tenantId files userNote localOnly (some documentId) s

/-! ## The worker -/

structure QueuedIngestInputs where
  documentId : ℕ
  files : List IngestFile
  userNote : Option String
  localOnly : Bool
  alreadyReady : Bool

/-- The loop that reads the staged files back. -/
def readFiles (getBlob : String → Except String (List UInt8)) : List (ℕ × FileRow) → Except String (List IngestFile)
  | [] => .ok []
  | row :: rows =>
      match getBlob row.2.blobKey with
      | .error e => .error ("failed to read blob '" ++ row.2.blobKey ++ "': " ++ e)
      | .ok bytes =>
          match readFiles getBlob rows with
          | .error e => .error e
          | .ok files => .ok (⟨bytes, row.2.pageLabel, row.2.path⟩ :: files)

def loadQueuedIngestInputs (o : Outside c) (jobId : ℕ) (job : JobRow) (planLocalOnly : Bool) (db : Db) :
    Except String QueuedIngestInputs :=
  match job.documentId with
  | none => .error (WorkerPool.permanentError ++ "ingest job " ++ toString jobId ++
      " carries no document_id (legacy job?)")
  | some documentId =>
      match o.getDocumentFailed with
      | some e => .error ("failed to load staged document " ++ toString documentId ++ ": " ++ e)
      | none =>
          match getDocument job.tenantId documentId db with
          | none => .error (WorkerPool.permanentError ++ "staged document " ++ toString documentId ++
              " not found for tenant")
          | some doc =>
              if doc.status = .ready then .ok ⟨documentId, [], none, doc.localOnly, true⟩
              else
                match o.getFilesFailed with
                | some e => .error ("failed to load files for document " ++ toString documentId ++ ": " ++ e)
                | none =>
                    match getFilesForDocument job.tenantId documentId db with
                    | [] => .error (WorkerPool.permanentError ++ "staged document " ++ toString documentId ++
                        " has no file rows")
                    | rows =>
                        match readFiles o.getBlob rows with
                        | .error e => .error e
                        | .ok files =>
                            .ok ⟨documentId, files, doc.userNote, doc.localOnly || planLocalOnly, false⟩

def classifyPipelineError (formatted : String) : String :=
  if "extraction failed".toList.isPrefixOf formatted.toList then WorkerPool.permanentError ++ formatted
  else formatted

/-- `process_queued_ingest`. The worker reads `loadDb`; by the time it writes, other transactions may have
    made `s` of it. -/
def processQueuedIngest (o : Outside c) (jobId : ℕ) (job : JobRow) (planLocalOnly : Bool) (loadDb : Db)
    (s : SourceDb) : Except String (ℕ × SourceDb) :=
  match loadQueuedIngestInputs o jobId job planLocalOnly loadDb with
  | .error e => .error e
  | .ok inputs =>
      if inputs.alreadyReady then .ok (inputs.documentId, s)
      else
        match ingestInto o job.tenantId inputs.documentId inputs.files inputs.userNote inputs.localOnly s with
        | .error e => .error (classifyPipelineError e)
        | .ok r => .ok r

/-! ## The stored flag -/

/-- `documents.local_only` of a document the tenant sees. -/
def storedFlag (tenantId : Int) (d : ℕ) (db : Db) : Option Bool :=
  (getDocument tenantId d db).map DocumentRow.localOnly

/-- No document that was there has another flag, or another tenant, than before. -/
def FlagsKept (s s' : SourceDb) : Prop :=
  ∀ tenantId d, storedFlag tenantId d s'.store = storedFlag tenantId d s.store

instance : IsPreorder SourceDb FlagsKept where
  refl _ _ _ := rfl
  trans _ _ _ h₁ h₂ tenantId d := (h₂ tenantId d).trans (h₁ tenantId d)

variable {doc : Document} {db db' : Db}

theorem storedFlag_modify {d : ℕ} {row : DocumentRow} (hrow : db.documents.get? d = some row)
    (htenant : row.tenantId = doc.tenantId)
    (hdocuments : db'.documents = db.documents.modify d (readyRow doc)) (tenantId : Int) (e : ℕ) :
    storedFlag tenantId e db' = storedFlag tenantId e db := by
  unfold storedFlag getDocument
  rw [hdocuments, Serial.get?_modify]
  by_cases he : e = d
  · subst he
    have hseen : (readyRow doc row).tenantId = row.tenantId := htenant.symm
    simp only [hrow, map_some, if_true, filter_some, hseen]
    by_cases hown : row.tenantId = tenantId
    · simp only [hown, beq_self_eq_true, if_true, map_some]
      rfl
    · simp only [beq_iff_eq, hown, if_false]
  · simp only [if_neg he, map_id']

variable {tagIds : List ℕ} {now : Time}

/-- **What `transactional_ingest` does to the flag of its document**: nothing, or the column's default. -/
theorem storedFlag_transactionalIngest {files : List FileRecord} {d : ℕ}
    (h : transactionalIngest doc files tagIds now db = .ok (d, db')) : (ingestTarget doc files db = d ∧ 0 < d ∧
      ∀ tenantId e, storedFlag tenantId e db' = storedFlag tenantId e db) ∨
    (ingestTarget doc files db = 0 ∧ storedFlag doc.tenantId d db' = some false) := by
  obtain ⟨-, hdoc, -⟩ := transactionalIngest_ok h
  obtain ⟨hpos, rfl, ⟨row, hrow, htenant⟩, hdocuments⟩ | ⟨hzero, rfl, hdocuments⟩ := resolveDocument_ok hdoc
  · exact .inl ⟨rfl, hpos, storedFlag_modify hrow htenant hdocuments⟩
  · refine .inr ⟨hzero, ?_⟩
    simp [storedFlag, getDocument, hdocuments, newReadyRow]

/-- An ingest into a given document changes no flag. -/
theorem flagsKept_of_id {files : List FileRecord} {d d' : ℕ} (hid : doc.id = d) (hd : 0 < d)
    (h : transactionalIngest doc files tagIds now db = .ok (d', db')) :
    d' = d ∧ ∀ tenantId e, storedFlag tenantId e db' = storedFlag tenantId e db := by
  have htarget := ingestTarget_of_pos hid hd files db
  obtain ⟨hd', -, hkept⟩ | ⟨hzero, -⟩ := storedFlag_transactionalIngest h
  · exact ⟨hd'.symm.trans htarget, hkept⟩
  · omega

/-! ## Refetches -/

section Refetch

variable {tenantId : Int} {docId : ℕ} {s : SourceDb}

theorem flagsKept_of_store {s' : SourceDb} (h : s'.store = s.store) : FlagsKept s s' := by
  intro tenantId d
  rw [h]

theorem keeps_ingestInto (a : Refetch.Answers c) (file : IngestFile) (note : Option String)
    (localOnly : Bool) (err : String) :
    Keeps FlagsKept (transact err (Refetch.ingestInto a tenantId docId file note localOnly)) := by
  refine Keeps.transact ?_ err
  intro s s' h
  unfold Refetch.ingestInto at h
  split at h
  · cases h
  next hpos =>
    split at h
    · cases h
    · simp only at h
      split at h <;> cases h
      next hrun => exact (flagsKept_of_id rfl (Nat.pos_of_ne_zero hpos) hrun).2

theorem keeps_advance (sha : Option Sha256) (title summary diff : Option String) (now : Time) (err : String) :
    Keeps FlagsKept (transact err (insertDocumentVersionAndAdvance tenantId docId sha title summary diff now)) := by
  refine Keeps.transact ?_ err
  intro s s' h
  unfold insertDocumentVersionAndAdvance at h
  split at h
  · cases h
  · simp only at h
    split at h <;> cases h
    exact flagsKept_of_store (by simp)

theorem keeps_markFailed (minFetchInterval maxBackoff : Int) (now : Time) (err : String) :
    Keeps FlagsKept (transact err (markDocumentFetchFailed tenantId docId minFetchInterval maxBackoff now)) := by
  refine Keeps.transact ?_ err
  intro s s' h
  unfold markDocumentFetchFailed at h
  split at h <;> cases h
  exact flagsKept_of_store (by simp)

theorem keeps_reingestChanged (cfg : Refetch.Config) (a : Refetch.Answers c) (doc : DocumentRow)
    (fetched : SourceFetch.FetchedContent) (localOnly : Bool) :
    Keeps FlagsKept (Refetch.reingestChanged cfg a tenantId docId doc fetched localOnly) := by
  refine Keeps.bind (keeps_ingestInto a _ _ _ _) fun _ => ?_
  refine Keeps.bind (Keeps.query _ _) fun found => ?_
  cases found with
  | none => exact Keeps.throw _
  | some new =>
    refine Keeps.bind (keeps_advance _ _ _ _ _ _) fun _ => ?_
    dsimp only
    split
    · exact Keeps.throw _
    · split
      · exact Keeps.throw _
      · exact Keeps.execute (fun s => flagsKept_of_store (by simp [setDocumentNextFetchAt])) _

theorem keeps_processRefetchJob (cfg : Refetch.Config) (job : JobRow) (a : Refetch.Answers c) :
    Keeps FlagsKept (Refetch.processRefetchJob cfg job a) := by
  unfold Refetch.processRefetchJob
  split
  · exact Keeps.throw _
  · refine Keeps.bind (Keeps.query _ _) fun found => ?_
    split
    · exact Keeps.throw _
    · split
      · exact Keeps.throw _
      · split
        · exact Keeps.bind (keeps_markFailed _ _ _ _) fun _ => Keeps.throw _
        · split
          · split
            · exact Keeps.throw _
            · exact Keeps.execute (fun s => flagsKept_of_store (by simp [markDocumentFetchUnchanged])) _
          · exact keeps_reingestChanged cfg a _ _ _

/-- The `local_only` that a refetch job hands to the pipeline and to the diff generator, if it gets to
    them. -/
def refetchFlag (cfg : Refetch.Config) (job : JobRow) (a : Refetch.Answers c) (s : SourceDb) : Option Bool := do
  let docId ← job.documentId
  let found ← Refetch.getSyncedDocument job.tenantId docId s
  let url ← found.2.sourceUrl
  let fetched ← (SourceFetch.fetchUrl a.world url cfg.fetchLimits).1.toOption
  match Refetch.refetchAction found.2.lastFetchSha256 fetched.sha256 with
  | .unchanged => none
  | .changed => some (found.1.localOnly || cfg.planLocalOnly)

variable {a : Refetch.Answers c} {cfg : Refetch.Config} {job : JobRow} {flag : Bool}

/-- The flag is the one `reingest_changed` is called with. A job that does not get to its models ends in
    the same way whatever they would have answered. -/
theorem run_processRefetchJob (fault : Option Fault) :
    match refetchFlag cfg job a s with
    | some flag => ∃ docId doc fetched, (Refetch.processRefetchJob cfg job a).run ⟨s, fault⟩ =
        (query "failed to get document" (Refetch.getSyncedDocument job.tenantId docId) >>= fun _ =>
          Refetch.reingestChanged cfg a job.tenantId docId doc fetched flag).run ⟨s, fault⟩
    | none => ∀ process, (Refetch.processRefetchJob cfg job { a with process := process }).run ⟨s, fault⟩ =
        (Refetch.processRefetchJob cfg job a).run ⟨s, fault⟩ := by
  unfold refetchFlag Refetch.processRefetchJob
  cases job.documentId with
  | none => exact fun _ => rfl
  | some docId =>
    simp only [query, run_stmt_bind, bind_eq_bind, bind_some]
    cases hfound : Refetch.getSyncedDocument job.tenantId docId s with
    | none => exact fun _ => rfl
    | some found =>
      obtain ⟨doc, sync⟩ := found
      cases hurl : sync.sourceUrl with
      | none => simp [hurl]
      | some url =>
        simp only [bind_some, hurl]
        cases (SourceFetch.fetchUrl a.world url cfg.fetchLimits).1 with
        | error e => exact fun _ => rfl
        | ok fetched =>
          simp only [Except.toOption, bind_some]
          cases Refetch.refetchAction sync.lastFetchSha256 fetched.sha256 with
          | unchanged => exact fun _ => rfl
          | changed => exact ⟨docId, doc, fetched, rfl⟩

/-- A refetch job, the settings it runs under, and what the outside does during it. -/
abbrev Job (c : Content) := Refetch.Config × JobRow × Refetch.Answers c

/-- The database after a sequence of refetch jobs. -/
def afterJobs (jobs : List (Job c)) (s : SourceDb) : SourceDb :=
  jobs.foldl (fun s j => Refetch.after j.1 s j.2) s

theorem flagsKept_afterJobs (jobs : List (Job c)) (s : SourceDb) : FlagsKept s (afterJobs jobs s) := by
  induction jobs generalizing s with
  | nil => exact refl_of FlagsKept s
  | cons j js ih =>
    have hjob : FlagsKept s (Refetch.after j.1 s j.2) := keeps_processRefetchJob j.1 j.2.1 j.2.2 ⟨s, j.2.2.fault⟩
    exact trans_of FlagsKept hjob (ih (Refetch.after j.1 s j.2))

/-- A stored flag forces the flag of the job, under every plan. -/
theorem refetchFlag_of_stored (hdoc : job.documentId = some docId)
    (hstored : storedFlag job.tenantId docId s.store = some true)
    (h : refetchFlag cfg job a s = some flag) : flag = true := by
  simp only [refetchFlag, bind_eq_bind, bind_eq_some_iff] at h
  obtain ⟨docId', hdoc', ⟨doc, sync⟩, hfound, url, -, fetched, -, h⟩ := h
  cases hdoc.symm.trans hdoc'
  obtain ⟨row, hrow, heq⟩ := map_eq_some_iff.1 hfound
  obtain ⟨rfl, -⟩ := Prod.mk.inj heq
  have hlocal : row.localOnly = true := by
    simpa [storedFlag, hrow] using hstored
  split at h
  · cases h
  · rw [hlocal, Bool.true_or] at h
    exact (Option.some.inj h).symm

/-- What a refetch's outside does during its ingest. -/
def ofAnswers (a : Refetch.Answers c) : Outside c where
  getDocumentFailed := none
  getFilesFailed := none
  getBlob := fun _ => .ok []
  putBlob := fun _ => .ok ()
  truncateToTokenBudget := a.truncateToTokenBudget
  process := fun _ _ _ => a.process
  now := a.now

theorem storeBlobs_ok (records : List FileRecord) : storeBlobs (fun _ => .ok ()) records = .ok () := by
  induction records with
  | nil => rfl
  | cons f fs ih => exact ih

/-- The ingest of a refetch is `ingest_into` with one file. -/
theorem refetch_ingestInto_eq (a : Refetch.Answers c) (file : IngestFile) (note : Option String)
    (localOnly : Bool) (s : SourceDb) :
    Refetch.ingestInto a tenantId docId file note localOnly s =
      (ingestInto (ofAnswers a) tenantId docId [file] note localOnly s).map Prod.snd := by
  unfold Refetch.ingestInto ingestInto ingestInner
  by_cases hzero : docId = 0
  · rw [if_pos hzero, if_pos hzero]
    rfl
  · rw [if_neg hzero, if_neg hzero]
    have hnote : (ofAnswers a).cleanNote = a.cleanNote := rfl
    simp only [hnote]
    simp only [ofAnswers, storeBlobs_ok, List.isEmpty_cons, Bool.false_eq_true, if_false, List.map_cons, List.map_nil,
      finalDocument, readyRecords, buildDocument, map_some, getD_some, Int.ofNat_eq_natCast]
    cases a.process with
    | error e => rfl
    | ok out =>
      -- both go on with the same transaction, which returns the given document
      dsimp only
      generalize hrun : transactionalIngest _ _ out.tagIds a.now s.store = r
      cases r with
      | error e => rfl
      | ok x =>
        obtain rfl : x.1 = docId := (flagsKept_of_id rfl (Nat.pos_of_ne_zero hzero) hrun).1
        rfl

end Refetch

/-! ## The residency choice -/

/-- An ingest: of an inline upload, with the plan gate resolved by the handler, or of a queued job, with
    the plan gate and the database as the worker found them. -/
inductive Ingest
  | inline (tenantId : Int) (files : List IngestFile) (userNote : Option String) (localOnly : Bool)
  | queued (jobId : ℕ) (job : JobRow) (planLocalOnly : Bool) (loadDb : Db)

def Ingest.tenantId : Ingest → Int
  | .inline tenantId _ _ _ => tenantId
  | .queued _ job _ _ => job.tenantId

def Ingest.run (o : Outside c) (s : SourceDb) : Ingest → Except String (ℕ × SourceDb)
  | .inline tenantId files userNote localOnly => ingest o tenantId files userNote localOnly s
  | .queued jobId job planLocalOnly loadDb => processQueuedIngest o jobId job planLocalOnly loadDb s

/-- The effective `local_only`: the one the models of the ingest are called with. -/
def Ingest.effective (o : Outside c) : Ingest → Option Bool
  | .inline _ _ _ localOnly => some localOnly
  | .queued jobId job planLocalOnly loadDb =>
      (loadQueuedIngestInputs o jobId job planLocalOnly loadDb).toOption.map QueuedIngestInputs.localOnly

/-- The flag of the document the ingest writes into, before it does: the column's default for a new one. -/
def Ingest.flagBefore (o : Outside c) (s : SourceDb) : Ingest → Option Bool
  | .inline tenantId files userNote _ =>
      let built := buildDocument c tenantId (files.map cleanFile) (userNote.map o.cleanNote) o.now
      match ingestTarget built.1 (readyRecords built.2) s.store with
      | 0 => some false
      | d + 1 => storedFlag tenantId (d + 1) s.store
  | .queued _ job _ _ => job.documentId.bind fun d => storedFlag job.tenantId d s.store

/-- The choice `b` sticks to the document: it is stored, and if it was `true`, then after any refetches,
    every refetch of the document calls its models with `local_only = true`, under every plan. -/
structure Sticky (c : Content) (tenantId : Int) (d : ℕ) (b : Bool) (s : SourceDb) : Prop where
  stored : storedFlag tenantId d s.store = some b
  refetch : b = true → ∀ (earlier : List (Job c)) (cfg : Refetch.Config) (job : JobRow)
    (a : Refetch.Answers c), job.tenantId = tenantId → job.documentId = some d →
      ∀ flag, refetchFlag cfg job a (afterJobs earlier s) = some flag → flag = true

/-- Storing the choice is what makes it stick. -/
theorem sticky_iff_stored (c : Content) (tenantId : Int) (d : ℕ) (b : Bool) (s : SourceDb) :
    Sticky c tenantId d b s ↔ storedFlag tenantId d s.store = some b := by
  refine ⟨Sticky.stored, fun hstored => ⟨hstored, ?_⟩⟩
  rintro rfl earlier cfg job a rfl hdoc flag hflag
  have hkept : storedFlag job.tenantId d (afterJobs earlier s).store = some true :=
    (flagsKept_afterJobs earlier s job.tenantId d).trans hstored
  exact refetchFlag_of_stored hdoc hkept hflag

section Choice

variable {o : Outside c} {s s' : SourceDb} {d : ℕ}

theorem tenantId_buildDocument (tenantId : Int) (pages : List PageInput) (note : Option String) (now : Time) :
    (buildDocument c tenantId pages note now).1.tenantId = tenantId := by
  unfold buildDocument
  split <;> rfl

variable {localOnly : Bool} {files : List IngestFile} {note : Option String}

/-- A successful `ingest_inner` has committed its transaction. -/
theorem ingestInner_ok {tenantId : Int} {existing : Option ℕ}
    (h : ingestInner o tenantId files note localOnly existing s = .ok (d, s')) :
    ∃ out, o.process localOnly (files.map cleanFile) (note.map o.cleanNote) = .ok out ∧ transactionalIngest
        (finalDocument (buildDocument c tenantId (files.map cleanFile) (note.map o.cleanNote) o.now).1
          existing out localOnly)
        (readyRecords (buildDocument c tenantId (files.map cleanFile) (note.map o.cleanNote) o.now).2)
        out.tagIds o.now s.store = .ok (d, s'.store) := by
  unfold ingestInner at h
  split at h
  · cases h
  · simp only at h
    split at h
    · cases h
    · split at h
      · cases h
      next out hout =>
        split at h <;> cases h
        next hrun => exact ⟨out, hout, hrun⟩

variable {planLocalOnly : Bool} {job : JobRow} {loadDb : Db} {jobId : ℕ} {i : Ingest}

/-- The inputs are those of the job's document. -/
theorem loadQueuedIngestInputs_ok {inputs : QueuedIngestInputs}
    (h : loadQueuedIngestInputs o jobId job planLocalOnly loadDb = .ok inputs) :
    job.documentId = some inputs.documentId := by
  unfold loadQueuedIngestInputs at h
  split at h
  · cases h
  next documentId hdoc =>
    repeat' split at h
    all_goals cases h
    all_goals exact hdoc

/-- An inline ingest leaves the flag of the document it reuses, and the default on a new one. -/
theorem inline_flag {tenantId : Int} (h : (Ingest.inline tenantId files note localOnly).run o s = .ok (d, s')) :
    storedFlag tenantId d s'.store = (Ingest.inline tenantId files note localOnly).flagBefore o s := by
  obtain ⟨out, -, hrun⟩ := ingestInner_ok h
  have htenant := tenantId_buildDocument (c := c) tenantId (files.map cleanFile) (note.map o.cleanNote) o.now
  simp only [Ingest.flagBefore]
  generalize buildDocument c tenantId (files.map cleanFile) (note.map o.cleanNote) o.now = built at hrun htenant ⊢
  -- the final document has the id and the tenant of the built one, so both look up the same target
  obtain ⟨htarget, hpos, hkept⟩ | ⟨htarget, hdefault⟩ := storedFlag_transactionalIngest hrun
  · have htarget' : ingestTarget built.1 (readyRecords built.2) s.store = d := htarget
    rw [htarget']
    obtain ⟨e, rfl⟩ := Nat.exists_eq_succ_of_ne_zero hpos.ne'
    exact hkept tenantId (e + 1)
  · have htarget' : ingestTarget built.1 (readyRecords built.2) s.store = 0 := htarget
    rw [htarget', ← htenant]
    exact hdefault

theorem queued_flag (h : (Ingest.queued jobId job planLocalOnly loadDb).run o s = .ok (d, s')) :
    storedFlag job.tenantId d s'.store = (Ingest.queued jobId job planLocalOnly loadDb).flagBefore o s := by
  simp only [Ingest.run, processQueuedIngest] at h
  split at h
  · cases h
  next inputs hload =>
    have hdoc := loadQueuedIngestInputs_ok hload
    simp only [Ingest.flagBefore, hdoc, bind_some]
    split at h
    · cases h
      rfl
    · split at h <;> cases h
      rename_i r hinto
      unfold ingestInto at hinto
      split at hinto
      · cases hinto
      next hpos =>
        obtain ⟨out, -, hrun⟩ := ingestInner_ok hinto
        obtain ⟨rfl, hkept⟩ := flagsKept_of_id rfl (Nat.pos_of_ne_zero hpos) hrun
        exact hkept job.tenantId _

theorem run_flag (h : i.run o s = .ok (d, s')) : storedFlag i.tenantId d s'.store = i.flagBefore o s := by
  cases i with
  | inline => exact inline_flag h
  | queued => exact queued_flag h

theorem effective_of_run (h : i.run o s = .ok (d, s')) : ∃ b, i.effective o = some b := by
  cases i with
  | inline tenantId files userNote localOnly => exact ⟨localOnly, rfl⟩
  | queued jobId job planLocalOnly loadDb =>
    simp only [Ingest.run, processQueuedIngest] at h
    split at h
    · cases h
    next inputs hload => exact ⟨inputs.localOnly, by simp [Ingest.effective, hload, Except.toOption]⟩

/-- **When the residency choice of an ingest is sticky**: when the document it writes into already has the
    effective flag. -/
theorem residency_sticky_iff {i : Ingest} (hrun : i.run o s = .ok (d, s')) :
    (∃ b, i.effective o = some b ∧ Sticky c i.tenantId d b s') ↔ i.flagBefore o s = i.effective o := by
  obtain ⟨b, hb⟩ := effective_of_run hrun
  rw [hb]
  constructor
  · rintro ⟨b', hb', hsticky⟩
    cases hb'
    exact (run_flag hrun).symm.trans hsticky.stored
  · intro hflag
    exact ⟨b, rfl, (sticky_iff_stored c _ d b s').2 ((run_flag hrun).trans hflag)⟩

end Choice

/-! ## Runs -/

/-- Every operation succeeds, and every staged blob is one byte. -/
def plainOutside : Outside Refetch.headContent where
  getDocumentFailed := none
  getFilesFailed := none
  getBlob := fun _ => .ok [7]
  putBlob := fun _ => .ok ()
  truncateToTokenBudget := id
  process := fun _ _ _ => .ok ⟨"title", "summary", .document, "", 1, [1], [], 1⟩
  now := 0

/-- No document yet; every document has a source that was never fetched. -/
def freshDb : SourceDb := { Refetch.attachedDb with store := emptyDb }

/-- Tenant 1 has staged one page as document 1, under this plan gate. -/
def stagedDb (localOnly : Bool) : SourceDb :=
  let upload := IngestHandler.buildUpload Refetch.headContent 1 localOnly ⟨[⟨[7], none, some "a"⟩], none⟩ 0
  match createPendingIngest upload.1 upload.2 emptyDb with
  | .ok (_, db) => { freshDb with store := db }
  | .error _ => freshDb

/-- The worker takes the job of document 1, under this plan gate. -/
def workerTakes (stagedLocalOnly planLocalOnly : Bool) : Ingest :=
  .queued 1 { (Refetch.refetch [7] none).1 with kind := .ingest } planLocalOnly (stagedDb stagedLocalOnly).store

/-- A document staged local-only stays local-only when the plan has been upgraded since. -/
theorem sticky_of_staged :
    ∃ s', (workerTakes true false).run plainOutside (stagedDb true) = .ok (1, s') ∧
      ∃ b, (workerTakes true false).effective plainOutside = some b ∧ Sticky Refetch.headContent 1 1 b s' := by
  refine Transition.exists_ok_of_imp (fun _ => True) (by decide +kernel) fun s' hrun _ => ?_
  exact (residency_sticky_iff hrun).2 (by decide +kernel)

/-- The inline upload of one page by a tenant whose plan allows local models only. -/
def localUpload : Ingest := .inline 1 [⟨[7], none, some "a"⟩] none true

/-- The upload runs on local models and is stored without its flag; a refetch under a later plan calls the
    remote ones. The same happens to a queued upload whose tenant was downgraded before the worker came. -/
theorem local_upload_refetched_remotely :
    localUpload.effective plainOutside = some true ∧
    (∃ s', localUpload.run plainOutside freshDb = .ok (1, s') ∧
      storedFlag 1 1 s'.store = some false ∧
      refetchFlag Refetch.workerConfig (Refetch.refetch [8] none).1 (Refetch.refetch [8] none).2 s' = some false ∧
      ¬ ∃ b, localUpload.effective plainOutside = some b ∧ Sticky Refetch.headContent 1 1 b s') ∧
    (workerTakes false true).effective plainOutside = some true ∧
    ((workerTakes false true).run plainOutside (stagedDb false)).toOption.map
      (fun r => storedFlag 1 r.1 r.2.store) = some (some false) := by
  refine ⟨rfl, ?_, by decide +kernel, by decide +kernel⟩
  refine Transition.exists_ok_of_imp (fun s' => storedFlag 1 1 s'.store = some false ∧
    refetchFlag Refetch.workerConfig (Refetch.refetch [8] none).1 (Refetch.refetch [8] none).2 s' = some false)
    (by decide +kernel) fun s' _ ⟨hstored, hflag⟩ => ?_
  refine ⟨hstored, hflag, ?_⟩
  rintro ⟨b, hb, hsticky⟩
  cases hb
  exact absurd (hstored.symm.trans hsticky.stored) (by decide)

end Tagsmaxxing.IngestWorker
