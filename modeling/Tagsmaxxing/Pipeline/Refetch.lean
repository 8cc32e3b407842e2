import Tagsmaxxing.Api.IngestHandler
import Tagsmaxxing.Extract.SourceFetch
import Tagsmaxxing.Lib.Statements
import Tagsmaxxing.Store.DocumentVersions
import Tagsmaxxing.Store.FileSet

/-! # Refetching a synced document (`refetch_worker.rs`)

A refetch job downloads the document's source and compares the digest with `last_fetch_sha256`. If they are equal the
job only moves the schedule on. Otherwise it ingests the new bytes into the document, and records the digest with the
new version afterwards, in a transaction of its own. A job that stops between the two leaves the new content live
under the old digest. If the source then goes back to the old content, the next job succeeds over the wrong content.

`effect` says once what a job can do to the live files and the recorded digest; `refetch_converges` reads off when a
successful job leaves the fetched bytes live. -/

namespace Tagsmaxxing.Refetch

open Statements Store

/-! ## What a job is given -/

/-- The settings a worker passes to every job. -/
structure Config where
  fetchLimits : SourceFetch.FetchLimits
  minFetchInterval : Int
  maxFetchInterval : Int
  maxBackoffSecs : Int
  planLocalOnly : Bool

/-- What extraction, tagging, canonicalizing and embedding make of the bytes. -/
structure Processed where
  title : String
  summary : String
  kind : DocKind
  metaJson : String
  pageCount : Int32
  tagIds : List ℕ
  tags : List TagSnapshotEntry
  chunkCount : Int

/-- What the outside does during one job. `sha256` is the same digest in the fetcher and in the pipeline;
    `truncateToTokenBudget` depends on the context window of the tagger's backend. The text of the diff is
    whatever the generator says. -/
structure Answers (c : Content) where
  world : SourceFetch.World
  sha256_eq : ∀ bytes, world.sha256 bytes = (c.sha256 bytes).bytes
  showError : SourceFetch.FetchError → String
  truncateToTokenBudget : List Char → List Char
  process : Except String Processed
  diffSummary : String
  now : Time
  fault : Option Fault

/-! ## The job -/

def urlFilename (url : String) : String :=
  String.ofList ((url.toList.reverse.takeWhile (· != '/')).reverse.takeWhile (· != '?'))

inductive RefetchAction
  | unchanged | changed
deriving DecidableEq

/-- The comparison of step 3; a stored digest that is not 32 bytes long counts as none. -/
def refetchAction (lastFetchSha256 : Option (List UInt8)) (new : List UInt8) : RefetchAction :=
  match lastFetchSha256 with
  | some old => if old.length = 32 ∧ old = new then .unchanged else .changed
  | none => .changed

variable {c : Content}

/-- The note of a re-ingested document, as `ingest_inner` cleans it. -/
def Answers.cleanNote (a : Answers c) (note : String) : String :=
  String.ofList (a.truncateToTokenBudget
    (truncateToCharBoundary (stripControlChars note.toList) maxUserNoteBytes))

/-- `ingest_into` with one file: steps 1 and 8 of `ingest_inner` around what the models made of it. -/
def ingestInto (a : Answers c) (tenantId : Int) (docId : ℕ) (file : IngestHandler.IngestFile)
    (userNote : Option String) (localOnly : Bool) (s : SourceDb) : Except String SourceDb :=
  if docId = 0 then .error "ingest_into requires a positive document_id (got 0)"
  else
    match a.process with
    | .error e => .error e
    | .ok out =>
        let page := IngestHandler.cleanFile file
        let built := DocumentBuilder.buildSingle c tenantId page.bytes page.path (userNote.map a.cleanNote) a.now
        let doc : Document := { built.1 with
          id := docId, title := some out.title, summary := some out.summary, kind := out.kind,
          metaJson := out.metaJson, pageCount := out.pageCount, localOnly := localOnly }
        let records := built.2.map fun f => { f with status := .ready }
        match transactionalIngest doc records out.tagIds a.now s.store with
        | .error e => .error e
        | .ok (_, store) => .ok { s with
            store := store
            tags := Function.update s.tags docId out.tags
            liveChunks := Function.update s.liveChunks docId out.chunkCount }

/-- `get_document`: the row with its columns of `0006`. -/
def getSyncedDocument (tenantId : Int) (docId : ℕ) (s : SourceDb) : Option (DocumentRow × SyncColumns) :=
  (getDocument tenantId docId s.store).map fun row => (row, s.sync docId)

/-- `reingest_changed`. The two reads of the live text are best-effort and feed only the diff; the digest
    it records is the one that came with the fetched bytes. -/
def reingestChanged (cfg : Config) (a : Answers c) (tenantId : Int) (docId : ℕ) (doc : DocumentRow)
    (fetched : SourceFetch.FetchedContent) (localOnly : Bool) : Prog SourceDb Unit := do
  let filename := urlFilename fetched.finalUrl
  transact "re-ingest pipeline failed"
    (ingestInto a tenantId docId ⟨fetched.bytes, some filename, some filename⟩ doc.userNote localOnly)
  match ← query "failed to get document" (getSyncedDocument tenantId docId) with
  | none => throw "document vanished after re-ingest"
  | some (newDoc, newSync) =>
      transact "failed to commit insert_document_version_and_advance"
        (insertDocumentVersionAndAdvance tenantId docId (some (c.sha256 fetched.bytes)) newDoc.title
          newDoc.summary (some a.diffSummary) a.now)
      let interval := newSync.fetchIntervalSecs.getD (min cfg.maxFetchInterval 86400)
      -- `clamp` panics on an empty range
      if cfg.maxFetchInterval < 300 then throw "assertion failed: min <= max"
      else
        match computeNextFetchAt a.now (some (max 300 (min interval cfg.maxFetchInterval))) with
        | none => throw "compute next_fetch_at"
        | some next => execute "failed to set next_fetch_at" (setDocumentNextFetchAt tenantId docId next)

/-- `process_refetch_job`. Audit events are written best-effort to a table of their own. -/
def processRefetchJob (cfg : Config) (job : JobRow) (a : Answers c) : Prog SourceDb Unit := do
  match job.documentId with
  | none => throw "Refetch job has no document_id"
  | some docId =>
      match ← query "failed to get document" (getSyncedDocument job.tenantId docId) with
      | none => throw "document not found for refetch job"
      | some (doc, sync) =>
          match sync.sourceUrl with
          | none => throw "document has no source_url — refetch job is stale"
          | some sourceUrl =>
              match (SourceFetch.fetchUrl a.world sourceUrl cfg.fetchLimits).1 with
              | .error e =>
                  transact "failed to update document fetch failure backoff"
                    (markDocumentFetchFailed job.tenantId docId cfg.minFetchInterval cfg.maxBackoffSecs a.now)
                  throw ((if e.isPermanent then "permanent: refetch failed for doc " else "refetch failed for doc ")
                    ++ toString docId ++ ": " ++ a.showError e)
              | .ok fetched =>
                  match refetchAction sync.lastFetchSha256 fetched.sha256 with
                  | .unchanged =>
                      match computeNextFetchAt a.now
                          (some (sync.fetchIntervalSecs.getD cfg.minFetchInterval)) with
                      | none => throw "compute next_fetch_at"
                      | some next =>
                          execute "failed to mark document fetch unchanged"
                            (markDocumentFetchUnchanged job.tenantId docId fetched.sha256 next a.now)
                  | .changed =>
                      reingestChanged cfg a job.tenantId docId doc fetched
                        (doc.localOnly || cfg.planLocalOnly)

/-! ## What the job's transactions do to the live files and the digest -/

/-- The live file rows of a document, as its tenant sees them. -/
def liveFiles (tenantId : Int) (docId : ℕ) (t : Serial FileRow) : List (ℕ × FileRow) :=
  (docRows tenantId docId t).filter fun r => r.2.supersededAt.isNone

/-- The digests of the document's live files. -/
def liveHashes (tenantId : Int) (docId : ℕ) (s : SourceDb) : List Sha256 :=
  (liveFiles tenantId docId s.store.files).map fun r => r.2.sha256

def lastHash (docId : ℕ) (s : SourceDb) : Option (List UInt8) := (s.sync docId).lastFetchSha256

variable {diff summary title : Option String} {now next : Time} {sha : Sha256} {row : DocumentRow}

section Transactions

variable {tenantId : Int} {docId : ℕ} {s s' : SourceDb}

@[simp] theorem store_updateSync (f : SyncColumns → SyncColumns) :
    (s.updateSync tenantId docId f).store = s.store := by
  unfold SourceDb.updateSync
  split <;> rfl

theorem lastHash_updateSync {f : SyncColumns → SyncColumns} (hf : ∀ x, (f x).lastFetchSha256 = x.lastFetchSha256) :
    lastHash docId (s.updateSync tenantId docId f) = lastHash docId s := by
  unfold SourceDb.updateSync lastHash
  split
  · simp [hf]
  · rfl

/-- The live files of a document after an ingest of one file into it. -/
theorem liveFiles_single {f : FileRecord} {ids : List ℕ} {t t' : Serial FileRow} (now : Time)
    (hup : upsertFiles .finalize tenantId docId [f] t = .ok (ids, t')) :
    ∃ id, liveFiles tenantId docId (supersedeOthers tenantId docId ids now t') = [(id, fileRow .finalize docId f)] := by
  simp only [upsertFiles] at hup
  split at hup <;> cases hup
  rename_i htenant
  obtain ⟨hnew, -, -⟩ := upsertFile_spec (fileRow .finalize docId f) t
  set id := (upsertFile (fileRow .finalize docId f) t).1
  refine ⟨id, List.perm_singleton.1 ?_⟩
  rw [liveFiles, List.perm_ext_iff_of_nodup (nodup_docRows.filter _) (List.nodup_singleton _)]
  -- the row just written is live, and every other live row of the document was superseded
  rintro ⟨k, x⟩
  rw [List.mem_filter, mem_docRows, supersedeOthers, Serial.get?_updateWhere, List.mem_singleton]
  constructor
  · rintro ⟨⟨hget, hx, hd⟩, hnone⟩
    obtain ⟨y, hy, rfl⟩ := Option.map_eq_some_iff.1 hget
    by_cases hk : k = id
    · subst hk
      cases hy.symm.trans hnew
      simp
    · split at hnone
      · cases hnone
      next hp =>
        rw [if_neg hp] at hx hd
        have hnone : y.supersededAt.isNone = true := hnone
        exact absurd (by simp [hk, hx, hd, Option.isNone_iff_eq_none.1 hnone]) hp
  · rintro ⟨⟩
    rw [hnew]
    simp [fileRow, not_not.1 htenant]

/-- An ingest of fetched bytes makes them the document's live content and leaves the digest alone. -/
theorem ingestInto_ok {a : Answers c} {file : IngestHandler.IngestFile} {note : Option String}
    {localOnly : Bool} (h : ingestInto a tenantId docId file note localOnly s = .ok s') :
    liveHashes tenantId docId s' = [c.sha256 file.bytes] ∧ s'.sync = s.sync ∧
      ∃ row, getDocument tenantId docId s'.store = some row := by
  unfold ingestInto at h
  split at h
  · cases h
  next hpos =>
    split at h
    · cases h
    next out _ =>
      simp only at h
      split at h <;> cases h
      rename_i d store hrun
      have hpos : 0 < docId := Nat.pos_of_ne_zero hpos
      obtain ⟨⟨ids, t, hup, hfiles⟩, hrow⟩ := transactionalIngest_into rfl (show _ = tenantId from rfl) hpos hrun
      obtain ⟨id, hlive⟩ := liveFiles_single a.now hup
      refine ⟨?_, rfl, hrow⟩
      rw [liveHashes, hfiles, hlive]
      rfl

/-- A version advance records its digest and leaves the files alone. -/
theorem advance_ok (h : insertDocumentVersionAndAdvance tenantId docId (some sha) title summary diff now s = .ok s') :
    s'.store = s.store ∧ lastHash docId s' = some sha.bytes := by
  unfold insertDocumentVersionAndAdvance at h
  split at h
  · cases h
  next row hrow =>
    split at h <;> cases h
    simp [SourceDb.updateSync, hrow, lastHash]

/-- The tenant's document can be advanced unless its version is at the end of its range. -/
theorem advance_error {sha : Option Sha256} {e : String} (hrow : getDocument tenantId docId s.store = some row)
    (h : insertDocumentVersionAndAdvance tenantId docId sha title summary diff now s = .error e) :
    intMax ≤ (s.sync docId).currentVersion := by
  simp only [insertDocumentVersionAndAdvance, hrow] at h
  split at h
  · omega
  · cases h

end Transactions

/-! ## One job -/

section Job

variable {cfg : Config} {a : Answers c} {tenantId : Int} {docId : ℕ} {s : SourceDb} {fault : Option Fault}
  {fetched : SourceFetch.FetchedContent}

/-- What the re-ingest of a changed source leaves: nothing, the content without its digest, or both. The
    middle case needs a break between its first transaction and its third, or a version at the end of its
    range. -/
inductive Reingest (tenantId : Int) (docId : ℕ) (hash : Sha256) (s : SourceDb) (fault : Option Fault)
    (r : EStateM.Result String (Conn SourceDb) Unit) : Prop
  | failed (herr : returnsOk r = false) (hdb : finalDb r = s)
  | torn (herr : returnsOk r = false)
      (hbreak : takes fault 0 = true ∧ takes fault 2 = false ∨ intMax ≤ (s.sync docId).currentVersion)
      (hlive : liveHashes tenantId docId (finalDb r) = [hash])
      (hlast : lastHash docId (finalDb r) = lastHash docId s)
  | done (hlive : liveHashes tenantId docId (finalDb r) = [hash])
      (hlast : lastHash docId (finalDb r) = some hash.bytes)

variable {err : String}

/-- Neither the live files nor the digest changed. -/
structure Same (tenantId : Int) (docId : ℕ) (s s' : SourceDb) : Prop where
  live : liveHashes tenantId docId s' = liveHashes tenantId docId s
  last : lastHash docId s' = lastHash docId s

theorem Same.refl (s : SourceDb) : Same tenantId docId s s := ⟨rfl, rfl⟩

theorem Same.of_execute {f : SourceDb → SourceDb} (conn : Conn SourceDb) (h : Same tenantId docId conn.db (f conn.db)) :
    Same tenantId docId conn.db (finalDb ((execute err f).run conn)) :=
  ⟨finalDb_execute _ h.live err, finalDb_execute _ h.last err⟩

/-- The last write of a re-ingest touches only the schedule. -/
theorem Same.of_setNextFetchAt (conn : Conn SourceDb) : Same tenantId docId conn.db
    (finalDb ((execute err (setDocumentNextFetchAt tenantId docId next)).run conn)) := by
  refine .of_execute conn ⟨?_, lastHash_updateSync fun _ => rfl⟩
  simp [liveHashes, setDocumentNextFetchAt]

/-- What the version advance and the rest of the job leave over content that is live already: its digest is
    recorded, or the job ends there and nothing has changed. -/
inductive Advanced (tenantId : Int) (docId : ℕ) (hash : Sha256) (s : SourceDb) (fault : Option Fault)
    (r : EStateM.Result String (Conn SourceDb) Unit) : Prop
  | recorded (hlive : liveHashes tenantId docId (finalDb r) = liveHashes tenantId docId s)
      (hlast : lastHash docId (finalDb r) = some hash.bytes)
  | stopped (herr : returnsOk r = false) (hdb : finalDb r = s)
      (hbreak : takes fault 0 = false ∨ intMax ≤ (s.sync docId).currentVersion)

variable {hash : Sha256}

theorem advance_effect {k : Unit → Prog SourceDb Unit} (hrow : getDocument tenantId docId s.store = some row)
    (hk : ∀ conn, Same tenantId docId conn.db (finalDb ((k ()).run conn))) :
    Advanced tenantId docId hash s fault
      ((transact err (insertDocumentVersionAndAdvance tenantId docId (some hash) title summary diff now) >>=
        k).run ⟨s, fault⟩) := by
  have hlive : ∀ {s'}, s'.store = s.store → liveHashes tenantId docId s' = liveHashes tenantId docId s := by
    intro s' hstore
    rw [liveHashes, liveHashes, hstore]
  refine transact_bind_elim ?passed ?applied ?lost ?refused
  case passed =>
    intro s' hadvance _
    obtain ⟨hstore, hrecorded⟩ := advance_ok hadvance
    have hrest := hk ⟨s', rest fault⟩
    exact .recorded (hrest.live.trans (hlive hstore)) (hrest.last.trans hrecorded)
  case applied =>
    intro s' hadvance _ _
    obtain ⟨hstore, hrecorded⟩ := advance_ok hadvance
    exact .recorded (hlive hstore) hrecorded
  case lost =>
    intro hnot _
    exact .stopped rfl rfl (.inl hnot)
  case refused =>
    intro e msg fault' hadvance
    exact .stopped rfl rfl (.inr (advance_error hrow hadvance))

/-- The end of a re-ingest whose first transaction is done. -/
theorem Reingest.of_advanced {s₁ : SourceDb} {fault' : Option Fault} {r : EStateM.Result String (Conn SourceDb) Unit}
    (h : Advanced tenantId docId hash s₁ fault' r) (hlive : liveHashes tenantId docId s₁ = [hash])
    (hsync : s₁.sync = s.sync) (hbefore : takes fault 0 = true) (hthird : takes fault' 0 = takes fault 2) :
    Reingest tenantId docId hash s fault r := by
  cases h with
  | recorded hadvLive hadvLast => exact .done (hadvLive.trans hlive) hadvLast
  | stopped herr hdb hbreak =>
    have hsame : lastHash docId s₁ = lastHash docId s := by rw [lastHash, lastHash, hsync]
    rw [hthird, hsync] at hbreak
    exact .torn herr (hbreak.imp_left fun hlost => ⟨hbefore, hlost⟩) (hdb ▸ hlive) (hdb ▸ hsame)

theorem reingestChanged_effect (doc : DocumentRow) (localOnly : Bool) :
    Reingest tenantId docId (c.sha256 fetched.bytes) s fault
      ((reingestChanged cfg a tenantId docId doc fetched localOnly).run ⟨s, fault⟩) := by
  refine transact_bind_elim ?passed ?applied ?lost ?refused
  case passed =>
    intro s₁ hingest hfirst
    obtain ⟨hlive, hsync, row, hrow⟩ := ingestInto_ok hingest
    have hsame : lastHash docId s₁ = lastHash docId s := by rw [lastHash, lastHash, hsync]
    have hbefore := takes_zero_of_passes hfirst
    rw [query]
    refine stmt_bind_elim ?_ ?_ ?_
    · intro hsecond
      have hthird : takes (rest (rest fault)) 0 = takes fault 2 := by
        rw [takes_rest hsecond, takes_rest hfirst]
      simp only [getSyncedDocument, hrow, Option.map_some]
      refine Reingest.of_advanced (advance_effect hrow fun conn => ?_) hlive hsync hbefore hthird
      -- what is left of the job writes the schedule, or nothing
      split
      · exact .refl _
      · exact .of_setNextFetchAt conn
    · intro _ hlost
      exact .torn rfl (.inl ⟨hbefore, (takes_rest hfirst 1).symm.trans (hlost 0)⟩) hlive hsame
    · intro _ hlost
      exact .torn rfl (.inl ⟨hbefore, (takes_rest hfirst 1).symm.trans (hlost 0)⟩) hlive hsame
  case applied =>
    intro s₁ hingest hbefore hlost
    obtain ⟨hlive, hsync, -⟩ := ingestInto_ok hingest
    have hsame : lastHash docId s₁ = lastHash docId s := by rw [lastHash, lastHash, hsync]
    exact .torn rfl (.inl ⟨hbefore, hlost 1⟩) hlive hsame
  case lost =>
    intro _ _
    exact .failed rfl rfl
  case refused =>
    intro e msg fault' _
    exact .failed rfl rfl

/-- The content a job fetches from a database. -/
def fetched? (cfg : Config) (a : Answers c) (tenantId : Int) (docId : ℕ) (s : SourceDb) :
    Option SourceFetch.FetchedContent :=
  match getSyncedDocument tenantId docId s with
  | none => none
  | some (_, sync) =>
      sync.sourceUrl.bind fun url => (SourceFetch.fetchUrl a.world url cfg.fetchLimits).1.toOption

/-- The job finds new content, and breaks after the commit of its ingest, its second transaction, and before that of
    the version advance, its fourth; or the version cannot be advanced. -/
def Torn (cfg : Config) (a : Answers c) (tenantId : Int) (docId : ℕ) (s : SourceDb) : Prop :=
  (∃ fetched ∈ fetched? cfg a tenantId docId s, lastHash docId s ≠ some (c.sha256 fetched.bytes).bytes) ∧
    (takes a.fault 1 = true ∧ takes a.fault 3 = false ∨ intMax ≤ (s.sync docId).currentVersion)

instance (cfg : Config) (a : Answers c) (tenantId : Int) (docId : ℕ) (s : SourceDb) :
    Decidable (Torn cfg a tenantId docId s) :=
  inferInstanceAs (Decidable (_ ∧ _))

variable {s' : SourceDb}

theorem Same.of_markFailed {minFetchInterval maxBackoff : Int}
    (h : markDocumentFetchFailed tenantId docId minFetchInterval maxBackoff now s = .ok s') :
    Same tenantId docId s s' := by
  unfold markDocumentFetchFailed at h
  split at h <;> cases h
  exact ⟨by simp [liveHashes], lastHash_updateSync fun _ => rfl⟩

/-- Writing the recorded digest once more changes nothing, whether the write takes effect or not. -/
theorem Same.of_markUnchanged (h : lastHash docId s = some sha.bytes) : Same tenantId docId s (finalDb ((execute err
      (markDocumentFetchUnchanged tenantId docId sha.bytes next now)).run ⟨s, fault⟩)) := by
  refine .of_execute ⟨s, fault⟩ ⟨?_, ?_⟩
  · simp [liveHashes, markDocumentFetchUnchanged]
  · rw [h]
    unfold markDocumentFetchUnchanged SourceDb.updateSync
    split
    · simp [lastHash]
    · exact h

/-- What one job can do. -/
inductive Effect (cfg : Config) (a : Answers c) (tenantId : Int) (docId : ℕ) (s : SourceDb)
    (r : EStateM.Result String (Conn SourceDb) Unit) : Prop
  | failed (herr : returnsOk r = false) (hsame : Same tenantId docId s (finalDb r))
  | unchanged (fetched : SourceFetch.FetchedContent) (hfetched : fetched? cfg a tenantId docId s = some fetched)
      (hlast : lastHash docId s = some (c.sha256 fetched.bytes).bytes)
      (hsame : Same tenantId docId s (finalDb r))
  | changed (fetched : SourceFetch.FetchedContent) (hfetched : fetched? cfg a tenantId docId s = some fetched)
      (hlast : lastHash docId s ≠ some (c.sha256 fetched.bytes).bytes)
      (hreingest : Reingest tenantId docId (c.sha256 fetched.bytes) s (rest a.fault) r)
      (hpasses : passes a.fault = true)

/-- The digest of the fetched bytes is compared with the recorded one. -/
theorem refetchAction_eq_unchanged_iff (last : Option (List UInt8)) (sha : Sha256) :
    refetchAction last sha.bytes = .unchanged ↔ last = some sha.bytes := by
  cases last with
  | none => simp [refetchAction]
  | some old =>
    simp only [refetchAction, ite_eq_left_iff, reduceCtorEq, imp_false, not_not, Option.some.injEq]
    constructor
    · exact fun h => h.2
    · rintro rfl
      exact ⟨sha.length_eq, rfl⟩

variable {job : JobRow}

theorem effect (cfg : Config) (a : Answers c) (s : SourceDb) (hdoc : job.documentId = some docId) :
    Effect cfg a job.tenantId docId s ((processRefetchJob cfg job a).run ⟨s, a.fault⟩) := by
  unfold processRefetchJob
  simp only [hdoc]
  rw [query]
  refine stmt_bind_elim ?_ (fun _ _ => .failed rfl (.refl s)) (fun _ _ => .failed rfl (.refl s))
  intro hpasses
  cases hget : getSyncedDocument job.tenantId docId s with
  | none => exact .failed rfl (.refl s)
  | some found =>
    obtain ⟨doc, sync⟩ := found
    have hlast : lastHash docId s = sync.lastFetchSha256 := by
      obtain ⟨row, -, ⟨⟩⟩ := Option.map_eq_some_iff.1 hget
      rfl
    simp only
    cases hurl : sync.sourceUrl with
    | none => exact .failed rfl (.refl s)
    | some url =>
      simp only
      cases hfetch : (SourceFetch.fetchUrl a.world url cfg.fetchLimits).1 with
      | error e =>
        refine transact_bind_elim ?passed ?applied ?lost ?refused
        case passed =>
          intro s' hmark _
          exact .failed rfl (.of_markFailed hmark)
        case applied =>
          intro s' hmark _ _
          exact .failed rfl (.of_markFailed hmark)
        case lost =>
          intro _ _
          exact .failed rfl (.refl s)
        case refused =>
          intro _ _ _ _
          exact .failed rfl (.refl s)
      | ok fetched =>
        have hfetched : fetched? cfg a job.tenantId docId s = some fetched := by
          simp [fetched?, hget, hurl, hfetch, Except.toOption]
        have hsha : fetched.sha256 = (c.sha256 fetched.bytes).bytes := by
          rw [SourceFetch.fetchUrl_sha256 hfetch, a.sha256_eq]
        simp only [hsha]
        cases haction : refetchAction sync.lastFetchSha256 (c.sha256 fetched.bytes).bytes with
        | unchanged =>
          have hunchanged := (refetchAction_eq_unchanged_iff _ _).1 haction
          rw [← hlast] at hunchanged
          exact .unchanged fetched hfetched hunchanged (Same.of_markUnchanged hunchanged)
        | changed =>
          refine .changed fetched hfetched (fun heq => ?_) (reingestChanged_effect doc _) hpasses
          rw [hlast, ← refetchAction_eq_unchanged_iff, haction] at heq
          cases heq

/-- A job that succeeds leaves the fetched bytes live exactly if it did not take them for unchanged over
    other content. -/
theorem job_converges_iff (hdoc : job.documentId = some docId)
    (hfetched : fetched? cfg a job.tenantId docId s = some fetched)
    (hok : returnsOk ((processRefetchJob cfg job a).run ⟨s, a.fault⟩) = true) :
    liveHashes job.tenantId docId (finalDb ((processRefetchJob cfg job a).run ⟨s, a.fault⟩)) =
        [c.sha256 fetched.bytes] ↔
      lastHash docId s ≠ some (c.sha256 fetched.bytes).bytes ∨
        liveHashes job.tenantId docId s = [c.sha256 fetched.bytes] := by
  cases effect cfg a s hdoc with
  | failed herr _ => simp [hok] at herr
  | unchanged content hcontent hlast hsame =>
    cases hfetched.symm.trans hcontent
    rw [hsame.live]
    simp [hlast]
  | changed content hcontent hlast hreingest _ =>
    cases hfetched.symm.trans hcontent
    cases hreingest with
    | failed herr _ | torn herr _ _ _ => simp [hok] at herr
    | done hlive _ => simp [hlive, hlast]

/-- The recorded digest, if there is one, is that of the live content. -/
def Faithful (tenantId : Int) (docId : ℕ) (s : SourceDb) : Prop :=
  ∀ sha : Sha256, lastHash docId s = some sha.bytes → liveHashes tenantId docId s = [sha]

theorem Same.faithful (h : Same tenantId docId s s') (hs : Faithful tenantId docId s) :
    Faithful tenantId docId s' := by
  intro sha hsha
  rw [h.last] at hsha
  rw [h.live]
  exact hs sha hsha

theorem faithful_of_recorded (hlive : liveHashes tenantId docId s = [sha]) (hlast : lastHash docId s = some sha.bytes) :
    Faithful tenantId docId s := by
  intro sha' hsha'
  have hbytes : sha.bytes = sha'.bytes := Option.some.inj (hlast.symm.trans hsha')
  have hsha : sha = sha' := by
    cases sha
    cases sha'
    cases hbytes
    rfl
  rw [hlive, hsha]

/-- A job that is not torn keeps the digest faithful, whether it succeeds or fails. -/
theorem faithful_job (hdoc : job.documentId = some docId) (hs : Faithful job.tenantId docId s)
    (htorn : ¬ Torn cfg a job.tenantId docId s) :
    Faithful job.tenantId docId (finalDb ((processRefetchJob cfg job a).run ⟨s, a.fault⟩)) := by
  cases effect cfg a s hdoc with
  | failed _ hsame | unchanged _ _ _ hsame => exact hsame.faithful hs
  | changed content hcontent hlast hreingest hpasses =>
    cases hreingest with
    | failed _ hdb =>
      rw [hdb]
      exact hs
    | torn _ hbreak _ _ =>
      rw [takes_rest hpasses, takes_rest hpasses] at hbreak
      exact absurd ⟨⟨content, hcontent, hlast⟩, hbreak⟩ htorn
    | done hlive hlast => exact faithful_of_recorded hlive hlast

end Job

/-! ## Sequences of jobs -/

/-- The database after a job, however it ended. -/
def after (cfg : Config) (s : SourceDb) (j : JobRow × Answers c) : SourceDb :=
  finalDb ((processRefetchJob cfg j.1 j.2).run ⟨s, j.2.fault⟩)

/-- Every job of the sequence that succeeds leaves exactly the bytes it fetched live. -/
def Converges (cfg : Config) (tenantId : Int) (docId : ℕ) : List (JobRow × Answers c) → SourceDb → Prop
  | [], _ => True
  | j :: js, s =>
      (∀ fetched, fetched? cfg j.2 tenantId docId s = some fetched →
        returnsOk ((processRefetchJob cfg j.1 j.2).run ⟨s, j.2.fault⟩) = true →
        liveHashes tenantId docId (after cfg s j) = [c.sha256 fetched.bytes]) ∧
      Converges cfg tenantId docId js (after cfg s j)

/-- No job of the sequence is torn. -/
def Untorn (cfg : Config) (tenantId : Int) (docId : ℕ) : List (JobRow × Answers c) → SourceDb → Prop
  | [], _ => True
  | j :: js, s => ¬ Torn cfg j.2 tenantId docId s ∧ Untorn cfg tenantId docId js (after cfg s j)

theorem converges_of_untorn {cfg : Config} {tenantId : Int} {docId : ℕ} (jobs : List (JobRow × Answers c))
    {s : SourceDb} (hjobs : ∀ j ∈ jobs, j.1.tenantId = tenantId ∧ j.1.documentId = some docId)
    (hs : Faithful tenantId docId s) (huntorn : Untorn cfg tenantId docId jobs s) :
    Converges cfg tenantId docId jobs s := by
  induction jobs generalizing s with
  | nil => trivial
  | cons j js ih =>
    obtain ⟨rfl, hdoc⟩ := hjobs j List.mem_cons_self
    obtain ⟨htorn, hrest⟩ := huntorn
    constructor
    · intro fetched hfetched hok
      refine (job_converges_iff hdoc hfetched hok).2 ?_
      -- a recorded digest that is the fetched one is that of the live content
      by_cases hlast : lastHash docId s = some (c.sha256 fetched.bytes).bytes
      · exact .inr (hs _ hlast)
      · exact .inl hlast
    · exact ih (fun i hi => hjobs i (List.mem_cons_of_mem _ hi)) (faithful_job hdoc hs htorn) hrest

/-- A digest that tells contents apart by their first byte. -/
def headContent : Content where
  sha256 := fun bytes => filledSha256 (bytes.headD 0)
  fromU8 := fun _ => "text/plain"

/-- A server that answers every request with the body. -/
def serves (body : List UInt8) : SourceFetch.World where
  parse := fun url => .ok ⟨"https", "", none, some "example.org", none, url⟩
  join := fun u _ => .ok u
  toLowercase := id
  showIp := fun _ => ""
  lookupHost := fun _ _ port => .ok [⟨.v4 ⟨93, 184, 216, 34⟩, port⟩]
  build := fun _ => .ok ()
  send := fun _ _ => .ok ⟨200, none, none, [.ok body]⟩
  connects := fun _ pinned => pinned
  connects_pinned := fun _ pinned => List.Subset.refl pinned
  sha256 := fun bytes => (headContent.sha256 bytes).bytes

def workerConfig : Config where
  fetchLimits := ⟨1000, 5⟩
  minFetchInterval := 300
  maxFetchInterval := 86400
  maxBackoffSecs := 86400
  planLocalOnly := false

/-- A refetch of document 1 that finds the body, with a break of the connection. -/
def refetch (body : List UInt8) (fault : Option Fault) : JobRow × Answers headContent :=
  ({ tenantId := 1, createdBy := none, fileId := none, documentId := some 1, kind := .refetch, priority := 0,
     status := .running, attempts := 1, lastError := none, runAfter := 0, createdAt := 0,
     leaseExpiresAt := none, lockedBy := none },
   { world := serves body
     sha256_eq := fun _ => rfl
     showError := fun _ => ""
     truncateToTokenBudget := id
     process := .ok ⟨"title", "summary", .document, "", 1, [1], [], 1⟩
     diffSummary := "changed"
     now := 0
     fault := fault })

/-- Document 1 with a source that was never fetched. -/
def attachedDb : SourceDb := { syncedDb with
  sync := fun _ => { sourceUrl := some "https://example.org/page", fetchIntervalSecs := some 3600 } }

/-- What the second job of the sequence below leaves. -/
def tornDb : SourceDb :=
  after workerConfig (after workerConfig attachedDb (refetch [7] none)) (refetch [8] (some ⟨3, false⟩))

end Tagsmaxxing.Refetch
