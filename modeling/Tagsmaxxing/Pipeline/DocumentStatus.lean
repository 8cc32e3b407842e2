import Tagsmaxxing.Pipeline.JobQueue
import Tagsmaxxing.Store.ExactReuse

/-! # The status of a document follows its ingest job

Three modules write a document's status, each in a transaction of its own: staging makes it `pending`, the finalization
`ready`, and the dead-letter hook of `fail_inner` `failed`. A retry (`retry_failed_ingest`, or `admin_retry_job`, which
only touches the job) starts the job over. The guards of these statements suffice: as long as the document has one
ingest job, whenever that job is dead the document is ready, or it has failed and none of its files is pending. -/

namespace Tagsmaxxing.DocumentStatus

open Store
open Transition (Edge Run Fires)

/-! ## Retries -/

inductive RetryIngestOutcome
  | retried (jobId : ℕ)
  | notRetryable (status : JobStatus)
  | noJob
deriving DecidableEq

/-- What a job is for. -/
def target (j : JobRow) : JobKind × Int × Option ℕ := (j.kind, j.tenantId, j.documentId)

/-- The newest ingest job of a document. -/
def latestIngestJob (tenantId : Int) (documentId : ℕ) (db : Db) : Option (ℕ × JobRow) :=
  orderLimitOne (fun a b => decide (b.1 < a.1))
    (db.jobs.rows.filter fun r => target r.2 == (.ingest, tenantId, some documentId))

/-- The updates of a retry: the job starts over, the document and its failed files are pending again. -/
def requeueIngest (tenantId : Int) (documentId jobId : ℕ) (now : Time) (db : Db) : Db where
  jobs := db.jobs.updateWhere (fun id j => id == jobId && j.tenantId == tenantId) fun j =>
    { j with status := .queued, attempts := 0, lastError := none, runAfter := now, leaseExpiresAt := none,
             lockedBy := none }
  documents := db.documents.updateWhere
    (fun id d => id == documentId && d.tenantId == tenantId && d.status != .ready)
    fun d => { d with status := .pending }
  files := db.files.updateWhere
    (fun _ f => f.documentId == documentId && f.tenantId == tenantId && f.status == .failed)
    fun f => { f with status := .pending }

/-- `PgStore::retry_failed_ingest`. -/
def retryFailedIngest (tenantId : Int) (documentId : ℕ) (now : Time) (db : Db) : RetryIngestOutcome × Db :=
  match latestIngestJob tenantId documentId db with
  | none => (.noJob, db)
  | some (jobId, j) =>
      if j.status ≠ .dead ∧ j.status ≠ .failed then (.notRetryable j.status, db)
      else (.retried jobId, requeueIngest tenantId documentId jobId now db)

/-- `PgStore::admin_retry_job`: the number of rows and the database. -/
def adminRetryJob (tenantId : Int) (jobId : ℕ) (now : Time) (db : Db) : ℕ × Db :=
  let mine (id : ℕ) (j : JobRow) : Bool := id == jobId && j.tenantId == tenantId
  (db.jobs.rows.countP fun r => mine r.1 r.2,
    { db with jobs := db.jobs.updateWhere mine fun j =>
        { j with status := .queued, attempts := 0, lastError := none, runAfter := now } })

/-! ## The system

The queue of `JobQueue.step`, and the transactions of the store that write statuses, in any order. -/

inductive Op
  | queue (op : JobQueue.Op)
  | stage (doc : Document) (files : List FileRecord)
  | finalize (doc : Document) (files : List FileRecord) (tagIds : List ℕ) (now : Time)
  | retry (tenantId : Int) (documentId : ℕ) (now : Time)
  | adminRetry (tenantId : Int) (jobId : ℕ) (now : Time)

/-- The database after a transaction; one that returns an error rolls back. -/
def commitOr {α : Type} (db : Db) : Except String (α × Db) → Db
  | .ok (_, db') => db'
  | .error _ => db

def step (s : JobQueue.State) : Op → Option JobQueue.State
  | .queue op => JobQueue.step s op
  | .stage doc files => some { s with db := commitOr s.db (createPendingIngest doc files s.db) }
  | .finalize doc files tagIds now =>
      some { s with db := commitOr s.db (transactionalIngest doc files tagIds now s.db) }
  | .retry tenantId documentId now => some { s with db := (retryFailedIngest tenantId documentId now s.db).2 }
  | .adminRetry tenantId jobId now => some { s with db := (adminRetryJob tenantId jobId now s.db).2 }

/-- The step gives the document no other ingest job, and does not stage it again. -/
def KeepsSingle (tenantId : Int) (d : ℕ) (e : Edge JobQueue.State Op) : Prop :=
  match e.label with
  | .queue (.enqueue t _ _ documentId kind _ _) => (kind, t, documentId) ≠ (.ingest, tenantId, some d)
  | .stage doc files => ∀ r, createPendingIngest doc files e.src.db = .ok r → r.1.1 ≠ d
  | _ => True

/-! ## What is to hold -/

def Ready (d : ℕ) (db : Db) : Prop := ∃ row, db.documents.get? d = some row ∧ row.status = .ready

/-- The document is ready, or it has failed and no file of it is pending. -/
def Settled (d : ℕ) (db : Db) : Prop :=
  Ready d db ∨ (∃ row, db.documents.get? d = some row ∧ row.status = .failed) ∧
    ∀ k x, db.files.get? k = some x → x.documentId = d → x.status ≠ .pending

/-- Document `d` is the tenant's, and so are its files. -/
structure Owned (tenantId : Int) (d : ℕ) (db : Db) : Prop where
  document : ∃ row, db.documents.get? d = some row ∧ row.tenantId = tenantId
  files : ∀ k x, db.files.get? k = some x → x.documentId = d → x.tenantId = tenantId

/-- Document `d` of the tenant, with job `j` as its one ingest job. -/
structure Follows (tenantId : Int) (d j : ℕ) (db : Db) : Prop where
  owned : Owned tenantId d db
  job : ∃ r, db.jobs.get? j = some r
  single : ∀ i r, db.jobs.get? i = some r → (target r = (.ingest, tenantId, some d) ↔ i = j)
  dead : ∀ r, db.jobs.get? j = some r → r.status = .dead → Settled d db

/-- What a step makes of it. -/
structure Next (tenantId : Int) (d j : ℕ) (db db' : Db) : Prop where
  follows : Follows tenantId d j db'
  ready : Ready d db → Ready d db'

/-! ## Steps that leave the document alone -/

/-- Document `d` and its files are as they were. -/
structure Untouched (d : ℕ) (db db' : Db) : Prop where
  document : db'.documents.get? d = db.documents.get? d
  files : ∀ k x, db'.files.get? k = some x → x.documentId = d → db.files.get? k = some x

/-- The same jobs, each for what it was for. -/
structure JobsKept (t t' : Serial JobRow) : Prop where
  stays : ∀ i r, t.get? i = some r → ∃ r', t'.get? i = some r'
  same : ∀ i r', t'.get? i = some r' → ∃ r, t.get? i = some r ∧ target r' = target r

/-- Job `j` is dead only if it was. -/
def NotBuried (j : ℕ) (t t' : Serial JobRow) : Prop :=
  ∀ r', t'.get? j = some r' → r'.status = .dead → ∃ r, t.get? j = some r ∧ r.status = .dead

section Steps

variable {tenantId : Int} {d j : ℕ} {db db' : Db}

theorem Untouched.refl (d : ℕ) (db : Db) : Untouched d db db := ⟨rfl, fun _ _ h _ => h⟩

theorem Untouched.trans {db'' : Db} (h : Untouched d db db') (h' : Untouched d db' db'') : Untouched d db db'' :=
  ⟨h'.document.trans h.document, fun k x hx hd => h.files k x (h'.files k x hx hd) hd⟩

theorem Untouched.of_eq (hdocuments : db'.documents = db.documents) (hfiles : db'.files = db.files) :
    Untouched d db db' := by
  refine ⟨by rw [hdocuments], fun k x hx _ => ?_⟩
  rwa [hfiles] at hx

theorem Untouched.ready (h : Untouched d db db') (hready : Ready d db) : Ready d db' := by
  obtain ⟨row, hrow, hstatus⟩ := hready
  exact ⟨row, h.document.trans hrow, hstatus⟩

theorem Untouched.settled (h : Untouched d db db') (hsettled : Settled d db) : Settled d db' := by
  obtain hready | ⟨⟨row, hrow, hstatus⟩, hfiles⟩ := hsettled
  · exact .inl (h.ready hready)
  · exact .inr ⟨⟨row, h.document.trans hrow, hstatus⟩, fun k x hx hdoc => hfiles k x (h.files k x hx hdoc) hdoc⟩

theorem Untouched.owned (h : Untouched d db db') (howned : Owned tenantId d db) : Owned tenantId d db' := by
  refine ⟨?_, fun k x hx hd => howned.files k x (h.files k x hx hd) hd⟩
  rw [h.document]
  exact howned.document

theorem JobsKept.refl (t : Serial JobRow) : JobsKept t t := ⟨fun _ r hr => ⟨r, hr⟩, fun _ r hr => ⟨r, hr, rfl⟩⟩

theorem NotBuried.refl (j : ℕ) (t : Serial JobRow) : NotBuried j t t := fun r hr hdead => ⟨r, hr, hdead⟩

variable {f : JobRow → JobRow} {r : JobRow} {now : Time} {files : List FileRecord} {doc : Document}
  {p : ℕ → JobRow → Bool}

theorem JobsKept.updateWhere {t : Serial JobRow}
    (hf : ∀ i r, t.get? i = some r → p i r = true → target (f r) = target r) : JobsKept t (t.updateWhere p f) := by
  refine ⟨fun i r hr => ⟨_, by rw [Serial.get?_updateWhere, hr, Option.map_some]⟩, fun i r' hr' => ?_⟩
  obtain ⟨r, hr, rfl⟩ := Serial.get?_of_updateWhere hr'
  refine ⟨r, hr, ?_⟩
  split_ifs with hp
  · exact hf i r hr hp
  · rfl

theorem NotBuried.updateWhere {t : Serial JobRow} (hf : ∀ r, p j r = true → (f r).status = .dead → r.status = .dead) :
    NotBuried j t (t.updateWhere p f) := by
  intro r' hr' hdead
  obtain ⟨r, hr, rfl⟩ := Serial.get?_of_updateWhere hr'
  refine ⟨r, hr, ?_⟩
  split_ifs at hdead with hp
  · exact hf r hp hdead
  · exact hdead

section

variable (h : Follows tenantId d j db) (hjobs : JobsKept db.jobs db'.jobs)

include h hjobs

theorem Follows.of_jobsKept
    (howned : Owned tenantId d db') (hdead : ∀ r, db'.jobs.get? j = some r → r.status = .dead → Settled d db') :
    Follows tenantId d j db' := by
  obtain ⟨r, hr⟩ := h.job
  refine ⟨howned, hjobs.stays j r hr, fun i r' hr' => ?_, hdead⟩
  obtain ⟨r, hr, htarget⟩ := hjobs.same i r' hr'
  rw [htarget]
  exact h.single i r hr

/-- A step that leaves the document alone and does not end the job. -/
theorem Follows.untouched (halive : NotBuried j db.jobs db'.jobs) (hdoc : Untouched d db db') :
    Next tenantId d j db db' := by
  refine ⟨h.of_jobsKept hjobs (hdoc.owned h.owned) fun r' hr' hdead => ?_, hdoc.ready⟩
  obtain ⟨r, hr, hdead⟩ := halive r' hr' hdead
  exact hdoc.settled (h.dead r hr hdead)

end

/-! ## Statements that write statuses -/

/-- The statements write the status of document `e` of the tenant, unless it is ready, and of its files. -/
structure Marks (t : Int) (e : ℕ) (db db' : Db) : Prop where
  documents : ∃ (p : ℕ → DocumentRow → Bool) (status : ProcessingStatus),
    db'.documents = db.documents.updateWhere p (fun row => { row with status := status }) ∧
    ∀ id row, p id row = true → id = e ∧ row.tenantId = t ∧ row.status ≠ .ready
  files : ∃ (q : ℕ → FileRow → Bool) (status : ProcessingStatus),
    db'.files = db.files.updateWhere q (fun x => { x with status := status }) ∧
    ∀ k x, q k x = true → x.documentId = e ∧ x.tenantId = t

section Marks

variable {t : Int} {e : ℕ}

/-- The two updates of the dead-letter hook and of a retry. -/
theorem Marks.of_updates (t : Int) (e : ℕ) (old new : ProcessingStatus) {db db' : Db}
    (hdocuments : db'.documents = db.documents.updateWhere
      (fun id row => id == e && row.tenantId == t && row.status != .ready) fun row => { row with status := new })
    (hfiles : db'.files = db.files.updateWhere
      (fun _ x => x.documentId == e && x.tenantId == t && x.status == old) fun x => { x with status := new }) :
    Marks t e db db' :=
  ⟨⟨_, new, hdocuments, by simp +contextual⟩, ⟨_, new, hfiles, by simp +contextual⟩⟩

theorem Marks.ready (h : Marks t e db db') (hready : Ready d db) : Ready d db' := by
  obtain ⟨p, status, hdocuments, hp⟩ := h.documents
  obtain ⟨row, hrow, hstatus⟩ := hready
  refine ⟨row, ?_, hstatus⟩
  have hnot : p d row ≠ true := fun htrue => (hp d row htrue).2.2 hstatus
  rw [hdocuments, Serial.get?_updateWhere, hrow, Option.map_some, if_neg hnot]

variable (h : Marks t e db db') (howned : Owned tenantId d db)

include h howned

theorem Marks.owned : Owned tenantId d db' := by
  constructor
  · obtain ⟨p, status, hdocuments, -⟩ := h.documents
    obtain ⟨row, hrow, htenant⟩ := howned.document
    rw [hdocuments, Serial.get?_updateWhere, hrow, Option.map_some]
    refine ⟨_, rfl, ?_⟩
    split_ifs
    all_goals exact htenant
  · intro k x hx hd
    obtain ⟨q, status, hfiles, -⟩ := h.files
    rw [hfiles] at hx
    obtain ⟨y, hy, rfl⟩ := Serial.get?_of_updateWhere hx
    split_ifs at hd ⊢
    all_goals exact howned.files k y hy hd

/-- Another document, or one of another tenant, is not marked. -/
theorem Marks.untouched (hne : ¬ (t = tenantId ∧ e = d)) : Untouched d db db' := by
  refine ⟨?_, fun k x hx hd => ?_⟩
  · obtain ⟨p, status, hdocuments, hp⟩ := h.documents
    obtain ⟨row, hrow, htenant⟩ := howned.document
    have hnot : p d row ≠ true := fun htrue => by
      obtain ⟨hid, ht, -⟩ := hp d row htrue
      exact hne ⟨ht.symm.trans htenant, hid.symm⟩
    rw [hdocuments, Serial.get?_updateWhere, hrow, Option.map_some, if_neg hnot]
  · obtain ⟨q, status, hfiles, hq⟩ := h.files
    rw [hfiles] at hx
    obtain ⟨y, hy, rfl⟩ := Serial.get?_of_updateWhere hx
    split_ifs at hd ⊢ with htrue
    · obtain ⟨hdoc, ht⟩ := hq k y htrue
      exact absurd ⟨ht.symm.trans (howned.files k y hy hd), hdoc.symm.trans hd⟩ hne
    · exact hy

end Marks

/-! ## The dead-letter hook -/

theorem marks_deadLetterDocument {e : ℕ} (htarget : target r = (.ingest, tenantId, some e)) (db : Db) :
    Marks tenantId e db (JobQueue.deadLetterDocument r db) := by
  obtain ⟨hkind, htenant, hdoc⟩ : r.kind = .ingest ∧ r.tenantId = tenantId ∧ r.documentId = some e := by
    simpa [target] using htarget
  subst htenant
  rw [JobQueue.deadLetterDocument, hkind, hdoc]
  exact .of_updates r.tenantId e .pending .failed rfl rfl

theorem Owned.untouched_deadLetterDocument (h : Owned tenantId d db)
    (hr : target r ≠ (.ingest, tenantId, some d)) : Untouched d db (JobQueue.deadLetterDocument r db) := by
  by_cases hingest : ∃ e, r.kind = .ingest ∧ r.documentId = some e
  · obtain ⟨e, hkind, hdoc⟩ := hingest
    have htarget : target r = (.ingest, r.tenantId, some e) := by rw [target, hkind, hdoc]
    refine (marks_deadLetterDocument htarget db).untouched h fun hsame => hr ?_
    rw [htarget, hsame.1, hsame.2]
  · have hdb : JobQueue.deadLetterDocument r db = db := by
      unfold JobQueue.deadLetterDocument
      split
      next e hkind hdoc => exact absurd ⟨e, hkind, hdoc⟩ hingest
      · rfl
    rw [hdb]
    exact .refl d db

theorem Owned.settled_deadLetterDocument (h : Owned tenantId d db)
    (hr : target r = (.ingest, tenantId, some d)) : Settled d (JobQueue.deadLetterDocument r db) := by
  obtain ⟨row, hrow, htenant⟩ := h.document
  by_cases hstatus : row.status = .ready
  · exact .inl ((marks_deadLetterDocument hr db).ready ⟨row, hrow, hstatus⟩)
  obtain ⟨hkind, hown, hdoc⟩ : r.kind = .ingest ∧ r.tenantId = tenantId ∧ r.documentId = some d := by
    simpa [target] using hr
  subst hown
  rw [JobQueue.deadLetterDocument, hkind, hdoc]
  refine .inr ⟨⟨{ row with status := .failed }, ?_, rfl⟩, fun k x hx hd => ?_⟩
  · rw [Serial.get?_updateWhere, hrow, Option.map_some, if_pos (by simp [htenant, hstatus])]
  · obtain ⟨y, hy, rfl⟩ := Serial.get?_of_updateWhere hx
    split_ifs at hd ⊢ with hp
    · rintro ⟨⟩
    · intro hpending
      exact hp (by simp [hd, h.files k y hy hd, hpending])

/-! ## The queue -/

variable {st : JobStatus} {q : JobQueue} {force : Bool} {id : ℕ} {error : String}

theorem failInner_eq_ok (h : q.failInner id error force now db = .ok (st, db')) :
    ∃ (r : JobRow) (dead : Bool), db.jobs.get? id = some r ∧
      db' = if dead then
          JobQueue.deadLetterDocument r { db with jobs := db.jobs.modify id (q.failedRow error dead now) }
        else { db with jobs := db.jobs.modify id (q.failedRow error dead now) } := by
  unfold JobQueue.failInner at h
  split at h
  · cases h
  next r hr =>
    split at h
    · cases h
    · cases h
      exact ⟨r, _, hr, rfl⟩

theorem target_failedRow (q : JobQueue) (error : String) (dead : Bool) (now : Time) (r : JobRow) :
    target (q.failedRow error dead now r) = target r := by
  unfold JobQueue.failedRow
  split <;> rfl

section

variable (h : Follows tenantId d j db)

include h

/-- A failure of the document's job ends with the document settled if it ends the job. -/
theorem Follows.failInner (hok : q.failInner id error force now db = .ok (st, db')) : Next tenantId d j db db' := by
  obtain ⟨r, dead, hr, rfl⟩ := failInner_eq_ok hok
  -- the row is rewritten first, which leaves the other tables alone
  have hkept : JobsKept db.jobs (db.jobs.modify id (q.failedRow error dead now)) :=
    .updateWhere fun _ r _ _ => target_failedRow q error dead now r
  have hdoc : Untouched d db { db with jobs := db.jobs.modify id (q.failedRow error dead now) } := .of_eq rfl rfl
  have halive : (id = j → dead = false) → NotBuried j db.jobs (db.jobs.modify id (q.failedRow error dead now)) := by
    intro hfails
    refine .updateWhere fun r hid hstatus => ?_
    rw [JobQueue.failedRow_status, hfails (beq_iff_eq.1 hid).symm] at hstatus
    cases hstatus
  cases dead with
  | false => exact h.untouched hkept (halive fun _ => rfl) hdoc
  | true =>
    rw [if_pos rfl]
    have howned := hdoc.owned h.owned
    by_cases hid : id = j
    · have htarget := (h.single id r hr).2 hid
      have hmarks := marks_deadLetterDocument htarget
        { db with jobs := db.jobs.modify id (q.failedRow error true now) }
      refine ⟨h.of_jobsKept ?_ (hmarks.owned howned) fun _ _ _ => howned.settled_deadLetterDocument htarget,
        fun hready => hmarks.ready (hdoc.ready hready)⟩
      rw [JobQueue.jobs_deadLetterDocument]
      exact hkept
    · have hother : target r ≠ (.ingest, tenantId, some d) := fun htarget => hid ((h.single id r hr).1 htarget)
      have hletter := howned.untouched_deadLetterDocument hother
      refine h.untouched ?_ ?_ (hdoc.trans hletter)
      · rw [JobQueue.jobs_deadLetterDocument]
        exact hkept
      · rw [JobQueue.jobs_deadLetterDocument]
        exact halive fun heq => absurd heq hid

theorem Follows.next : Next tenantId d j db db := ⟨h, fun hready => hready⟩

/-- A statement on the jobs that buries none. -/
theorem Follows.jobsWhere (p : ℕ → JobRow → Bool)
    (htarget : ∀ i r, db.jobs.get? i = some r → p i r = true → target (f r) = target r)
    (halive : ∀ r, (f r).status = .dead → r.status = .dead) :
    Next tenantId d j db { db with jobs := db.jobs.updateWhere p f } :=
  h.untouched (.updateWhere htarget) (.updateWhere fun r _ => halive r) (.of_eq rfl rfl)

theorem Follows.claimKinds (q : JobQueue) (kinds : List JobKind) (locked : List ℕ)
    (now : Time) : Next tenantId d j db (q.claimKinds kinds locked now db).1 := by
  unfold JobQueue.claimKinds
  split
  · exact h.next
  next id r hselect =>
    refine h.jobsWhere (fun i _ => i == id) (fun i r' hr' hi => ?_) fun r' hdead => ?_
    · rw [beq_iff_eq] at hi
      subst hi
      cases hr'.symm.trans (JobQueue.claimSelect_spec hselect).1
      rfl
    · cases hdead

theorem Follows.orRollback (q : JobQueue) (id : ℕ) (error : String) (force : Bool)
    (now : Time) : Next tenantId d j db (JobQueue.orRollback db (q.failInner id error force now db)) := by
  cases hfail : q.failInner id error force now db with
  | ok r => exact h.failInner hfail
  | error msg => exact h.next

theorem Follows.enqueue (hr : target r ≠ (.ingest, tenantId, some d)) :
    Next tenantId d j db { db with jobs := db.jobs.insert r } := by
  obtain ⟨r₀, hr₀⟩ := h.job
  have hold : ∀ i, i ≠ db.jobs.next → (db.jobs.insert r).get? i = db.jobs.get? i := by
    intro i hi
    rw [Serial.get?_insert, if_neg hi]
  have hj : j ≠ db.jobs.next := Nat.ne_of_lt (Serial.lt_next_of_get? hr₀)
  have hdoc : Untouched d db { db with jobs := db.jobs.insert r } := .of_eq rfl rfl
  refine ⟨⟨hdoc.owned h.owned, ⟨r₀, (hold j hj).trans hr₀⟩, fun i r' hr' => ?_, fun r' hr' hdead => ?_⟩, hdoc.ready⟩
  · by_cases hi : i = db.jobs.next
    · subst hi
      rw [Serial.get?_insert_next] at hr'
      cases hr'
      exact ⟨fun htarget => absurd htarget hr, fun heq => absurd heq.symm hj⟩
    · exact h.single i r' ((hold i hi).symm.trans hr')
  · exact hdoc.settled (h.dead r' ((hold j hj).symm.trans hr') hdead)

end

theorem Follows.queue {s t : JobQueue.State} {op : JobQueue.Op} (h : Follows tenantId d j s.db)
    (hstep : JobQueue.step s op = some t) (hsingle : KeepsSingle tenantId d ⟨s, .queue op, t⟩) :
    Next tenantId d j s.db t.db := by
  cases op with
  | enqueue tenantId' createdBy fileId documentId kind priority now =>
    cases hstep
    exact h.enqueue hsingle
  | claimKinds q kinds locked now =>
    cases hstep
    exact h.claimKinds q kinds locked now
  | complete jobId | requeueCrashed jobId now | orphanSweep q now =>
    cases hstep
    exact h.jobsWhere _ (fun _ _ _ _ => rfl) fun r hdead => by cases hdead
  | fail q jobId error now =>
    cases hstep
    exact h.orRollback q jobId error false now
  | failPermanent q jobId error now =>
    cases hstep
    exact h.orRollback q jobId error true now
  | extendLease q jobId now =>
    cases hstep
    exact h.jobsWhere _ (fun _ _ _ _ => rfl) fun r hdead => hdead
  | reapSelect now =>
    cases hstep
    exact h.next
  | reapNext pass now =>
    simp only [JobQueue.step] at hstep
    split at hstep <;> cases hstep
    exact h.jobsWhere _ (fun _ _ _ _ => rfl) fun r hdead => by cases hdead

/-! ## The store -/

variable {tagIds : List ℕ} {e : ℕ}

/-- An ingest writes no file of another document, and its files are its tenant's. -/
theorem file_of_transactionalIngest (hok : transactionalIngest doc files tagIds now db = .ok (e, db')) {k : ℕ}
    {x : FileRow} (hx : db'.files.get? k = some x) : (x.documentId ≠ e → db.files.get? k = some x) ∧
      (x.tenantId = doc.tenantId ∨ ∃ y, db.files.get? k = some y ∧ y.documentId = x.documentId ∧
        y.tenantId = x.tenantId) := by
  obtain ⟨-, -, ids, t, hup, hfiles⟩ := transactionalIngest_ok hok
  rw [hfiles] at hx
  obtain ⟨y, hy, hdoc, htenant, hsame⟩ := row_of_supersedeOthers hx
  obtain hold | ⟨hdoc', htenant', -⟩ := row_of_upsertFiles hup hy
  · refine ⟨fun hne => ?_, .inr ⟨y, hold, hdoc.symm, htenant.symm⟩⟩
    rw [hsame (hdoc ▸ hne)]
    exact hold
  · exact ⟨fun hne => absurd (hdoc.trans hdoc') hne, .inl (htenant.trans htenant')⟩

theorem Follows.finalize (h : Follows tenantId d j db)
    (hok : transactionalIngest doc files tagIds now db = .ok (e, db')) : Next tenantId d j db db' := by
  obtain ⟨hjobs, hresolve, -⟩ := transactionalIngest_ok hok
  have hkept : JobsKept db.jobs db'.jobs := hjobs.symm ▸ .refl _
  obtain ⟨row, hrow, htenant⟩ := h.owned.document
  obtain ⟨-, -, ⟨row', hrow', htenant'⟩, hdocuments⟩ | ⟨-, he, hdocuments⟩ := resolveDocument_ok hresolve
  · by_cases he : e = d
    · subst he
      cases hrow.symm.trans hrow'
      have hnew : db'.documents.get? e = some (readyRow doc row) := by
        rw [hdocuments, Serial.get?_modify, hrow, Option.map_some, if_pos rfl]
      have hready : Ready e db' := ⟨_, hnew, rfl⟩
      refine ⟨h.of_jobsKept hkept ⟨⟨_, hnew, htenant'.symm.trans htenant⟩, fun k x hx hd => ?_⟩
        fun _ _ _ => .inl hready, fun _ => hready⟩
      obtain hown | ⟨y, hy, hdoc, hsame⟩ := (file_of_transactionalIngest hok hx).2
      · exact hown.trans (htenant'.symm.trans htenant)
      · exact hsame.symm.trans (h.owned.files k y hy (hdoc.trans hd))
    · refine h.untouched hkept (hjobs.symm ▸ .refl j _) ⟨?_, fun k x hx hd =>
        (file_of_transactionalIngest hok hx).1 fun heq => he (heq.symm.trans hd)⟩
      rw [hdocuments, Serial.get?_modify]
      simp [Ne.symm he]
  · have hne : d ≠ db.documents.next := Nat.ne_of_lt (Serial.lt_next_of_get? hrow)
    refine h.untouched hkept (hjobs.symm ▸ .refl j _) ⟨?_, fun k x hx hd =>
      (file_of_transactionalIngest hok hx).1 fun heq => hne (hd.symm.trans (heq.trans he))⟩
    rw [hdocuments, Serial.get?_insert, if_neg hne]

theorem Follows.stage (h : Follows tenantId d j db) {r : ℕ × List ℕ × Bool}
    (hok : createPendingIngest doc files db = .ok (r, db')) (hne : r.1 ≠ d) : Next tenantId d j db db' := by
  obtain ⟨e, ids, reused⟩ := r
  obtain ⟨-, hjobs, hup, hdocuments⟩ := createPendingIngest_ok hok
  refine h.untouched (hjobs.symm ▸ .refl _) (hjobs.symm ▸ .refl j _) ⟨?_, fun k x hx hd => ?_⟩
  · obtain ⟨-, hdocuments⟩ | ⟨rfl, hdocuments⟩ := hdocuments
    · rw [hdocuments, Serial.get?_updateWhere]
      simp [Ne.symm hne]
    · rw [hdocuments, Serial.get?_insert, if_neg (Ne.symm hne)]
  · exact (row_of_upsertFiles hup hx).resolve_right fun hnew => hne (hnew.1.symm.trans hd)

/-! ## Retries -/

theorem latestIngestJob_eq_some {t : Int} {i : ℕ} (h : latestIngestJob t e db = some (i, r)) :
    db.jobs.get? i = some r ∧ target r = (.ingest, t, some e) := by
  have hmem := orderLimitOne_mem h
  rw [List.mem_filter, beq_iff_eq] at hmem
  exact ⟨(db.jobs.get?_eq_some_iff i r).2 hmem.1, hmem.2⟩

/-- A retry of the document takes its job back from the dead; any other retry leaves both alone. -/
theorem Follows.retry (h : Follows tenantId d j db) (t : Int) (e : ℕ) (now : Time) :
    Next tenantId d j db (retryFailedIngest t e now db).2 := by
  unfold retryFailedIngest
  split
  · exact h.next
  next i r hlatest =>
    split
    · exact h.next
    · obtain ⟨hr, htarget⟩ := latestIngestJob_eq_some hlatest
      have hmarks : Marks t e db (requeueIngest t e i now db) := .of_updates t e .failed .pending rfl rfl
      have hkept : JobsKept db.jobs (requeueIngest t e i now db).jobs := by
        dsimp only [requeueIngest]
        exact .updateWhere fun _ _ _ _ => rfl
      by_cases hsame : t = tenantId ∧ e = d
      · obtain ⟨rfl, rfl⟩ := hsame
        obtain rfl := (h.single i r hr).1 htarget
        refine ⟨h.of_jobsKept hkept (hmarks.owned h.owned) fun r' hr' hdead => ?_, hmarks.ready⟩
        have hown : r.tenantId = t := congrArg (fun x => x.2.1) htarget
        rw [requeueIngest, Serial.get?_updateWhere, hr, Option.map_some, if_pos (by simp [hown])] at hr'
        cases hr'
        cases hdead
      · refine h.untouched hkept ?_ (hmarks.untouched h.owned hsame)
        dsimp only [requeueIngest]
        refine .updateWhere fun r' _ hdead => ?_
        cases hdead

theorem Follows.adminRetry (h : Follows tenantId d j db) (t : Int) (i : ℕ) (now : Time) :
    Next tenantId d j db (adminRetryJob t i now db).2 := by
  refine h.jobsWhere _ (fun _ _ _ _ => rfl) fun r hdead => ?_
  cases hdead

theorem Follows.step {s t : JobQueue.State} {op : Op} (h : Follows tenantId d j s.db) (hstep : step s op = some t)
    (hsingle : KeepsSingle tenantId d ⟨s, op, t⟩) : Next tenantId d j s.db t.db := by
  cases op with
  | queue op => exact h.queue hstep hsingle
  | stage doc files =>
    cases hstep
    cases hok : createPendingIngest doc files s.db with
    | error msg => exact h.next
    | ok r => exact h.stage hok (hsingle r hok)
  | finalize doc files tagIds now =>
    cases hstep
    cases hok : transactionalIngest doc files tagIds now s.db with
    | error msg => exact h.next
    | ok r => exact h.finalize hok
  | retry t e now =>
    cases hstep
    exact h.retry t e now
  | adminRetry t i now =>
    cases hstep
    exact h.adminRetry t i now

variable {ids : List ℕ} {reused : Bool}

section

variable (hc : Consistent db) (hstage : createPendingIngest doc files db = .ok ((d, ids, reused), db'))

include hc hstage

/-- Staging leaves the document with the tenant, whether it is found or new. -/
theorem owned_of_staged : Owned doc.tenantId d db' := by
  obtain ⟨hne, -, hup, hdocuments⟩ := createPendingIngest_ok hstage
  refine ⟨?_, fun k x hx hd => ?_⟩
  · obtain ⟨hlookup, hdocuments⟩ | ⟨rfl, hdocuments⟩ := hdocuments
    · obtain ⟨row, hrow, htenant⟩ := document_of_lookup hc hne hlookup
      refine ⟨pendingRow doc row, ?_, htenant⟩
      rw [hdocuments, Serial.get?_updateWhere, hrow, Option.map_some, if_pos (by simp [htenant])]
    · exact ⟨newPendingRow doc, by rw [hdocuments, Serial.get?_insert_next], rfl⟩
  · obtain hold | ⟨-, htenant, -⟩ := row_of_upsertFiles hup hx
    · obtain ⟨row, hrow, htenant⟩ := hc.owner k x hold
      rw [hd] at hrow
      obtain ⟨hlookup, -⟩ | ⟨rfl, -⟩ := hdocuments
      · obtain ⟨row', hrow', htenant'⟩ := document_of_lookup hc hne hlookup
        cases hrow.symm.trans hrow'
        exact htenant.symm.trans htenant'
      · exact absurd (Serial.lt_next_of_get? hrow) (Nat.lt_irrefl _)
    · exact htenant

theorem follows_of_staged
    (hnone : ∀ i r, db.jobs.get? i = some r → target r ≠ (.ingest, doc.tenantId, some d))
    (createdBy fileId : Option ℕ) (priority : Int32) (now : Time) : Follows doc.tenantId d db.jobs.next
      (JobQueue.enqueue doc.tenantId createdBy fileId (some d) .ingest priority now db') := by
  obtain ⟨-, hjobs, -, -⟩ := createPendingIngest_ok hstage
  have hget : ∀ i, (JobQueue.enqueue doc.tenantId createdBy fileId (some d) .ingest priority now db').jobs.get? i =
      if i = db.jobs.next then some
        ⟨doc.tenantId, createdBy, fileId, some d, .ingest, priority, .queued, 0, none, now, now, none, none⟩
      else db.jobs.get? i := by
    intro i
    rw [JobQueue.enqueue, Serial.get?_insert, hjobs]
  have hdoc : Untouched d db' (JobQueue.enqueue doc.tenantId createdBy fileId (some d) .ingest priority now db') :=
    .of_eq rfl rfl
  refine ⟨hdoc.owned (owned_of_staged hc hstage), ⟨_, by rw [hget, if_pos rfl]⟩, fun i r hr => ?_, fun r hr hdead => ?_⟩
  · rw [hget] at hr
    split_ifs at hr with hi
    · cases hr
      exact iff_of_true rfl hi
    · exact iff_of_false (hnone i r hr) hi
  · rw [hget, if_pos rfl] at hr
    cases hr
    cases hdead

end

/-! ## Whole runs -/

/-- **The status of a document follows its ingest job.** After staging and enqueueing, in every run that gives the
    document no second ingest job: a ready document stays ready at every step, and whenever the job is dead the
    document is ready, or it has failed and none of its files is pending. -/
theorem document_follows_job {doc : Document} {files : List FileRecord} {ids : List ℕ} {reused : Bool}
    (hc : Consistent db) (hstage : createPendingIngest doc files db = .ok ((d, ids, reused), db'))
    (hnone : ∀ i r, db.jobs.get? i = some r → target r ≠ (.ingest, doc.tenantId, some d))
    {createdBy fileId : Option ℕ} {priority : Int32} {now : Time} {reaps : Serial (List ℕ)}
    {es : List (Edge JobQueue.State Op)} {u : JobQueue.State}
    (hrun : Run (Fires step)
      ⟨JobQueue.enqueue doc.tenantId createdBy fileId (some d) .ingest priority now db', reaps⟩ es u)
    (hsingle : ∀ e ∈ es, KeepsSingle doc.tenantId d e) :
    (∀ e ∈ es, Ready d e.src.db → Ready d e.dst.db) ∧
      ∃ r, u.db.jobs.get? db.jobs.next = some r ∧ target r = (.ingest, doc.tenantId, some d) ∧
        (r.status = .dead → Settled d u.db) := by
  have hstart := follows_of_staged hc hstage hnone createdBy fileId priority now
  have hinv := hrun.edges_where (I := fun s => Follows doc.tenantId d db.jobs.next s.db) hstart
    (fun e he hsingle hf => (hf.step he hsingle).follows) hsingle
  refine ⟨fun e he => ((hinv.2 e he).2.1.step (hinv.2 e he).1 (hsingle e he)).ready, ?_⟩
  obtain ⟨r, hr⟩ := hinv.1.job
  exact ⟨r, hr, (hinv.1.single _ r hr).2 rfl, hinv.1.dead r hr⟩

end Steps

/-- The database after staging one page. -/
def stagedPageDb : Db :=
  ((createPendingIngest (sampleDocument 0) [samplePage 1 "a"] emptyDb).toOption.map Prod.snd).getD emptyDb

/-- A staged page whose job fails for good, is retried, and fails for good again. -/
theorem document_fails_twice :
    ∃ es u, Run (Fires step) ⟨JobQueue.enqueue 1 none none (some 1) .ingest 0 0 stagedPageDb, .empty⟩ es u ∧
      es.length = 5 ∧ Settled 1 u.db ∧ ¬ Ready 1 u.db := by
  let q : JobQueue := ⟨1000, 3, 60, "worker"⟩
  let ops : List Op := [.queue (.claimKinds q [] [] 1), .queue (.failPermanent q 1 "unreadable" 2), .retry 1 1 3,
    .queue (.claimKinds q [] [] 4), .queue (.failPermanent q 1 "unreadable" 5)]
  have hstage : createPendingIngest (sampleDocument 0) [samplePage 1 "a"] emptyDb =
      .ok ((1, [1], false), stagedPageDb) := rfl
  obtain ⟨es, u, hrun, hlabels, hlength, hdead, hfailed⟩ : ∃ es u,
      Run (Fires step) ⟨JobQueue.enqueue 1 none none (some 1) .ingest 0 0 stagedPageDb, .empty⟩ es u ∧
      es.map Edge.label = ops ∧ es.length = 5 ∧ (u.db.jobs.get? 1).map JobRow.status = some .dead ∧
      (u.db.documents.get? 1).map DocumentRow.status = some .failed :=
    Transition.exists_run_of_holds (by decide +kernel)
  have hsingle : ∀ e ∈ es, KeepsSingle 1 1 e := by
    intro e he
    have hlabel : e.label ∈ ops := hlabels ▸ List.mem_map_of_mem he
    simp only [ops, List.mem_cons, List.not_mem_nil, or_false] at hlabel
    unfold KeepsSingle
    rcases hlabel with hlabel | hlabel | hlabel | hlabel | hlabel <;> rw [hlabel] <;> trivial
  obtain ⟨-, r, hr, -, hsettled⟩ := document_follows_job consistent_emptyDb hstage
    (fun i r hr => absurd hr (by simp [emptyDb])) hrun hsingle
  refine ⟨es, u, hrun, hlength, hsettled ?_, ?_⟩
  · exact Option.some.inj ((congrArg _ hr).symm.trans hdead)
  · rintro ⟨row, hrow, hready⟩
    rw [hrow, Option.map_some, hready] at hfailed
    cases hfailed

end Tagsmaxxing.DocumentStatus
