import Tagsmaxxing.Core.Types
import Tagsmaxxing.Lib.Run

/-! # The durable job queue (`job_queue.rs`, `job_lease.rs`)

Every method of `JobQueue` that touches the database is one SQL statement or one transaction, and one function on
`Db` here; `failInner` is the shared body of `fail` and `fail_permanent`. `reap_expired_leases` is a `SELECT`
followed by one `requeue_crashed` per selected id, so it is *not* atomic: `reapSelect` is its first statement, and a
pass in progress is a list of ids still to be requeued (`State.reaps`).

A statement's `now` is the clock it reads (`now()` in SQL, `Utc::now()` in `fail_inner`). `claimKinds` also takes the
ids that other transactions hold locked at that moment, which `FOR UPDATE SKIP LOCKED` passes over. `i32` columns are
`Int32`, so `attempts + 1` wraps as it would in the source. -/

namespace Tagsmaxxing

/-! ## Configuration and backoff -/

/-- The handle's configuration. The connection pool is the `Db` argument of each
    operation. -/
structure JobQueue where
  minBackoffMs : Int
  maxRetries : Int32
  leaseSecs : Int
  workerId : String
deriving DecidableEq

def agingStepSecs : ℚ := 3600

def leaseExpiredError : String := "lease expired — worker presumed crashed"

def reapBatch : ℕ := 50

/-- `i64::saturating_mul`. -/
def satMulI64 (a b : Int) : Int := max (-2 ^ 63) (min (2 ^ 63 - 1) (a * b))

/-- `calculate_backoff`, in milliseconds. -/
def calculateBackoff (attempts : Int32) (minBackoffMs : Int) : Int :=
  let shift := min ((max attempts 1).toInt - 1).toNat 30
  satMulI64 minBackoffMs (2 ^ shift)

namespace JobQueue

/-! ## Statements -/

/-- The new row, whose id is the table's next one. -/
def enqueue (tenantId : Int) (createdBy fileId documentId : Option ℕ) (kind : JobKind)
    (priority : Int32) (now : Time) (db : Db) : Db :=
  let row : JobRow :=
    { tenantId := tenantId, createdBy := createdBy, fileId := fileId, documentId := documentId,
      kind := kind, priority := priority, status := .queued, attempts := 0, lastError := none,
      runAfter := now, createdAt := now, leaseExpiresAt := none, lockedBy := none }
  { db with jobs := db.jobs.insert row }

/-- The `WHERE` clause of the claim's sub-query; an empty `kinds` means any kind. -/
def claimable (kinds : List JobKind) (locked : List ℕ) (now : Time) (id : ℕ) (j : JobRow) : Bool :=
  (j.status == .queued || j.status == .failed) && decide (j.runAfter ≤ now) &&
    (kinds.isEmpty || kinds.contains j.kind) && !locked.contains id

/-- `priority + FLOOR(EXTRACT(EPOCH FROM (now() - created_at)) / 3600)`. -/
def sqlPriority (now : Time) (j : JobRow) : Int :=
  j.priority.toInt + ⌊(now - j.createdAt) / agingStepSecs⌋

/-- The claim's `ORDER BY`: effective priority descending, then `run_after`, then `id`. -/
def claimBefore (now : Time) (a b : ℕ × JobRow) : Bool :=
  decide (sqlPriority now b.2 < sqlPriority now a.2) ||
    (decide (sqlPriority now a.2 = sqlPriority now b.2) &&
      (decide (a.2.runAfter < b.2.runAfter) ||
        (decide (a.2.runAfter = b.2.runAfter) && decide (a.1 < b.1))))

/-- `… ORDER BY … LIMIT 1` over the rows of the sub-query. -/
def claimSelect (kinds : List JobKind) (locked : List ℕ) (now : Time) (t : Serial JobRow) : Option (ℕ × JobRow) :=
  orderLimitOne (claimBefore now) (t.rows.filter fun r => claimable kinds locked now r.1 r.2)

/-- The database after the claim, and the claimed job (its post-update
    row). -/
def claimKinds (q : JobQueue) (kinds : List JobKind) (locked : List ℕ) (now : Time) (db : Db) :
    Db × Option (ℕ × JobRow) :=
  match claimSelect kinds locked now db.jobs with
  | none => (db, none)
  | some (id, j) =>
      let claimed : JobRow := { j with
        status := .running,
        leaseExpiresAt := some (now + (q.leaseSecs : ℚ)),
        lockedBy := some q.workerId }
      ({ db with jobs := db.jobs.modify id fun _ => claimed }, some (id, claimed))

def claim (q : JobQueue) (locked : List ℕ) (now : Time) (db : Db) : Db × Option (ℕ × JobRow) :=
  q.claimKinds [] locked now db

def complete (jobId : ℕ) (db : Db) : Db :=
  { db with
    jobs := db.jobs.updateWhere (fun id j => id == jobId && j.status == .running) fun j =>
      { j with status := .done } }

/-- The rows `orphan_sweep` takes back: running, and locked by another worker id. -/
def orphaned (q : JobQueue) (j : JobRow) : Bool :=
  j.status == .running &&
    match j.lockedBy with
    | none => false
    | some w => w != q.workerId

/-- The database and the number of recovered jobs. -/
def orphanSweep (q : JobQueue) (now : Time) (db : Db) : Db × ℕ :=
  ({ db with
    jobs := db.jobs.updateWhere (fun _ j => q.orphaned j) fun j =>
      { j with status := .failed, leaseExpiresAt := none, lockedBy := none, runAfter := now } },
    db.jobs.rows.countP fun r => q.orphaned r.2)

def requeueCrashed (jobId : ℕ) (now : Time) (db : Db) : Db :=
  { db with
    jobs := db.jobs.updateWhere (fun id j => id == jobId && j.status == .running) fun j =>
      { j with status := .failed, lastError := some leaseExpiredError, leaseExpiresAt := none,
               lockedBy := none, runAfter := now } }

/-- The dead-letter document hook: the staged document and its still-pending files fail, a document
    that is already `ready` does not. -/
def deadLetterDocument (j : JobRow) (db : Db) : Db :=
  match j.kind, j.documentId with
  | .ingest, some docId =>
      { db with
        documents := db.documents.updateWhere
          (fun id d => id == docId && d.tenantId == j.tenantId && d.status != .ready)
          fun d => { d with status := .failed },
        files := db.files.updateWhere
          (fun _ f => f.documentId == docId && f.tenantId == j.tenantId && f.status == .pending)
          fun f => { f with status := .failed } }
  | _, _ => db

/-- The two `UPDATE jobs` branches of `fail_inner`. -/
def failedRow (q : JobQueue) (error : String) (dead : Bool) (now : Time) (j : JobRow) : JobRow :=
  let newAttempts := j.attempts + 1
  if dead then
    { j with status := .dead, attempts := newAttempts, lastError := some error,
             leaseExpiresAt := none, lockedBy := none }
  else
    { j with status := .failed, attempts := newAttempts, lastError := some error,
             runAfter := now + (calculateBackoff newAttempts q.minBackoffMs : ℚ) / 1000,
             leaseExpiresAt := none, lockedBy := none }

/-- `JobQueue::fail_inner`, one transaction under the job's row lock. -/
def failInner (q : JobQueue) (jobId : ℕ) (error : String) (forceDead : Bool) (now : Time) (db : Db) :
    Except String (JobStatus × Db) :=
  match db.jobs.get? jobId with
  | none => .error ("job " ++ toString jobId ++ " not found")
  | some j =>
      if j.status ≠ .running then
        .error ("job " ++ toString jobId ++ " has status '" ++ j.status.asStr ++
          "', expected 'running'")
      else
        let dead := forceDead || decide (q.maxRetries ≤ j.attempts + 1)
        let db := { db with jobs := db.jobs.modify jobId (q.failedRow error dead now) }
        .ok (if dead then .dead else .failed, if dead then deadLetterDocument j db else db)

def fail (q : JobQueue) (jobId : ℕ) (error : String) (now : Time) (db : Db) : Except String (JobStatus × Db) :=
  q.failInner jobId error false now db

def failPermanent (q : JobQueue) (jobId : ℕ) (error : String) (now : Time) (db : Db) : Except String (JobStatus × Db) :=
  q.failInner jobId error true now db

/-- The database, and whether a row was updated. -/
def extendLease (q : JobQueue) (jobId : ℕ) (now : Time) (db : Db) : Db × Bool :=
  let mine (id : ℕ) (j : JobRow) : Bool :=
    id == jobId && j.status == .running && j.lockedBy == some q.workerId
  ({ db with
    jobs := db.jobs.updateWhere mine fun j =>
      { j with leaseExpiresAt := some (now + (q.leaseSecs : ℚ)) } },
    db.jobs.rows.any fun r => mine r.1 r.2)

/-- Whether a running job's lease is past. -/
def leaseExpired (now : Time) (j : JobRow) : Bool :=
  j.status == .running && j.leaseExpiresAt.any fun e => decide (e < now)

/-- The candidate query of `reap_expired_leases`: at most `REAP_BATCH` ids, oldest lease first. -/
def reapSelect (now : Time) (db : Db) : List ℕ :=
  (((db.jobs.rows.filter fun r => leaseExpired now r.2).insertionSort fun a b =>
      a.2.leaseExpiresAt.getD 0 ≤ b.2.leaseExpiresAt.getD 0).take reapBatch).map Prod.fst

/-! ## The queue as a system

The database together with the reap passes in progress. Each label is one statement (or one
transaction) issued by anybody: workers, reapers, a starting process. -/

structure State where
  db : Db
  /-- Reap passes in progress: the ids each has selected and not requeued yet. -/
  reaps : Serial (List ℕ)

inductive Op
  | enqueue (tenantId : Int) (createdBy fileId documentId : Option ℕ) (kind : JobKind)
      (priority : Int32) (now : Time)
  | claimKinds (q : JobQueue) (kinds : List JobKind) (locked : List ℕ) (now : Time)
  | complete (jobId : ℕ)
  | fail (q : JobQueue) (jobId : ℕ) (error : String) (now : Time)
  | failPermanent (q : JobQueue) (jobId : ℕ) (error : String) (now : Time)
  | extendLease (q : JobQueue) (jobId : ℕ) (now : Time)
  | requeueCrashed (jobId : ℕ) (now : Time)
  | orphanSweep (q : JobQueue) (now : Time)
  | reapSelect (now : Time)
  | reapNext (pass : ℕ) (now : Time)

/-- The database a statement leaves behind; a transaction that returns an error rolls back. -/
def orRollback {ε : Type} (db : Db) : Except ε (JobStatus × Db) → Db
  | .ok (_, db') => db'
  | .error _ => db

/-- One step of the queue. `reapNext` is the only label that can be disabled: the pass must have an
    id left. -/
def step (s : State) : Op → Option State
  | .enqueue tenantId createdBy fileId documentId kind priority now =>
      some { s with db := JobQueue.enqueue tenantId createdBy fileId documentId kind priority now s.db }
  | .claimKinds q kinds locked now => some { s with db := (q.claimKinds kinds locked now s.db).1 }
  | .complete jobId => some { s with db := JobQueue.complete jobId s.db }
  | .fail q jobId error now => some { s with db := orRollback s.db (q.fail jobId error now s.db) }
  | .failPermanent q jobId error now =>
      some { s with db := orRollback s.db (q.failPermanent jobId error now s.db) }
  | .extendLease q jobId now => some { s with db := (q.extendLease jobId now s.db).1 }
  | .requeueCrashed jobId now => some { s with db := JobQueue.requeueCrashed jobId now s.db }
  | .orphanSweep q now => some { s with db := (q.orphanSweep now s.db).1 }
  | .reapSelect now => some { s with reaps := s.reaps.insert (JobQueue.reapSelect now s.db) }
  | .reapNext pass now =>
      match s.reaps.get? pass with
      | some (jobId :: rest) =>
          some { db := JobQueue.requeueCrashed jobId now s.db,
                 reaps := s.reaps.modify pass fun _ => rest }
      | _ => none

/-! ## What each statement does to one job row -/

theorem get?_enqueue (tenantId : Int) (createdBy fileId documentId : Option ℕ) (kind : JobKind)
    (priority : Int32) (now : Time) (db : Db) (j : ℕ) :
    ∃ r : JobRow, r.status = .queued ∧ r.attempts = 0 ∧
      (enqueue tenantId createdBy fileId documentId kind priority now db).jobs.get? j =
        if j = db.jobs.next then some r else db.jobs.get? j :=
  ⟨_, rfl, rfl, Serial.get?_insert _ _ _⟩

variable {kinds : List JobKind} {locked : List ℕ} {now : Time} {id : ℕ} {q : JobQueue} {db : Db} {c : JobRow}

/-- The claim's sub-query only selects claimable rows of the table. -/
theorem claimSelect_spec {t : Serial JobRow} {j : JobRow} (h : claimSelect kinds locked now t = some (id, j)) :
    t.get? id = some j ∧ (j.status = .queued ∨ j.status = .failed) := by
  have hm := orderLimitOne_mem h
  rw [List.mem_filter] at hm
  refine ⟨(t.get?_eq_some_iff id j).2 hm.1, ?_⟩
  have hc := hm.2
  simp only [claimable, Bool.and_eq_true, Bool.or_eq_true, beq_iff_eq] at hc
  exact hc.1.1.1

theorem claimKinds_none (h : (q.claimKinds kinds locked now db).2 = none) :
    (q.claimKinds kinds locked now db).1 = db := by
  unfold claimKinds at h ⊢
  split at h
  · rfl
  · cases h

/-- A claim that returns `id` found its row queued or failed, and makes it the claimant's running
    row. No other row changes. -/
theorem claimKinds_some (h : (q.claimKinds kinds locked now db).2 = some (id, c)) :
    ∃ a, db.jobs.get? id = some a ∧ (a.status = .queued ∨ a.status = .failed) ∧
      c.status = .running ∧ c.attempts = a.attempts ∧
      ∀ j, (q.claimKinds kinds locked now db).1.jobs.get? j =
        if j = id then some c else db.jobs.get? j := by
  unfold claimKinds at h ⊢
  split at h
  · cases h
  next i a hsel =>
    simp only [Option.some.injEq, Prod.mk.injEq] at h
    obtain ⟨rfl, rfl⟩ := h
    obtain ⟨hget, hst⟩ := claimSelect_spec hsel
    refine ⟨a, hget, hst, rfl, rfl, fun j => ?_⟩
    simp only [Serial.get?_modify]
    by_cases hj : j = i
    · rw [hj, hget, if_pos rfl, Option.map_some, if_pos rfl]
    · simp [hj]

theorem claimKinds_lastError (h : (q.claimKinds kinds locked now db).2 = some (id, c)) :
    ∃ a, db.jobs.get? id = some a ∧ c.lastError = a.lastError := by
  unfold claimKinds at h
  split at h
  · cases h
  next i a hsel =>
    cases h
    exact ⟨a, (claimSelect_spec hsel).1, rfl⟩

@[simp] theorem jobs_deadLetterDocument (j : JobRow) (db : Db) :
    (deadLetterDocument j db).jobs = db.jobs := by
  unfold deadLetterDocument
  split <;> rfl

section

variable (q : JobQueue) (err : String) (dead : Bool) (now : Time) (a : JobRow)

@[simp] theorem failedRow_status : (q.failedRow err dead now a).status = if dead then .dead else .failed := by
  cases dead <;> rfl

@[simp] theorem failedRow_attempts : (q.failedRow err dead now a).attempts = a.attempts + 1 := by
  cases dead <;> rfl

@[simp] theorem failedRow_lastError : (q.failedRow err dead now a).lastError = some err := by
  cases dead <;> rfl

/-- `fail_inner` on a job that is not running returns an error. -/
theorem failInner_error (id : ℕ) (err : String) (force : Bool) (now : Time) (db : Db)
    (h : ∀ a, db.jobs.get? id = some a → a.status ≠ .running) :
    ∃ msg, q.failInner id err force now db = .error msg := by
  unfold failInner
  split
  · exact ⟨_, rfl⟩
  next a hget => exact ⟨_, if_pos (h a hget)⟩

/-- On a running row `fail_inner` succeeds: the row counts one more attempt and is dead or failed.
    No other row changes. -/
theorem failInner_ok (force : Bool) (now : Time) {a : JobRow}
    (hget : db.jobs.get? id = some a) (hrun : a.status = .running) :
    ∃ st db', q.failInner id err force now db = .ok (st, db') ∧
      (st = .dead ∨ st = .failed ∧ force = false ∧ a.attempts + 1 < q.maxRetries) ∧
      ∃ b, b.status = st ∧ b.attempts = a.attempts + 1 ∧
        ∀ j, db'.jobs.get? j = if j = id then some b else db.jobs.get? j := by
  unfold failInner
  simp only [hget, hrun, ne_eq, not_true_eq_false, if_false]
  generalize hd : (force || decide (q.maxRetries ≤ a.attempts + 1)) = dead
  refine ⟨_, _, rfl, ?_, q.failedRow err dead now a, failedRow_status .., failedRow_attempts .., fun j => ?_⟩
  · -- the status is `failed` only below the retry limit
    cases dead with
    | true => exact .inl rfl
    | false =>
      simp only [Bool.or_eq_false_iff, decide_eq_false_iff_not] at hd
      exact .inr ⟨rfl, hd.1, Int32.not_le.1 hd.2⟩
  · have hjobs : ∀ x : Db, (if dead then deadLetterDocument a x else x).jobs = x.jobs := by
      intro x
      cases dead <;> simp
    rw [hjobs, Serial.get?_modify]
    by_cases hj : j = id
    · rw [hj, hget, if_pos rfl, Option.map_some, if_pos rfl]
    · simp [hj]

end

/-- A `fail_inner` that succeeds leaves its error in the row. -/
theorem failInner_lastError {err : String} {force : Bool} {db' : Db} {st : JobStatus}
    (h : q.failInner id err force now db = .ok (st, db')) :
    ∃ b, db'.jobs.get? id = some b ∧ b.lastError = some err := by
  unfold failInner at h
  split at h
  · cases h
  next a hget =>
    split at h
    · cases h
    · cases h
      generalize (force || decide (q.maxRetries ≤ a.attempts + 1)) = dead
      refine ⟨q.failedRow err dead now a, ?_, failedRow_lastError ..⟩
      cases dead <;> simp [hget]

/-- `requeue_crashed` leaves its message in a running row. -/
theorem requeueCrashed_lastError {a : JobRow} (hget : db.jobs.get? id = some a) (hrun : a.status = .running)
    (now : Time) :
    ∃ b, (requeueCrashed id now db).jobs.get? id = some b ∧ b.lastError = some leaseExpiredError := by
  simp [requeueCrashed, hget, hrun]

end JobQueue

end Tagsmaxxing
