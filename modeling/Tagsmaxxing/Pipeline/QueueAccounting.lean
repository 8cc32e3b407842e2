import Tagsmaxxing.Pipeline.JobQueue

/-! # Accounting of the job queue

Every statement of the queue does one of seven things to a given job row (`Change`): leave it,
claim it, complete it, extend its lease, requeue it without counting an attempt, fail it, or bury
it. `step_change` says so once, for all ten labels; everything about whole runs below (attempts
count the failures, `dead` is the only way past the limit, `done` and `dead` are final, two claims
of one job have a requeue between them) is read off `Change` and never looks at a statement again. -/

namespace Tagsmaxxing.JobQueue

open Transition

/-! ## Events of a run -/

/-- The handle a statement is issued through, if it reads the handle's configuration. -/
def Op.handle? : Op → Option JobQueue
  | .claimKinds q .. => some q
  | .fail q .. => some q
  | .failPermanent q .. => some q
  | .extendLease q .. => some q
  | .orphanSweep q .. => some q
  | _ => none

/-- A step of the queue when no handle is configured with more than `max_retries = m`. -/
def Step (m : Int32) (s : State) (op : Op) (t : State) : Prop :=
  step s op = some t ∧ ∀ q, op.handle? = some q → q.maxRetries ≤ m

/-- The status of job `j`. -/
def jobStatus (s : State) (j : ℕ) : Option JobStatus := (s.db.jobs.get? j).map (·.status)

/-- The step is a `fail` or `fail_permanent` that succeeded on `j`. -/
def failsJob (j : ℕ) (e : Edge State Op) : Bool :=
  match e.label with
  | .fail q id err now => id == j && (q.fail id err now e.src.db).isOk
  | .failPermanent q id err now => id == j && (q.failPermanent id err now e.src.db).isOk
  | _ => false

/-- The step is a claim that returned `j`. -/
def claimsJob (j : ℕ) (e : Edge State Op) : Bool :=
  match e.label with
  | .claimKinds q kinds locked now =>
      ((q.claimKinds kinds locked now e.src.db).2.map Prod.fst) == some j
  | _ => false

/-- Steps of the lease reaper, the orphan sweep, and `requeue_crashed` itself. -/
def Op.recovers : Op → Bool
  | .requeueCrashed .. => true
  | .reapNext .. => true
  | .orphanSweep .. => true
  | _ => false

def Op.isFail : Op → Bool
  | .fail .. => true
  | _ => false

/-- The step is a reap or a sweep that took `j` back from `running` to `failed`. -/
def recoversJob (j : ℕ) (e : Edge State Op) : Bool :=
  e.label.recovers && jobStatus e.src j == some .running && jobStatus e.dst j == some .failed

/-- The step is a fail, a reap or a sweep that took `j` back from `running` to `failed`. -/
def requeuesJob (j : ℕ) (e : Edge State Op) : Bool :=
  (e.label.recovers || e.label.isFail) &&
    jobStatus e.src j == some .running && jobStatus e.dst j == some .failed

/-! ## What one step can do to one job -/

/-- What the step `e` does to the row `a` of job `j`, leaving `b`. -/
inductive Change (m : Int32) (j : ℕ) (e : Edge State Op) (a : JobRow) : JobRow → Prop
  | keep : failsJob j e = false → claimsJob j e = false → Change m j e a a
  | claim {b : JobRow} : (a.status = .queued ∨ a.status = .failed) → b.status = .running →
      b.attempts = a.attempts → failsJob j e = false → claimsJob j e = true → Change m j e a b
  | complete {b : JobRow} : a.status = .running → b.status = .done →
      b.attempts = a.attempts → failsJob j e = false → claimsJob j e = false → Change m j e a b
  | extend {b : JobRow} : a.status = .running → b.status = .running →
      b.attempts = a.attempts → failsJob j e = false → claimsJob j e = false → Change m j e a b
  | requeue {b : JobRow} : a.status = .running → b.status = .failed → b.attempts = a.attempts →
      e.label.recovers = true → failsJob j e = false → claimsJob j e = false → Change m j e a b
  | retry {b : JobRow} : a.status = .running → b.status = .failed →
      b.attempts = a.attempts + 1 → a.attempts + 1 < m → e.label.isFail = true →
      failsJob j e = true → claimsJob j e = false → Change m j e a b
  | bury {b : JobRow} : a.status = .running → b.status = .dead →
      b.attempts = a.attempts + 1 → failsJob j e = true → claimsJob j e = false → Change m j e a b

variable {m : Int32} {j : ℕ} {e : Edge State Op} {a b : JobRow}

/-- A transaction of `fail_inner`, committed or rolled back: the row is kept, retried or buried. -/
theorem failInner_change {q : JobQueue} (hq : q.maxRetries ≤ m) (id : ℕ) (err : String) (force : Bool)
    (now : Time) {db : Db} (hget : db.jobs.get? j = some a) :
    ∃ b, (orRollback db (q.failInner id err force now db)).jobs.get? j = some b ∧
      ((b = a ∧ (id == j && (q.failInner id err force now db).isOk) = false) ∨
        ((id == j && (q.failInner id err force now db).isOk) = true ∧ a.status = .running ∧
          b.attempts = a.attempts + 1 ∧
          (b.status = .dead ∨ b.status = .failed ∧ force = false ∧ a.attempts + 1 < m))) := by
  by_cases hrun : ∃ c, db.jobs.get? id = some c ∧ c.status = .running
  · obtain ⟨c, hc, hcr⟩ := hrun
    obtain ⟨st, db', heq, hst, b, hbs, hba, hrows⟩ := failInner_ok q err force now hc hcr
    rw [heq]
    by_cases hj : j = id
    · subst hj
      obtain rfl : c = a := by rw [hget] at hc; exact (Option.some.inj hc).symm
      refine ⟨b, by simp only [orRollback, hrows, if_pos], .inr ⟨by simp [Except.isOk, Except.toBool], hcr, hba, ?_⟩⟩
      rw [hbs]
      exact hst.imp_right fun h => ⟨h.1, h.2.1, Int32.lt_of_lt_of_le h.2.2 hq⟩
    · refine ⟨a, by simp only [orRollback, hrows, if_neg hj, hget], .inl ⟨rfl, ?_⟩⟩
      simp [Ne.symm hj]
  · have hno : ∀ c, db.jobs.get? id = some c → c.status ≠ .running := fun c hc hr => hrun ⟨c, hc, hr⟩
    obtain ⟨msg, herr⟩ := failInner_error q id err force now db hno
    rw [herr]
    exact ⟨a, hget, .inl ⟨rfl, by simp [Except.isOk, Except.toBool]⟩⟩

/-- An `UPDATE` of running jobs changes the row if its condition holds there. -/
theorem change_updateWhere {t : Serial JobRow} {p : ℕ → JobRow → Bool} {f : JobRow → JobRow}
    (hget : t.get? j = some a) (hkeep : Change m j e a a) (hguard : p j a = true → a.status = .running)
    (hchange : a.status = .running → Change m j e a (f a)) :
    ∃ b, (t.updateWhere p f).get? j = some b ∧ Change m j e a b := by
  refine ⟨_, by rw [Serial.get?_updateWhere, hget, Option.map_some], ?_⟩
  split
  next hp => exact hchange (hguard hp)
  · exact hkeep

/-- **What a step does to an existing job.** The row is still there, and is changed in one of the
    seven ways. -/
theorem step_change {s t : State} {op : Op} (h : Step m s op t)
    (hget : s.db.jobs.get? j = some a) : ∃ b, t.db.jobs.get? j = some b ∧ Change m j ⟨s, op, t⟩ a b := by
  obtain ⟨hstep, hm⟩ := h
  cases op with
  | enqueue tenantId createdBy fileId documentId kind priority now =>
    cases hstep
    exact ⟨a, Serial.get?_insert_of_some hget _, .keep rfl rfl⟩
  | claimKinds q kinds locked now =>
    cases hstep
    cases hres : (q.claimKinds kinds locked now s.db).2 with
    | none =>
      refine ⟨a, ?_, .keep rfl (by simp [claimsJob, hres])⟩
      rw [claimKinds_none hres]
      exact hget
    | some r =>
      obtain ⟨id, c⟩ := r
      obtain ⟨a', hget', hst, hcs, hca, hrows⟩ := claimKinds_some hres
      by_cases hj : j = id
      · subst hj
        cases hget.symm.trans hget'
        exact ⟨c, by rw [hrows, if_pos rfl], .claim hst hcs hca rfl (by simp [claimsJob, hres])⟩
      · exact ⟨a, by rw [hrows, if_neg hj, hget], .keep rfl (by simp [claimsJob, hres, Ne.symm hj])⟩
  | complete id =>
    cases hstep
    exact change_updateWhere hget (.keep rfl rfl) (by simp) fun hs => .complete hs rfl rfl rfl rfl
  | fail q id err now =>
    cases hstep
    obtain ⟨b, hb, ⟨rfl, hno⟩ | ⟨hok, hrun, hatt, hdead | ⟨hfailed, -, hlt⟩⟩⟩ :=
      failInner_change (hm q rfl) id err false now hget
    · exact ⟨b, hb, .keep hno rfl⟩
    · exact ⟨b, hb, .bury hrun hdead hatt hok rfl⟩
    · exact ⟨b, hb, .retry hrun hfailed hatt hlt rfl hok rfl⟩
  | failPermanent q id err now =>
    cases hstep
    obtain ⟨b, hb, ⟨rfl, hno⟩ | ⟨hok, hrun, hatt, hdead | ⟨-, ⟨⟩, -⟩⟩⟩ :=
      failInner_change (hm q rfl) id err true now hget
    · exact ⟨b, hb, .keep hno rfl⟩
    · exact ⟨b, hb, .bury hrun hdead hatt hok rfl⟩
  | extendLease q id now =>
    cases hstep
    exact change_updateWhere hget (.keep rfl rfl) (by simp +contextual) fun hs => .extend hs hs rfl rfl rfl
  | requeueCrashed id now =>
    cases hstep
    exact change_updateWhere hget (.keep rfl rfl) (by simp) fun hs => .requeue hs rfl rfl rfl rfl rfl
  | orphanSweep q now =>
    cases hstep
    exact change_updateWhere hget (.keep rfl rfl) (by simp +contextual [orphaned]) fun hs =>
      .requeue hs rfl rfl rfl rfl rfl
  | reapSelect now =>
    cases hstep
    exact ⟨a, hget, .keep rfl rfl⟩
  | reapNext pass now =>
    unfold step at hstep
    simp only at hstep
    split at hstep <;> cases hstep
    rename_i id rest hpass
    exact change_updateWhere hget (.keep rfl rfl) (by simp) fun hs => .requeue hs rfl rfl rfl rfl rfl

/-- A transaction of `fail_inner` neither fails nor creates a job that does not exist. -/
theorem failInner_new (q : JobQueue) (id : ℕ) (err : String) (force : Bool) (now : Time) {db : Db}
    (hnone : db.jobs.get? j = none) :
    (id == j && (q.failInner id err force now db).isOk) = false ∧
      (orRollback db (q.failInner id err force now db)).jobs.get? j = none := by
  by_cases hrun : ∃ c, db.jobs.get? id = some c ∧ c.status = .running
  · obtain ⟨c, hc, hcr⟩ := hrun
    have hj : j ≠ id := by
      rintro rfl
      cases hnone.symm.trans hc
    obtain ⟨st, db', heq, -, b, -, -, hrows⟩ := failInner_ok q err force now hc hcr
    exact ⟨by simp [Ne.symm hj], by simp only [heq, orRollback, hrows, if_neg hj, hnone]⟩
  · obtain ⟨msg, herr⟩ := failInner_error q id err force now db fun c hc hr => hrun ⟨c, hc, hr⟩
    rw [herr]
    exact ⟨by simp [Except.isOk, Except.toBool], hnone⟩

/-- A job that does not exist is neither failed nor claimed, and can only appear queued, with no
    attempts. -/
theorem step_new {s t : State} {op : Op} (h : Step m s op t) (hnone : s.db.jobs.get? j = none) :
    failsJob j ⟨s, op, t⟩ = false ∧ claimsJob j ⟨s, op, t⟩ = false ∧
      ∀ b, t.db.jobs.get? j = some b → b.status = .queued ∧ b.attempts = 0 := by
  obtain ⟨hstep, -⟩ := h
  cases op with
  | enqueue tenantId createdBy fileId documentId kind priority now =>
    cases hstep
    refine ⟨rfl, rfl, fun b hb => ?_⟩
    obtain ⟨r, hst, hatt, hrow⟩ := get?_enqueue tenantId createdBy fileId documentId kind priority now s.db j
    rw [hrow, hnone] at hb
    split at hb <;> cases hb
    exact ⟨hst, hatt⟩
  | claimKinds q kinds locked now =>
    cases hstep
    cases hres : (q.claimKinds kinds locked now s.db).2 with
    | none => exact ⟨rfl, by simp [claimsJob, hres], by simp [claimKinds_none hres, hnone]⟩
    | some r =>
      obtain ⟨id, c⟩ := r
      obtain ⟨a, hget, -, -, -, hrows⟩ := claimKinds_some hres
      have hj : j ≠ id := by
        rintro rfl
        cases hnone.symm.trans hget
      exact ⟨rfl, by simp [claimsJob, hres, Ne.symm hj], by simp [hrows, hj, hnone]⟩
  | fail q id err now =>
    cases hstep
    have := failInner_new q id err false now hnone
    exact ⟨this.1, rfl, by simp [JobQueue.fail, this.2]⟩
  | failPermanent q id err now =>
    cases hstep
    have := failInner_new q id err true now hnone
    exact ⟨this.1, rfl, by simp [JobQueue.failPermanent, this.2]⟩
  | complete id | extendLease q id now | requeueCrashed id now | orphanSweep q now | reapSelect now =>
    cases hstep
    exact ⟨rfl, rfl, by simp [JobQueue.complete, JobQueue.extendLease, JobQueue.requeueCrashed,
      JobQueue.orphanSweep, hnone]⟩
  | reapNext pass now =>
    unfold step at hstep
    simp only at hstep
    split at hstep <;> cases hstep
    exact ⟨rfl, rfl, by simp [JobQueue.requeueCrashed, hnone]⟩

/-! ## Attempts count failures -/

/-- Below some other `i32`, adding one does not wrap. -/
theorem toInt_add_one {a : Int32} (h : a < m) : (a + 1).toInt = a.toInt + 1 := by
  rw [Int32.lt_iff_toInt_lt] at h
  have hm := Int32.toInt_lt m
  have ha := Int32.le_toInt a
  rw [Int32.toInt_add]
  have h1 : (1 : Int32).toInt = 1 := by decide
  rw [h1]
  apply Int.bmod_eq_of_le <;> omega

/-- The counters of every job agree with the history, and only dead jobs reach the limit. -/
def Accounted (m : Int32) (es : List (Edge State Op)) (u : State) : Prop :=
  ∀ j, (u.db.jobs.get? j = none → es.countP (failsJob j) = 0) ∧
    ∀ row, u.db.jobs.get? j = some row →
      row.attempts.toInt = es.countP (failsJob j) ∧ (row.status ≠ .dead → row.attempts < m)

/-- A change of one row keeps its count in step with the history. -/
theorem Change.accounted {n : ℕ} (h : Change m j e a b) (hatt : a.attempts.toInt = n)
    (hlt : a.status ≠ .dead → a.attempts < m) :
    b.attempts.toInt = n + (if failsJob j e then 1 else 0) ∧
      (b.status ≠ .dead → b.attempts < m) := by
  cases h with
  | keep hf hc => exact ⟨by simp [hf, hatt], hlt⟩
  | claim hs hb hba hf hc =>
    refine ⟨by simp [hf, hba, hatt], fun _ => hba ▸ hlt ?_⟩
    rcases hs with hs | hs <;> simp [hs]
  | complete hs hb hba hf hc | extend hs hb hba hf hc | requeue hs hb hba hl hf hc =>
    exact ⟨by simp [hf, hba, hatt], fun _ => hba ▸ hlt (by simp [hs])⟩
  | retry hs hb hba hm hl hf hc =>
    refine ⟨?_, fun _ => hba ▸ hm⟩
    rw [hba, toInt_add_one (hlt (by simp [hs])), hatt, hf, if_pos rfl]
  | bury hs hb hba hf hc =>
    refine ⟨?_, fun hd => absurd hb hd⟩
    rw [hba, toInt_add_one (hlt (by simp [hs])), hatt, hf, if_pos rfl]

theorem accounted_of_run (hm : 1 ≤ m) {s u : State} {es : List (Edge State Op)} (h0 : s.db.jobs.rows = [])
    (r : Run (Step m) s es u) : Accounted m es u := by
  refine r.history_invariant ?_ ?_
  · -- no jobs yet
    intro j
    exact ⟨fun _ => rfl, fun row hrow => absurd hrow (by simp [Serial.get?_of_rows_nil h0])⟩
  · intro es t op v hstep ih j
    rw [List.countP_append, List.countP_singleton]
    cases hget : t.db.jobs.get? j with
    | none =>
      obtain ⟨hf, -, hnew⟩ := step_new hstep hget
      rw [(ih j).1 hget, hf]
      refine ⟨fun _ => rfl, fun row hrow => ?_⟩
      obtain ⟨hst, hatt⟩ := hnew row hrow
      rw [hatt]
      refine ⟨by decide, fun _ => ?_⟩
      exact Int32.lt_of_lt_of_le (by decide) hm
    | some a =>
      obtain ⟨b, hb, hchange⟩ := step_change hstep hget
      obtain ⟨hatt, hlt⟩ := (ih j).2 a hget
      rw [hb]
      refine ⟨fun h => absurd h (by simp), fun row hrow => ?_⟩
      cases hrow
      have := hchange.accounted hatt hlt
      simpa using this

/-! ## Finished jobs, and claims of one job -/

/-- Seen through the status: a row is kept, claimed from `queued` or `failed`, or was running. -/
theorem Change.by_status (h : Change m j e a b) :
    (b = a ∧ claimsJob j e = false) ∨
      ((a.status = .queued ∨ a.status = .failed) ∧ b.status = .running ∧ claimsJob j e = true) ∨
      (a.status = .running ∧ claimsJob j e = false) := by
  cases h with
  | keep hf hc => exact .inl ⟨rfl, hc⟩
  | claim hs hb hba hf hc => exact .inr (.inl ⟨hs, hb, hc⟩)
  | complete hs hb hba hf hc | extend hs hb hba hf hc | requeue hs hb hba hl hf hc | retry hs hb hba hm hl hf hc
  | bury hs hb hba hf hc => exact .inr (.inr ⟨hs, hc⟩)

theorem Change.final (h : Change m j e a b) (ha : a.status = .done ∨ a.status = .dead) : b = a := by
  rcases h.by_status with ⟨hb, -⟩ | ⟨hs, -, -⟩ | ⟨hs, -⟩
  · exact hb
  · rcases ha with ha | ha <;> simp [ha] at hs
  · rcases ha with ha | ha <;> simp [ha] at hs

/-- A claim of `j` finds it queued or failed, and leaves it running. -/
theorem claimsJob_spec (h : Step m e.src e.label e.dst) (hc : claimsJob j e = true) :
    (jobStatus e.src j = some .queued ∨ jobStatus e.src j = some .failed) ∧
      jobStatus e.dst j = some .running := by
  cases hget : e.src.db.jobs.get? j with
  | none =>
    cases hc.symm.trans (step_new h hget).2.1
  | some a =>
    obtain ⟨b, hb, hchange⟩ := step_change h hget
    rcases hchange.by_status with ⟨-, hn⟩ | ⟨hs, hbs, -⟩ | ⟨-, hn⟩
    · cases hc.symm.trans hn
    · simp only [jobStatus, hget, hb, Option.map_some, Option.some.injEq]
      exact ⟨hs, hbs⟩
    · cases hc.symm.trans hn

theorem notRunning_step (h : Step m e.src e.label e.dst) (hnot : jobStatus e.src j ≠ some .running)
    (hc : claimsJob j e = false) : jobStatus e.dst j ≠ some .running := by
  cases hget : e.src.db.jobs.get? j with
  | none =>
    intro hrun
    obtain ⟨b, hb, hbs⟩ := Option.map_eq_some_iff.1 hrun
    cases ((step_new h hget).2.2 b hb).1.symm.trans hbs
  | some a =>
    obtain ⟨b, hb, hchange⟩ := step_change h hget
    simp only [jobStatus, hget, hb, Option.map_some, ne_eq, Option.some.injEq] at hnot ⊢
    rcases hchange.by_status with ⟨rfl, -⟩ | ⟨-, -, hcl⟩ | ⟨hs, -⟩
    · exact hnot
    · cases hcl.symm.trans hc
    · exact absurd hs hnot

/-- Claimed at some point, and not requeued since. -/
def Taken (s : State) (j : ℕ) : Prop :=
  jobStatus s j = some .running ∨ jobStatus s j = some .done ∨ jobStatus s j = some .dead

theorem taken_step (h : Step m e.src e.label e.dst) (hnot : requeuesJob j e = false) (ht : Taken e.src j) :
    Taken e.dst j := by
  cases hget : e.src.db.jobs.get? j with
  | none => simp [Taken, jobStatus, hget] at ht
  | some a =>
    obtain ⟨b, hb, hchange⟩ := step_change h hget
    simp only [Taken, jobStatus, hget, hb, Option.map_some, Option.some.injEq] at ht ⊢
    cases hchange with
    | keep => exact ht
    | claim hs => rcases hs with hs | hs <;> simp [hs] at ht
    | complete _ hbs => exact .inr (.inl hbs)
    | extend _ hbs => exact .inl hbs
    | bury _ hbs => exact .inr (.inr hbs)
    | requeue hs hbs _ hl | retry hs hbs _ _ hl => simp [requeuesJob, jobStatus, hget, hb, hs, hbs, hl] at hnot

/-- **Claims of one job are separated by a requeue.** -/
theorem requeue_between_claims {s u : State} {mid : List (Edge State Op)} {e₁ e₂ : Edge State Op}
    (r : Run (Step m) s (e₁ :: mid ++ [e₂]) u) (h₁ : claimsJob j e₁ = true) (h₂ : claimsJob j e₂ = true) :
    ∃ e ∈ mid, requeuesJob j e = true := by
  by_contra hcon
  have hno : ∀ e ∈ mid, requeuesJob j e = false := fun e he => Bool.eq_false_iff.2 fun hq => hcon ⟨e, he, hq⟩
  rw [List.cons_append, Run.cons_iff] at r
  obtain ⟨rfl, hs₁, r⟩ := r
  obtain ⟨t, rmid, rlast⟩ := Run.append_iff.1 r
  obtain ⟨rfl, hs₂, -⟩ := Run.cons_iff.1 rlast
  -- from the first claim on, the job stays taken; the second claim found it queued or failed
  have htaken : Taken e₁.dst j := .inl (claimsJob_spec hs₁ h₁).2
  have := (rmid.edges_where (C := fun e => requeuesJob j e = false) (I := fun s => Taken s j) htaken
    (fun e he hq => taken_step he hq) hno).1
  obtain ⟨hfree | hfree, -⟩ := claimsJob_spec hs₂ h₂ <;> simp [Taken, hfree] at this

/-! ## The accounting theorem -/

/-- What the queue's books say after the run `es` has led to `u`. -/
structure Accounting (m : Int32) (es : List (Edge State Op)) (u : State) : Prop where
  /-- A job's attempts are the `fail`/`fail_permanent` steps that succeeded on it. -/
  attempts : ∀ j row, u.db.jobs.get? j = some row →
    row.attempts.toInt = es.countP (failsJob j)
  /-- Only a dead job has used up its attempts. -/
  below : ∀ j row, u.db.jobs.get? j = some row → row.status ≠ .dead → row.attempts < m
  /-- No step leaves `done` or `dead`. -/
  final : ∀ e ∈ es, ∀ j row, e.src.db.jobs.get? j = some row →
    row.status = .done ∨ row.status = .dead → e.dst.db.jobs.get? j = some row
  /-- Between two claims of one job, a fail, a reap or a sweep requeued it. -/
  exclusive : ∀ j before e₁ mid e₂ later, es = before ++ (e₁ :: mid ++ [e₂]) ++ later →
    claimsJob j e₁ = true → claimsJob j e₂ = true → ∃ e ∈ mid, requeuesJob j e = true

/-- **Queue accounting.** From a queue with no jobs, in every state any interleaving of the queue's
    statements can reach. -/
theorem accounting_of_run {m : Int32} (hm : 1 ≤ m) {s u : State} {es : List (Edge State Op)}
    (h0 : s.db.jobs.rows = []) (r : Run (Step m) s es u) : Accounting m es u where
  attempts j row hrow := ((accounted_of_run hm h0 r j).2 row hrow).1
  below j row hrow := ((accounted_of_run hm h0 r j).2 row hrow).2
  final e he j row hrow hst := by
    obtain ⟨hstep, -⟩ := r.edge_invariant (I := fun _ => True) trivial (fun _ _ _ _ _ => trivial) e he
    obtain ⟨b, hb, hchange⟩ := step_change hstep hrow
    rw [hb, hchange.final hst]
  exclusive j before e₁ mid e₂ later hes h₁ h₂ := by
    rw [hes] at r
    obtain ⟨t, r, -⟩ := Run.append_iff.1 r
    obtain ⟨v, -, r⟩ := Run.append_iff.1 r
    exact requeue_between_claims r h₁ h₂

/-- The empty queue. -/
def State.initial : State := ⟨⟨.empty, .empty, .empty⟩, .empty⟩

/-- One job, claimed, failed, claimed again and completed, under a limit of two. -/
theorem accounting_of_run_retried :
    ∃ es u, Run (Step 2) State.initial es u ∧ es.countP (claimsJob 1) = 2 ∧
      Accounting 2 es u := by
  let q : JobQueue := { minBackoffMs := 1000, maxRetries := 2, leaseSecs := 60, workerId := "a" }
  let ops : List Op := [.enqueue 1 none none none .ingest 0 0, .claimKinds q [] [] 0,
    .fail q 1 "timeout" 1, .claimKinds q [] [] 10, .complete 1]
  obtain ⟨⟨es, u⟩, hes, hcount⟩ : ∃ r ∈ runEdges step State.initial ops, r.1.countP (claimsJob 1) = 2 := by
    decide +kernel
  have r : Run (Step 2) State.initial es u := by
    refine run_of_runEdges (fun op hop s t h => ⟨h, fun q' hq' => ?_⟩) hes
    simp only [ops, List.mem_cons, List.not_mem_nil, or_false] at hop
    rcases hop with rfl | rfl | rfl | rfl | rfl <;> simp only [Op.handle?, reduceCtorEq,
      Option.some.injEq] at hq' <;> exact hq' ▸ Int32.le_refl _
  exact ⟨es, u, r, hcount, accounting_of_run (by decide) rfl r⟩

end Tagsmaxxing.JobQueue
