import Tagsmaxxing.Pipeline.QueueAccounting

/-! # Live leases and crash recovery

A lease is live while `lease_expires_at` is in the future. The reaper and the start-up sweep take running jobs away
from their workers, and neither looks at the lease when it writes: a reap pass reads it in its `SELECT` and requeues
by id and status, and the sweep goes by the name in `locked_by` alone.

So a worker that renews a lease between the two statements of a reap pass loses its job all the same, and a process
that starts takes the jobs of every other process (`renewed_and_swept_leases_are_lost`). `live_leases_respected` is
about runs in which neither happens (`Careful`); it follows from what a pass in progress has selected
(`ReapsExpired`). A lease that is over is seen by the reaper (`expired_job_selected`). -/

namespace Tagsmaxxing.JobQueue

open List Transition

/-! ## Live leases -/

/-- The row runs under a lease that is in the future at `now`. -/
def live (now : Time) (j : JobRow) : Bool :=
  j.status == .running && j.leaseExpiresAt.any fun e => decide (now < e)

variable {now : Time} {j : ℕ} {pass : ℕ} {b : JobRow} {q : JobQueue} {db : Db} {s t : State} {op : Op}

theorem status_of_live {j : JobRow} (h : live now j = true) : j.status = .running := by
  simp only [live, Bool.and_eq_true, beq_iff_eq] at h
  exact h.1

/-- The jobs that reap passes in progress have selected and not requeued yet. -/
def State.selected (s : State) : List ℕ := s.reaps.rows.flatMap Prod.snd

variable {ids : List ℕ}

theorem State.mem_selected (hpass : s.reaps.get? pass = some ids) (hj : j ∈ ids) : j ∈ s.selected :=
  mem_flatMap.2 ⟨(pass, ids), (s.reaps.get?_eq_some_iff pass ids).1 hpass, hj⟩

/-- The statement gives job `j` a fresh lease: a claim takes it, or its owner extends it. -/
def Op.Renews (db : Db) (j : ℕ) : Op → Prop
  | .claimKinds _ kinds locked now => (claimSelect kinds locked now db.jobs).map Prod.fst = some j
  | .extendLease q jobId _ =>
      jobId = j ∧ ∃ row ∈ db.jobs.get? j, row.status = .running ∧ row.lockedBy = some q.workerId
  | _ => False

/-- The job still runs, under the same or another lease. -/
def StillRuns (s : State) (j : ℕ) : Prop := jobStatus s j = some .running

/-- A step of a reap pass or a sweep leaves every job with a live lease running. The moment of the step
    is the `now()` of its statement. -/
def Respects (e : Edge State Op) : Prop :=
  match e.label with
  | .reapNext _ now | .orphanSweep _ now =>
      ∀ r ∈ e.src.db.jobs.rows, live now r.2 = true → StillRuns e.dst r.1
  | _ => True

/-- The handle and the `now()` of a sweep. -/
def Op.sweep? : Op → Option (JobQueue × Time)
  | .orphanSweep q now => some (q, now)
  | _ => none

/-- No job that a reap pass is about to requeue is renewed, and a process that sweeps finds no live
    lease of another worker. -/
structure Careful (s : State) (op : Op) : Prop where
  renews : ∀ j ∈ s.selected, ¬ op.Renews s.db j
  sweeps : ∀ x ∈ op.sweep?, ∀ r ∈ s.db.jobs.rows, x.1.orphaned r.2 = true → live x.2 r.2 = false

/-- The `now()` of a statement. `fail_inner` reads the worker's clock, `complete` none. -/
def Op.sqlNow? : Op → Option Time
  | .enqueue _ _ _ _ _ _ now | .claimKinds _ _ _ now | .extendLease _ _ now | .requeueCrashed _ now
  | .orphanSweep _ now | .reapSelect now | .reapNext _ now => some now
  | .complete .. | .fail .. | .failPermanent .. => none

/-- The clock of the database does not go back. -/
def Clocked (es : List (Edge State Op)) : Prop :=
  es.Pairwise fun e f => ∀ t ∈ e.label.sqlNow?, ∀ u ∈ f.label.sqlNow?, t ≤ u

/-! ## A row that runs after a step ran before it, or was renewed -/

theorem get?_of_updateWhere_running {t : Serial JobRow} {p : ℕ → JobRow → Bool} {f : JobRow → JobRow}
    (hf : ∀ a, (f a).status ≠ .running) (hb : (t.updateWhere p f).get? j = some b)
    (hrun : b.status = .running) : t.get? j = some b := by
  obtain ⟨a, ha, heq⟩ := Serial.get?_of_updateWhere hb
  split at heq
  · exact absurd (heq ▸ hrun) (hf a)
  · rw [ha, heq]

theorem get?_of_failInner_running {id : ℕ} {err : String} {force : Bool}
    (hb : (orRollback db (q.failInner id err force now db)).jobs.get? j = some b) (hrun : b.status = .running) :
    db.jobs.get? j = some b := by
  by_cases hex : ∃ c, db.jobs.get? id = some c ∧ c.status = .running
  · obtain ⟨c, hc, hcr⟩ := hex
    obtain ⟨st, db', heq, hst, r, hrs, -, hrows⟩ := failInner_ok q err force now hc hcr
    rw [heq] at hb
    simp only [orRollback, hrows] at hb
    split at hb
    · cases hb
      rw [hrun] at hrs
      rcases hst with hdead | ⟨hfailed, -⟩
      · exact absurd (hrs.trans hdead) (by decide)
      · exact absurd (hrs.trans hfailed) (by decide)
    · exact hb
  · obtain ⟨msg, herr⟩ := failInner_error q id err force now db fun c hc hr => hex ⟨c, hc, hr⟩
    rwa [herr] at hb

theorem get?_of_claimKinds {kinds : List JobKind} {locked : List ℕ}
    (hb : (q.claimKinds kinds locked now db).1.jobs.get? j = some b) :
    db.jobs.get? j = some b ∨ (claimSelect kinds locked now db.jobs).map Prod.fst = some j := by
  unfold claimKinds at hb
  split at hb
  · exact .inl hb
  next id a hsel =>
    by_cases hj : j = id
    · right
      rw [hsel, hj]
      rfl
    · simp only [Serial.get?_modify, if_neg hj, Option.map_id'] at hb
      exact .inl hb

/-- **Leases are renewed by claims and extensions only.** -/
theorem get?_of_running (h : step s op = some t) (hb : t.db.jobs.get? j = some b) (hrun : b.status = .running) :
    s.db.jobs.get? j = some b ∨ op.Renews s.db j := by
  cases op with
  | enqueue tenantId createdBy fileId documentId kind priority now =>
    cases h
    obtain ⟨r, hst, -, hrow⟩ := get?_enqueue tenantId createdBy fileId documentId kind priority now s.db j
    rw [hrow] at hb
    split at hb
    · cases hb
      exact absurd (hst.symm.trans hrun) (by decide)
    · exact .inl hb
  | claimKinds q kinds locked now =>
    cases h
    exact get?_of_claimKinds hb
  | complete id | requeueCrashed id now | orphanSweep q now =>
    cases h
    exact .inl (get?_of_updateWhere_running (fun a => by simp) hb hrun)
  | fail q id err now | failPermanent q id err now =>
    cases h
    exact .inl (get?_of_failInner_running hb hrun)
  | extendLease q id now =>
    cases h
    obtain ⟨a, ha, heq⟩ := Serial.get?_of_updateWhere hb
    split at heq
    · next hmine =>
      simp only [Bool.and_eq_true, beq_iff_eq] at hmine
      exact .inr ⟨hmine.1.1.symm, a, ha, hmine.1.2, hmine.2⟩
    · exact .inl (heq ▸ ha)
  | reapSelect now =>
    cases h
    exact .inl hb
  | reapNext pass now =>
    unfold step at h
    simp only at h
    split at h <;> cases h
    exact .inl (get?_of_updateWhere_running (fun a => by simp) hb hrun)

/-! ## What passes in progress have selected -/

/-- `t₀` is the `now()` of a reap pass's `SELECT`. -/
def SelectedAt (es : List (Edge State Op)) (t₀ : Time) : Prop := ∃ e ∈ es, e.label = .reapSelect t₀

/-- Every job that a pass has yet to requeue and that still runs had run out of its lease when the pass
    selected it, and still has the lease it had then. -/
def ReapsExpired (es : List (Edge State Op)) (s : State) : Prop :=
  ∀ pass ids, s.reaps.get? pass = some ids → ∃ t₀, SelectedAt es t₀ ∧
    ∀ j ∈ ids, ∀ row, s.db.jobs.get? j = some row → row.status = .running → leaseExpired t₀ row = true

/-- A pass after a step is the rest of a pass before it, or what a `SELECT` has just read. -/
theorem pass_of_step (h : step s op = some t) (hpass : t.reaps.get? pass = some ids) :
    (∃ ids₀, s.reaps.get? pass = some ids₀ ∧ ∀ j ∈ ids, j ∈ ids₀) ∨
      ∃ now, op = .reapSelect now ∧ t.db = s.db ∧ ids = reapSelect now s.db := by
  cases op with
  | reapSelect now =>
    cases h
    rw [Serial.get?_insert] at hpass
    split at hpass
    · exact .inr ⟨now, rfl, rfl, (Option.some.inj hpass).symm⟩
    · exact .inl ⟨ids, hpass, fun _ hj => hj⟩
  | reapNext p now =>
    unfold step at h
    simp only at h
    split at h <;> cases h
    rename_i jobId rest hp
    simp only [Serial.get?_modify] at hpass
    obtain ⟨ids₀, hids₀, heq⟩ := Option.map_eq_some_iff.1 hpass
    refine .inl ⟨ids₀, hids₀, fun j hj => ?_⟩
    split at heq
    next hpp =>
      subst hpp heq
      rw [hp] at hids₀
      exact Option.some.inj hids₀ ▸ mem_cons_of_mem _ hj
    · exact heq ▸ hj
  | _ =>
    cases h
    exact .inl ⟨ids, hpass, fun _ hj => hj⟩

theorem leaseExpired_of_mem_reapSelect {row : JobRow} (hj : j ∈ reapSelect now db)
    (hrow : db.jobs.get? j = some row) : leaseExpired now row = true := by
  obtain ⟨⟨id, r⟩, hmem, rfl⟩ := mem_map.1 hj
  have hmem := mem_of_mem_take hmem
  rw [mem_insertionSort, mem_filter] at hmem
  have hget := (db.jobs.get?_eq_some_iff id r).2 hmem.1
  exact Option.some.inj (hget.symm.trans hrow) ▸ hmem.2

variable {es : List (Edge State Op)}

theorem reapsExpired_step (hI : ReapsExpired es s) (h : step s op = some t) (hcare : Careful s op) :
    ReapsExpired (es ++ [⟨s, op, t⟩]) t := by
  intro pass ids hpass
  rcases pass_of_step h hpass with ⟨ids₀, hids₀, hsub⟩ | ⟨now, rfl, hdb, rfl⟩
  · obtain ⟨t₀, ⟨e, he, hsel⟩, hexp⟩ := hI pass ids₀ hids₀
    refine ⟨t₀, ⟨e, mem_append_left _ he, hsel⟩, fun j hj row hrow hrun => ?_⟩
    -- the row is the one from before the step: a selected job is not renewed
    rcases get?_of_running h hrow hrun with hold | hrenews
    · exact hexp j (hsub j hj) row hold hrun
    · exact absurd hrenews (hcare.renews j (State.mem_selected hids₀ (hsub j hj)))
  · refine ⟨now, ⟨_, mem_append_right _ (mem_singleton_self _), rfl⟩, ?_⟩
    intro j hj row hrow _
    rw [hdb] at hrow
    exact leaseExpired_of_mem_reapSelect hj hrow

/-! ## Runs -/

theorem not_live_of_leaseExpired {t₀ : Time} {row : JobRow} (h : leaseExpired t₀ row = true)
    (hle : t₀ ≤ now) : live now row = false := by
  simp only [leaseExpired, live, Bool.and_eq_true, Option.any_eq_true, decide_eq_true_eq] at h ⊢
  obtain ⟨-, e, he, hlt⟩ := h
  rw [he, Option.any_some, Bool.and_eq_false_iff]
  exact .inr (decide_eq_false (not_lt.2 (hlt.le.trans hle)))

theorem respects_orphanSweep (h : step s (.orphanSweep q now) = some t)
    (hcare : Careful s (.orphanSweep q now)) : Respects ⟨s, .orphanSweep q now, t⟩ := by
  rintro ⟨j, row⟩ hmem hlive
  cases h
  have hkept : q.orphaned row = false := by
    by_contra horph
    have hdead := hcare.sweeps (q, now) rfl _ hmem (Bool.not_eq_false _ ▸ horph)
    exact absurd (hdead.symm.trans hlive) (by decide)
  have hrow : s.db.jobs.get? j = some row := (s.db.jobs.get?_eq_some_iff j row).2 hmem
  have hrun : row.status = .running := status_of_live hlive
  simp [StillRuns, jobStatus, orphanSweep, hrow, hkept, hrun]

/-- A requeue leaves the other rows alone, and the one it names has no live lease. -/
theorem respects_reapNext (h : step s (.reapNext pass now) = some t) (hI : ReapsExpired es s)
    (hclock : ∀ t₀, SelectedAt es t₀ → t₀ ≤ now) : Respects ⟨s, .reapNext pass now, t⟩ := by
  rintro ⟨j, row⟩ hmem hlive
  have hrow : s.db.jobs.get? j = some row := (s.db.jobs.get?_eq_some_iff j row).2 hmem
  have hrun : row.status = .running := status_of_live hlive
  unfold step at h
  simp only at h
  split at h <;> cases h
  rename_i jobId rest hpass
  have hj : j ≠ jobId := by
    rintro rfl
    obtain ⟨t₀, hsel, hexp⟩ := hI pass _ hpass
    have hdead := not_live_of_leaseExpired (hexp j mem_cons_self row hrow hrun) (hclock t₀ hsel)
    exact absurd (hdead.symm.trans hlive) (by decide)
  simp [StillRuns, jobStatus, requeueCrashed, hrow, hj, hrun]

/-- **Live leases are respected** in every run of any number of processes, from a queue in any state
    with no reap pass in progress, in which no selected job is renewed before its pass requeues it and
    no process starts while another worker has a live lease. -/
theorem live_leases_respected {s₀ s : State} {es : List (Edge State Op)} (hidle : s₀.reaps.rows = [])
    (hrun : Run (Fires step) s₀ es s) (hclock : Clocked es)
    (hcare : ∀ e ∈ es, Careful e.src e.label) : ∀ e ∈ es, Respects e := by
  intro e he
  obtain ⟨before, after, rfl⟩ := append_of_mem he
  obtain ⟨t, r, rest⟩ := Run.append_iff.1 hrun
  obtain ⟨rfl, hstep, -⟩ := Run.cons_iff.1 rest
  have hI : ReapsExpired before e.src := by
    have hcare' : ∀ f ∈ before, Careful f.src f.label := fun f hf => hcare f (mem_append_left _ hf)
    refine (r.restrict hcare').history_invariant ?_ fun es t a v hs hI => reapsExpired_step hI hs.1 hs.2
    exact fun pass ids hpass => absurd hpass (by simp [Serial.get?_of_rows_nil hidle])
  have hle : ∀ now, e.label.sqlNow? = some now → ∀ t₀, SelectedAt before t₀ → t₀ ≤ now := by
    rintro now hnow t₀ ⟨f, hf, hsel⟩
    have hpair := (pairwise_append.1 hclock).2.2 f hf e mem_cons_self
    exact hpair t₀ (by rw [hsel]; rfl) now hnow
  obtain ⟨src, op, dst⟩ := e
  cases op with
  | reapNext pass now => exact respects_reapNext hstep hI (hle now rfl)
  | orphanSweep q now => exact respects_orphanSweep hstep (hcare _ he)
  | _ => trivial

/-! ## Two processes -/

section Decidable

instance (db : Db) (j : ℕ) (op : Op) : Decidable (op.Renews db j) :=
  match op with
  | .claimKinds _ kinds locked now => inferInstanceAs
      (Decidable ((claimSelect kinds locked now db.jobs).map Prod.fst = some j))
  | .extendLease q jobId _ => inferInstanceAs
      (Decidable (jobId = j ∧ ∃ row ∈ db.jobs.get? j, row.status = .running ∧ row.lockedBy = some q.workerId))
  | .enqueue .. | .complete .. | .fail .. | .failPermanent .. | .requeueCrashed .. | .orphanSweep ..
  | .reapSelect .. | .reapNext .. => .isFalse id

instance (s : State) (j : ℕ) : Decidable (StillRuns s j) :=
  inferInstanceAs (Decidable (jobStatus s j = some .running))

instance (e : Edge State Op) : Decidable (Respects e) :=
  match e with
  | ⟨s, .reapNext _ now, t⟩ | ⟨s, .orphanSweep _ now, t⟩ => inferInstanceAs
      (Decidable (∀ r ∈ s.db.jobs.rows, live now r.2 = true → StillRuns t r.1))
  | ⟨_, .enqueue .., _⟩ | ⟨_, .claimKinds .., _⟩ | ⟨_, .complete .., _⟩ | ⟨_, .fail .., _⟩
  | ⟨_, .failPermanent .., _⟩ | ⟨_, .extendLease .., _⟩ | ⟨_, .requeueCrashed .., _⟩
  | ⟨_, .reapSelect .., _⟩ => .isTrue trivial

instance (s : State) (op : Op) : Decidable (Careful s op) :=
  decidable_of_iff ((∀ j ∈ s.selected, ¬ op.Renews s.db j) ∧ ∀ x ∈ op.sweep?, ∀ r ∈ s.db.jobs.rows,
      x.1.orphaned r.2 = true → live x.2 r.2 = false)
    ⟨fun h => ⟨h.1, h.2⟩, fun h => ⟨h.renews, h.sweeps⟩⟩

instance (es : List (Edge State Op)) : Decidable (Clocked es) :=
  inferInstanceAs (Decidable (es.Pairwise _))

end Decidable

/-- The queue of a process, with leases of one minute. -/
def process (workerId : String) : JobQueue := ⟨1000, 3, 60, workerId⟩

/-- Worker `a` lets its lease run out and `b` reaps it, while `b` runs a job of its own. A heartbeat of `b` for the
    job of `a` matches no row. -/
def reaped : List Op :=
  [.enqueue 1 none none none .ingest 0 0, .enqueue 1 none none none .ingest 0 0,
    .claimKinds (process "a") [] [] 0, .claimKinds (process "b") [] [] 70, .reapSelect 80,
    .extendLease (process "b") 2 81, .extendLease (process "b") 1 81, .reapNext 1 82, .orphanSweep (process "b") 83]

/-- The heartbeat of `a` comes late, between the two statements of a reap pass. -/
def renewedWhileReaped : List Op :=
  [.enqueue 1 none none none .ingest 0 0, .claimKinds (process "a") [] [] 0, .reapSelect 61,
    .extendLease (process "a") 1 62, .reapNext 1 63]

/-- Process `b` starts while `a` works. -/
def startedBeside : List Op :=
  [.enqueue 1 none none none .ingest 0 0, .claimKinds (process "a") [] [] 0,
    .orphanSweep (process "b") 10]

theorem live_leases_respected_reaped :
    ∃ es s, Run (Fires step) State.initial es s ∧ es.map Edge.label = reaped ∧
      jobStatus s 1 = some .failed ∧ jobStatus s 2 = some .running ∧ ∀ e ∈ es, Respects e := by
  refine exists_run_of_imp (fun es s => jobStatus s 1 = some .failed ∧ jobStatus s 2 = some .running ∧ Clocked es ∧
    ∀ e ∈ es, Careful e.src e.label) (by decide +kernel) ?_
  rintro es s hrun ⟨hfailed, hrunning, hclock, hcare⟩
  exact ⟨hfailed, hrunning, live_leases_respected rfl hrun hclock hcare⟩

theorem renewed_and_swept_leases_are_lost :
    (∃ es s, Run (Fires step) State.initial es s ∧ es.map Edge.label = renewedWhileReaped ∧
      Clocked es ∧ ∃ e ∈ es, ¬ Respects e) ∧
    ∃ es s, Run (Fires step) State.initial es s ∧ es.map Edge.label = startedBeside ∧
      Clocked es ∧ ∃ e ∈ es, ¬ Respects e := by
  exact ⟨exists_run_of_holds (by decide +kernel), exists_run_of_holds (by decide +kernel)⟩

/-! ## Expired leases -/

/-- Every running job has a lease; the reaper's query passes over one without. -/
def Leased (s : State) : Prop :=
  ∀ j b, s.db.jobs.get? j = some b → b.status = .running → b.leaseExpiresAt.isSome

theorem leased_step (h : step s op = some t) (hI : Leased s) : Leased t := by
  intro j b hb hrun
  rcases get?_of_running h hb hrun with hold | hrenews
  · exact hI j b hold hrun
  · cases op with
    | claimKinds q kinds locked now =>
      cases h
      simp only [claimKinds] at hb
      split at hb
      · exact hI j b hb hrun
      · obtain ⟨a, ha, heq⟩ := Serial.get?_of_modify hb
        split at heq
        · exact heq ▸ rfl
        · exact hI j b (heq ▸ ha) hrun
    | extendLease q id now =>
      cases h
      obtain ⟨a, ha, heq⟩ := Serial.get?_of_updateWhere hb
      split at heq
      · exact heq ▸ rfl
      · exact hI j b (heq ▸ ha) hrun
    | _ => exact hrenews.elim

/-- **No crashed job is overlooked**: after any statements of any processes, a job that runs past the end of its
    lease is selected by the next reap pass, unless that one is full. -/
theorem expired_job_selected {es : List (Edge State Op)} {row : JobRow} (hnew : s.db.jobs.rows = [])
    (r : Run (Fires step) s es t) (hrow : t.db.jobs.get? j = some row) (hrun : row.status = .running)
    (hlate : ∀ e ∈ row.leaseExpiresAt, e < now) :
    j ∈ reapSelect now t.db ∨ (reapSelect now t.db).length = reapBatch := by
  have hleased : Leased t := r.invariant (fun j b hb => by simp [Serial.get?_of_rows_nil hnew] at hb)
    fun _ _ _ => leased_step
  obtain ⟨e, he⟩ := Option.isSome_iff_exists.1 (hleased j row hrow hrun)
  have hmem : (j, row) ∈ t.db.jobs.rows.filter fun r => leaseExpired now r.2 :=
    mem_filter.2 ⟨(t.db.jobs.get?_eq_some_iff j row).1 hrow, by simp [leaseExpired, hrun, he, hlate e he]⟩
  rcases le_total (t.db.jobs.rows.filter fun r => leaseExpired now r.2).length reapBatch with hfew | hfull
  · left
    rw [reapSelect, take_of_length_le (by rwa [length_insertionSort])]
    exact mem_map.2 ⟨_, (mem_insertionSort _).2 hmem, rfl⟩
  · right
    simpa [reapSelect, length_insertionSort] using hfull

theorem expired_job_selected_reaped :
    ∃ es t, Run (Fires step) State.initial es t ∧ es.map Edge.label = reaped.take 4 ∧
      (1 ∈ reapSelect 80 t.db ∨ (reapSelect 80 t.db).length = reapBatch) := by
  refine exists_run_of_imp (fun _ t => ∃ row ∈ t.db.jobs.get? 1, row.status = .running ∧
    ∀ e ∈ row.leaseExpiresAt, e < 80) (by decide +kernel) ?_
  rintro es t hrun ⟨row, hrow, hst, hlate⟩
  exact expired_job_selected rfl hrun hrow hst hlate

end Tagsmaxxing.JobQueue
