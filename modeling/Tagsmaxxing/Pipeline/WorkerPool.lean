import Tagsmaxxing.Pipeline.QueueAccounting

/-! # Workers and their claims (`run_worker_pool`, `worker_loop`)

A worker claims a job, runs its handler while a heartbeat extends the lease, and issues the outcome (`complete`,
`fail` or `fail_permanent`) for the job id it claimed. In between the lease may be reaped or swept and the job
claimed by somebody else; nothing tells the handler.

The world is the queue together with what each worker believes it holds. Every action issues at most one queue
statement (`Act.op?`), so a run of the world is a run of the queue (`step_cases`).

The worker loop's comment promises that a late outcome is a no-op, because `complete` and `fail` are guarded by the
job's status. The guard does not see whose claim is running: a late outcome leaves the job alone when the newer
claim is already over, and otherwise ends that claim in its owner's place (`late_outcome_harmless_iff`). -/

namespace Tagsmaxxing.WorkerPool

open Option Transition JobQueue

/-! ## The worker loop -/

/-- `PERMANENT_ERROR_PREFIX`. -/
def permanentError : String := "permanent: "

/-- `e.strip_prefix(PERMANENT_ERROR_PREFIX)`. -/
def stripPermanent (e : String) : Option String :=
  if permanentError.toList.isPrefixOf e.toList then
    some (String.ofList (e.toList.drop permanentError.length))
  else none

/-- The statement a worker issues once its handler has returned. -/
def outcomeOp (q : JobQueue) (jobId : ℕ) (result : Except String Unit) (now : Time) : Op :=
  match result with
  | .ok () => .complete jobId
  | .error e =>
      match stripPermanent e with
      | some msg => .failPermanent q jobId msg now
      | none => .fail q jobId e now

/-- A claim as its worker sees it: the job, and whether the heartbeat is still extending its lease. -/
structure Claim where
  job : ℕ
  beating : Bool

structure World where
  queue : JobQueue.State
  /-- What each worker is running its handler for. -/
  held : ℕ → Option Claim

inductive Act
  | claim (w : ℕ) (kinds : List JobKind) (locked : List ℕ) (now : Time)
  | heartbeat (w : ℕ) (now : Time)
  | outcome (w : ℕ) (result : Except String Unit) (now : Time)
  /-- The worker's process dies: no outcome is ever issued. -/
  | crash (w : ℕ)
  /-- A statement issued by anybody else: a producer, the reaper, a starting process. -/
  | environment (op : Op)

/-- The statements that are not a worker's own. -/
def isEnvironment : Op → Bool
  | .enqueue .. => true
  | .reapSelect .. => true
  | op => op.recovers

/-- The queue statement an action issues. -/
def Act.op? (pool : ℕ → JobQueue) (s : World) : Act → Option Op
  | .claim w kinds locked now => some (.claimKinds (pool w) kinds locked now)
  | .heartbeat w now => (s.held w).map fun c => .extendLease (pool w) c.job now
  | .outcome w result now => (s.held w).map fun c => outcomeOp (pool w) c.job result now
  | .crash _ => none
  | .environment op => some op

/-- What the worker holds after its action. -/
def Act.held' (pool : ℕ → JobQueue) (s : World) : Act → ℕ → Option Claim
  | .claim w kinds locked now =>
      Function.update s.held w (((pool w).claimKinds kinds locked now s.queue.db).2.map fun r => ⟨r.1, true⟩)
  | .heartbeat w now =>
      Function.update s.held w ((s.held w).map fun c =>
        { c with beating := ((pool w).extendLease c.job now s.queue.db).2 })
  | .outcome w _ _ => Function.update s.held w none
  | .crash w => Function.update s.held w none
  | .environment _ => s.held

/-- When an action is possible: a worker claims only with no handler running, beats only until an
    extension has reported the job lost, and issues an outcome only for the claim it holds. -/
def Act.enabled (s : World) : Act → Bool
  | .claim w .. => (s.held w).isNone
  | .heartbeat w _ => (s.held w).any (·.beating)
  | .outcome w .. => (s.held w).isSome
  | .crash _ => true
  | .environment op => isEnvironment op

/-- One step of the world: the action's statement runs on the queue, and the worker moves on. -/
def step (pool : ℕ → JobQueue) (s : World) (a : Act) : Option World :=
  if a.enabled s then
    match a.op? pool s with
    | none => some { s with held := a.held' pool s }
    | some op => (JobQueue.step s.queue op).map fun queue => { queue, held := a.held' pool s }
  else none

/-- No jobs, no claims. -/
def World.initial : World := ⟨JobQueue.State.initial, fun _ => none⟩

variable {pool : ℕ → JobQueue}

/-- **The world runs the queue.** A step of the world either leaves the queue alone or is a step of
    the queue. -/
theorem step_cases {s t : World} {a : Act} (h : step pool s a = some t) :
    (a.enabled s = true ∧ t.held = a.held' pool s) ∧
      ((a.op? pool s = none ∧ t.queue = s.queue) ∨
        ∃ op, a.op? pool s = some op ∧ Step Int32.maxValue s.queue op t.queue) := by
  unfold step at h
  split at h
  next hen =>
    split at h
    next hop =>
      cases h
      exact ⟨⟨hen, rfl⟩, .inl ⟨hop, rfl⟩⟩
    next op hop =>
      obtain ⟨queue, hq, rfl⟩ := map_eq_some_iff.1 h
      exact ⟨⟨hen, rfl⟩, .inr ⟨op, hop, hq, fun q _ => Int32.le_maxValue q.maxRetries⟩⟩
  · cases h

/-! ## Claims, losses and late outcomes -/

/-- The step is a claim by `w` that returned `j`. -/
def claimsBy (pool : ℕ → JobQueue) (w j : ℕ) (e : Edge World Act) : Bool :=
  match e.label with
  | .claim w' kinds locked now =>
      w' == w &&
        ((pool w').claimKinds kinds locked now e.src.queue.db).2.map Prod.fst == some j
  | _ => false

/-- The step is a reap or a sweep that took `j` back. -/
def takesBack (j : ℕ) (e : Edge World Act) : Bool :=
  match e.label with
  | .environment op => recoversJob j ⟨e.src.queue, op, e.dst.queue⟩
  | _ => false

/-- The step ends what `w` was doing. -/
def endsHandler (w : ℕ) (e : Edge World Act) : Bool :=
  match e.label with
  | .outcome w' _ _ => w' == w
  | .crash w' => w' == w
  | _ => false

/-- After the history `before`, the step `e` is an outcome issued by a worker for a claim of `j` it
    has lost: since that claim, `j` was reaped or swept and then claimed by another worker. -/
def LateOutcome (pool : ℕ → JobQueue) (j : ℕ) (before : List (Edge World Act)) (e : Edge World Act) : Prop :=
  ∃ (w w' : ℕ) (past mid₁ mid₂ mid₃ : List (Edge World Act)) (mine lost theirs : Edge World Act),
    before = past ++ mine :: (mid₁ ++ lost :: (mid₂ ++ theirs :: mid₃)) ∧
    claimsBy pool w j mine = true ∧ takesBack j lost = true ∧
    w' ≠ w ∧ claimsBy pool w' j theirs = true ∧
    (∀ x ∈ mid₁ ++ lost :: (mid₂ ++ theirs :: mid₃), endsHandler w x = false) ∧
    ∃ result now, e.label = .outcome w result now

/-- The newest claim of `j` in the history is over: since it, some step took `j` out of `running`. -/
def ClaimOver (pool : ℕ → JobQueue) (j : ℕ) (before : List (Edge World Act)) : Prop :=
  ∃ past e rest, before = past ++ e :: rest ∧
    jobStatus e.src.queue j = some .running ∧ jobStatus e.dst.queue j ≠ some .running ∧
    ∀ x ∈ rest, ∀ w, claimsBy pool w j x = false

/-- The columns of a job row that an outcome could spoil. -/
def outcomeColumns (r : JobRow) : JobStatus × Int32 × Option String × Time :=
  (r.status, r.attempts, r.lockedBy, r.runAfter)

/-- The step leaves `j`'s row and the status of `j`'s document as they were. -/
def Untouched (j : ℕ) (e : Edge World Act) : Prop :=
  (e.dst.queue.db.jobs.get? j).map outcomeColumns = (e.src.queue.db.jobs.get? j).map outcomeColumns ∧
  ∀ r d, e.src.queue.db.jobs.get? j = some r → r.documentId = some d →
    (e.dst.queue.db.documents.get? d).map (·.status) =
      (e.src.queue.db.documents.get? d).map (·.status)

/-! ## What a worker holds -/

variable {e : Edge World Act} {j : ℕ} {result : Except String Unit} {now : Time}

/-- A worker whose claim returned `j` runs its handler for `j`. -/
theorem held_of_claimsBy (hs : step pool e.src e.label = some e.dst) {w : ℕ}
    (hc : claimsBy pool w j e = true) : (e.dst.held w).map (·.job) = some j := by
  rw [(step_cases hs).1.2]
  unfold claimsBy at hc
  split at hc
  next w' kinds locked now hl =>
    simp only [Bool.and_eq_true, beq_iff_eq] at hc
    obtain ⟨rfl, hj⟩ := hc
    rw [hl]
    simp only [Act.held', Function.update_self, map_map]
    exact hj
  · cases hc

/-- Until its outcome or its crash, a worker keeps running its handler for the same job. -/
theorem held_keeps (hs : step pool e.src e.label = some e.dst) {w : ℕ}
    (hheld : (e.src.held w).map (·.job) = some j) (hend : endsHandler w e = false) :
    (e.dst.held w).map (·.job) = some j := by
  obtain ⟨⟨hen, hheld'⟩, -⟩ := step_cases hs
  rw [hheld']
  obtain ⟨src, label, dst⟩ := e
  simp only [endsHandler] at hen hend hheld ⊢
  cases label with
  | claim w' kinds locked now =>
    -- `w` itself cannot claim: it is running a handler
    have hw : w ≠ w' := by
      rintro rfl
      simp only [Act.enabled, isNone_iff_eq_none] at hen
      simp [hen] at hheld
    simpa [Act.held', hw] using hheld
  | heartbeat w' now =>
    by_cases hw : w = w'
    · subst hw
      simpa [Act.held', Function.comp_def] using hheld
    · simpa [Act.held', hw] using hheld
  | outcome w' result now | crash w' =>
    have hw : w ≠ w' := fun hw => by simp [hw] at hend
    simpa [Act.held', hw] using hheld
  | environment op => exact hheld

/-! ## When the newest claim is over -/

section

variable (hs : step pool e.src e.label = some e.dst)

include hs

/-- The queue's claim steps are the workers' claims. -/
theorem claimsJob_op? {op : Op} (hop : e.label.op? pool e.src = some op) :
    claimsJob j ⟨e.src.queue, op, e.dst.queue⟩ = true ↔ ∃ w, claimsBy pool w j e = true := by
  have hen := (step_cases hs).1.1
  obtain ⟨src, label, dst⟩ := e
  simp only at hen hop ⊢
  cases label with
  | claim w kinds locked now =>
    cases hop
    simp [claimsJob, claimsBy]
  | heartbeat w now =>
    obtain ⟨c, -, rfl⟩ := map_eq_some_iff.1 hop
    simp [claimsJob, claimsBy]
  | outcome w result now =>
    obtain ⟨c, -, rfl⟩ := map_eq_some_iff.1 hop
    unfold outcomeOp
    split
    · simp [claimsJob, claimsBy]
    · split <;> simp [claimsJob, claimsBy]
  | crash w => exact absurd hop (by simp [Act.op?])
  | environment op' =>
    obtain rfl := Option.some.inj hop
    -- a claim is never an environment statement
    cases op' <;> simp [Act.enabled, isEnvironment, Op.recovers, claimsJob, claimsBy] at hen ⊢

theorem running_of_claimsBy {w : ℕ}
    (hc : claimsBy pool w j e = true) : jobStatus e.dst.queue j = some .running := by
  rcases (step_cases hs).2 with ⟨hop, -⟩ | ⟨op, hop, hq⟩
  · obtain ⟨src, label, dst⟩ := e
    cases label <;> simp [claimsBy, Act.op?] at hc hop
  · have hcl := (claimsJob_op? hs hop).2 ⟨w, hc⟩
    exact (claimsJob_spec (e := ⟨e.src.queue, op, e.dst.queue⟩) hq hcl).2

theorem notRunning_keeps
    (hnot : jobStatus e.src.queue j ≠ some .running) (hno : ∀ w, claimsBy pool w j e = false) :
    jobStatus e.dst.queue j ≠ some .running := by
  rcases (step_cases hs).2 with ⟨-, heq⟩ | ⟨op, hop, hq⟩
  · rw [heq]
    exact hnot
  · refine notRunning_step (e := ⟨e.src.queue, op, e.dst.queue⟩) hq hnot (Bool.eq_false_iff.2 fun hcl => ?_)
    obtain ⟨w, hw⟩ := (claimsJob_op? hs hop).1 hcl
    exact Bool.eq_false_iff.1 (hno w) hw

end

/-- **Running means claimed and not over.** In every history in which `j` was claimed, `j` is not
    running exactly when its newest claim is over. -/
theorem claimOver_iff {s u : World} {es : List (Edge World Act)} (r : Run (Fires (step pool)) s es u)
    (hclaimed : ∃ e ∈ es, ∃ w, claimsBy pool w j e = true) :
    ClaimOver pool j es ↔ jobStatus u.queue j ≠ some .running := by
  constructor
  · rintro ⟨past, e, rest, rfl, -, hdst, hno⟩
    obtain ⟨t, -, r⟩ := Run.append_iff.1 r
    obtain ⟨-, -, r⟩ := Run.cons_iff.1 r
    exact (r.edges_where (C := fun x => ∀ w, claimsBy pool w j x = false)
      (I := fun s => jobStatus s.queue j ≠ some .running) hdst
      (fun x hx hno hnot => notRunning_keeps hx hnot hno) hno).1
  · revert hclaimed
    refine r.history_invariant (I := fun es u => (∃ e ∈ es, ∃ w, claimsBy pool w j e = true) →
      jobStatus u.queue j ≠ some .running → ClaimOver pool j es) ?_ ?_
    · rintro ⟨e, he, -⟩
      cases he
    · intro es t a v hstep ih hclaimed hnot
      have hno : ∀ w, claimsBy pool w j ⟨t, a, v⟩ = false := fun w =>
        Bool.eq_false_iff.2 fun hw => hnot (running_of_claimsBy (e := ⟨t, a, v⟩) hstep hw)
      by_cases hrun : jobStatus t.queue j = some .running
      · -- this very step ends the claim
        exact ⟨es, ⟨t, a, v⟩, [], rfl, hrun, hnot, by simp⟩
      · have hold : ∃ e ∈ es, ∃ w, claimsBy pool w j e = true := by
          obtain ⟨e, he, w, hw⟩ := hclaimed
          rcases List.mem_append.1 he with he | he
          · exact ⟨e, he, w, hw⟩
          · cases List.mem_singleton.1 he
            exact absurd hw (Bool.eq_false_iff.1 (hno w))
        obtain ⟨past, x, rest, rfl, hx₁, hx₂, hrest⟩ := ih hold hrun
        exact ⟨past, x, rest ++ [⟨t, a, v⟩], by simp, hx₁, hx₂,
          List.forall_mem_append.2 ⟨hrest, List.forall_mem_singleton.2 hno⟩⟩

/-! ## What an outcome does -/

section

variable {q : JobQueue} {s t : JobQueue.State} (h : JobQueue.step s (outcomeOp q j result now) = some t)

include h

/-- `complete` and `fail_inner` are guarded by the status: on a job that is not running they change
    neither its row nor any document. -/
theorem outcome_notRunning (hnot : jobStatus s j ≠ some .running) :
    t.db.jobs.get? j = s.db.jobs.get? j ∧ t.db.documents = s.db.documents := by
  have hrow : ∀ a, s.db.jobs.get? j = some a → a.status ≠ .running := by
    intro a ha hrun
    exact hnot (by simp [jobStatus, ha, hrun])
  cases result with
  | ok _ =>
    cases h
    refine ⟨?_, rfl⟩
    simp only [JobQueue.complete, Serial.get?_updateWhere, BEq.rfl, Bool.true_and]
    cases ha : s.db.jobs.get? j with
    | none => rfl
    | some a => simp [hrow a ha]
  | error e =>
    simp only [outcomeOp] at h
    split at h
    next msg _ =>
      obtain ⟨err, herr⟩ := failInner_error q j msg true now s.db hrow
      cases h
      simp [JobQueue.failPermanent, herr, orRollback]
    · obtain ⟨err, herr⟩ := failInner_error q j e false now s.db hrow
      cases h
      simp [JobQueue.fail, herr, orRollback]

/-- On a running job they take it out of `running`, whoever claimed it. -/
theorem outcome_running (hrun : jobStatus s j = some .running) :
    jobStatus t j ≠ some .running := by
  obtain ⟨a, ha, hst⟩ := map_eq_some_iff.1 hrun
  -- both failure paths end in `fail_inner`
  have hfail : ∀ (msg : String) (force : Bool) (db' : Db), orRollback s.db (q.failInner j msg force now s.db) = db' →
      (db'.jobs.get? j).map (·.status) ≠ some .running := by
    intro msg force db' hdb
    obtain ⟨st, db'', heq, hdead, b, hb, -, hrows⟩ := failInner_ok q msg force now ha hst
    rw [heq] at hdb
    obtain rfl : db'' = db' := hdb
    rw [hrows, if_pos rfl, map_some, hb]
    rcases hdead with rfl | ⟨rfl, -, -⟩ <;> simp
  cases result with
  | ok _ =>
    cases h
    simp [jobStatus, JobQueue.complete, ha, hst]
  | error e =>
    simp only [outcomeOp] at h
    split at h <;> cases h
    next msg _ => exact hfail msg true _ rfl
    · exact hfail e false _ rfl

end

theorem Untouched.status_eq (h : Untouched j e) : jobStatus e.dst.queue j = jobStatus e.src.queue j := by
  have := congrArg (Option.map Prod.fst) h.1
  simpa [jobStatus, map_map, Function.comp_def, outcomeColumns] using this

/-- A late outcome leaves the job alone exactly when the job is not running. -/
theorem untouched_iff_notRunning (hs : step pool e.src e.label = some e.dst) {w : ℕ}
    (hl : e.label = .outcome w result now) (hheld : (e.src.held w).map (·.job) = some j) :
    Untouched j e ↔ jobStatus e.src.queue j ≠ some .running := by
  obtain ⟨c, hc, rfl⟩ := map_eq_some_iff.1 hheld
  have hop : e.label.op? pool e.src = some (outcomeOp (pool w) c.job result now) := by
    rw [hl, Act.op?, hc, map_some]
  have hq : JobQueue.step e.src.queue (outcomeOp (pool w) c.job result now) = some e.dst.queue := by
    rcases (step_cases hs).2 with ⟨hnone, -⟩ | ⟨op, hop', hq⟩
    · cases hop.symm.trans hnone
    · cases hop.symm.trans hop'
      exact hq.1
  constructor
  · intro hun hrun
    exact outcome_running hq hrun (hun.status_eq.trans hrun)
  · intro hnot
    obtain ⟨hrow, hdocs⟩ := outcome_notRunning hq hnot
    exact ⟨by rw [hrow], fun r d _ _ => by rw [hdocs]⟩

/-- At a late outcome, the worker still holds its lost claim. -/
theorem LateOutcome.held {s : World} {before : List (Edge World Act)}
    (r : Run (Fires (step pool)) s before e.src) (h : LateOutcome pool j before e) :
    (∃ x ∈ before, ∃ w, claimsBy pool w j x = true) ∧
      ∃ w result now, e.label = .outcome w result now ∧ (e.src.held w).map (·.job) = some j := by
  obtain ⟨w, w', past, mid₁, mid₂, mid₃, mine, lost, theirs, rfl, hmine, -, -, -, hkeep, result, now, hl⟩ := h
  refine ⟨⟨mine, by simp, w, hmine⟩, w, result, now, hl, ?_⟩
  obtain ⟨t, -, r⟩ := Run.append_iff.1 r
  obtain ⟨rfl, hs, r⟩ := Run.cons_iff.1 r
  exact (r.edges_where (C := fun x => endsHandler w x = false)
    (I := fun s => (s.held w).map (·.job) = some j) (held_of_claimsBy hs hmine)
    (fun x hx hend hheld => held_keeps hx hheld hend) hkeep).1

/-- **Fencing of claims.** At any point of any run of any number of workers, a late outcome leaves
    the job and its document alone if and only if the newest claim of the job is over by then. -/
theorem late_outcome_harmless_iff {s u : World} {es before later : List (Edge World Act)}
    {e : Edge World Act} {j : ℕ} (r : Run (Fires (step pool)) s es u) (hes : es = before ++ e :: later)
    (hlate : LateOutcome pool j before e) : Untouched j e ↔ ClaimOver pool j before := by
  subst hes
  obtain ⟨t, rb, rl⟩ := Run.append_iff.1 r
  obtain ⟨rfl, hs, -⟩ := Run.cons_iff.1 rl
  obtain ⟨hclaimed, w, result, now, hl, hheld⟩ := hlate.held rb
  rw [untouched_iff_notRunning hs hl hheld, claimOver_iff rb hclaimed]

/-- Two workers with the same configuration. -/
def twoWorkers : ℕ → JobQueue := fun w =>
  { minBackoffMs := 1000, maxRetries := 3, leaseSecs := 60, workerId := toString w }

/-- Worker 0 claims job 1 and its lease is reaped; worker 1 claims the job. -/
def lostClaim : List Act :=
  [.environment (.enqueue 1 none none none .ingest 0 0), .claim 0 [] [] 0,
    .environment (.reapSelect 100), .environment (.reapNext 1 100), .claim 1 [] [] 100]

/-- From there on, until its handler ends, worker 0's outcome for job 1 is late. -/
theorem exists_lateOutcome (acts : List Act) (P : List (Edge World Act) → Edge World Act → Prop)
    [∀ mid e, Decidable (P mid e)]
    (h : (runEdges (step twoWorkers) World.initial lostClaim).any (fun r =>
      (runEdges (step twoWorkers) r.2 acts).any fun q => (step twoWorkers q.2 (.outcome 0 (.ok ()) 102)).any fun u =>
        (∀ x ∈ q.1, endsHandler 0 x = false) ∧ P q.1 ⟨q.2, .outcome 0 (.ok ()) 102, u⟩) = true) :
    ∃ before mid e u, Run (Fires (step twoWorkers)) World.initial (before ++ mid ++ [e]) u ∧
      LateOutcome twoWorkers 1 (before ++ mid) e ∧ P mid e := by
  -- which of the five steps is which
  have hacts : (runEdges (step twoWorkers) World.initial lostClaim).map (fun r => r.1.map fun e =>
        (claimsBy twoWorkers 0 1 e, takesBack 1 e, claimsBy twoWorkers 1 1 e, endsHandler 0 e)) =
      some [(false, false, false, false), (true, false, false, false), (false, false, false, false),
        (false, true, false, false), (false, false, true, false)] := by
    decide +kernel
  simp only [any_eq_true, decide_eq_true_eq] at h
  obtain ⟨⟨before, s⟩, hlost, ⟨mid, t⟩, hrest, u, hlast, hmid, hP⟩ := h
  have hrun : ∀ {s as es u}, runEdges (step twoWorkers) s as = some (es, u) → Run (Fires (step twoWorkers)) s es u :=
    run_of_runEdges fun _ _ _ _ h => h
  refine ⟨before, mid, ⟨t, _, u⟩, u, ((hrun hlost).append (hrun hrest)).snoc hlast, ?_, hP⟩
  rw [hlost, map_some, Option.some.injEq] at hacts
  simp only [List.map_eq_cons_iff, List.map_eq_nil_iff] at hacts
  obtain ⟨e₁, -, rfl, -, e₂, -, rfl, h₂, e₃, -, rfl, h₃, e₄, -, rfl, h₄, e₅, -, rfl, h₅, rfl⟩ := hacts
  simp only [Prod.mk.injEq] at h₂ h₃ h₄ h₅
  refine ⟨0, 1, [e₁], [e₃], [], mid, e₂, e₄, e₅, rfl, h₂.1, h₄.2.1, by simp, h₅.2.2.1, ?_, .ok (), 102, rfl⟩
  simpa [h₃.2.2.2, h₄.2.2.2, h₅.2.2.2] using hmid

/-- Worker 1 completes the job; worker 0's late `complete` then changes nothing. -/
theorem late_complete_after_newer_claim :
    ∃ (es before : List (Edge World Act)) (u : World) (e : Edge World Act),
      Run (Fires (step twoWorkers)) World.initial es u ∧ es = before ++ [e] ∧
        LateOutcome twoWorkers 1 before e ∧ Untouched 1 e := by
  obtain ⟨before, mid, e, u, r, hlate, htheirs⟩ := exists_lateOutcome [.outcome 1 (.ok ()) 101] (fun mid _ =>
    mid.map (fun x => (jobStatus x.src.queue 1, jobStatus x.dst.queue 1)) = [(some .running, some .done)])
    (by decide +kernel)
  obtain ⟨theirs, rfl, hstatus⟩ := List.map_eq_singleton_iff.1 htheirs
  obtain ⟨hsrc, hdst⟩ := Prod.mk.inj hstatus
  -- worker 1's own outcome was the end of the newest claim
  have hover : ClaimOver twoWorkers 1 (before ++ [theirs]) := ⟨before, theirs, [], rfl, hsrc, by simp [hdst], by simp⟩
  exact ⟨_, _, u, e, r, rfl, hlate, (late_outcome_harmless_iff r rfl hlate).2 hover⟩

/-- Worker 0's lease on job 1 is reaped and worker 1 claims the job. Worker 0's late `complete` then
    marks worker 1's claim done. -/
theorem late_complete_ends_newer_claim :
    ∃ (es before : List (Edge World Act)) (u : World) (e : Edge World Act),
      Run (Fires (step twoWorkers)) World.initial es u ∧ es = before ++ [e] ∧
        LateOutcome twoWorkers 1 before e ∧ ¬ Untouched 1 e := by
  obtain ⟨before, mid, e, u, r, hlate, hmoved⟩ := exists_lateOutcome [] (fun _ e =>
    jobStatus e.dst.queue 1 ≠ jobStatus e.src.queue 1) (by decide +kernel)
  exact ⟨_, _, u, e, r, rfl, hlate, fun hun => hmoved hun.status_eq⟩

end Tagsmaxxing.WorkerPool
