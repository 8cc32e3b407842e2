import Tagsmaxxing.Scheduler.Pool

/-! # Failover and the circuit breaker (`llm/src/client.rs`)

`call_with_failover` acquires a lease from the pool, posts its request and, when the attempt fails, records the
failure and tries again. The system here is the pool's with the calls of a client beside it: every access of a call
to the circuits or to a health flag is a step of its own.

A backend that only ever answers 2xx or a plain 4xx is alive. The health flag is left alone on a 4xx, but the breaker
counts it as a failure, and a tripped breaker marks the backend unhealthy in the end: `client_errors_harmless_iff`. -/

namespace Tagsmaxxing.Failover

open Option

open Scheduler (Role Fleet Lease AcquireError)
open Transition

/-! ## Client and calls -/

/-- `LlamaClient`, with the pool's fixed part; retries and threshold are `u32`. -/
structure Client where
  fleet : Fleet
  maxRetries : ℕ
  circuitThreshold : ℕ
  cooldown : Time
  maxRetries_lt : maxRetries < 2 ^ 32
  circuitThreshold_lt : circuitThreshold < 2 ^ 32

/-- `max_retries.saturating_add(1)`. -/
def Client.totalAttempts (c : Client) : ℕ := min (c.maxRetries + 1) (2 ^ 32 - 1)

structure CircuitState where
  failures : ℕ
  cooldownUntil : Option Time

/-- `CircuitState::default()`. -/
def CircuitState.default : CircuitState := ⟨0, none⟩

/-- `LlmError`, the variants of a failover. -/
inductive LlmError
  | scheduler (e : AcquireError)
  | allFailed (retries : ℕ) (lastError : String)
  | deserialize (message : String)
  | allCooldown (cooldown : Time)

/-- What is read of an HTTP response: its status and how it prints, the body parsed and the body as text. -/
structure Response (ρ : Type) where
  status : ℕ
  statusText : String
  json : Except String ρ
  text : String

/-- How a POST ends. -/
inductive Answer (ρ : Type)
  | response (r : Response ρ)
  /-- connection refused, time-out, … -/
  | transport (e : String)

/-- The program counter of a call. -/
inductive Pc (ρ : Type)
  /-- before `pool.acquire` -/
  | acquire
  /-- waiting for call `p` of the pool -/
  | acquiring (p : ℕ)
  /-- before the circuit-breaker gate -/
  | gate (lease : Lease)
  /-- in cooldown, before `mark_unhealthy` -/
  | skip (lease : Lease)
  /-- waiting for the answer -/
  | send (lease : Lease)
  /-- before `record_success`, and between its two writes -/
  | succeeded (lease : Lease) (resp : ρ)
  | restoring (lease : Lease) (resp : ρ)
  /-- before `mark_unhealthy` on a server error, a 429 or a transport error -/
  | blamed (lease : Lease) (error : String)
  /-- before `record_failure` -/
  | failed (lease : Lease) (error : String)
  | returned (result : Except LlmError ρ)
  /-- dropped by its caller -/
  | cancelled

/-- A call of `call_with_failover`. -/
structure Call (ρ : Type) where
  role : Role
  localOnly : Bool
  priority : Int
  attempt : ℕ
  lastError : Option String
  pc : Pc ρ

structure State (ρ : Type) where
  pool : Scheduler.State
  circuits : Keyed String CircuitState
  calls : Serial (Call ρ)

/-! ## The circuit breaker -/

/-- When the cooldown of a backend ends, if its breaker has tripped. -/
def cooldownUntil (circuits : Keyed String CircuitState) (id : String) : Option Time :=
  (circuits.get? id).bind CircuitState.cooldownUntil

def Client.inCooldown (c : Client) (circuits : Keyed String CircuitState) (now : Time) (id : String) : Bool :=
  c.circuitThreshold != 0 && (cooldownUntil circuits id).any fun t => now < t

/-- The update that `record_failure` makes. -/
def Client.trip (c : Client) (now : Time) (entry : CircuitState) : CircuitState :=
  let failures := min (entry.failures + 1) (2 ^ 32 - 1)
  ⟨failures, if c.circuitThreshold ≤ failures then some (now + c.cooldown) else entry.cooldownUntil⟩

def Client.recordFailure (c : Client) (now : Time) (id : String) (circuits : Keyed String CircuitState) :
    Keyed String CircuitState :=
  if c.circuitThreshold = 0 then circuits
  else circuits.upsert id (c.trip now ((circuits.get? id).getD .default))

/-- Store a health flag of the pool; a backend that is not in the map is left alone. -/
def setHealthy (id : String) (healthy : Bool) (pool : Scheduler.State) : Scheduler.State :=
  match pool.env.backends.lookup id with
  | none => pool
  | some b => { pool with env := { pool.env with
      live := Function.update pool.env.live b { pool.env.live b with healthy := healthy } } }

/-! ## One step of a call -/

def roleText : Role → String
  | .text => "text"
  | .vision => "vision"
  | .code => "code"
  | .embed => "embed"
  | .rerank => "rerank"

variable {ρ : Type}

/-- The error of a call whose acquire failed. -/
def Client.acquireFailed (c : Client) (s : State ρ) (call : Call ρ) : AcquireError → LlmError
  | .noBackend _ =>
      let candidates := (c.fleet.byRole call.role).map fun b => (c.fleet.backend b).id
      if !candidates.isEmpty && candidates.all (c.inCooldown s.circuits s.pool.env.clock.now) then
        .allCooldown c.cooldown
      else if 0 < call.attempt then
        .allFailed c.maxRetries (call.lastError.getD
          ("no healthy backend for role `" ++ roleText call.role ++ "`"))
      else .scheduler (.noBackend call.role)
  | e => .scheduler e

/-- Whether the status is a success, and whether it is the backend's fault. -/
def isSuccess (status : ℕ) : Bool := 200 ≤ status && status < 300

def isServerFault (status : ℕ) : Bool := (500 ≤ status && status < 600) || status == 429

/-- Where a call is once its answer is there. -/
def received (lease : Lease) : Answer ρ → Pc ρ
  | .response r =>
      if isSuccess r.status then
        match r.json with
        | .ok resp => .succeeded lease resp
        | .error e => .returned (.error (.deserialize
            ("failed to parse response from " ++ lease.backendId ++ ": " ++ e)))
      else
        let message := "HTTP " ++ r.statusText ++ " from " ++ lease.backendId ++ ": " ++ r.text
        if isServerFault r.status then .blamed lease message else .failed lease message
  | .transport e => .blamed lease ("transport error to " ++ lease.backendId ++ ": " ++ e)

/-- A step of a call that is not at an `await`: the pool, the circuits and the call after it. -/
def Client.next (c : Client) (s : State ρ) (call : Call ρ) :
    Option (Scheduler.State × Keyed String CircuitState × Call ρ) :=
  match call.pc with
  | .acquire => do
      let pool ← Scheduler.step c.fleet s.pool (.call ⟨call.role, call.localOnly, call.priority, none⟩)
      some (pool, s.circuits, { call with pc := .acquiring s.pool.calls.next })
  | .acquiring p =>
      match (s.pool.calls.get? p).map Scheduler.Call.pc with
      | some (.returned (.ok lease)) => some (s.pool, s.circuits, { call with pc := .gate lease })
      | some (.returned (.error e)) =>
          some (s.pool, s.circuits, { call with pc := .returned (.error (c.acquireFailed s call e)) })
      | _ => none
  | .gate lease =>
      let pc := if c.inCooldown s.circuits s.pool.env.clock.now lease.backendId then .skip lease
        else .send lease
      some (s.pool, s.circuits, { call with pc := pc })
  | .skip lease =>
      let pool := setHealthy lease.backendId false s.pool
      if c.totalAttempts ≤ call.attempt + 1 then
        some (pool, s.circuits, { call with pc := .returned (.error (.allCooldown c.cooldown)) })
      else some (pool, s.circuits, { call with attempt := call.attempt + 1, pc := .acquire })
  | .succeeded lease resp =>
      some (s.pool, s.circuits.deleteWhere fun id _ => id == lease.backendId,
        { call with pc := .restoring lease resp })
  | .restoring lease resp =>
      some (setHealthy lease.backendId true s.pool, s.circuits, { call with pc := .returned (.ok resp) })
  | .blamed lease error =>
      some (setHealthy lease.backendId false s.pool, s.circuits, { call with pc := .failed lease error })
  | .failed lease error =>
      let circuits := c.recordFailure s.pool.env.clock.now lease.backendId s.circuits
      let call := { call with lastError := some error }
      if call.attempt + 1 < c.totalAttempts then
        some (s.pool, circuits, { call with attempt := call.attempt + 1, pc := .acquire })
      else
        some (s.pool, circuits, { call with pc := .returned (.error (.allFailed c.maxRetries
          (call.lastError.getD "unknown error"))) })
  | .send _ | .returned _ | .cancelled => none

/-! ## The system -/

inductive Act (ρ : Type)
  /-- the pool, its environment and the health loop included -/
  | pool (a : Scheduler.Act)
  | call (role : Role) (localOnly : Bool) (priority : Int)
  /-- a call takes its next step -/
  | run (t : ℕ)
  /-- the answer of a POST arrives -/
  | answer (t : ℕ) (a : Answer ρ)
  /-- the caller drops its call at an `await` -/
  | drop (t : ℕ)

/-- One step of the system; none if the action is not possible. -/
def step (c : Client) (s : State ρ) : Act ρ → Option (State ρ)
  | .pool a => (Scheduler.step c.fleet s.pool a).map fun pool => { s with pool := pool }
  | .call role localOnly priority =>
      some { s with calls := s.calls.insert ⟨role, localOnly, priority, 0, none, .acquire⟩ }
  | .run t => do
      let call ← s.calls.get? t
      let (pool, circuits, call') ← c.next s call
      some ⟨pool, circuits, s.calls.modify t fun _ => call'⟩
  | .answer t a => do
      let call ← s.calls.get? t
      match call.pc with
      | .send lease => some { s with
          calls := s.calls.modify t fun call => { call with pc := received lease a } }
      | _ => none
  | .drop t => do
      let call ← s.calls.get? t
      match call.pc with
      | .acquiring _ | .send _ => some { s with
          calls := s.calls.modify t fun call => { call with pc := .cancelled } }
      | _ => none

/-! ## What is to hold -/

/-- The lease whose answer a call waits for. -/
def Pc.awaiting : Pc ρ → Option Lease
  | .send lease => some lease
  | _ => none

/-- The lease of a call that is about to mark its backend unhealthy. -/
def Pc.marking : Pc ρ → Option Lease
  | .skip lease | .blamed lease _ => some lease
  | _ => none

/-- A 2xx, or a 4xx other than 429. -/
def Answer.isBenign : Answer ρ → Bool
  | .response r => isSuccess r.status || (400 ≤ r.status && r.status < 500 && r.status != 429)
  | .transport _ => false

/-- Every answer of backend `b` is benign. -/
def WellBehaved (b : String) (e : Edge (State ρ) (Act ρ)) : Prop :=
  match e.label with
  | .answer t a => ∀ call ∈ e.src.calls.get? t, ∀ lease ∈ call.pc.awaiting, lease.backendId = b →
      a.isBenign = true
  | _ => True

/-- A call marks `b` unhealthy. -/
def Marks (b : String) (e : Edge (State ρ) (Act ρ)) : Prop :=
  match e.label with
  | .run t => ∃ call ∈ e.src.calls.get? t, ∃ lease ∈ call.pc.marking, lease.backendId = b
  | _ => False

instance (b : String) : DecidablePred (WellBehaved b : Edge (State ρ) (Act ρ) → Prop)
  | ⟨s, .answer t _, _⟩ =>
      inferInstanceAs (Decidable (∀ call ∈ s.calls.get? t, ∀ lease ∈ call.pc.awaiting, _ → _))
  | ⟨_, .pool _, _⟩ | ⟨_, .call .., _⟩ | ⟨_, .run _, _⟩ | ⟨_, .drop _, _⟩ => isTrue trivial

instance (b : String) : DecidablePred (Marks b : Edge (State ρ) (Act ρ) → Prop)
  | ⟨s, .run t, _⟩ =>
      inferInstanceAs (Decidable (∃ call ∈ s.calls.get? t, ∃ lease ∈ call.pc.marking, _))
  | ⟨_, .pool _, _⟩ | ⟨_, .call .., _⟩ | ⟨_, .answer .., _⟩ | ⟨_, .drop _, _⟩ => isFalse id

/-- What a call records of `b`: a success (`true`), a failure, or nothing. -/
def Pc.records (b : String) : Pc ρ → Option Bool
  | .succeeded lease _ => if lease.backendId = b then some true else none
  | .failed lease _ => if lease.backendId = b then some false else none
  | _ => none

/-- What a step records of `b`. -/
def recorded (b : String) (e : Edge (State ρ) (Act ρ)) : Option Bool :=
  match e.label with
  | .run t => (e.src.calls.get? t).bind fun call => call.pc.records b
  | _ => none

/-- The attempts on `b` that have ended in an error answer since the last one that succeeded. -/
def streak (b : String) (es : List (Edge (State ρ) (Act ρ))) : ℕ :=
  es.foldl (fun n e =>
    match recorded b e with
    | some true => 0
    | some false => n + 1
    | none => n) 0

theorem streak_snoc (b : String) (es : List (Edge (State ρ) (Act ρ))) (e : Edge (State ρ) (Act ρ)) :
    streak b (es ++ [e]) =
      match recorded b e with
      | some true => 0
      | some false => streak b es + 1
      | none => streak b es := by
  simp only [streak, List.foldl_append, List.foldl_cons, List.foldl_nil]

/-! ## What a step does to the circuit of a backend -/

variable {a : Act ρ}

section Circuit

variable {c : Client} {s v : State ρ} {t : ℕ} {call call' : Call ρ} {pool : Scheduler.State}
  {circuits : Keyed String CircuitState}

/-- The circuit of `b` after something was recorded of it. -/
def Client.circuitAfter (c : Client) (now : Time) (entry : Option CircuitState) : Option Bool → Option CircuitState
  | some true => none
  | some false => if c.circuitThreshold = 0 then entry else some (c.trip now (entry.getD .default))
  | none => entry

theorem get?_recordFailure (now : Time) (id b : String) :
    (c.recordFailure now id circuits).get? b =
      c.circuitAfter now (circuits.get? b) (if id = b then some false else none) := by
  unfold Client.recordFailure
  by_cases hid : id = b
  · subst hid
    simp only [if_true, Client.circuitAfter]
    split
    · rfl
    · simp
  · have hne : b ≠ id := fun h => hid h.symm
    simp only [hid, if_false, Client.circuitAfter]
    split
    · rfl
    · simp [hne]

theorem cooldownUntil_of_inCooldown {now : Time} {id : String} (h : c.inCooldown circuits now id = true) :
    (cooldownUntil circuits id).isSome = true := by
  simp only [Client.inCooldown, Bool.and_eq_true] at h
  cases hc : cooldownUntil circuits id with
  | none => simp [hc] at h
  | some end_ => rfl

/-- What a step of a call does: the circuit of each backend changes as the call records of it, and the call
    goes on to mark a backend only when its breaker has tripped. -/
structure Effect (c : Client) (s : State ρ) (call : Call ρ) (circuits : Keyed String CircuitState)
    (pc' : Pc ρ) : Prop where
  circuit : ∀ b, circuits.get? b =
    c.circuitAfter s.pool.env.clock.now (s.circuits.get? b) (call.pc.records b)
  marking : ∀ lease ∈ pc'.marking, (cooldownUntil s.circuits lease.backendId).isSome = true

theorem Effect.of_unrecorded {pc pc' : Pc ρ} (hpc : call.pc = pc) (hrecords : ∀ b, pc.records b = none)
    (hmarking : ∀ lease ∈ pc'.marking, (cooldownUntil s.circuits lease.backendId).isSome = true) :
    Effect c s call s.circuits pc' :=
  ⟨fun b => by rw [hpc, hrecords b]; rfl, hmarking⟩

/-- `record_success` forgets the circuit. -/
theorem get?_forget (now : Time) (id b : String) :
    (circuits.deleteWhere fun x _ => x == id).get? b =
      c.circuitAfter now (circuits.get? b) (if id = b then some true else none) := by
  rw [Keyed.get?_deleteWhere]
  by_cases hb : id = b
  · subst hb
    simp [Client.circuitAfter]
  · have hne : (b == id) = false := beq_eq_false_iff_ne.2 fun h => hb h.symm
    simp only [hb, hne, if_false, Bool.not_false, Client.circuitAfter]
    cases circuits.get? b with
    | none | some entry => rfl

theorem effect_next (h : c.next s call = some (pool, circuits, call')) :
    Effect c s call circuits call'.pc := by
  unfold Client.next at h
  split at h
  next hpc =>
    obtain ⟨pool', -, ⟨⟩⟩ := bind_eq_some_iff.1 h
    exact .of_unrecorded hpc (fun _ => rfl) (by simp [Pc.marking])
  next p hpc =>
    split at h <;> cases h
    · exact .of_unrecorded hpc (fun _ => rfl) (by simp [Pc.marking])
    · exact .of_unrecorded hpc (fun _ => rfl) (by simp [Pc.marking])
  next l hpc =>
    cases h
    refine .of_unrecorded hpc (fun _ => rfl) fun lease hlease => ?_
    split at hlease <;> cases hlease
    next hcool => exact cooldownUntil_of_inCooldown hcool
  next l hpc =>
    split at h
    all_goals
      cases h
      exact .of_unrecorded hpc (fun _ => rfl) (by simp [Pc.marking])
  next l resp hpc =>
    cases h
    exact ⟨fun b => by rw [hpc]; exact get?_forget _ _ _, by simp [Pc.marking]⟩
  next l resp hpc =>
    cases h
    exact .of_unrecorded hpc (fun _ => rfl) (by simp [Pc.marking])
  next l error hpc =>
    cases h
    exact .of_unrecorded hpc (fun _ => rfl) (by simp [Pc.marking])
  next l error hpc =>
    dsimp only at h
    split at h
    all_goals
      cases h
      exact ⟨fun b => by rw [hpc]; exact get?_recordFailure _ _ _, by simp [Pc.marking]⟩
  all_goals cases h

/-- A step of the system changes the circuit of `b` as it records. -/
theorem circuits_step (h : step c s a = some v) (b : String) : v.circuits.get? b =
      c.circuitAfter s.pool.env.clock.now (s.circuits.get? b) (recorded b ⟨s, a, v⟩) := by
  cases a with
  | pool a =>
    obtain ⟨pool, -, rfl⟩ := map_eq_some_iff.1 h
    rfl
  | call role localOnly priority =>
    cases h
    rfl
  | run t =>
    obtain ⟨call, hcall, h⟩ := bind_eq_some_iff.1 h
    obtain ⟨⟨pool, circuits, call'⟩, hnext, ⟨⟩⟩ := bind_eq_some_iff.1 h
    simp only [recorded, hcall, bind_some]
    exact (effect_next hnext).circuit b
  | answer t a =>
    obtain ⟨call, hcall, h⟩ := bind_eq_some_iff.1 h
    split at h <;> cases h
    rfl
  | drop t =>
    obtain ⟨call, hcall, h⟩ := bind_eq_some_iff.1 h
    split at h <;> cases h
    · rfl
    · rfl

end Circuit

/-! ## The breaker counts the streak -/

/-- The breaker of a backend has tripped. -/
def Client.Tripped (c : Client) (b : String) (es : List (Edge (State ρ) (Act ρ))) : Prop :=
  c.circuitThreshold ≠ 0 ∧ c.circuitThreshold ≤ streak b es

/-- The circuit of `b` after a history: it counts the streak, up to the largest `u32`, and has a cooldown
    once the streak has reached the threshold. -/
structure Counts (c : Client) (b : String) (es : List (Edge (State ρ) (Act ρ))) (s : State ρ) : Prop where
  failures : c.circuitThreshold ≠ 0 →
    ((s.circuits.get? b).getD .default).failures = min (streak b es) (2 ^ 32 - 1)
  tripped : (cooldownUntil s.circuits b).isSome = true ↔ c.Tripped b es

theorem cooldownUntil_eq (circuits : Keyed String CircuitState) (b : String) :
    cooldownUntil circuits b = ((circuits.get? b).getD .default).cooldownUntil := by
  unfold cooldownUntil
  cases circuits.get? b with
  | none | some entry => rfl

theorem Counts.snoc {c : Client} {b : String} {es : List (Edge (State ρ) (Act ρ))} {s v : State ρ}
    (hs : Counts c b es s) (h : step c s a = some v) : Counts c b (es ++ [⟨s, a, v⟩]) v := by
  have hlt := c.circuitThreshold_lt
  obtain ⟨hfailures, htripped⟩ := hs
  rw [cooldownUntil_eq, Client.Tripped] at htripped
  suffices hv : (c.circuitThreshold ≠ 0 → ((v.circuits.get? b).getD .default).failures =
        min (streak b (es ++ [⟨s, a, v⟩])) (2 ^ 32 - 1)) ∧
      (((v.circuits.get? b).getD .default).cooldownUntil.isSome = true ↔ c.Tripped b (es ++ [⟨s, a, v⟩])) from
    ⟨hv.1, cooldownUntil_eq v.circuits b ▸ hv.2⟩
  rw [Client.Tripped, circuits_step h b, streak_snoc b es ⟨s, a, v⟩]
  rcases recorded b ⟨s, a, v⟩ with _ | _ | _
  · exact ⟨hfailures, htripped⟩
  · by_cases h0 : c.circuitThreshold = 0
    · -- the breaker is disabled
      simp only [Client.circuitAfter, h0, if_true, ne_eq, not_true, false_and] at htripped ⊢
      exact ⟨False.elim, htripped⟩
    · simp only [Client.circuitAfter, if_neg h0, getD_some, Client.trip, hfailures h0]
      refine ⟨fun _ => by omega, ?_⟩
      split
      next hreached =>
        simp only [isSome_some, true_iff]
        exact ⟨h0, by omega⟩
      next hbelow =>
        -- below the threshold there was no cooldown before either
        rw [htripped]
        exact and_congr_right fun _ => by omega
  · simp [Client.circuitAfter, CircuitState.default]

theorem counts_run {c : Client} {s₀ s : State ρ} {es : List (Edge (State ρ) (Act ρ))}
    (hnew : s₀.circuits.rows = []) (hrun : Run (Fires (step c)) s₀ es s) (b : String) : Counts c b es s := by
  refine Run.history_invariant (I := fun es s => Counts c b es s) ?_ ?_ hrun
  · have hnone : s₀.circuits.get? b = none := by simp [Keyed.get?, hnew]
    refine ⟨fun _ => by simp [hnone, CircuitState.default, streak], ?_⟩
    simp only [cooldownUntil, hnone, Client.Tripped, streak, List.foldl_nil]
    simp
  · exact fun es s a v hstep hs => hs.snoc hstep

/-! ## Who marks a backend unhealthy -/

section Marking

variable {c : Client} {s v : State ρ} {lease : Lease}

theorem marking_received {a : Answer ρ} (h : a.isBenign = true) : (received lease a).marking = none := by
  cases a with
  | transport e => exact absurd h (by simp [Answer.isBenign])
  | response r =>
    unfold received
    dsimp only
    split
    next hsuccess => split <;> rfl
    next hsuccess =>
      simp only [Answer.isBenign, hsuccess, Bool.false_or, Bool.and_eq_true, decide_eq_true_eq, bne_iff_ne] at h
      have hfault : isServerFault r.status = false := by
        simp only [isServerFault, Bool.or_eq_false_iff, Bool.and_eq_false_iff, decide_eq_false_iff_not,
          beq_eq_false_iff_ne]
        omega
      simp [hfault, Pc.marking]

theorem eq_of_mem_marking_received {l : Lease} {a : Answer ρ} (h : lease ∈ (received l a).marking) : lease = l := by
  cases a with
  | transport e => exact (Option.some.inj h).symm
  | response r =>
    unfold received at h
    dsimp only at h
    split at h
    · split at h
      · cases h
      · cases h
    · split at h
      · exact (Option.some.inj h).symm
      · cases h

/-- A call about to mark a well-behaved backend was so before the step, or its breaker had tripped. -/
theorem marking_step (h : step c s a = some v) {t : ℕ} {call' : Call ρ} (hcall' : v.calls.get? t = some call')
    (hlease : lease ∈ call'.pc.marking) (hwell : WellBehaved lease.backendId ⟨s, a, v⟩) :
    (∃ call, s.calls.get? t = some call ∧ lease ∈ call.pc.marking) ∨
      (cooldownUntil s.circuits lease.backendId).isSome = true := by
  -- a step that rewrites call `i`
  have hset : ∀ {i : ℕ} {f : Call ρ → Call ρ}, (s.calls.modify i f).get? t = some call' →
      (∀ call, s.calls.get? i = some call → lease ∈ (f call).pc.marking →
        (cooldownUntil s.circuits lease.backendId).isSome = true) →
      (∃ call, s.calls.get? t = some call ∧ lease ∈ call.pc.marking) ∨
        (cooldownUntil s.circuits lease.backendId).isSome = true := by
    intro i f hget hnew
    obtain ⟨call, hcall, hf⟩ := Serial.get?_of_modify hget
    split at hf
    next hi =>
      subst hi hf
      exact .inr (hnew call hcall hlease)
    next =>
      subst hf
      exact .inl ⟨call, hcall, hlease⟩
  cases a with
  | pool a =>
    obtain ⟨pool, -, rfl⟩ := map_eq_some_iff.1 h
    exact .inl ⟨call', hcall', hlease⟩
  | call role localOnly priority =>
    cases h
    rw [Serial.get?_insert] at hcall'
    split at hcall'
    · cases hcall'
      cases hlease
    · exact .inl ⟨call', hcall', hlease⟩
  | run i =>
    obtain ⟨call, hcall, h⟩ := bind_eq_some_iff.1 h
    obtain ⟨⟨pool, circuits, next⟩, hnext, ⟨⟩⟩ := bind_eq_some_iff.1 h
    exact hset hcall' fun _ _ hmarking => (effect_next hnext).marking lease hmarking
  | answer i a =>
    obtain ⟨call, hcall, h⟩ := bind_eq_some_iff.1 h
    split at h <;> cases h
    rename_i l hpc
    refine hset hcall' fun _ _ hmarking => ?_
    obtain rfl := eq_of_mem_marking_received hmarking
    have hbenign := hwell call hcall lease (by rw [hpc]; rfl) rfl
    rw [marking_received hbenign] at hmarking
    cases hmarking
  | drop i =>
    obtain ⟨call, hcall, h⟩ := bind_eq_some_iff.1 h
    split at h <;> cases h
    · exact hset hcall' fun _ _ hmarking => absurd hmarking (by simp [Pc.marking])
    · exact hset hcall' fun _ _ hmarking => absurd hmarking (by simp [Pc.marking])

end Marking

/-! ## Runs -/

section Runs

variable {c : Client} {s₀ s : State ρ} {es : List (Edge (State ρ) (Act ρ))} {b : String}

/-- Along a run in which `b` is well-behaved, a call about to mark it has seen its breaker tripped. -/
theorem tripped_of_marking (hnew : s₀.circuits.rows = []) (hidle : s₀.calls.rows = [])
    (hrun : Run (Fires (step c)) s₀ es s) (hwell : ∀ e ∈ es, WellBehaved b e) :
    ∀ t call, s.calls.get? t = some call → ∀ lease ∈ call.pc.marking, lease.backendId = b →
      ∃ pre, pre <+: es ∧ c.Tripped b pre := by
  induction hrun with
  | nil => exact fun t call hcall => absurd hcall (by simp [Serial.get?_of_rows_nil hidle])
  | @snoc u v a es hrun hstep ih =>
    rintro t call hcall lease hlease rfl
    have hwell' := fun e he => hwell e (List.mem_append_left _ he)
    rcases marking_step hstep hcall hlease (hwell _ (by simp)) with ⟨call₀, hcall₀, hlease₀⟩ | hsome
    · obtain ⟨pre, hpre, htripped⟩ := ih hwell' t call₀ hcall₀ lease hlease₀ rfl
      exact ⟨pre, hpre.trans (List.prefix_append _ _), htripped⟩
    · exact ⟨es, List.prefix_append _ _, (counts_run hnew hrun _).tripped.1 hsome⟩

theorem forall_not_tripped_iff :
    (∀ pre, pre <+: es → ¬ c.Tripped b pre) ↔
      c.circuitThreshold = 0 ∨ ∀ pre, pre <+: es → streak b pre < c.circuitThreshold := by
  constructor
  · intro h
    by_cases h0 : c.circuitThreshold = 0
    · exact .inl h0
    · exact .inr fun pre hpre => Nat.lt_of_not_le fun hle => h pre hpre ⟨h0, hle⟩
  · rintro (h0 | h) pre hpre ⟨hne, hle⟩
    · exact hne h0
    · exact absurd (h pre hpre) (Nat.not_lt.2 hle)

/-- **Client errors.** In a run of a new client in which every answer of a backend is a 2xx or a 4xx other
    than 429, no call marks it unhealthy and it is never in cooldown exactly when the breaker is disabled
    or fewer than `circuit_threshold` attempts on it ever end in an error answer in a row. -/
theorem client_errors_harmless_iff (hnew : s₀.circuits.rows = []) (hidle : s₀.calls.rows = [])
    (hrun : Run (Fires (step c)) s₀ es s) (hwell : ∀ e ∈ es, WellBehaved b e) :
    (∀ e ∈ es, ¬ Marks b e ∧ cooldownUntil e.dst.circuits b = none) ↔
      c.circuitThreshold = 0 ∨ ∀ pre, pre <+: es → streak b pre < c.circuitThreshold := by
  rw [← forall_not_tripped_iff]
  constructor
  · intro h pre hpre htripped
    obtain ⟨u, hrunPre, hend⟩ := hrun.of_prefix hpre
    have hsome := (counts_run hnew hrunPre b).tripped.2 htripped
    rcases hend with rfl | ⟨e, he, rfl⟩
    · -- nothing is recorded yet
      exact htripped.1 (Nat.le_zero.1 htripped.2)
    · simp [(h e (hpre.subset he)).2] at hsome
  · intro h e he
    obtain ⟨pre, hpre, hrunPre, hrunEdge⟩ := hrun.prefix_of_mem he
    have hwellPre : ∀ e ∈ pre, WellBehaved b e := fun e he =>
      hwell e (hpre.subset (List.mem_append_left _ he))
    refine ⟨fun hmarks => ?_, ?_⟩
    · unfold Marks at hmarks
      split at hmarks
      next t hlabel =>
        obtain ⟨call, hcall, lease, hlease, hb⟩ := hmarks
        obtain ⟨pre', hpre', htripped⟩ := tripped_of_marking hnew hidle hrunPre hwellPre t call hcall lease hlease hb
        exact h pre' ((hpre'.trans (List.prefix_append _ _)).trans hpre) htripped
      next => exact hmarks
    · have hnot : ¬ (cooldownUntil e.dst.circuits b).isSome = true := fun hsome =>
        h _ hpre ((counts_run hnew hrunEdge b).tripped.1 hsome)
      simpa using hnot

end Runs

/-! ## A backend that rejects its payload -/

/-- One backend that serves every role, two retries and a threshold of three. -/
def threeStrikes : Client where
  fleet := ⟨fun _ => ⟨"llm", some "http", none, .local, 0⟩, fun _ => [0], 30⟩
  maxRetries := 2
  circuitThreshold := 3
  cooldown := 30
  maxRetries_lt := by decide
  circuitThreshold_lt := by decide

/-- A new client over a healthy pool with four slots. -/
def newClient : State Unit where
  pool := .initial ⟨⟨0, 12, 0⟩, none, [("llm", 0)], fun _ => ⟨true, none, none, none⟩⟩ fun _ => .newSlots 4
  circuits := .empty
  calls := .empty

/-- Call `t` gets its lease through call `p` of the pool and passes or fails the gate. -/
def acquireLease (t p : ℕ) : List (Act Unit) :=
  .run t :: List.replicate 5 (.pool (.run p fun _ => 1)) ++ [.run t, .run t]

/-- The backend rejects an oversized prompt. -/
def badRequest : Answer Unit := .response ⟨400, "400 Bad Request", .error "", "exceeds the available context"⟩

def accepted : Answer Unit := .response ⟨200, "200 OK", .ok (), ""⟩

/-- An attempt of call `t` that ends in an answer and its recording. -/
def attempt (t p : ℕ) (a : Answer Unit) : List (Act Unit) := acquireLease t p ++ [.answer t a, .run t]

/-- Two attempts are rejected and the third one is accepted. -/
theorem two_rejections_harmless :
    ∃ es s, Run (Fires (step threeStrikes)) newClient es s ∧
      es.map Edge.label = .call .text false 0 :: attempt 1 1 badRequest ++ attempt 1 2 badRequest ++
        attempt 1 3 accepted ∧
      ∀ e ∈ es, ¬ Marks "llm" e ∧ cooldownUntil e.dst.circuits "llm" = none := by
  refine exists_run_of_imp (fun es _ => (∀ e ∈ es, WellBehaved "llm" e) ∧ ∀ pre ∈ es.inits, streak "llm" pre < 3)
    (by decide +kernel) fun es s hrun hgood => ?_
  simp only [List.mem_inits] at hgood
  exact (client_errors_harmless_iff rfl rfl hrun hgood.1).2 (.inr hgood.2)

/-- All three attempts of a call are rejected, and then there is another call. -/
def threeRejections : List (Act Unit) :=
  .call .text false 0 :: attempt 1 1 badRequest ++ attempt 1 2 badRequest ++ attempt 1 3 badRequest ++
    .call .text false 0 :: acquireLease 2 4 ++ [.run 2]

/-- The third rejection puts the backend into cooldown, and the next call marks it unhealthy. -/
theorem three_rejections_trip_breaker :
    ∃ es s, Run (Fires (step threeStrikes)) newClient es s ∧ es.map Edge.label = threeRejections ∧
      (∀ e ∈ es, WellBehaved "llm" e) ∧ (∃ e ∈ es, Marks "llm" e) ∧
      cooldownUntil s.circuits "llm" = some 30 ∧ (s.pool.env.live 0).healthy = false := by
  exact exists_run_of_holds (by decide +kernel)

end Tagsmaxxing.Failover
