import Tagsmaxxing.Lib.Run
import Tagsmaxxing.Scheduler.PriorityWait

/-! # Acquiring and releasing capacity (`pool.rs`, `tiered.rs`, `lease.rs`)

The pool as a transition system. Every call of `Pool::acquire` is a small program with a program counter (`Pc`); one
step of it is one access to shared state: loading the routing table, looking up and testing one candidate, one
`try_acquire`, polling one future of a tier wait, dropping one of them, taking the lock of the waiter queue. Between
any two steps other calls run, leases are dropped, spawned notifications run, time-outs fire (there are no
durations), callers drop their call at an `await`, and the environment (`Env`) changes at will. -/

namespace Tagsmaxxing.Scheduler

/-! ## State -/

/-- What is fixed for the life of a pool: the backends there are and ever will be, the registry by
    role, and the acquire time-out. -/
structure Fleet where
  backend : Ref → Backend
  byRole : Role → List Ref
  acquireTimeout : Time

/-- What changes under the calls: the clock, the routing table, the flat backend map and each
    backend's live part. A step of the environment may replace all of it, so the refill that a
    reading of a bandwidth limiter does is one of its steps too. -/
structure Env where
  clock : Clock
  routing : Option RoutingTable
  backends : List (String × Ref)
  live : Ref → Live

/-- The arguments of a call. `Pool::acquire` passes no tenant; `acquire_tiered` takes one. -/
structure Request where
  role : Role
  localOnly : Bool
  priority : Int
  tenantId : Option Int

inductive AcquireError
  | noBackend (role : Role)
  | timeout (after : Time)
  | closed
  | capacityExhausted (role : Role) (tiersAttempted : ℕ)
deriving DecidableEq

/-- `guard` is the backend whose permit it holds. -/
structure Lease where
  backendId : String
  endpoint : String
  guard : Ref
  onDrop : Option Role
deriving DecidableEq

/-- `Lease::new`, as every caller builds it: with the id and endpoint of the candidate. -/
def Lease.new (fleet : Fleet) (b : Ref) : Lease :=
  ⟨(fleet.backend b).id, (fleet.backend b).endpoint.getD "", b, none⟩

def Lease.withNotify (role : Role) (l : Lease) : Lease := { l with onDrop := some role }

/-- Which of the two waiting loops a call is in. -/
inductive WaitPath
  /-- `wait_on_candidates` -/
  | candidates
  /-- `wait_on_union` -/
  | union (tiersAttempted : ℕ)

/-- The arguments of a waiting loop. -/
structure Wait where
  candidates : List Ref
  path : WaitPath

/-- The lease a successful retry returns: only the union wait attaches the notification. -/
def Wait.granted (w : Wait) (role : Role) (l : Lease) : Lease :=
  match w.path with
  | .candidates => l
  | .union _ => l.withNotify role

/-- The error of a waiting loop that timed out. -/
def Wait.timedOut (w : Wait) (fleet : Fleet) (role : Role) : AcquireError :=
  match w.path with
  | .candidates => .timeout fleet.acquireTimeout
  | .union n => .capacityExhausted role n

/-- Where `acquire_tiered` is in its loop: the tiers left, the current one first; its index; the
    number of effective tiers; and the candidates collected for the union wait. -/
structure Tiers where
  tiers : List (List RoutingEntry)
  index : ℕ
  attempted : ℕ
  union : List Ref

/-- On to the next tier. -/
def Tiers.next (p : Tiers) : Tiers := { p with tiers := p.tiers.tail, index := p.index + 1 }

/-- On to the next tier, with this tier's candidates in the union. -/
def Tiers.spill (p : Tiers) (cands : List Ref) : Tiers := { p.next with union := p.union ++ cands }

/-- How a tier wait ends. -/
inductive TierEnd
  | lease (b : Ref)
  | spill
  | dropped

/-- The program counter of a call. -/
inductive Pc
  /-- `acquire`, before it loads the routing table -/
  | start
  /-- `acquire_tiered`, at the head of its loop -/
  | tier (p : Tiers)
  /-- in `resolve_and_filter`: entries left, candidates so far -/
  | resolve (p : Tiers) (todo : List RoutingEntry) (cands : List Ref)
  /-- before `order_by_strategy` -/
  | order (p : Tiers) (cands : List Ref)
  /-- in `fast_path_try_acquire`: candidates left to try -/
  | fast (p : Tiers) (cands todo : List Ref)
  /-- `wait_on_tier`, at its `await` -/
  | tierWait (p : Tiers) (cands : List Ref)
  /-- in `Capacity::acquire`, right after a future of the wait got a permit of `b` -/
  | acquired (p : Tiers) (cands : List Ref) (b : Ref)
  /-- in `Capacity::acquire`, about to give a permit of `b` back because its bucket is empty -/
  | refused (p : Tiers) (cands : List Ref) (b : Ref)
  /-- at the end of `wait_on_tier`: futures left to drop -/
  | dropFutures (p : Tiers) (cands : List Ref) (todo : List (Ref × ℕ)) (outcome : TierEnd)
  /-- `acquire_legacy`: backends left to filter, candidates so far -/
  | gather (todo cands : List Ref)
  /-- before the sort of `acquire_legacy` -/
  | sort (cands : List Ref)
  /-- in `try_fast_path`, called from `acquire_legacy` -/
  | fastLegacy (cands todo : List Ref)
  /-- about to register in the waiter queue -/
  | register (w : Wait)
  /-- waiting for ticket `k` -/
  | waiting (w : Wait) (k : ℕ)
  /-- the ticket was fired and the call has not run since -/
  | woken (w : Wait)
  /-- in `try_fast_path`, called from a waiting loop -/
  | retry (w : Wait) (todo : List Ref)
  | returned (result : Except AcquireError Lease)
  /-- dropped by its caller -/
  | cancelled

/-- A call of `acquire`. -/
structure Call where
  request : Request
  pc : Pc

/-- A lease that is not yet gone: `dropping` between `Lease::drop` and the drop of its guard. -/
structure Held where
  lease : Lease
  dropping : Bool

structure State where
  env : Env
  caps : Ref → Capacity
  /-- `rr_counters` -/
  counters : ℕ × ℕ → ℕ
  calls : Serial Call
  leases : Serial Held
  /-- spawned `queue.notify(role)` tasks that have not run, each with the lease that spawned it -/
  notifications : List (ℕ × Role)
  /-- `wait_queue`: a sender is the call that holds the receiver, and the number of its ticket -/
  queue : WaiterQueue (ℕ × ℕ)
  /-- tickets made so far -/
  tickets : ℕ

/-- A pool with no calls and no leases. -/
def State.initial (env : Env) (caps : Ref → Capacity) : State :=
  ⟨env, caps, fun _ => 0, .empty, .empty, [], .new, 0⟩

/-! ## One step of a call -/

/-- What a step of a call does: its new program counter, and at most one write to a capacity and to a
    round-robin counter. -/
structure Move where
  pc : Pc
  cap : Option (Ref × Capacity)
  counter : Option ((ℕ × ℕ) × ℕ)

/-- Only the program counter moves. -/
def Move.to (pc : Pc) : Move := ⟨pc, none, none⟩

@[simp] theorem Move.pc_to (pc : Pc) : (Move.to pc).pc = pc := rfl

@[simp] theorem Move.cap_to (pc : Pc) : (Move.to pc).cap = none := rfl

/-- The tiers `acquire_tiered` walks: only the first one for embeddings. -/
def effectiveTiers (role : Role) (tiers : List (List RoutingEntry)) : List (List RoutingEntry) :=
  if role = .embed then tiers.take 1 else tiers

/-- One `try_acquire` of a fast path: on success the lease is returned, else the scan goes on. -/
def tryCandidate (fleet : Fleet) (env : Env) (caps : Ref → Capacity) (b : Ref) (attach : Lease → Lease)
    (next : Pc) : Move :=
  let got := (caps b).tryAcquire env.clock.now
  ⟨if got.1 then .returned (.ok (attach (.new fleet b))) else next, some (b, got.2), none⟩

/-- Test one candidate and keep it if it passes. -/
def testCandidate (fleet : Fleet) (env : Env) (caps : Ref → Capacity) (resident : Backend → Bool)
    (b : Ref) (cands : List Ref) (next : List Ref → Pc) : Move :=
  let check := ready env.clock (fleet.backend b) (env.live b) (caps b)
  ⟨next (if check.1 && resident (fleet.backend b) then cands ++ [b] else cands), some (b, check.2),
    none⟩

/-- A step of call `t` that is not at an `await`. `free` is what a sort reads of the free slots. -/
def advance (fleet : Fleet) (env : Env) (caps : Ref → Capacity) (counters : ℕ × ℕ → ℕ) (t : ℕ)
    (r : Request) (free : Ref → ℕ) : Pc → Option Move
  | .start =>
      match env.routing with
      | none => some (.to (.gather (fleet.byRole r.role) []))
      | some table =>
          let tiers := effectiveTiers r.role (table.tiersFor r.tenantId r.role)
          -- `NoBackend` falls back to the legacy path
          if tiers.isEmpty then some (.to (.gather (fleet.byRole r.role) []))
          else some (.to (.tier ⟨tiers, 0, tiers.length, []⟩))
  | .tier p =>
      match p.tiers with
      | [] =>
          if p.union.isEmpty then some (.to (.gather (fleet.byRole r.role) []))
          else some (.to (.register ⟨p.union, .union p.attempted⟩))
      | entries :: _ =>
          if entries.isEmpty then some (.to (.tier p.next)) else some (.to (.resolve p entries []))
  | .resolve p [] cands => some (.to (if cands.isEmpty then .tier p.next else .order p cands))
  | .resolve p (e :: todo) cands =>
      match env.backends.lookup (dbBackendKey e.modelId) with
      | none => some (.to (.resolve p todo cands))
      | some b => some (testCandidate fleet env caps (tieredResident r.localOnly) b cands
          (.resolve p todo))
  | .order p cands =>
      match p.tiers with
      | (e :: _) :: _ =>
          let key := (roleToRrKey r.role, p.index)
          let ordered := orderByStrategy fleet.backend e.strategy free (counters key) cands
          some ⟨.fast p ordered.1 ordered.1, none, some (key, ordered.2)⟩
      | _ => none
  | .fast p cands [] => some (.to (.tierWait p cands))
  | .fast p cands (b :: todo) =>
      some (tryCandidate fleet env caps b (.withNotify r.role) (.fast p cands todo))
  | .acquired p cands b =>
      let charged := (caps b).charge env.clock.now
      some ⟨if charged.1 then .dropFutures p cands cands.zipIdx (.lease b) else .refused p cands b,
        some (b, charged.2), none⟩
  | .refused p cands b =>
      some ⟨.dropFutures p cands cands.zipIdx .spill, some (b, (caps b).releasePermit), none⟩
  | .dropFutures p cands ((b, i) :: todo) outcome =>
      some ⟨.dropFutures p cands todo outcome, some (b, (caps b).cancel (t, i)), none⟩
  | .dropFutures _ _ [] (.lease b) =>
      some (.to (.returned (.ok ((Lease.new fleet b).withNotify r.role))))
  | .dropFutures p cands [] .spill => some (.to (.tier (p.spill cands)))
  | .dropFutures _ _ [] .dropped => some (.to .cancelled)
  | .gather [] cands =>
      some (.to (if cands.isEmpty then .returned (.error (.noBackend r.role)) else .sort cands))
  | .gather (b :: todo) cands =>
      some (testCandidate fleet env caps (legacyResident r.localOnly) b cands (.gather todo))
  | .sort cands =>
      let ordered := orderByPriority fleet.backend free cands
      some (.to (.fastLegacy ordered ordered))
  | .fastLegacy cands [] => some (.to (.register ⟨cands, .candidates⟩))
  | .fastLegacy cands (b :: todo) =>
      some (tryCandidate fleet env caps b (.withNotify r.role) (.fastLegacy cands todo))
  | .woken w => some (.to (.retry w w.candidates))
  | .retry w [] => some (.to (.register w))
  | .retry w (b :: todo) => some (tryCandidate fleet env caps b (w.granted r.role) (.retry w todo))
  | .tierWait .. | .register .. | .waiting .. | .returned .. | .cancelled => none

/-! ### Inversion of a step of a call -/

section Advance

variable (fleet : Fleet) (env : Env) (caps : Ref → Capacity) (t : ℕ) (r : Request)

/-- The steps of a call that touch nothing shared. -/
inductive Passes : Pc → Pc → Prop
  | legacy : Passes .start (.gather (fleet.byRole r.role) [])
  | tiered (tiers : List (List RoutingEntry)) : Passes .start (.tier ⟨tiers, 0, tiers.length, []⟩)
  | noTier (p : Tiers) : Passes (.tier p) (.gather (fleet.byRole r.role) [])
  | union (p : Tiers) : Passes (.tier p) (.register ⟨p.union, .union p.attempted⟩)
  | emptyTier (p : Tiers) : Passes (.tier p) (.tier p.next)
  | resolve (p : Tiers) (entries : List RoutingEntry) : Passes (.tier p) (.resolve p entries [])
  | noneResolved (p : Tiers) (cands : List Ref) : Passes (.resolve p [] cands) (.tier p.next)
  | resolved (p : Tiers) (cands : List Ref) : Passes (.resolve p [] cands) (.order p cands)
  | unknown (p : Tiers) (e : RoutingEntry) (todo : List RoutingEntry) (cands : List Ref) :
      Passes (.resolve p (e :: todo) cands) (.resolve p todo cands)
  | full (p : Tiers) (cands : List Ref) : Passes (.fast p cands []) (.tierWait p cands)
  | spill (p : Tiers) (cands : List Ref) :
      Passes (.dropFutures p cands [] .spill) (.tier (p.spill cands))
  | dropped (p : Tiers) (cands : List Ref) : Passes (.dropFutures p cands [] .dropped) .cancelled
  | noBackend (cands : List Ref) :
      Passes (.gather [] cands) (.returned (.error (.noBackend r.role)))
  | gathered (cands : List Ref) : Passes (.gather [] cands) (.sort cands)
  | sorted {cands ordered : List Ref} (hperm : ordered.Perm cands) :
      Passes (.sort cands) (.fastLegacy ordered ordered)
  | fullLegacy (cands : List Ref) :
      Passes (.fastLegacy cands []) (.register ⟨cands, .candidates⟩)

/-- What a step of a call can be. -/
inductive Advances : Pc → Move → Prop
  | passes {pc pc' : Pc} (h : Passes fleet r pc pc') : Advances pc (.to pc')
  | orders {p : Tiers} {cands ordered : List Ref} (hperm : ordered.Perm cands)
      (counter : (ℕ × ℕ) × ℕ) : Advances (.order p cands) ⟨.fast p ordered ordered, none, some counter⟩
  | tests (p : Tiers) (e : RoutingEntry) (todo : List RoutingEntry) (cands : List Ref) (b : Ref) :
      Advances (.resolve p (e :: todo) cands)
        (testCandidate fleet env caps (tieredResident r.localOnly) b cands (.resolve p todo))
  | testsLegacy (b : Ref) (todo cands : List Ref) :
      Advances (.gather (b :: todo) cands)
        (testCandidate fleet env caps (legacyResident r.localOnly) b cands (.gather todo))
  | tries (p : Tiers) (cands : List Ref) (b : Ref) (todo : List Ref) :
      Advances (.fast p cands (b :: todo))
        (tryCandidate fleet env caps b (.withNotify r.role) (.fast p cands todo))
  | triesLegacy (cands : List Ref) (b : Ref) (todo : List Ref) :
      Advances (.fastLegacy cands (b :: todo))
        (tryCandidate fleet env caps b (.withNotify r.role) (.fastLegacy cands todo))
  | charges (p : Tiers) (cands : List Ref) (b : Ref) :
      Advances (.acquired p cands b)
        ⟨if ((caps b).charge env.clock.now).1 then .dropFutures p cands cands.zipIdx (.lease b)
          else .refused p cands b, some (b, ((caps b).charge env.clock.now).2), none⟩
  | givesBack (p : Tiers) (cands : List Ref) (b : Ref) :
      Advances (.refused p cands b)
        ⟨.dropFutures p cands cands.zipIdx .spill, some (b, (caps b).releasePermit), none⟩
  | cancels (p : Tiers) (cands : List Ref) (b : Ref) (i : ℕ) (todo : List (Ref × ℕ))
      (outcome : TierEnd) :
      Advances (.dropFutures p cands ((b, i) :: todo) outcome)
        ⟨.dropFutures p cands todo outcome, some (b, (caps b).cancel (t, i)), none⟩
  | leases (p : Tiers) (cands : List Ref) (b : Ref) :
      Advances (.dropFutures p cands [] (.lease b))
        (.to (.returned (.ok ((Lease.new fleet b).withNotify r.role))))
  | resumes (w : Wait) : Advances (.woken w) (.to (.retry w w.candidates))
  | retries (w : Wait) (b : Ref) (todo : List Ref) :
      Advances (.retry w (b :: todo))
        (tryCandidate fleet env caps b (w.granted r.role) (.retry w todo))
  | givesUp (w : Wait) : Advances (.retry w []) (.to (.register w))

variable {fleet env caps t r}

theorem advance_inv {counters : ℕ × ℕ → ℕ} {free : Ref → ℕ} {pc : Pc} {m : Move}
    (h : advance fleet env caps counters t r free pc = some m) :
    Advances fleet env caps t r pc m := by
  revert h
  -- one goal for each branch of `advance` that moves
  fun_cases advance fleet env caps counters t r free pc <;> rintro ⟨⟩
  · exact .passes .legacy
  · exact .passes .legacy
  · exact .passes (.tiered _)
  · exact .passes (.noTier _)
  · exact .passes (.union _)
  · exact .passes (.emptyTier _)
  · exact .passes (.resolve _ _)
  · split
    · exact .passes (.noneResolved _ _)
    · exact .passes (.resolved _ _)
  · exact .passes (.unknown _ _ _ _)
  · exact .tests _ _ _ _ _
  · exact .orders (orderByStrategy_perm ..) _
  · exact .passes (.full _ _)
  · exact .tries _ _ _ _
  · exact .charges _ _ _
  · exact .givesBack _ _ _
  · exact .cancels _ _ _ _ _ _
  · exact .leases _ _ _
  · exact .passes (.spill _ _)
  · exact .passes (.dropped _ _)
  · split
    · exact .passes (.noBackend _)
    · exact .passes (.gathered _)
  · exact .testsLegacy _ _ _
  · exact .passes (.sorted (orderByPriority_perm ..))
  · exact .passes (.fullLegacy _)
  · exact .triesLegacy _ _ _
  · exact .resumes _
  · exact .givesUp _
  · exact .retries _ _ _

end Advance

/-! ## The system -/

/-- Set the program counter of a call. -/
def State.setPc (s : State) (t : ℕ) (pc : Pc) : State :=
  { s with calls := s.calls.modify t fun c => { c with pc := pc } }

/-- A returned lease is alive from then on. -/
def State.keep (s : State) : Pc → State
  | .returned (.ok lease) => { s with leases := s.leases.insert ⟨lease, false⟩ }
  | _ => s

/-- Carry out a step of call `t`. -/
def State.perform (s : State) (t : ℕ) (m : Move) : State :=
  let s := (s.keep m.pc).setPc t m.pc
  { s with
    caps := match m.cap with
      | some (b, c) => Function.update s.caps b c
      | none => s.caps
    counters := match m.counter with
      | some (key, n) => Function.update s.counters key n
      | none => s.counters }

/-- Whether the receiver of a sender is still there: its call still waits for that ticket. -/
def State.alive (s : State) (tx : ℕ × ℕ) : Bool :=
  match s.calls.get? tx.1 with
  | some ⟨_, .waiting _ k⟩ => k == tx.2
  | _ => false

/-- The call whose ticket is fired. -/
def Pc.fire : Pc → Pc
  | .waiting w _ => .woken w
  | pc => pc

inductive Act
  /-- the environment changes -/
  | env (e : Env)
  | call (r : Request)
  /-- a call takes its next step -/
  | run (t : ℕ) (free : Ref → ℕ)
  /-- a tier wait polls its future `i` -/
  | poll (t i : ℕ)
  /-- a time-out fires -/
  | elapse (t : ℕ)
  /-- the caller drops its call -/
  | drop (t : ℕ)
  /-- `Lease::drop` -/
  | dropLease (l : ℕ)
  /-- the drop of the lease's fields, the guard among them -/
  | release (l : ℕ)
  /-- a spawned notification runs -/
  | notify (i : ℕ)

/-- `register` in the waiter queue. -/
def State.register (s : State) (t : ℕ) (r : Request) (w : Wait) : State :=
  { s.setPc t (.waiting w s.tickets) with
    queue := s.queue.register r.role r.priority (t, s.tickets)
    tickets := s.tickets + 1 }

/-- One step of the system; none if the action is not possible. -/
def step (fleet : Fleet) (s : State) : Act → Option State
  | .env e => some { s with env := e }
  | .call r => some { s with calls := s.calls.insert ⟨r, .start⟩ }
  | .run t free => do
      let call ← s.calls.get? t
      match call.pc with
      | .register w => some (s.register t call.request w)
      | pc => (advance fleet s.env s.caps s.counters t call.request free pc).map (s.perform t)
  | .poll t i => do
      let call ← s.calls.get? t
      match call.pc with
      | .tierWait p cands => do
          let b ← cands[i]?
          let polled := (s.caps b).poll (t, i)
          some (s.perform t ⟨if polled.1 then .acquired p cands b else .tierWait p cands,
            some (b, polled.2), none⟩)
      | _ => none
  | .elapse t => do
      let call ← s.calls.get? t
      match call.pc with
      | .tierWait p cands => some (s.setPc t (.dropFutures p cands cands.zipIdx .spill))
      | .waiting w _ | .woken w =>
          some (s.setPc t (.returned (.error (w.timedOut fleet call.request.role))))
      | _ => none
  | .drop t => do
      let call ← s.calls.get? t
      match call.pc with
      | .tierWait p cands => some (s.setPc t (.dropFutures p cands cands.zipIdx .dropped))
      | .register _ | .waiting _ _ | .woken _ => some (s.setPc t .cancelled)
      | _ => none
  | .dropLease l => do
      let held ← s.leases.get? l
      if held.dropping then none
      else some { s with
        leases := s.leases.modify l fun h => { h with dropping := true }
        -- spawned here, while the guard is still held
        notifications := s.notifications ++ (held.lease.onDrop.map fun role => (l, role)).toList }
  | .release l => do
      let held ← s.leases.get? l
      if held.dropping then
        some { s with
          caps := Function.update s.caps held.lease.guard (s.caps held.lease.guard).dropPermit
          leases := s.leases.erase l }
      else none
  | .notify i => do
      let n ← s.notifications[i]?
      let rung := s.queue.notify s.alive n.2
      let s := { s with queue := rung.2, notifications := s.notifications.eraseIdx i }
      match rung.1 with
      | some tx => some { s with calls := s.calls.modify tx.1 fun c => { c with pc := c.pc.fire } }
      | none => some s

theorem step_run {fleet : Fleet} {s : State} {t : ℕ} {free : Ref → ℕ} {call : Call} {m : Move}
    (hcall : s.calls.get? t = some call)
    (hm : advance fleet s.env s.caps s.counters t call.request free call.pc = some m) :
    step fleet s (.run t free) = some (s.perform t m) := by
  simp only [step, hcall, Option.bind_eq_bind, Option.bind_some]
  split
  next w hpc => simp [advance, hpc] at hm
  next => rw [hm, Option.map_some]

/-! ## Inversion -/

/-- What a step can be: one constructor for each kind of transition. -/
inductive Step (fleet : Fleet) (s : State) : Act → State → Prop
  | env (e : Env) : Step fleet s (.env e) { s with env := e }
  | call (r : Request) : Step fleet s (.call r) { s with calls := s.calls.insert ⟨r, .start⟩ }
  | register {t : ℕ} {free : Ref → ℕ} {call : Call} {w : Wait} (hcall : s.calls.get? t = some call)
      (hpc : call.pc = .register w) : Step fleet s (.run t free) (s.register t call.request w)
  | advance {t : ℕ} {free : Ref → ℕ} {call : Call} {m : Move} (hcall : s.calls.get? t = some call)
      (hm : advance fleet s.env s.caps s.counters t call.request free call.pc = some m) :
      Step fleet s (.run t free) (s.perform t m)
  | poll {t i : ℕ} {call : Call} {p : Tiers} {cands : List Ref} {b : Ref}
      (hcall : s.calls.get? t = some call) (hpc : call.pc = .tierWait p cands)
      (hb : cands[i]? = some b) :
      Step fleet s (.poll t i) (s.perform t
        ⟨if ((s.caps b).poll (t, i)).1 then .acquired p cands b else .tierWait p cands,
          some (b, ((s.caps b).poll (t, i)).2), none⟩)
  | elapseTier {t : ℕ} {call : Call} {p : Tiers} {cands : List Ref}
      (hcall : s.calls.get? t = some call) (hpc : call.pc = .tierWait p cands) :
      Step fleet s (.elapse t) (s.setPc t (.dropFutures p cands cands.zipIdx .spill))
  | elapseWait {t : ℕ} {call : Call} {w : Wait} (hcall : s.calls.get? t = some call)
      (hpc : (∃ k, call.pc = .waiting w k) ∨ call.pc = .woken w) :
      Step fleet s (.elapse t)
        (s.setPc t (.returned (.error (w.timedOut fleet call.request.role))))
  | dropTier {t : ℕ} {call : Call} {p : Tiers} {cands : List Ref}
      (hcall : s.calls.get? t = some call) (hpc : call.pc = .tierWait p cands) :
      Step fleet s (.drop t) (s.setPc t (.dropFutures p cands cands.zipIdx .dropped))
  | dropWait {t : ℕ} {call : Call} {w : Wait} (hcall : s.calls.get? t = some call)
      (hpc : call.pc = .register w ∨ (∃ k, call.pc = .waiting w k) ∨ call.pc = .woken w) :
      Step fleet s (.drop t) (s.setPc t .cancelled)
  | dropLease {l : ℕ} {held : Held} (hheld : s.leases.get? l = some held)
      (hdropping : held.dropping = false) :
      Step fleet s (.dropLease l) { s with
        leases := s.leases.modify l fun h => { h with dropping := true }
        notifications := s.notifications ++ (held.lease.onDrop.map fun role => (l, role)).toList }
  | release {l : ℕ} {held : Held} (hheld : s.leases.get? l = some held)
      (hdropping : held.dropping = true) :
      Step fleet s (.release l) { s with
        caps := Function.update s.caps held.lease.guard (s.caps held.lease.guard).dropPermit
        leases := s.leases.erase l }
  | notifyFired {i : ℕ} {n : ℕ × Role} {tx : ℕ × ℕ} (hn : s.notifications[i]? = some n)
      (hfired : (s.queue.notify s.alive n.2).1 = some tx) :
      Step fleet s (.notify i) { s with
        queue := (s.queue.notify s.alive n.2).2
        notifications := s.notifications.eraseIdx i
        calls := s.calls.modify tx.1 fun c => { c with pc := c.pc.fire } }
  | notifyNone {i : ℕ} {n : ℕ × Role} (hn : s.notifications[i]? = some n)
      (hfired : (s.queue.notify s.alive n.2).1 = none) :
      Step fleet s (.notify i) { s with
        queue := (s.queue.notify s.alive n.2).2
        notifications := s.notifications.eraseIdx i }

theorem step_inv {fleet : Fleet} {s s' : State} {a : Act} (h : step fleet s a = some s') :
    Step fleet s a s' := by
  cases a with
  | env e =>
    cases h
    exact .env e
  | call r =>
    cases h
    exact .call r
  | run t free =>
    obtain ⟨call, hcall, h⟩ := Option.bind_eq_some_iff.1 h
    split at h
    next w hpc =>
      cases h
      exact .register hcall hpc
    next =>
      obtain ⟨m, hm, rfl⟩ := Option.map_eq_some_iff.1 h
      exact .advance hcall hm
  | poll t i =>
    obtain ⟨call, hcall, h⟩ := Option.bind_eq_some_iff.1 h
    split at h
    next p cands hpc =>
      obtain ⟨b, hb, ⟨⟩⟩ := Option.bind_eq_some_iff.1 h
      exact .poll hcall hpc hb
    next => cases h
  | elapse t =>
    obtain ⟨call, hcall, h⟩ := Option.bind_eq_some_iff.1 h
    split at h <;> cases h
    next p cands hpc => exact .elapseTier hcall hpc
    next w k hpc => exact .elapseWait hcall (.inl ⟨k, hpc⟩)
    next w hpc => exact .elapseWait hcall (.inr hpc)
  | drop t =>
    obtain ⟨call, hcall, h⟩ := Option.bind_eq_some_iff.1 h
    split at h <;> cases h
    next p cands hpc => exact .dropTier hcall hpc
    next w hpc => exact .dropWait hcall (.inl hpc)
    next w k hpc => exact .dropWait hcall (.inr (.inl ⟨k, hpc⟩))
    next w hpc => exact .dropWait hcall (.inr (.inr hpc))
  | dropLease l =>
    obtain ⟨held, hheld, h⟩ := Option.bind_eq_some_iff.1 h
    split at h <;> cases h
    next hdropping => exact .dropLease hheld (by simpa using hdropping)
  | release l =>
    obtain ⟨held, hheld, h⟩ := Option.bind_eq_some_iff.1 h
    split at h <;> cases h
    next hdropping => exact .release hheld hdropping
  | notify i =>
    obtain ⟨n, hn, h⟩ := Option.bind_eq_some_iff.1 h
    dsimp only at h
    split at h <;> cases h
    next tx hfired => exact .notifyFired hn hfired
    next hfired => exact .notifyNone hn hfired

/-! ## What `perform` leaves alone -/

section Perform

variable (s : State) (t : ℕ) (m : Move)

@[simp] theorem State.calls_perform :
    (s.perform t m).calls = s.calls.modify t fun c => { c with pc := m.pc } := by
  have hkeep : (s.keep m.pc).calls = s.calls := by
    unfold State.keep
    split <;> rfl
  rw [← hkeep]
  rfl

@[simp] theorem State.queue_perform : (s.perform t m).queue = s.queue := by
  show (s.keep m.pc).queue = s.queue
  unfold State.keep
  split <;> rfl

@[simp] theorem State.notifications_perform :
    (s.perform t m).notifications = s.notifications := by
  show (s.keep m.pc).notifications = s.notifications
  unfold State.keep
  split <;> rfl

/-- The leases alive before, and the one returned, if any. -/
theorem State.leases_perform :
    (s.perform t m).leases = s.leases ∨
      ∃ lease, m.pc = .returned (.ok lease) ∧ (s.perform t m).leases = s.leases.insert ⟨lease, false⟩ := by
  show (s.keep m.pc).leases = s.leases ∨ ∃ lease, m.pc = _ ∧ (s.keep m.pc).leases = _
  unfold State.keep
  split
  next lease hpc => exact .inr ⟨lease, hpc, rfl⟩
  next => exact .inl rfl

/-- The capacities, with the one written, if any. -/
theorem State.caps_perform :
    (s.perform t m).caps = match m.cap with
      | some (b, c) => Function.update s.caps b c
      | none => s.caps := by
  have hkeep : (s.keep m.pc).caps = s.caps := by
    unfold State.keep
    split <;> rfl
  rw [← hkeep]
  rfl

end Perform

/-! ## Setting a program counter -/

variable {calls : Serial Call} {f : Call → Pc} {c : Call} {i : ℕ}

section

variable {t : ℕ} (h : (calls.modify t fun c => { c with pc := f c }).get? i = some c)

include h

theorem get?_modify_pc :
    i ≠ t ∧ calls.get? i = some c ∨
      ∃ c₀, i = t ∧ calls.get? t = some c₀ ∧ c = { c₀ with pc := f c₀ } := by
  obtain ⟨c₀, hc₀, rfl⟩ := Serial.get?_of_modify h
  by_cases hi : i = t
  · exact .inr ⟨c₀, hi, hi ▸ hc₀, if_pos hi⟩
  · rw [if_neg hi]
    exact .inl ⟨hi, hc₀⟩

/-- Setting a program counter leaves every call with its request. -/
theorem get?_modify_request :
    ∃ c₀, calls.get? i = some c₀ ∧ c.request = c₀.request := by
  rcases get?_modify_pc h with ⟨-, hc⟩ | ⟨c₀, rfl, hc₀, rfl⟩
  · exact ⟨c, hc, rfl⟩
  · exact ⟨c₀, hc₀, rfl⟩

end

end Tagsmaxxing.Scheduler
