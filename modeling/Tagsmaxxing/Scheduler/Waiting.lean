import Tagsmaxxing.Scheduler.Pool

/-! # Waiting calls

Who waits and who has been woken, and what the steps of the system do to them. `Wired` ties the tables
of the state together in every reachable state; `Effect` says what a step of a call can do to free
slots and to woken waiters. -/

namespace Tagsmaxxing.Scheduler

/-! ## Waiting and woken calls -/

/-- The wait of a live registered waiter. -/
def Pc.awaited : Pc → Option Wait
  | .waiting w _ => some w
  | _ => none

/-- The wait of a woken waiter that has not finished its retry. -/
def Pc.woken? : Pc → Option Wait
  | .woken w | .retry w _ => some w
  | _ => none

/-- The waits of the calls of a role that are at a given place. -/
def State.waitsAt (s : State) (place : Pc → Option Wait) (r : Role) : List Wait :=
  s.calls.rows.filterMap fun c => if c.2.request.role = r then place c.2.pc else none

/-- The live registered waiters of a role. -/
def State.waiters (s : State) (r : Role) : List Wait := s.waitsAt Pc.awaited r

/-- The woken waiters of a role that have yet to retry. -/
def State.woken (s : State) (r : Role) : List Wait := s.waitsAt Pc.woken? r

/-! ## Who waits -/

variable {w : Wait} {s s' : State} {c : Call} {pc : Pc}

theorem State.mem_waitsAt {place : Pc → Option Wait} {r : Role} :
    w ∈ s.waitsAt place r ↔
      ∃ t c, s.calls.get? t = some c ∧ c.request.role = r ∧ place c.pc = some w := by
  unfold State.waitsAt
  rw [List.mem_filterMap]
  constructor
  · rintro ⟨x, hx, hw⟩
    split at hw
    next hr => exact ⟨x.1, x.2, (Serial.get?_eq_some_iff ..).2 hx, hr, hw⟩
    next => cases hw
  · rintro ⟨t, c, hc, hr, hw⟩
    exact ⟨(t, c), (Serial.get?_eq_some_iff ..).1 hc, (if_pos hr).trans hw⟩

variable {t : ℕ}

/-- A step that sets one program counter: who waits afterwards waited before, or is that call. -/
theorem State.mem_waiters_modify {f : Call → Pc} (hc : s.calls.get? t = some c)
    (hcalls : s'.calls = s.calls.modify t fun c => { c with pc := f c }) {r : Role} (hw : w ∈ s'.waiters r) :
    w ∈ s.waiters r ∨ c.request.role = r ∧ (f c).awaited = some w := by
  obtain ⟨i, c', hc', hr, hw⟩ := State.mem_waitsAt.1 hw
  rw [hcalls] at hc'
  rcases get?_modify_pc hc' with ⟨-, hold⟩ | ⟨c₀, rfl, hc₀, rfl⟩
  · exact .inl (State.mem_waitsAt.2 ⟨i, c', hold, hr, hw⟩)
  · cases hc.symm.trans hc₀
    exact .inr ⟨hr, hw⟩

theorem Pc.waiting_of_awaited (h : pc.awaited = some w) : ∃ k, pc = .waiting w k := by
  cases pc with
  | waiting w' k =>
    cases h
    exact ⟨k, rfl⟩
  | _ => exact absurd h (by simp [Pc.awaited])

/-! ## The wiring of queue, leases and retries -/

/-- What ties the tables together, whatever the steps. -/
structure Wired (s : State) : Prop where
  /-- who waits is registered under its role -/
  registered : ∀ t c w k, s.calls.get? t = some c → c.pc = .waiting w k →
    (t, k) ∈ s.queue.senders c.request.role
  /-- a registered sender belongs to a call of the role -/
  senders : ∀ r tx, tx ∈ s.queue.senders r →
    tx.1 < s.calls.next ∧ ∀ c, s.calls.get? tx.1 = some c → c.request.role = r
  /-- a notification belongs to a lease that was made -/
  spawned : ∀ n ∈ s.notifications, n.1 < s.leases.next
  /-- a retry tries candidates of its wait -/
  retrying : ∀ t c w todo, s.calls.get? t = some c → c.pc = .retry w todo → ∀ b ∈ todo, b ∈ w.candidates

theorem Wired.initial (env : Env) (caps : Ref → Capacity) : Wired (.initial env caps) where
  registered t c w k hc := absurd hc (by simp [State.initial])
  senders r tx htx := absurd htx (by
    simp [State.initial, WaiterQueue.new, WaiterQueue.senders, RoleWaiters.senders, RoleWaiters.sendersOf])
  spawned n hn := absurd hn (by simp [State.initial])
  retrying t c w todo hc := absurd hc (by simp [State.initial])

/-- A step that sets the program counter of call `t`, and registers at most that call. -/
theorem Wired.setPc (h : Wired s) (hc : s.calls.get? t = some c)
    (hcalls : s'.calls = s.calls.modify t fun c => { c with pc := pc })
    (hqueue : ∀ r x, x ∈ s'.queue.senders r ↔ x ∈ s.queue.senders r ∨
      r = c.request.role ∧ x.1 = t ∧ ∃ w, pc = .waiting w x.2)
    (hwait : ∀ w k, pc = .waiting w k → (t, k) ∈ s'.queue.senders c.request.role)
    (hretry : ∀ w todo, pc = .retry w todo → ∀ b ∈ todo, b ∈ w.candidates)
    (hnotes : s'.notifications = s.notifications) (hnext : s.leases.next ≤ s'.leases.next) :
    Wired s' where
  registered i c' w k hc' hpc := by
    rw [hcalls] at hc'
    rcases get?_modify_pc hc' with ⟨-, hold⟩ | ⟨c₀, rfl, hc₀, rfl⟩
    · exact (hqueue _ _).2 (.inl (h.registered i c' w k hold hpc))
    · cases hc.symm.trans hc₀
      exact hwait w k hpc
  senders r tx htx := by
    have hlt : tx.1 < s.calls.next ∧ ∀ c, s.calls.get? tx.1 = some c → c.request.role = r := by
      rcases (hqueue r tx).1 htx with htx | ⟨hr, ht, -⟩
      · exact h.senders r tx htx
      · refine ⟨ht ▸ Serial.lt_next_of_get? hc, fun c₀ hc₀ => ?_⟩
        rw [ht, hc] at hc₀
        rw [← Option.some.inj hc₀, hr]
    refine ⟨hcalls ▸ hlt.1, fun c' hc' => ?_⟩
    rw [hcalls] at hc'
    obtain ⟨c₀, hc₀, hreq⟩ := get?_modify_request hc'
    rw [hreq]
    exact hlt.2 c₀ hc₀
  spawned n hn := by
    rw [hnotes] at hn
    exact (h.spawned n hn).trans_le hnext
  retrying i c' w todo hc' hpc := by
    rw [hcalls] at hc'
    rcases get?_modify_pc hc' with ⟨-, hold⟩ | ⟨c₀, rfl, hc₀, rfl⟩
    · exact h.retrying i c' w todo hold hpc
    · exact hretry w todo hpc

/-! ## What a step of a call does to free slots and woken waiters -/

/-- The backend to which a step of call `t` returns a permit nobody is queued for. -/
def Pc.freed (caps : Ref → Capacity) (t : ℕ) : Pc → Option Ref
  | .refused _ _ b => if (caps b).sem.waiters = [] then some b else none
  | .dropFutures _ _ ((b, i) :: _) _ => if (caps b).sem.cancelFrees (t, i) then some b else none
  | _ => none

/-- Neither waiting nor woken. -/
def Pc.Calm (pc : Pc) : Prop := pc.awaited = none ∧ pc.woken? = none

/-- What a step of a call can do. -/
inductive Effect (caps : Ref → Capacity) (t : ℕ) (pc : Pc) (m : Move) : Prop
  /-- a call that is not woken frees no slot -/
  | calm (hold : pc.woken? = none) (hnew : m.pc.Calm)
      (hcap : ∀ x ∈ m.cap, x.2.free ≤ (caps x.1).free)
  /-- a permit of a tier wait becomes free -/
  | frees {b : Ref} {c : Capacity} (hfreed : pc.freed caps t = some b) (hold : pc.woken? = none)
      (hnew : m.pc.Calm) (hcap : m.cap = some (b, c))
  /-- a woken waiter starts its retry -/
  | resumes {w : Wait} (hpc : pc = .woken w) (hm : m = .to (.retry w w.candidates))
  /-- a woken waiter finds a candidate full -/
  | tries {w : Wait} {b : Ref} {todo : List Ref} {c : Capacity} (hpc : pc = .retry w (b :: todo))
      (hnew : m.pc = .retry w todo) (hcap : m.cap = some (b, c)) (hfree : c.free ≤ (caps b).free)
  /-- a woken waiter takes a slot -/
  | takes {w : Wait} {b : Ref} {todo : List Ref} {c : Capacity} (hpc : pc = .retry w (b :: todo))
      (hnew : m.pc.Calm) (hcap : m.cap = some (b, c)) (hfree : (caps b).free = c.free + 1)
  /-- a woken waiter has tried all its candidates in vain -/
  | givesUp {w : Wait} (hpc : pc = .retry w []) (hm : m = .to (.register w))

variable {todo : List Ref} {m : Move}

section Advance

variable {fleet : Fleet} {env : Env} {caps : Ref → Capacity}

theorem effect_to {pc' : Pc} (hold : pc.woken? = none) (hnew : pc'.Calm) :
    Effect caps t pc (.to pc') :=
  .calm hold hnew (by simp)

variable {b : Ref}

theorem effect_testCandidate {resident : Backend → Bool} {cands : List Ref} {next : List Ref → Pc}
    (hold : pc.woken? = none) (hnew : ∀ l, (next l).Calm) :
    Effect caps t pc (testCandidate fleet env caps resident b cands next) := by
  refine .calm hold (hnew _) fun x hx => ?_
  cases hx
  simp [Capacity.free]

theorem free_tryAcquire (now : Time) (c : Capacity) :
    c.free = (c.tryAcquire now).2.free + (c.tryAcquire now).1.toNat := by
  rcases c.tryAcquire_cases now with ⟨hgot, hsem⟩ | ⟨hgot, hsem⟩
  · rw [hgot]
    exact Semaphore.permits_tryAcquire hsem
  · rw [hgot]
    exact (congrArg Semaphore.permits hsem).symm

variable {attach : Lease → Lease}

theorem effect_tryCandidate {next : Pc} (hold : pc.woken? = none) (hnext : next.Calm) :
    Effect caps t pc (tryCandidate fleet env caps b attach next) := by
  refine .calm hold ?_ fun x hx => ?_
  · show Pc.Calm (if _ then _ else _)
    split
    · exact ⟨rfl, rfl⟩
    · exact hnext
  · cases hx
    rw [free_tryAcquire env.clock.now (caps b)]
    exact Nat.le_add_right _ _

theorem effect_retry :
    Effect caps t (.retry w (b :: todo)) (tryCandidate fleet env caps b attach (.retry w todo)) := by
  have hfree := free_tryAcquire env.clock.now (caps b)
  cases hgot : ((caps b).tryAcquire env.clock.now).1 with
  | true =>
    rw [hgot] at hfree
    exact .takes rfl (by simp [tryCandidate, hgot, Pc.Calm, Pc.awaited, Pc.woken?]) rfl hfree
  | false => exact .tries rfl (by simp [tryCandidate, hgot]) rfl (by omega)

theorem effect_advance {counters : ℕ × ℕ → ℕ} {r : Request} {free : Ref → ℕ}
    (h : advance fleet env caps counters t r free pc = some m) : Effect caps t pc m := by
  cases advance_inv h with
  | passes hpass => cases hpass <;> exact effect_to rfl ⟨rfl, rfl⟩
  | orders hperm counter => exact .calm rfl ⟨rfl, rfl⟩ (by simp)
  | tests p e todo cands b | testsLegacy b todo cands => exact effect_testCandidate rfl fun _ => ⟨rfl, rfl⟩
  | tries p cands b todo | triesLegacy cands b todo => exact effect_tryCandidate rfl ⟨rfl, rfl⟩
  | charges p cands b =>
    refine .calm rfl ?_ fun x hx => ?_
    · show Pc.Calm (if _ then _ else _)
      split <;> exact ⟨rfl, rfl⟩
    · cases hx
      simp [Capacity.free]
  | givesBack p cands b =>
    by_cases hq : (caps b).sem.waiters = []
    · exact .frees (if_pos hq) rfl ⟨rfl, rfl⟩ rfl
    · refine .calm rfl ⟨rfl, rfl⟩ fun x hx => ?_
      cases hx
      simp [Capacity.free, Semaphore.permits_release, hq]
  | cancels p cands b i todo outcome =>
    by_cases hq : (caps b).sem.cancelFrees (t, i) = true
    · exact .frees (if_pos hq) rfl ⟨rfl, rfl⟩ rfl
    · refine .calm rfl ⟨rfl, rfl⟩ fun x hx => ?_
      cases hx
      simp [Capacity.free, Semaphore.permits_cancel, hq]
  | leases p cands b => exact effect_to rfl ⟨rfl, rfl⟩
  | resumes w => exact .resumes rfl rfl
  | retries w b todo => exact effect_retry
  | givesUp w => exact .givesUp rfl rfl

end Advance

theorem Pc.Calm.ne_retry (h : pc.Calm) (w : Wait) (todo : List Ref) : pc ≠ .retry w todo :=
  fun hpc => absurd h.2 (by simp [hpc, Pc.woken?])

theorem Effect.awaited {caps : Ref → Capacity} (h : Effect caps t pc m) : m.pc.awaited = none := by
  cases h with
  | calm hold hnew hcap | frees hfreed hold hnew hcap | takes hpc hnew hcap hfree => exact hnew.1
  | resumes hpc hm | givesUp hpc hm => rw [hm]; rfl
  | tries hpc hnew hcap hfree => rw [hnew]; rfl

/-- A retry goes through the candidates of its wait. -/
theorem Effect.retry {caps : Ref → Capacity} (h : Effect caps t pc m)
    (hpc : ∀ w todo, pc = .retry w todo → ∀ b ∈ todo, b ∈ w.candidates) :
    ∀ w todo, m.pc = .retry w todo → ∀ b ∈ todo, b ∈ w.candidates := by
  intro w todo hm'
  cases h with
  | calm hold hnew hcap | frees hfreed hold hnew hcap | takes hpc' hnew hcap hfree =>
    exact absurd hm' (hnew.ne_retry w todo)
  | resumes hpc' hm =>
    rw [hm] at hm'
    injection hm' with hw htodo
    subst hw htodo
    exact fun b hb => hb
  | tries hpc' hnew hcap hfree =>
    rw [hnew] at hm'
    injection hm' with hw htodo
    subst hw htodo
    exact fun b hb => hpc _ _ hpc' b (List.mem_cons_of_mem _ hb)
  | givesUp hpc' hm => rw [hm] at hm'; cases hm'

/-! ## The wiring holds -/

/-- A step that sets the program counter of a call and leaves the queue alone. -/
theorem Wired.setPc_of_awaited (h : Wired s) (hc : s.calls.get? t = some c)
    (hcalls : s'.calls = s.calls.modify t fun c => { c with pc := pc }) (hqueue : s'.queue = s.queue)
    (hwait : pc.awaited = none) (hretry : ∀ w todo, pc = .retry w todo → ∀ b ∈ todo, b ∈ w.candidates)
    (hnotes : s'.notifications = s.notifications) (hnext : s.leases.next ≤ s'.leases.next) : Wired s' := by
  have hne : ∀ w k, pc ≠ .waiting w k := fun w k hpc => absurd hwait (by simp [hpc, Pc.awaited])
  refine h.setPc hc hcalls (fun r x => ?_) (fun w k hpc => absurd hpc (hne w k)) hretry hnotes hnext
  rw [hqueue]
  exact ⟨.inl, fun hx => hx.elim id fun ⟨_, _, w, hpc⟩ => absurd hpc (hne w x.2)⟩

theorem next_le_leases_perform (s : State) (t : ℕ) (m : Move) :
    s.leases.next ≤ (s.perform t m).leases.next := by
  rcases s.leases_perform t m with heq | ⟨lease, -, heq⟩
  · rw [heq]
  · rw [heq, Serial.next_insert]
    exact Nat.le_succ _

variable {tx : ℕ × ℕ}

theorem State.alive_iff :
    s.alive tx = true ↔ ∃ c w, s.calls.get? tx.1 = some c ∧ c.pc = .waiting w tx.2 := by
  unfold State.alive
  split
  next r w k hc => simp [hc]
  next hne =>
    refine ⟨fun h => absurd h (by simp), fun ⟨c, w, hc, hpc⟩ => ?_⟩
    obtain ⟨r, pc⟩ := c
    subst hpc
    exact absurd hc (hne r w tx.2)

theorem Pc.fire_ne_waiting (pc : Pc) (w : Wait) (k : ℕ) : pc.fire ≠ .waiting w k := by
  cases pc <;> simp [Pc.fire]

theorem Pc.fire_eq_retry (h : pc.fire = .retry w todo) : pc = .retry w todo := by
  cases pc <;> simp_all [Pc.fire]

theorem Wired.call (h : Wired s) (r : Request) :
    Wired { s with calls := s.calls.insert ⟨r, .start⟩ } := by
  refine ⟨fun t c w k hc hpc => ?_, fun r' tx htx => ⟨?_, fun c hc => ?_⟩, h.spawned, fun t c w todo hc hpc => ?_⟩
  · rw [Serial.get?_insert] at hc
    split at hc
    · cases hc
      cases hpc
    · exact h.registered t c w k hc hpc
  · exact (h.senders r' tx htx).1.trans (Nat.lt_succ_self _)
  · have hne : tx.1 ≠ s.calls.next := (h.senders r' tx htx).1.ne
    rw [Serial.get?_insert, if_neg hne] at hc
    exact (h.senders r' tx htx).2 c hc
  · rw [Serial.get?_insert] at hc
    split at hc
    · cases hc
      cases hpc
    · exact h.retrying t c w todo hc hpc

variable {n : ℕ × Role}

/-- A notification that finds nobody drops stale senders only. -/
theorem Wired.notifyNone (h : Wired s) (i : ℕ) (hfired : (s.queue.notify s.alive n.2).1 = none) :
    Wired { s with
      queue := (s.queue.notify s.alive n.2).2
      notifications := s.notifications.eraseIdx i } := by
  refine ⟨fun t c w k hc hpc => ?_, fun r tx htx => ?_,
    fun n hn => h.spawned n (List.mem_of_mem_eraseIdx hn), h.retrying⟩
  · have halive : s.alive (t, k) = true := State.alive_iff.2 ⟨c, w, hc, hpc⟩
    refine (WaiterQueue.fired_or_kept n.2 (h.registered t c w k hc hpc) halive).resolve_left ?_
    simp [hfired]
  · exact h.senders r tx (WaiterQueue.mem_of_mem_notify _ _ _ _ _ htx)

/-- A notification that fires takes the fired sender's call out of its wait. -/
theorem Wired.notifyFired (h : Wired s) (i : ℕ) (hfired : (s.queue.notify s.alive n.2).1 = some tx) :
    Wired { s with
      queue := (s.queue.notify s.alive n.2).2
      notifications := s.notifications.eraseIdx i
      calls := s.calls.modify tx.1 fun c => { c with pc := c.pc.fire } } := by
  refine ⟨fun t c' w k hc' hpc => ?_, fun r x hx => ⟨?_, fun c' hc' => ?_⟩,
    fun n hn => h.spawned n (List.mem_of_mem_eraseIdx hn), fun t c' w todo hc' hpc => ?_⟩
  · rcases get?_modify_pc hc' with ⟨ht, hc⟩ | ⟨c, rfl, hc, rfl⟩
    · have halive : s.alive (t, k) = true := State.alive_iff.2 ⟨c', w, hc, hpc⟩
      refine (WaiterQueue.fired_or_kept n.2 (h.registered t c' w k hc hpc) halive).resolve_left ?_
      rw [hfired]
      exact fun heq => ht (congrArg Prod.fst (Option.some.inj heq)).symm
    · exact absurd hpc (Pc.fire_ne_waiting c.pc w k)
  · exact (h.senders r x (WaiterQueue.mem_of_mem_notify _ _ _ _ _ hx)).1
  · obtain ⟨c, hc, hreq⟩ := get?_modify_request hc'
    rw [hreq]
    exact (h.senders r x (WaiterQueue.mem_of_mem_notify _ _ _ _ _ hx)).2 c hc
  · rcases get?_modify_pc hc' with ⟨-, hc⟩ | ⟨c, rfl, hc, rfl⟩
    · exact h.retrying t c' w todo hc hpc
    · exact h.retrying _ c w todo hc (Pc.fire_eq_retry hpc)

theorem wired_step {fleet : Fleet} {a : Act} (h : Wired s) (hs : Step fleet s a s') : Wired s' := by
  cases hs with
  | env e | release hheld hdropping => exact ⟨h.registered, h.senders, h.spawned, h.retrying⟩
  | call r => exact h.call r
  | @register t free c w hcall hpc =>
    refine h.setPc hcall rfl (fun r x => ?_) (fun w' k hw => ?_) (by simp) rfl le_rfl
    · show x ∈ (s.queue.register _ _ _).senders r ↔ _
      rw [WaiterQueue.mem_senders_register, or_comm]
      refine or_congr_right (and_congr_right fun _ => ?_)
      constructor
      · rintro rfl
        exact ⟨rfl, w, rfl⟩
      · rintro ⟨rfl, w', hw⟩
        injection hw with _ hk
        exact Prod.ext rfl hk.symm
    · injection hw with _ hk
      subst hk
      exact (WaiterQueue.mem_senders_register ..).2 (.inl ⟨rfl, rfl⟩)
  | advance hcall hm =>
    have heff := effect_advance hm
    exact h.setPc_of_awaited hcall (State.calls_perform ..) (State.queue_perform ..) heff.awaited
      (heff.retry fun w todo hpc => h.retrying _ _ w todo hcall hpc)
      (State.notifications_perform ..) (next_le_leases_perform ..)
  | poll hcall hpc hb =>
    refine h.setPc_of_awaited hcall (State.calls_perform ..) (State.queue_perform ..) ?_ ?_
      (State.notifications_perform ..) (next_le_leases_perform ..)
    · show Pc.awaited (if _ then _ else _) = none
      split <;> rfl
    · intro w todo hpc'
      split at hpc' <;> cases hpc'
  | elapseTier hcall hpc | elapseWait hcall hpc | dropTier hcall hpc | dropWait hcall hpc =>
    exact h.setPc_of_awaited hcall rfl rfl rfl (by simp) rfl le_rfl
  | dropLease hheld hdropping =>
    refine ⟨h.registered, h.senders, fun n hn => ?_, h.retrying⟩
    rcases List.mem_append.1 hn with hn | hn
    · exact h.spawned n hn
    · obtain ⟨role, -, rfl⟩ := Option.map_eq_some_iff.1 (Option.mem_toList.1 hn)
      exact (Serial.lt_next_of_get? hheld : _ < s.leases.next)
  | notifyNone hn hfired => exact h.notifyNone _ hfired
  | notifyFired hn hfired => exact h.notifyFired _ hfired

end Tagsmaxxing.Scheduler
