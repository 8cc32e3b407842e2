import Mathlib.Algebra.BigOperators.Group.Finset.Piecewise
import Mathlib.Algebra.Order.BigOperators.Group.Finset
import Tagsmaxxing.Scheduler.Waiting

/-! # Are freed slots always announced?

A call that finds all its candidates full registers in the waiter queue, and is woken only by a notification that a
dropped lease spawned for its role. The source frees slots without one, or with one that misses the waiter:

* `wait_on_candidates` returns its lease without `with_notify`, so its drop spawns nothing;
* the notification is spawned in `Lease::drop`, before the guard is dropped, and may run first;
* a slot may be freed between the failed fast path and the registration;
* a future of a tier wait that is cancelled with a permit, or refused by its bucket, gives it back silently;
* a notification wakes a waiter of the lease's role, which may not have the backend among its candidates;
* a woken waiter that times out, is dropped, or finds nothing, does not pass its wake-up on.

`Careful` excludes these, step by step. The argument is by counting: as long as somebody of the role waits, the
free slots of the role's candidates are at most the notifications in flight whose slot is free again, plus the
woken waiters that have yet to retry. -/

namespace Tagsmaxxing.Scheduler

open List Transition

/-! ## The property -/

/-- A live registered waiter with a free candidate has a notification or a woken waiter of its role
    ahead of it. -/
def NoLostWakeup (s : State) : Prop :=
  ∀ r, ∀ w ∈ s.waiters r, ∀ b ∈ w.candidates, 0 < (s.caps b).free →
    (∃ n ∈ s.notifications, n.2 = r) ∨ s.woken r ≠ []

/-! ## Careful steps -/

/-- The candidates as a set. -/
def Wait.backends (w : Wait) : Finset Ref := w.candidates.toFinset

/-- No candidate has a free slot. -/
def State.Full (s : State) (w : Wait) : Prop := ∀ b ∈ w.candidates, (s.caps b).free = 0

/-- The backend of which a step frees a slot. -/
def State.freed (s : State) : Act → Option Ref
  | .run t _ => (s.calls.get? t).bind fun c => c.pc.freed s.caps t
  | .release l => (s.leases.get? l).bind fun h =>
      if (s.caps h.lease.guard).sem.waiters = [] then some h.lease.guard else none
  | _ => none

/-- The step releases a lease whose notification of the role has not run yet. -/
def State.Announced (s : State) (r : Role) : Act → Prop
  | .release l => (l, r) ∈ s.notifications
  | _ => False

/-- The wait that a step registers. -/
def State.registering (s : State) : Act → Option (Role × Wait)
  | .run t _ => (s.calls.get? t).bind fun c =>
      match c.pc with
      | .register w => some (c.request.role, w)
      | _ => none
  | _ => none

/-- The woken waiter that a step lets go without a slot: it has tried its last candidate, times out or
    is dropped. -/
def State.givingUp (s : State) : Act → Option (Role × Wait)
  | .run t _ => (s.calls.get? t).bind fun c =>
      match c.pc with
      | .retry w [] => some (c.request.role, w)
      | _ => none
  | .elapse t | .drop t => (s.calls.get? t).bind fun c =>
      match c.pc with
      | .woken w => some (c.request.role, w)
      | _ => none
  | _ => none

/-- What a step must respect. -/
structure Careful (s : State) (a : Act) : Prop where
  /-- a waiter registers only while its candidates are full, and beside waiters with the same ones -/
  registers : ∀ x ∈ s.registering a,
    s.Full x.2 ∧ ∀ w ∈ s.waiters x.1, w.backends = x.2.backends
  /-- a slot that somebody waits for is freed only by a lease that still has its notification out -/
  frees : ∀ b ∈ s.freed a, ∀ r, ∀ w ∈ s.waiters r, b ∈ w.candidates → s.Announced r a
  /-- a woken waiter gives up only when its candidates are full or nobody else waits -/
  givesUp : ∀ x ∈ s.givingUp a, s.Full x.2 ∨ s.waiters x.1 = []

/-! ## Counting -/

/-- The free slots of a set of backends. -/
def demand (caps : Ref → Capacity) (bs : Finset Ref) : ℕ := ∑ b ∈ bs, (caps b).free

/-- The notifications in flight for a role whose lease has given its slot back. -/
def State.pending (s : State) (r : Role) : ℕ :=
  s.notifications.countP fun n => n.2 = r && (s.leases.get? n.1).isNone

/-- Whether the call is a woken waiter of the role with these candidates. -/
def Call.retries (r : Role) (bs : Finset Ref) (c : Call) : Bool :=
  c.request.role = r && c.pc.woken?.any fun w => w.backends = bs

/-- What can still use the free slots of a role's candidates. -/
def State.supply (s : State) (r : Role) (bs : Finset Ref) : ℕ :=
  s.pending r + s.calls.count (Call.retries r bs)

section Demand

variable (caps : Ref → Capacity) {bs : Finset Ref} {b : Ref} (c : Capacity)

/-- Writing one capacity changes the demand by the difference at that backend. -/
theorem demand_update (hb : b ∈ bs) :
    demand (Function.update caps b c) bs + (caps b).free = demand caps bs + c.free := by
  simp only [demand, Function.apply_update fun _ => Capacity.free]
  rw [Finset.sum_update_of_mem hb, Finset.sdiff_singleton_eq_erase, ← Finset.add_sum_erase bs _ hb]
  omega

theorem demand_update_of_notMem (hb : b ∉ bs) : demand (Function.update caps b c) bs = demand caps bs := by
  simp only [demand, Function.apply_update fun _ => Capacity.free]
  rw [Finset.sum_update_of_notMem hb]

variable {caps c}

theorem demand_update_le (h : c.free ≤ (caps b).free) :
    demand (Function.update caps b c) bs ≤ demand caps bs := by
  by_cases hb : b ∈ bs
  · have := demand_update caps c hb
    omega
  · exact (demand_update_of_notMem caps c hb).le

theorem demand_pos (hb : b ∈ bs) (h : 0 < (caps b).free) : 0 < demand caps bs :=
  Finset.sum_pos' (fun _ _ => Nat.zero_le _) ⟨b, hb, h⟩

end Demand

theorem demand_full {s : State} {w : Wait} (h : s.Full w) : demand s.caps w.backends = 0 :=
  Finset.sum_eq_zero fun b hb => h b (mem_toFinset.1 hb)

variable {fleet : Fleet} {s s' : State}

/-- Making a lease does not change which notifications wait for their slot. -/
theorem State.pending_insert (h : Wired s) {x : Held} (r : Role)
    (hnotes : s'.notifications = s.notifications) (hleases : s'.leases = s.leases.insert x) :
    s'.pending r = s.pending r := by
  unfold State.pending
  rw [hnotes, hleases]
  refine countP_congr fun n hn => ?_
  rw [Serial.get?_insert, if_neg (h.spawned n hn).ne]

theorem State.pending_perform (h : Wired s) (t : ℕ) (m : Move) (r : Role) :
    (s.perform t m).pending r = s.pending r := by
  rcases s.leases_perform t m with heq | ⟨lease, -, heq⟩
  · unfold State.pending
    rw [heq, State.notifications_perform]
  · exact State.pending_insert h r (State.notifications_perform ..) heq

variable {r : Role}

theorem Call.retries_of_woken {bs : Finset Ref} {c : Call} (h : c.pc.woken? = none) :
    c.retries r bs = false := by
  simp [Call.retries, h]

/-! ## What a step does to the balance -/

/-- For the candidates of a waiter: they are full after the step, or the step freed no more of their
    slots than it supplied uses for them. -/
def Balanced (s s' : State) (r : Role) (w : Wait) : Prop :=
  demand s'.caps w.backends = 0 ∨
    demand s'.caps w.backends + s.supply r w.backends ≤ demand s.caps w.backends + s'.supply r w.backends

section Balance

variable {t : ℕ} {c : Call} {w w₀ : Wait} {m : Move}

/-- The capacities after a step of a call that frees nothing. -/
theorem demand_perform_le (h : ∀ x ∈ m.cap, x.2.free ≤ (s.caps x.1).free) (bs : Finset Ref) :
    demand (s.perform t m).caps bs ≤ demand s.caps bs := by
  rw [State.caps_perform]
  cases hcap : m.cap with
  | none => exact le_rfl
  | some x => exact demand_update_le (h x hcap)

section

variable {f : Call → Pc} (hc : s.calls.get? t = some c)
  (hcalls : s'.calls = s.calls.modify t fun c => { c with pc := f c }) (hpending : s'.pending r = s.pending r)

include hc hcalls hpending

/-- A step that sets a program counter changes the supply by that call. -/
theorem State.supply_modify (bs : Finset Ref) :
    s'.supply r bs + (c.retries r bs).toNat = s.supply r bs + (Call.retries r bs { c with pc := f c }).toNat := by
  have hcount := Serial.count_modify hc (fun c => { c with pc := f c }) (Call.retries r bs)
  unfold State.supply
  rw [hpending, hcalls]
  omega

/-- A step of a call that keeps its place among the woken and frees nothing. -/
theorem balanced_of_retries (hretries : c.retries r w.backends = Call.retries r w.backends { c with pc := f c })
    (hdemand : demand s'.caps w.backends ≤ demand s.caps w.backends) : Balanced s s' r w := by
  have hsupply := State.supply_modify hc hcalls hpending w.backends
  rw [hretries] at hsupply
  exact .inr (by omega)

theorem balanced_of_calm (hold : c.pc.woken? = none) (hnew : (f c).woken? = none)
    (hdemand : demand s'.caps w.backends ≤ demand s.caps w.backends) : Balanced s s' r w :=
  balanced_of_retries hc hcalls hpending
    ((Call.retries_of_woken hold).trans (Call.retries_of_woken (c := { c with pc := f c }) hnew).symm) hdemand

/-- A woken waiter that lets go while its candidates are full or nobody waits. -/
theorem balanced_of_givingUp (hwoken : c.pc.woken? = some w₀)
    (hcare : s.Full w₀ ∨ s.waiters c.request.role = []) (hcalm : (f c).woken? = none) (hcaps : s'.caps = s.caps)
    (hw : w ∈ s.waiters r) : Balanced s s' r w := by
  by_cases hretries : c.retries r w.backends = true
  · obtain ⟨hr, hbs⟩ : c.request.role = r ∧ w₀.backends = w.backends := by
      simpa [Call.retries, hwoken] using hretries
    rcases hcare with hfull | hnone
    · left
      rw [hcaps, ← hbs]
      exact demand_full hfull
    · rw [← hr, hnone] at hw
      cases hw
  · refine balanced_of_retries hc hcalls hpending ?_ (hcaps ▸ le_rfl)
    rw [Call.retries_of_woken (c := { c with pc := f c }) hcalm]
    exact Bool.eq_false_iff.2 hretries

end

/-- A woken waiter takes a slot: if it was counted, so was the slot. -/
theorem balanced_takes {b : Ref} {todo : List Ref} {cap : Capacity}
    (hwired : Wired s) (hc : s.calls.get? t = some c) (hpc : c.pc = .retry w₀ (b :: todo))
    (hnew : m.pc.Calm) (hcap : m.cap = some (b, cap)) (hfree : (s.caps b).free = cap.free + 1) :
    Balanced s (s.perform t m) r w := by
  have hdemand : demand (s.perform t m).caps w.backends ≤ demand s.caps w.backends := by
    refine demand_perform_le (fun x hx => ?_) _
    cases hcap.symm.trans hx
    show cap.free ≤ (s.caps b).free
    omega
  have hsupply := State.supply_modify hc (s.calls_perform t m) (State.pending_perform hwired t m r) w.backends
  rw [Call.retries_of_woken (c := { c with pc := m.pc }) hnew.2] at hsupply
  right
  by_cases hretries : c.retries r w.backends = true
  · obtain ⟨-, hbs⟩ : c.request.role = r ∧ w₀.backends = w.backends := by
      simpa [Call.retries, hpc, Pc.woken?] using hretries
    have hb : b ∈ w.backends := by
      rw [← hbs]
      exact mem_toFinset.2 (hwired.retrying t c w₀ _ hc hpc b mem_cons_self)
    have hupdate := demand_update s.caps cap hb
    rw [hretries] at hsupply
    simp only [Bool.toNat_true, Bool.toNat_false] at hsupply
    rw [State.caps_perform, hcap]
    show demand (Function.update s.caps b cap) w.backends + _ ≤ _
    omega
  · rw [Bool.eq_false_iff.2 hretries] at hsupply
    omega

theorem balanced_advance {free : Ref → ℕ} (hwired : Wired s)
    (hcare : Careful s (.run t free)) (hc : s.calls.get? t = some c)
    (hm : advance fleet s.env s.caps s.counters t c.request free c.pc = some m)
    (hw : w ∈ s.waiters r) : Balanced s (s.perform t m) r w := by
  have hcalls := s.calls_perform t m
  have hpending := State.pending_perform hwired t m r
  cases effect_advance hm with
  | calm hold hnew hcap => exact balanced_of_calm hc hcalls hpending hold hnew.2 (demand_perform_le hcap _)
  | @frees b cap hfreed hwoken hnew hcap =>
    -- nobody who waits lists the backend: such a release is not announced
    have hb : b ∉ w.backends := by
      intro hb
      have hfree : s.freed (.run t free) = some b := by simp [State.freed, hc, hfreed]
      exact hcare.frees b hfree r w hw (mem_toFinset.1 hb)
    refine balanced_of_calm hc hcalls hpending hwoken hnew.2 ?_
    rw [State.caps_perform, hcap]
    exact (demand_update_of_notMem _ _ hb).le
  | resumes hpc hmove =>
    refine balanced_of_retries hc hcalls hpending ?_ (demand_perform_le ?_ _)
    · rw [hmove]
      simp [Call.retries, hpc, Pc.woken?]
    · rw [hmove]
      simp
  | @tries w₀ b todo cap hpc hnew hcap hfree =>
    refine balanced_of_retries hc hcalls hpending ?_ (demand_perform_le ?_ _)
    · rw [hnew]
      simp [Call.retries, hpc, Pc.woken?]
    · intro x hx
      cases hcap.symm.trans hx
      exact hfree
  | takes hpc hnew hcap hfree => exact balanced_takes hwired hc hpc hnew hcap hfree
  | @givesUp w₀ hpc hmove =>
    have hgive : s.givingUp (.run t free) = some (c.request.role, w₀) := by
      simp [State.givingUp, hc, hpc]
    refine balanced_of_givingUp hc hcalls hpending (by rw [hpc]; rfl) (hcare.givesUp _ hgive) ?_ ?_ hw
    · rw [hmove]
      rfl
    · rw [State.caps_perform, hmove]
      rfl

variable {i : ℕ}

theorem balanced_poll {p : Tiers} {cands : List Ref} {b : Ref} (hwired : Wired s)
    (hc : s.calls.get? t = some c) (hpc : c.pc = .tierWait p cands)
    (hm : m = ⟨if ((s.caps b).poll (t, i)).1 then .acquired p cands b else .tierWait p cands,
      some (b, ((s.caps b).poll (t, i)).2), none⟩) : Balanced s (s.perform t m) r w := by
  refine balanced_of_calm hc (s.calls_perform t m) (State.pending_perform hwired t m r) (by rw [hpc]; rfl) ?_
    (demand_perform_le (fun x hx => ?_) _)
  · rw [hm]
    split <;> rfl
  · rw [hm] at hx
    cases hx
    show ((s.caps b).poll (t, i)).2.sem.permits ≤ (s.caps b).sem.permits
    rw [Capacity.sem_poll]
    exact Semaphore.permits_poll_le _ _

theorem balanced_setPc {pc : Pc} (hc : s.calls.get? t = some c) (hold : c.pc.woken? = none)
    (hnew : pc.woken? = none) : Balanced s (s.setPc t pc) r w :=
  balanced_of_calm (f := fun _ => pc) hc rfl rfl hold hnew le_rfl

theorem balanced_of_calls (hcalls : s'.calls = s.calls)
    (h : demand s'.caps w.backends + s.pending r ≤ demand s.caps w.backends + s'.pending r) :
    Balanced s s' r w := by
  right
  unfold State.supply
  rw [hcalls]
  omega

theorem pending_dropLease (l : ℕ) (ns : List (ℕ × Role)) (r : Role) :
    s.pending r ≤ State.pending { s with
      leases := s.leases.modify l fun h => { h with dropping := true }
      notifications := s.notifications ++ ns } r := by
  unfold State.pending
  rw [countP_append]
  refine (le_of_eq (countP_congr fun n _ => ?_)).trans (Nat.le_add_right _ _)
  simp

/-- Releasing a lease makes its notification count. -/
theorem pending_release {l : ℕ} {h : Held} (hl : s.leases.get? l = some h) (caps : Ref → Capacity) (r : Role) :
    s.pending r + (decide ((l, r) ∈ s.notifications)).toNat ≤
      State.pending { s with caps := caps, leases := s.leases.erase l } r := by
  have hmono : ∀ ns : List (ℕ × Role),
      ns.countP (fun n => n.2 = r && (s.leases.get? n.1).isNone) ≤
        ns.countP fun n => n.2 = r && ((s.leases.erase l).get? n.1).isNone := by
    intro ns
    refine countP_mono_left fun n _ hn => ?_
    rw [Bool.and_eq_true] at hn ⊢
    refine ⟨hn.1, ?_⟩
    rw [Serial.get?_erase]
    split
    · rfl
    · exact hn.2
  unfold State.pending
  by_cases hmem : (l, r) ∈ s.notifications
  · obtain ⟨ns₁, ns₂, hns⟩ := append_of_mem hmem
    have h₁ := hmono ns₁
    have h₂ := hmono ns₂
    simp only [hmem, decide_true, Bool.toNat_true]
    rw [hns, countP_append, countP_append, countP_cons_of_neg (by simp [hl]),
      countP_cons_of_pos (by simp)]
    omega
  · simpa [hmem] using hmono s.notifications

variable {n : ℕ × Role}

theorem pending_notify (hn : s.notifications[i]? = some n) (q : WaiterQueue (ℕ × ℕ)) (cs : Serial Call) (r : Role) :
    s.pending r ≤ State.pending { s with
      queue := q, notifications := s.notifications.eraseIdx i, calls := cs } r +
      (decide (n.2 = r)).toNat := by
  obtain ⟨hi, rfl⟩ := List.getElem?_eq_some_iff.1 hn
  unfold State.pending
  rw [← (getElem_cons_eraseIdx_perm hi).countP_eq, countP_cons]
  refine Nat.add_le_add_left ?_ _
  split
  next h =>
    rw [Bool.and_eq_true] at h
    rw [h.1]
    exact le_rfl
  next => exact Nat.zero_le _

/-- A slot given back by a lease is announced to whoever waits for it. -/
theorem balanced_release {l : ℕ} {h : Held} (hcare : Careful s (.release l)) (hl : s.leases.get? l = some h)
    (hs' : s' = { s with
      caps := Function.update s.caps h.lease.guard (s.caps h.lease.guard).dropPermit
      leases := s.leases.erase l })
    (hw : w ∈ s.waiters r) : Balanced s s' r w := by
  subst hs'
  have hpending := pending_release hl (Function.update s.caps h.lease.guard (s.caps h.lease.guard).dropPermit) r
  have hfree : (s.caps h.lease.guard).dropPermit.free = (s.caps h.lease.guard).sem.release.permits :=
    congrArg Semaphore.permits (Capacity.sem_dropPermit _)
  rw [Semaphore.permits_release] at hfree
  refine balanced_of_calls rfl ?_
  show demand (Function.update s.caps h.lease.guard (s.caps h.lease.guard).dropPermit) _ + _ ≤ _
  by_cases hqueue : (s.caps h.lease.guard).sem.waiters = []
  · by_cases hb : h.lease.guard ∈ w.backends
    · have hfreed : s.freed (.release l) = some h.lease.guard := by simp [State.freed, hl, hqueue]
      have hann : (l, r) ∈ s.notifications := hcare.frees _ hfreed r w hw (mem_toFinset.1 hb)
      have hupdate := demand_update s.caps (s.caps h.lease.guard).dropPermit hb
      rw [if_pos hqueue] at hfree
      change _ = (s.caps h.lease.guard).free + 1 at hfree
      simp only [hann, decide_true, Bool.toNat_true] at hpending
      omega
    · rw [demand_update_of_notMem _ _ hb]
      omega
  · rw [if_neg hqueue] at hfree
    have hdemand : demand (Function.update s.caps _ _) w.backends ≤ _ := demand_update_le hfree.le
    omega

/-- A notification that finds nobody was not for a role in which somebody waits. -/
theorem balanced_notifyNone (hwired : Wired s)
    (hn : s.notifications[i]? = some n) (hfired : (s.queue.notify s.alive n.2).1 = none)
    (hs' : s' = { s with
      queue := (s.queue.notify s.alive n.2).2
      notifications := s.notifications.eraseIdx i })
    (hw : w ∈ s.waiters r) : Balanced s s' r w := by
  subst hs'
  have hne : n.2 ≠ r := by
    rintro rfl
    obtain ⟨t, c, hc, hr, hwait⟩ := State.mem_waitsAt.1 hw
    obtain ⟨k, hpc⟩ := Pc.waiting_of_awaited hwait
    have hmem := hwired.registered t c w k hc hpc
    rw [hr] at hmem
    have halive : s.alive (t, k) = true := State.alive_iff.2 ⟨c, w, hc, hpc⟩
    exact absurd halive (by simp [WaiterQueue.not_alive_of_notify hfired _ hmem])
  have hpending := pending_notify hn (s.queue.notify s.alive n.2).2 s.calls r
  simp only [hne, decide_false, Bool.toNat_false, Nat.add_zero] at hpending
  exact balanced_of_calls rfl (Nat.add_le_add_left hpending _)

/-- A notification becomes a woken waiter with the candidates of its role. -/
theorem balanced_notifyFired {tx : ℕ × ℕ} (hwired : Wired s)
    (hagree : ∀ w₁ ∈ s.waiters r, ∀ w₂ ∈ s.waiters r, w₁.backends = w₂.backends)
    (hn : s.notifications[i]? = some n) (hfired : (s.queue.notify s.alive n.2).1 = some tx)
    (hs' : s' = { s with
      queue := (s.queue.notify s.alive n.2).2
      notifications := s.notifications.eraseIdx i
      calls := s.calls.modify tx.1 fun c => { c with pc := c.pc.fire } })
    (hw : w ∈ s.waiters r) : Balanced s s' r w := by
  obtain ⟨halive, hmem⟩ := WaiterQueue.fired_spec hfired
  obtain ⟨c, w₀, hc, hpc⟩ := State.alive_iff.1 halive
  have hrole : c.request.role = n.2 := (hwired.senders n.2 tx hmem).2 c hc
  have hcalls : s'.calls = s.calls.modify tx.1 fun c => { c with pc := c.pc.fire } := by rw [hs']
  have hpending := pending_notify hn (s.queue.notify s.alive n.2).2
    (s.calls.modify tx.1 fun c => { c with pc := c.pc.fire }) r
  rw [← hs'] at hpending
  have hcount := Serial.count_modify hc (fun c => { c with pc := c.pc.fire }) (Call.retries r w.backends)
  rw [← hcalls, Call.retries_of_woken (by rw [hpc]; rfl)] at hcount
  -- the fired waiter counts exactly if the notification was one for `r`
  have hnew : Call.retries r w.backends { c with pc := c.pc.fire } = decide (n.2 = r) := by
    by_cases hr : n.2 = r
    · have hw₀ : w₀ ∈ s.waiters r := State.mem_waitsAt.2 ⟨tx.1, c, hc, hrole.trans hr, by rw [hpc]; rfl⟩
      simp [Call.retries, hrole, hr, hpc, Pc.fire, Pc.woken?, hagree w₀ hw₀ w hw]
    · simp [Call.retries, hrole, hr]
  rw [hnew] at hcount
  right
  have hcaps : s'.caps = s.caps := by rw [hs']
  unfold State.supply
  rw [hcaps]
  simp only [Bool.toNat_false] at hcount
  omega

end Balance

theorem balanced_step {a : Act} (hwired : Wired s)
    (hagree : ∀ r, ∀ w₁ ∈ s.waiters r, ∀ w₂ ∈ s.waiters r, w₁.backends = w₂.backends)
    (hcare : Careful s a) (hs : Step fleet s a s') {w : Wait} (hw : w ∈ s.waiters r) :
    Balanced s s' r w := by
  cases hs with
  | env e => exact balanced_of_calls rfl le_rfl
  | call q =>
    have hcount := Serial.count_insert s.calls ⟨q, .start⟩ (Call.retries r w.backends)
    rw [Call.retries_of_woken rfl] at hcount
    right
    unfold State.supply
    rw [hcount]
    exact le_rfl
  | register hcall hpc =>
    exact balanced_of_calm (f := fun _ => .waiting _ s.tickets) hcall rfl rfl (by rw [hpc]; rfl) rfl le_rfl
  | advance hcall hm => exact balanced_advance hwired hcare hcall hm hw
  | poll hcall hpc hb => exact balanced_poll hwired hcall hpc rfl
  | elapseTier hcall hpc | dropTier hcall hpc => exact balanced_setPc hcall (by rw [hpc]; rfl) rfl
  | @elapseWait t c w₀ hcall hpc =>
    rcases hpc with ⟨k, hpc⟩ | hpc
    · exact balanced_setPc hcall (by rw [hpc]; rfl) rfl
    · have hgive : s.givingUp (.elapse t) = some (c.request.role, w₀) := by
        simp [State.givingUp, hcall, hpc]
      exact balanced_of_givingUp (f := fun _ => .returned (.error (w₀.timedOut fleet c.request.role)))
        hcall rfl rfl (by rw [hpc]; rfl) (hcare.givesUp _ hgive) rfl rfl hw
  | @dropWait t c w₀ hcall hpc =>
    rcases hpc with hpc | ⟨k, hpc⟩ | hpc
    · exact balanced_setPc hcall (by rw [hpc]; rfl) rfl
    · exact balanced_setPc hcall (by rw [hpc]; rfl) rfl
    · have hgive : s.givingUp (.drop t) = some (c.request.role, w₀) := by
        simp [State.givingUp, hcall, hpc]
      exact balanced_of_givingUp (f := fun _ => .cancelled) hcall rfl rfl (by rw [hpc]; rfl)
        (hcare.givesUp _ hgive) rfl rfl hw
  | dropLease hheld hdropping =>
    exact balanced_of_calls rfl (Nat.add_le_add_left (pending_dropLease _ _ r) _)
  | release hheld hdropping => exact balanced_release hcare hheld rfl hw
  | notifyNone hn hfired => exact balanced_notifyNone hwired hn hfired rfl hw
  | notifyFired hn hfired => exact balanced_notifyFired hwired (hagree r) hn hfired rfl hw

/-- Who waits after a step waited before, or registers in it. -/
theorem waiters_step {a : Act} (hs : Step fleet s a s')
    {w : Wait} (hw : w ∈ s'.waiters r) :
    w ∈ s.waiters r ∨ s.registering a = some (r, w) ∧ s'.caps = s.caps := by
  -- a step that only sets a program counter, to a place that is not waiting
  have hset : ∀ {t : ℕ} {c : Call} (f : Call → Pc), s.calls.get? t = some c →
      s'.calls = (s.calls.modify t fun c => { c with pc := f c }) → (f c).awaited = none →
      w ∈ s.waiters r := by
    intro t c f hc hcalls hawaited
    refine (State.mem_waiters_modify hc hcalls hw).resolve_right fun h => ?_
    exact absurd h.2 (by simp [hawaited])
  cases hs with
  | env e | dropLease hheld hdropping | release hheld hdropping | notifyNone hn hfired => exact .inl hw
  | call q =>
    obtain ⟨t, c, hc, hr, hwait⟩ := State.mem_waitsAt.1 hw
    rw [Serial.get?_insert] at hc
    split at hc
    · cases hc
      exact absurd hwait (by simp [Pc.awaited])
    · exact .inl (State.mem_waitsAt.2 ⟨t, c, hc, hr, hwait⟩)
  | @register t free c w₀ hcall hpc =>
    have hcalls : (s.register t c.request w₀).calls =
      s.calls.modify t fun c => { c with pc := .waiting w₀ s.tickets } := rfl
    refine (State.mem_waiters_modify hcall hcalls hw).imp_right fun h => And.intro ?_ rfl
    obtain rfl := Option.some.inj h.2
    simp [State.registering, hcall, hpc, h.1]
  | @advance t free c m hcall hm =>
    exact .inl (hset (fun _ => m.pc) hcall (State.calls_perform ..) (effect_advance hm).awaited)
  | poll hcall hpc hb =>
    refine .inl (hset (fun _ => _) hcall (State.calls_perform ..) ?_)
    split <;> rfl
  | elapseTier hcall hpc | dropTier hcall hpc => exact .inl (hset (fun _ => .dropFutures _ _ _ _) hcall rfl rfl)
  | elapseWait hcall hpc => exact .inl (hset (fun _ => .returned _) hcall rfl rfl)
  | dropWait hcall hpc => exact .inl (hset (fun _ => .cancelled) hcall rfl rfl)
  | notifyFired hn hfired =>
    obtain ⟨halive, -⟩ := WaiterQueue.fired_spec hfired
    obtain ⟨c, w₀, hc, hpc⟩ := State.alive_iff.1 halive
    exact .inl (hset (fun c => c.pc.fire) hc rfl (by rw [hpc]; rfl))

/-! ## Runs -/

/-- What holds in every state of a careful run. -/
structure Covered (s : State) : Prop where
  wired : Wired s
  /-- waiters of one role have the same candidates -/
  agree : ∀ r, ∀ w₁ ∈ s.waiters r, ∀ w₂ ∈ s.waiters r, w₁.backends = w₂.backends
  /-- the free slots they wait for are spoken for -/
  covered : ∀ r, ∀ w ∈ s.waiters r, demand s.caps w.backends ≤ s.supply r w.backends

theorem covered_step {a : Act} (h : Covered s) (hcare : Careful s a)
    (hs : Step fleet s a s') : Covered s' where
  wired := wired_step h.wired hs
  agree r w₁ hw₁ w₂ hw₂ := by
    rcases waiters_step hs hw₁ with hw₁ | ⟨hreg₁, -⟩ <;> rcases waiters_step hs hw₂ with hw₂ | ⟨hreg₂, -⟩
    · exact h.agree r w₁ hw₁ w₂ hw₂
    · exact (hcare.registers _ hreg₂).2 w₁ hw₁
    · exact ((hcare.registers _ hreg₁).2 w₂ hw₂).symm
    · obtain rfl := (Prod.mk.inj (Option.some.inj (hreg₁.symm.trans hreg₂))).2
      rfl
  covered r w hw := by
    rcases waiters_step hs hw with hold | ⟨hreg, hcaps⟩
    · have hcovered := h.covered r w hold
      rcases balanced_step h.wired h.agree hcare hs hold with hzero | hbalance <;> omega
    · rw [hcaps, demand_full (hcare.registers _ hreg).1]
      exact Nat.zero_le _

theorem Covered.initial (env : Env) (caps : Ref → Capacity) : Covered (.initial env caps) where
  wired := .initial env caps
  agree _ _ hw := absurd hw (by simp [State.initial, State.waiters, State.waitsAt])
  covered _ _ hw := absurd hw (by simp [State.initial, State.waiters, State.waitsAt])

theorem noLostWakeup_of_covered (h : Covered s) : NoLostWakeup s := by
  intro r w hw b hb hfree
  have hdemand : 0 < demand s.caps w.backends := demand_pos (mem_toFinset.2 hb) hfree
  have hsupply : 0 < s.pending r + s.calls.count (Call.retries r w.backends) := hdemand.trans_le (h.covered r w hw)
  rcases Nat.add_pos_iff_pos_or_pos.1 hsupply with hpos | hpos
  · obtain ⟨n, hn, hr⟩ := countP_pos_iff.1 hpos
    rw [Bool.and_eq_true] at hr
    exact .inl ⟨n, hn, of_decide_eq_true hr.1⟩
  · obtain ⟨t, c, hc, hretries⟩ := Serial.count_pos hpos
    simp only [Call.retries, Bool.and_eq_true, decide_eq_true_eq, Option.any_eq_true] at hretries
    obtain ⟨hr, w', hwoken, -⟩ := hretries
    exact .inr (ne_nil_of_mem (State.mem_waitsAt.2 ⟨t, c, hc, hr, hwoken⟩))

/-- **No lost wake-up.** In every run of careful steps from a pool without calls, in every state
    reached: a live registered waiter with a free candidate has a notification of its role in flight, or
    a woken waiter of its role that has yet to retry. -/
theorem no_lost_wakeup {fleet : Fleet} {env : Env} {caps : Ref → Capacity}
    {es : List (Edge State Act)} {s : State}
    (hrun : Run (Fires (step fleet)) (State.initial env caps) es s)
    (hcare : ∀ e ∈ es, Careful e.src e.label) :
    NoLostWakeup s ∧ ∀ e ∈ es, NoLostWakeup e.src := by
  obtain ⟨hend, hedges⟩ := hrun.edges_where (I := Covered) (.initial env caps)
    (fun e hstep hcare hsrc => covered_step hsrc hcare (step_inv hstep)) hcare
  exact ⟨noLostWakeup_of_covered hend, fun e he => noLostWakeup_of_covered (hedges e he).2.1⟩

/-! ## One slot, three calls -/

/-- One local backend, in the legacy registry of every role. -/
def soloFleet : Fleet where
  backend _ := ⟨"gpu", some "http", none, .local, 0⟩
  byRole _ := [0]
  acquireTimeout := 30

/-- One slot, no routing table. -/
def soloPool : State :=
  .initial ⟨⟨0, 12, 0⟩, none, [], fun _ => ⟨true, none, none, none⟩⟩ fun _ => .newSlots 1

/-- Call `t` runs `n` steps. -/
def runs (t n : ℕ) : List Act := List.replicate n (.run t fun _ => 1)

/-- A text call, run for `n` steps. -/
def textCall (t n : ℕ) : List Act := .call ⟨.text, false, 0, none⟩ :: runs t n

/-- Three calls for one slot: the first gets it, the others wait. The drop of its lease wakes the
    second, which takes the slot. -/
def handedOver : List Act :=
  textCall 1 5 ++ textCall 2 7 ++ textCall 3 7 ++ [.dropLease 1, .release 1, .notify 0] ++ runs 2 2

/-- And the second drops its lease, which carries no notification. -/
def unannounced : List Act := handedOver ++ [.dropLease 2, .release 2]

section Decidable

variable (s : State) (a : Act)

instance (w : Wait) : Decidable (s.Full w) :=
  inferInstanceAs (Decidable (∀ b ∈ w.candidates, (s.caps b).free = 0))

instance (r : Role) : Decidable (s.Announced r a) :=
  match a with
  | .release l => inferInstanceAs (Decidable ((l, r) ∈ s.notifications))
  | .env _ | .call _ | .run _ _ | .poll _ _ | .elapse _ | .drop _ | .dropLease _ | .notify _ =>
      .isFalse id

instance : Decidable (Careful s a) :=
  decidable_of_iff
    ((∀ x ∈ s.registering a, s.Full x.2 ∧ ∀ w ∈ s.waiters x.1, w.backends = x.2.backends) ∧
      (∀ b ∈ s.freed a, ∀ r, ∀ w ∈ s.waiters r, b ∈ w.candidates → s.Announced r a) ∧
      ∀ x ∈ s.givingUp a, s.Full x.2 ∨ s.waiters x.1 = [])
    ⟨fun h => ⟨h.1, h.2.1, h.2.2⟩, fun h => ⟨h.registers, h.frees, h.givesUp⟩⟩

instance : Decidable (NoLostWakeup s) :=
  inferInstanceAs (Decidable (∀ r, ∀ w ∈ s.waiters r, ∀ b ∈ w.candidates, 0 < (s.caps b).free →
    (∃ n ∈ s.notifications, n.2 = r) ∨ s.woken r ≠ []))

end Decidable

theorem no_lost_wakeup_handedOver :
    ∃ es s, Run (Fires (step soloFleet)) soloPool es s ∧ es.map Edge.label = handedOver ∧
      (∀ e ∈ es, Careful e.src e.label) ∧ NoLostWakeup s ∧ ∀ e ∈ es, NoLostWakeup e.src := by
  refine exists_run_of_imp (fun es _ => ∀ e ∈ es, Careful e.src e.label) (by decide +kernel) ?_
  exact fun es s hrun hcare => ⟨hcare, no_lost_wakeup hrun hcare⟩

/-- The third call waits for a slot that is free, and nothing will wake it. -/
theorem unannounced_slot_is_lost :
    ∃ es s, Run (Fires (step soloFleet)) soloPool es s ∧ es.map Edge.label = unannounced ∧
      (s.waiters .text).map Wait.candidates = [[0]] ∧ (s.caps 0).free = 1 ∧ s.notifications = [] ∧
      s.woken .text = [] ∧ ¬ NoLostWakeup s := by
  exact exists_run_of_holds (by decide +kernel)

end Tagsmaxxing.Scheduler
