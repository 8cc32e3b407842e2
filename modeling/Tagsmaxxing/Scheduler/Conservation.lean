import Tagsmaxxing.Scheduler.Waiting

/-! # Slots are conserved

A slot of a backend is free, held by a lease, held by a future of a tier wait that was handed a permit
it has not reported yet, or in the hands of a call on its way from such a permit to a lease (or back).
No step of the system loses or makes one: `conserved_step`. That a call which has ended leaves nothing
behind is a second invariant, `Tidy`: a semaphore keeps only futures of calls that still have to poll or
drop them. -/

namespace Tagsmaxxing.Scheduler

open Transition

/-! ## Where the permits are -/

/-- `Capacity::new_slots`, `new_concurrency` or `new_rated` with `n` slots. -/
def Capacity.Configured (n : ℕ) (c : Capacity) : Prop :=
  c = .newSlots n ∨ c = .newConcurrency n ∨ ∃ rpm tpm now, c = .newRated n rpm tpm now

theorem Capacity.Configured.sem_eq {n : ℕ} {c : Capacity} (h : c.Configured n) : c.sem = .new n := by
  rcases h with rfl | rfl | ⟨rpm, tpm, now, rfl⟩ <;> rfl

/-- The call has a permit of `b` in hand that is not in a lease: it was just acquired, or is about to
    be given back, or waits for the other futures to be dropped. -/
def Pc.holds (b : Ref) : Pc → Bool
  | .acquired _ _ b' | .refused _ _ b' | .dropFutures _ _ _ (.lease b') => b' = b
  | _ => false

/-- The call has just returned a lease on `b`. -/
def Pc.leased (b : Ref) : Pc → Bool
  | .returned (.ok l) => l.guard = b
  | _ => false

@[simp] theorem Pc.holds_returned (b : Ref) (res : Except AcquireError Lease) :
    (Pc.returned res).holds b = false := rfl

@[simp] theorem Pc.leased_returned (b : Ref) (l : Lease) :
    (Pc.returned (.ok l)).leased b = decide (l.guard = b) := rfl

/-- The leases on a backend. -/
def State.leasesOn (s : State) (b : Ref) : ℕ := s.leases.count fun h => h.lease.guard = b

/-- The live permits of a backend: those of leases, those of futures that were handed one, and those
    that calls have in hand. -/
def State.livePermits (s : State) (b : Ref) : ℕ :=
  s.leasesOn b + ((s.caps b).sem.granted.length + s.calls.count fun c => c.pc.holds b)

/-- No slot is lost or made. -/
def Conserved (slots : Ref → ℕ) (s : State) : Prop :=
  ∀ b, (s.caps b).sem.total + s.leasesOn b + s.calls.count (fun c => c.pc.holds b) = slots b

/-! ## One step of a call -/

/-- The capacities after a move. -/
def Move.caps (m : Move) (caps : Ref → Capacity) : Ref → Capacity :=
  match m.cap with
  | some (b, c) => Function.update caps b c
  | none => caps

/-- What leaves the semaphores in a move is in the hands of the call afterwards, and conversely. -/
def Move.Conserves (caps : Ref → Capacity) (pc : Pc) (m : Move) : Prop :=
  ∀ b, (m.caps caps b).sem.total + (m.pc.holds b).toNat + (m.pc.leased b).toNat =
    (caps b).sem.total + (pc.holds b).toNat

/-- Neither a permit in hand nor a new lease. -/
def Pc.Empty (pc : Pc) : Prop := ∀ b, pc.holds b = false ∧ pc.leased b = false

variable {counters : ℕ × ℕ → ℕ} {r : Request} {fleet : Fleet} {env : Env} {caps : Ref → Capacity} {t : ℕ}
  {free : Ref → ℕ}

section Moves

variable {pc : Pc}

theorem conserves_to {pc' : Pc} (h : ∀ b, pc.holds b = false) (h' : pc'.Empty) :
    Move.Conserves caps pc (.to pc') := by
  intro b
  rw [Move.pc_to, (h' b).1, (h' b).2, h b]
  rfl

variable {b : Ref} {m : Move} {c : Capacity}

theorem sem_caps (hcap : m.cap = some (b, c)) (x : Ref) :
    (m.caps caps x).sem = if x = b then c.sem else (caps x).sem := by
  simp only [Move.caps, hcap, Function.update_apply]
  split <;> rfl

theorem conserves_of_cap (hcap : m.cap = some (b, c))
    (hb : c.sem.total + (m.pc.holds b).toNat + (m.pc.leased b).toNat = (caps b).sem.total + (pc.holds b).toNat)
    (hother : ∀ x, x ≠ b → m.pc.holds x = pc.holds x ∧ m.pc.leased x = false) : Move.Conserves caps pc m := by
  intro x
  rw [sem_caps hcap]
  split
  next hx => exact hx ▸ hb
  next hx => rw [(hother x hx).1, (hother x hx).2, Bool.toNat_false, Nat.add_zero]

theorem conserves_testCandidate {resident : Backend → Bool} {cands : List Ref} {next : List Ref → Pc}
    (h : ∀ b, pc.holds b = false) (hnext : ∀ l, (next l).Empty) :
    Move.Conserves caps pc (testCandidate fleet env caps resident b cands next) := by
  refine conserves_of_cap rfl ?_ fun x _ => ⟨((hnext _ x).1).trans (h x).symm, (hnext _ x).2⟩
  have hempty : (testCandidate fleet env caps resident b cands next).pc.Empty := hnext _
  rw [(hempty b).1, (hempty b).2, h b]
  simp

/-- A `try_acquire` of a fast path: the permit goes into the lease. -/
theorem conserves_tryCandidate {attach : Lease → Lease} {next : Pc} (h : ∀ b, pc.holds b = false)
    (hattach : ∀ l, (attach l).guard = l.guard) (hnext : next.Empty) :
    Move.Conserves caps pc (tryCandidate fleet env caps b attach next) := by
  have hguard : (attach (.new fleet b)).guard = b := hattach _
  rcases (caps b).tryAcquire_cases env.clock.now with ⟨hgot, hsem⟩ | ⟨hgot, hsem⟩
  · have hpc : (tryCandidate fleet env caps b attach next).pc = .returned (.ok (attach (.new fleet b))) := by
      simp [tryCandidate, hgot]
    have htotal := Semaphore.total_tryAcquire hsem
    refine conserves_of_cap rfl ?_ fun x hx => ?_
    · rw [hpc, h b]
      simp only [Pc.holds_returned, Pc.leased_returned, hguard, decide_true, Bool.toNat_true, Bool.toNat_false]
      omega
    · rw [hpc, h x]
      simp [hguard, Ne.symm hx]
  · have hpc : (tryCandidate fleet env caps b attach next).pc = next := by simp [tryCandidate, hgot]
    refine conserves_of_cap rfl ?_ fun x _ => ?_
    · rw [hpc, (hnext b).1, (hnext b).2, h b, hsem]
      rfl
    · rw [hpc, h x]
      exact hnext x

theorem guard_attached (w : Wait) (role : Role) (l : Lease) : (w.granted role l).guard = l.guard := by
  unfold Wait.granted
  split <;> rfl

theorem conserves_advance (h : advance fleet env caps counters t r free pc = some m) : Move.Conserves caps pc m := by
  cases advance_inv h with
  | passes hpass => cases hpass <;> exact conserves_to (fun _ => rfl) fun _ => ⟨rfl, rfl⟩
  | orders hperm counter | leases p cands b => exact fun _ => rfl
  | tests p e todo cands b | testsLegacy b todo cands =>
    exact conserves_testCandidate (fun _ => rfl) fun _ _ => ⟨rfl, rfl⟩
  | tries p cands b todo | triesLegacy cands b todo =>
    exact conserves_tryCandidate (fun _ => rfl) (fun _ => rfl) fun _ => ⟨rfl, rfl⟩
  | charges p cands b =>
    -- charged or refused, the permit stays in hand
    cases hcharge : ((caps b).charge env.clock.now).1 <;>
      refine conserves_of_cap rfl ?_ fun x _ => ?_ <;> simp [Pc.holds, Pc.leased]
  | givesBack p cands b =>
    refine conserves_of_cap rfl ?_ fun x hx => ⟨?_, rfl⟩
    · simp [Pc.holds, Pc.leased, Semaphore.total_release]
    · simp [Pc.holds, Ne.symm hx]
  | cancels p cands b i todo outcome =>
    have hholds : ∀ x, (Pc.dropFutures p cands todo outcome).holds x =
        (Pc.dropFutures p cands ((b, i) :: todo) outcome).holds x := by
      intro x
      cases outcome <;> rfl
    refine conserves_of_cap rfl ?_ fun x _ => ⟨hholds x, rfl⟩
    rw [hholds b, Capacity.sem_cancel, Semaphore.total_cancel]
    rfl
  | resumes w | givesUp w => exact conserves_to (fun _ => rfl) fun _ => ⟨rfl, rfl⟩
  | retries w b todo =>
    exact conserves_tryCandidate (fun _ => rfl) (guard_attached w r.role) fun _ => ⟨rfl, rfl⟩

end Moves

/-! ## Steps of the system conserve slots -/

variable {f : Call → Pc} {a : Act}

section Conserved

variable {slots : Ref → ℕ} {s s' : State} {c : Call}

theorem State.leasesOn_perform (m : Move) (b : Ref) :
    (s.perform t m).leasesOn b = s.leasesOn b + (m.pc.leased b).toNat := by
  show (s.keep m.pc).leases.count _ = _
  unfold State.keep
  split
  next lease hpc =>
    rw [hpc, Pc.leased_returned]
    exact Serial.count_insert ..
  next hne =>
    have hleased : m.pc.leased b = false := by
      unfold Pc.leased
      split
      next l hpc => exact absurd hpc (hne l)
      next => rfl
    rw [hleased]
    rfl

theorem conserved_perform {m : Move} (h : Conserved slots s) (hc : s.calls.get? t = some c)
    (hm : Move.Conserves s.caps c.pc m) : Conserved slots (s.perform t m) := by
  intro b
  have hcalls := Serial.count_modify hc (fun c => { c with pc := m.pc }) fun c => c.pc.holds b
  have hcaps : (s.perform t m).caps = m.caps s.caps := State.caps_perform s t m
  have hmove := hm b
  have hold := h b
  rw [State.calls_perform, State.leasesOn_perform, hcaps]
  simp only at hcalls
  omega

/-- A step that moves a call with no permit in hand to a place where it has none. -/
theorem conserved_setPc (h : Conserved slots s) (hc : s.calls.get? t = some c) (hold : ∀ b, c.pc.holds b = false)
    (hcalls : s'.calls = s.calls.modify t fun c => { c with pc := f c }) (hcaps : s'.caps = s.caps)
    (hleases : s'.leases = s.leases) (hnew : ∀ b, (f c).holds b = false) : Conserved slots s' := by
  intro b
  have hcount := Serial.count_modify hc (fun c => { c with pc := f c }) fun c => c.pc.holds b
  rw [hold b, hnew b] at hcount
  unfold State.leasesOn
  rw [hcalls, hcaps, hleases, Nat.add_right_cancel hcount]
  exact h b

/-- A lease that is gone has given its permit back. -/
theorem conserved_release {l : ℕ} {x : Held} (h : Conserved slots s) (hl : s.leases.get? l = some x) :
    Conserved slots { s with
      caps := Function.update s.caps x.lease.guard (s.caps x.lease.guard).dropPermit
      leases := s.leases.erase l } := by
  intro b
  have hcount : (s.leases.erase l).count (fun h => h.lease.guard = b) + (decide (x.lease.guard = b)).toNat =
      s.leasesOn b := Serial.count_erase hl fun h => h.lease.guard = b
  have hold := h b
  show (Function.update s.caps x.lease.guard (s.caps x.lease.guard).dropPermit b).sem.total +
    (s.leases.erase l).count (fun h => h.lease.guard = b) + s.calls.count (fun c => c.pc.holds b) = _
  by_cases hb : x.lease.guard = b
  · subst hb
    rw [Function.update_self, Capacity.sem_dropPermit, Semaphore.total_release]
    simp only [decide_true, Bool.toNat_true] at hcount
    omega
  · rw [Function.update_of_ne (Ne.symm hb)]
    simp only [hb, decide_false, Bool.toNat_false] at hcount
    omega

/-- A poll that reports a permit puts it in the hands of the call. -/
theorem conserves_poll (p : Tiers) (cands : List Ref) (b : Ref) (i : ℕ) :
    Move.Conserves caps (.tierWait p cands)
      ⟨if ((caps b).poll (t, i)).1 then .acquired p cands b else .tierWait p cands,
        some (b, ((caps b).poll (t, i)).2), none⟩ := by
  have htotal := Semaphore.total_poll (t, i) (caps b).sem
  refine conserves_of_cap rfl ?_ fun x hx => ?_
  · rw [Capacity.sem_poll]
    show _ + Bool.toNat (Pc.holds b (if ((caps b).sem.poll (t, i)).1 then _ else _)) +
      Bool.toNat (Pc.leased b (if ((caps b).sem.poll (t, i)).1 then _ else _)) = _ + 0
    split
    next hgot =>
      rw [hgot] at htotal
      simpa [Pc.holds, Pc.leased] using htotal
    next hgot =>
      rwa [Bool.eq_false_iff.2 hgot] at htotal
  · show Pc.holds x (if _ then _ else _) = _ ∧ Pc.leased x (if _ then _ else _) = _
    split
    · simp [Pc.holds, Pc.leased, Ne.symm hx]
    · exact ⟨rfl, rfl⟩

/-- **No step loses or makes a slot.** -/
theorem conserved_step (h : Conserved slots s) (hs : Step fleet s a s') : Conserved slots s' := by
  cases hs with
  | env e => exact h
  | call r =>
    intro b
    have hcount := Serial.count_insert s.calls ⟨r, .start⟩ fun c => c.pc.holds b
    rw [hcount]
    exact h b
  | register hcall hpc =>
    exact conserved_setPc h hcall (fun _ => by rw [hpc]; rfl) (f := fun _ => .waiting _ _) rfl rfl rfl fun _ => rfl
  | advance hcall hm => exact conserved_perform h hcall (conserves_advance hm)
  | @poll t i c p cands b hcall hpc hb =>
    refine conserved_perform h hcall ?_
    rw [hpc]
    exact conserves_poll p cands b i
  | elapseTier hcall hpc | dropTier hcall hpc =>
    exact conserved_setPc h hcall (fun _ => by rw [hpc]; rfl) (f := fun _ => .dropFutures _ _ _ _) rfl rfl rfl
      fun _ => rfl
  | elapseWait hcall hpc =>
    refine conserved_setPc h hcall (fun _ => ?_) (f := fun _ => .returned _) rfl rfl rfl fun _ => rfl
    rcases hpc with ⟨k, hpc⟩ | hpc <;> rw [hpc] <;> rfl
  | dropWait hcall hpc =>
    refine conserved_setPc h hcall (fun _ => ?_) (f := fun _ => .cancelled) rfl rfl rfl fun _ => rfl
    rcases hpc with hpc | ⟨k, hpc⟩ | hpc <;> rw [hpc] <;> rfl
  | @dropLease l x hheld hdropping =>
    intro b
    have hcount := Serial.count_modify hheld (fun h => { h with dropping := true }) fun h => h.lease.guard = b
    have hsame : (s.leases.modify l fun h => { h with dropping := true }).count
        (fun h => h.lease.guard = b) = s.leasesOn b := Nat.add_right_cancel hcount
    show _ + (s.leases.modify l fun h => { h with dropping := true }).count _ + _ = _
    rw [hsame]
    exact h b
  | release hheld hdropping => exact conserved_release h hheld
  | notifyNone hn hfired => exact h
  | notifyFired hn hfired =>
    obtain ⟨halive, -⟩ := WaiterQueue.fired_spec hfired
    obtain ⟨c, w, hc, hpc⟩ := State.alive_iff.1 halive
    exact conserved_setPc h hc (fun _ => by rw [hpc]; rfl) (f := fun c => c.pc.fire) rfl rfl rfl
      fun _ => by rw [hpc]; rfl

end Conserved

/-! ## No future outlives its tier wait -/

/-- The call still has to poll or drop its future `i`, which is one of `b`. -/
def Pc.owns (b : Ref) (i : ℕ) : Pc → Prop
  | .tierWait _ cands | .acquired _ cands _ | .refused _ cands _ => cands[i]? = some b
  | .dropFutures _ _ todo _ => (b, i) ∈ todo
  | _ => False

/-- A semaphore keeps each future once, and only futures that their call still has to poll or drop. -/
structure Tidy (s : State) : Prop where
  nodup : ∀ b, (s.caps b).sem.futures.Nodup
  owned : ∀ b, ∀ f ∈ (s.caps b).sem.futures, ∃ c, s.calls.get? f.1 = some c ∧ c.pc.owns b f.2

/-- What a step of call `t` may do to the futures that the semaphores keep. -/
structure Keeps (caps caps' : Ref → Capacity) (t : ℕ) (pc pc' : Pc) : Prop where
  nodup : ∀ b, (caps b).sem.futures.Nodup → (caps' b).sem.futures.Nodup
  owned : ∀ b, (caps b).sem.futures.Nodup → ∀ f ∈ (caps' b).sem.futures,
    (f.1 = t ∧ pc'.owns b f.2) ∨
      (f ∈ (caps b).sem.futures ∧ (f.1 = t → pc.owns b f.2 → pc'.owns b f.2))

section Tidy

variable {s s' : State} {c : Call} {pc pc' : Pc} {m : Move} {b : Ref} {cands : List Ref} {p : Tiers} {i : ℕ}

/-- A move that writes one capacity, without adding a future to it. -/
theorem keeps_of_cap {cap : Capacity} (hcap : m.cap = some (b, cap))
    (hperm : cap.sem.futures.Perm (caps b).sem.futures) (howns : ∀ x i, pc.owns x i → m.pc.owns x i) :
    Keeps caps (m.caps caps) t pc m.pc := by
  have hfutures : ∀ x, (m.caps caps x).sem.futures.Perm (caps x).sem.futures := by
    intro x
    rw [sem_caps hcap]
    split
    next hx => exact hx ▸ hperm
    · exact .refl _
  exact ⟨fun x h => (hfutures x).nodup_iff.2 h, fun x _ f hf => .inr ⟨(hfutures x).mem_iff.1 hf, fun _ => howns x f.2⟩⟩

theorem keeps_to (howns : ∀ x i, pc.owns x i → pc'.owns x i) :
    Keeps caps ((Move.to pc').caps caps) t pc pc' :=
  ⟨fun _ h => h, fun x _ f hf => .inr ⟨hf, fun _ => howns x f.2⟩⟩

theorem futures_tryAcquire (now : Time) (cap : Capacity) :
    (cap.tryAcquire now).2.sem.futures = cap.sem.futures := by
  rcases cap.tryAcquire_cases now with ⟨-, hsem⟩ | ⟨-, hsem⟩
  · exact Semaphore.futures_tryAcquire hsem
  · rw [hsem]

variable {outcome : TierEnd}

theorem keeps_cancel {todo : List (Ref × ℕ)} (hpc : m.pc = .dropFutures p cands todo outcome)
    (hcap : m.cap = some (b, (caps b).cancel (t, i))) :
    Keeps caps (m.caps caps) t (.dropFutures p cands ((b, i) :: todo) outcome) m.pc := by
  rw [hpc]
  refine ⟨fun x hnd => ?_, fun x hnd f hf => .inr ?_⟩
  · rw [sem_caps hcap, Capacity.sem_cancel]
    split
    next hx => exact Semaphore.nodup_futures_cancel (hx ▸ hnd)
    next => exact hnd
  · rw [sem_caps hcap, Capacity.sem_cancel] at hf
    split at hf
    next hx =>
      subst hx
      obtain ⟨hmem, hne⟩ := Semaphore.mem_futures_cancel hnd hf
      refine ⟨hmem, fun ht howns => ?_⟩
      rcases List.mem_cons.1 howns with heq | howns
      · exact absurd (Prod.ext ht (Prod.mk.inj heq).2) hne
      · exact howns
    next hx =>
      refine ⟨hf, fun _ howns => ?_⟩
      rcases List.mem_cons.1 howns with heq | howns
      · exact absurd (congrArg Prod.fst heq) hx
      · exact howns

theorem owns_zipIdx (h : cands[i]? = some b) : (Pc.dropFutures p cands cands.zipIdx outcome).owns b i := by
  show (b, i) ∈ cands.zipIdx
  rwa [List.mem_zipIdx_iff_getElem?]

theorem keeps_advance (h : advance fleet env caps counters t r free pc = some m) :
    Keeps caps (m.caps caps) t pc m.pc := by
  cases advance_inv h with
  | passes hpass =>
    refine keeps_to fun x i howns => ?_
    cases hpass with
    | spill p cands | dropped p cands => exact absurd howns (by simp [Pc.owns])
    | _ => exact absurd howns id
  | orders hperm counter | resumes w | givesUp w => exact keeps_to fun x i howns => absurd howns id
  | tests p e todo cands b | testsLegacy b todo cands =>
    exact keeps_of_cap rfl (by rw [sem_ready]) fun x i howns => absurd howns id
  | tries p cands b todo | triesLegacy cands b todo | retries w b todo =>
    exact keeps_of_cap rfl (by rw [futures_tryAcquire]) fun x i howns => absurd howns id
  | charges p cands b =>
    refine keeps_of_cap rfl (by rw [Capacity.sem_charge]) fun x i howns => ?_
    split
    · exact owns_zipIdx howns
    · exact howns
  | givesBack p cands b =>
    refine keeps_of_cap rfl ?_ fun x i howns => owns_zipIdx howns
    rw [Capacity.sem_releasePermit]
    exact Semaphore.futures_release_perm _
  | cancels p cands b i todo outcome => exact keeps_cancel rfl rfl
  | leases p cands b => exact keeps_to fun x i howns => absurd howns (by simp [Pc.owns])

/-- A poll queues or grants the future polled, which the call owns. -/
theorem keeps_poll (hb : cands[i]? = some b)
    (hm : m = ⟨if ((caps b).poll (t, i)).1 then .acquired p cands b else .tierWait p cands,
      some (b, ((caps b).poll (t, i)).2), none⟩) :
    Keeps caps (m.caps caps) t (.tierWait p cands) m.pc := by
  have howns : ∀ x j, m.pc.owns x j ↔ cands[j]? = some x := by
    intro x j
    rw [hm]
    split <;> exact Iff.rfl
  have hcap : m.cap = some (b, ((caps b).poll (t, i)).2) := by rw [hm]
  refine ⟨fun x hnd => ?_, fun x hnd f hf => ?_⟩
  · rw [sem_caps hcap, Capacity.sem_poll]
    split
    next hx => exact Semaphore.nodup_futures_poll (hx ▸ hnd)
    next => exact hnd
  · have hsame : f ∈ (caps x).sem.futures → f ∈ (caps x).sem.futures ∧
        (f.1 = t → (Pc.tierWait p cands).owns x f.2 → m.pc.owns x f.2) :=
      fun hf => ⟨hf, fun _ h => (howns x f.2).2 h⟩
    rw [sem_caps hcap, Capacity.sem_poll] at hf
    split at hf
    next hx =>
      subst hx
      rcases Semaphore.mem_futures_poll hf with hf | rfl
      · exact .inr (hsame hf)
      · exact .inl ⟨rfl, (howns x i).2 hb⟩
    next => exact .inr (hsame hf)

section

variable (h : Tidy s) (hc : s.calls.get? t = some c)
  (hcalls : s'.calls = s.calls.modify t fun c => { c with pc := f c })

include h hc hcalls

theorem Tidy.setPc (hkeeps : Keeps s.caps s'.caps t c.pc (f c)) :
    Tidy s' := by
  refine ⟨fun b => hkeeps.nodup b (h.nodup b), fun b fut hfut => ?_⟩
  rw [hcalls]
  by_cases ht : fut.1 = t
  · refine ⟨{ c with pc := f c }, by simp [ht, hc], ?_⟩
    rcases hkeeps.owned b (h.nodup b) fut hfut with ⟨-, howns⟩ | ⟨hold, howns⟩
    · exact howns
    · obtain ⟨c₀, hc₀, howns₀⟩ := h.owned b fut hold
      rw [ht, hc] at hc₀
      cases hc₀
      exact howns ht howns₀
  · rcases hkeeps.owned b (h.nodup b) fut hfut with ⟨ht', -⟩ | ⟨hold, -⟩
    · exact absurd ht' ht
    · obtain ⟨c₀, hc₀, howns₀⟩ := h.owned b fut hold
      exact ⟨c₀, by simp [ht, hc₀], howns₀⟩

/-- A step that leaves the capacities alone and moves a call that owns no future, or hands all of
    them over to be dropped. -/
theorem Tidy.setPc_of_owns (hcaps : s'.caps = s.caps)
    (howns : ∀ b i, c.pc.owns b i → (f c).owns b i) : Tidy s' :=
  h.setPc hc hcalls (hcaps ▸ ⟨fun _ h => h, fun b _ fut hf => .inr ⟨hf, fun _ => howns b fut.2⟩⟩)

end

theorem Tidy.of_caps (h : Tidy s) (hcalls : s'.calls = s.calls)
    (hcaps : ∀ b, (s'.caps b).sem.futures.Perm (s.caps b).sem.futures) : Tidy s' := by
  refine ⟨fun b => (hcaps b).nodup_iff.2 (h.nodup b), fun b f hf => ?_⟩
  rw [hcalls]
  exact h.owned b f ((hcaps b).mem_iff.1 hf)

theorem tidy_step (h : Tidy s) (hs : Step fleet s a s') : Tidy s' := by
  cases hs with
  | env e | dropLease hheld hdropping | notifyNone hn hfired => exact h.of_caps rfl fun _ => .refl _
  | call r =>
    refine ⟨h.nodup, fun b f hf => ?_⟩
    obtain ⟨c, hc, howns⟩ := h.owned b f hf
    exact ⟨c, Serial.get?_insert_of_some hc _, howns⟩
  | register hcall hpc =>
    refine h.setPc_of_owns (f := fun _ => .waiting _ _) hcall rfl rfl fun b i howns => ?_
    rwa [hpc] at howns
  | @advance t free c m hcall hm =>
    refine h.setPc (f := fun _ => m.pc) hcall (State.calls_perform ..) ?_
    rw [State.caps_perform]
    exact keeps_advance hm
  | @poll t i c p cands b hcall hpc hb =>
    refine h.setPc (f := fun _ => _) hcall (State.calls_perform ..) ?_
    rw [State.caps_perform, hpc]
    exact keeps_poll hb rfl
  | elapseTier hcall hpc | dropTier hcall hpc =>
    refine h.setPc_of_owns (f := fun _ => .dropFutures _ _ _ _) hcall rfl rfl fun b i howns => ?_
    rw [hpc] at howns
    exact owns_zipIdx howns
  | elapseWait hcall hpc =>
    refine h.setPc_of_owns (f := fun _ => .returned _) hcall rfl rfl fun b i howns => ?_
    rcases hpc with ⟨k, hpc⟩ | hpc <;> rw [hpc] at howns <;> exact howns
  | dropWait hcall hpc =>
    refine h.setPc_of_owns (f := fun _ => .cancelled) hcall rfl rfl fun b i howns => ?_
    rcases hpc with hpc | ⟨k, hpc⟩ | hpc <;> rw [hpc] at howns <;> exact howns
  | @release l x hheld hdropping =>
    refine h.of_caps rfl fun b => ?_
    show (Function.update s.caps x.lease.guard _ b).sem.futures.Perm _
    by_cases hb : b = x.lease.guard
    · subst hb
      rw [Function.update_self, Capacity.sem_dropPermit]
      exact Semaphore.futures_release_perm _
    · rw [Function.update_of_ne hb]
  | notifyFired hn hfired =>
    obtain ⟨halive, -⟩ := WaiterQueue.fired_spec hfired
    obtain ⟨c, w, hc, hpc⟩ := State.alive_iff.1 halive
    refine h.setPc_of_owns (f := fun c => c.pc.fire) hc rfl rfl fun b i howns => ?_
    rw [hpc] at howns
    exact absurd howns id

end Tidy

/-! ## Every run -/

section

variable {slots : Ref → ℕ} (hcaps : ∀ b, (caps b).Configured (slots b))

include hcaps

theorem conserved_initial : Conserved slots (.initial env caps) := by
  intro b
  show (caps b).sem.total + 0 + 0 = slots b
  rw [(hcaps b).sem_eq, Semaphore.total_new, Nat.add_zero]

theorem tidy_initial : Tidy (.initial env caps) := by
  have hnil : ∀ b, (caps b).sem.futures = [] := fun b => by
    rw [(hcaps b).sem_eq, Semaphore.futures_new]
  refine ⟨fun b => ?_, fun b f hf => ?_⟩
  · show (caps b).sem.futures.Nodup
    rw [hnil]
    exact List.nodup_nil
  · change f ∈ (caps b).sem.futures at hf
    rw [hnil] at hf
    exact absurd hf List.not_mem_nil

end

/-- The call returned, with a lease or an error, or its future was dropped. -/
def Pc.ended : Pc → Bool
  | .returned _ | .cancelled => true
  | _ => false

theorem Pc.bare_of_ended {pc : Pc} (h : pc.ended = true) (b : Ref) : pc.holds b = false ∧ ∀ i, ¬ pc.owns b i := by
  cases pc with
  | returned res | cancelled => exact ⟨rfl, fun _ => id⟩
  | _ => exact absurd h Bool.false_ne_true

/-- **Slot conservation.** In every run of a pool whose backends were built with `slots` slots each,
    whatever roles they serve, free slots and live permits of each backend add up to its slots, so no
    more leases than that exist at once; and a call that has returned or was dropped has no permit in
    hand and no future in any semaphore. -/
theorem slots_conserved {fleet : Fleet} {env : Env} {caps : Ref → Capacity} {slots : Ref → ℕ}
    {es : List (Edge State Act)} {s : State} (hcaps : ∀ b, (caps b).Configured (slots b))
    (hrun : Run (Fires (step fleet)) (.initial env caps) es s) :
    (∀ b, (s.caps b).free + s.livePermits b = slots b) ∧ (∀ b, s.leasesOn b ≤ slots b) ∧
      ∀ t c, s.calls.get? t = some c → c.pc.ended = true →
        ∀ b, c.pc.holds b = false ∧ ∀ i, (t, i) ∉ (s.caps b).sem.futures := by
  have hcons : Conserved slots s := Run.invariant (conserved_initial hcaps)
    (fun s a s' hstep h => conserved_step h (step_inv hstep)) hrun
  have htidy : Tidy s := Run.invariant (tidy_initial hcaps) (fun s a s' hstep h => tidy_step h (step_inv hstep)) hrun
  have hslots : ∀ b, (s.caps b).free + s.livePermits b = slots b := by
    intro b
    rw [← hcons b]
    unfold State.livePermits Capacity.free Semaphore.total
    omega
  refine ⟨hslots, fun b => ?_, fun t c hc hended b => ⟨(Pc.bare_of_ended hended b).1, fun i hi => ?_⟩⟩
  · rw [← hslots b]
    unfold State.livePermits
    omega
  · obtain ⟨c', hc', howns⟩ := htidy.owned b (t, i) hi
    cases hc.symm.trans hc'
    exact (Pc.bare_of_ended hended b).2 i howns

/-! ## A future dropped with a permit in it -/

/-- One rated backend, which serves every role. -/
def ratedFleet : Fleet where
  backend _ := ⟨"api", some "http", none, .remote, 0⟩
  byRole _ := [0]
  acquireTimeout := 30

/-- One slot, sixty requests per minute, and a table that routes text to it. -/
def ratedPool : State :=
  .initial ⟨⟨0, 12, 0⟩, some ⟨[((none, .text), [[⟨.priority, 7⟩]])]⟩, [("db:7", 0)],
    fun _ => ⟨true, none, none, none⟩⟩ fun _ => .newRated 1 60 600 0

/-- The second call waits on the tier of the first, is handed its slot, and is dropped before it polls
    again. -/
def droppedWhenGranted : List Act :=
  [.call ⟨.text, false, 0, none⟩, .call ⟨.text, false, 0, none⟩] ++
    List.replicate 6 (.run 1 fun _ => 1) ++ List.replicate 7 (.run 2 fun _ => 1) ++
    [.poll 2 0, .dropLease 1, .release 1, .drop 2, .run 2 fun _ => 1, .run 2 fun _ => 1]

theorem droppedWhenGranted_leaks_nothing :
    ∃ es s c, Run (Fires (step ratedFleet)) ratedPool es s ∧
      es.map Edge.label = droppedWhenGranted ∧ s.calls.get? 2 = some c ∧ c.pc.ended = true ∧
      (es.any fun e => (e.src.caps 0).sem.granted = [(2, 0)]) = true ∧
      (s.caps 0).free + s.livePermits 0 = 1 ∧ s.leasesOn 0 ≤ 1 ∧
      c.pc.holds 0 = false ∧ ∀ i, (2, i) ∉ (s.caps 0).sem.futures := by
  obtain ⟨es, s, hrun, hlabels, hgranted, c, hc, hended⟩ : ∃ es s, Run (Fires (step ratedFleet)) ratedPool es s ∧
      es.map Edge.label = droppedWhenGranted ∧ (es.any fun e => (e.src.caps 0).sem.granted = [(2, 0)]) = true ∧
      ∃ c ∈ s.calls.get? 2, c.pc.ended = true := exists_run_of_holds (by decide +kernel)
  obtain ⟨hslots, hleases, hclean⟩ := slots_conserved (fun _ => .inr (.inr ⟨60, 600, 0, rfl⟩)) hrun
  exact ⟨es, s, c, hrun, hlabels, hc, hended, hgranted, hslots 0, hleases 0, hclean 2 c hc hended 0⟩

end Tagsmaxxing.Scheduler
