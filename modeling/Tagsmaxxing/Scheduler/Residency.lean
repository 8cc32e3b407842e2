import Tagsmaxxing.Scheduler.Pool

/-! # Local-only calls stay local

Whatever path a call takes, a backend enters its candidate lists only through one of the two residency
filters, and a lease is only ever made from a candidate. Neither depends on the routing table, the
backend map or the health of a backend at any other moment, so swapping them between two steps changes
nothing: `local_only_lease_is_local`. -/

namespace Tagsmaxxing.Scheduler

open List Transition

/-! ## The backends a call knows -/

/-- The backend a tier wait has a permit of. -/
def TierEnd.refs : TierEnd → List Ref
  | .lease b => [b]
  | .spill | .dropped => []

/-- All backends a call can still get a lease on from the lists it holds, or got one on. -/
def Pc.refs : Pc → List Ref
  | .start | .cancelled | .returned (.error _) => []
  | .tier p => p.union
  | .resolve p _ cands | .order p cands | .tierWait p cands => p.union ++ cands
  | .fast p cands todo => p.union ++ (cands ++ todo)
  | .acquired p cands b | .refused p cands b => p.union ++ (cands ++ [b])
  | .dropFutures p cands _ outcome => p.union ++ (cands ++ outcome.refs)
  | .gather _ cands | .sort cands => cands
  | .fastLegacy cands todo => cands ++ todo
  | .register w | .waiting w _ | .woken w => w.candidates
  | .retry w todo => w.candidates ++ todo
  | .returned (.ok l) => [l.guard]

/-- The lease names the backend whose permit it holds. -/
def Lease.Names (fleet : Fleet) (l : Lease) : Prop :=
  l.backendId = (fleet.backend l.guard).id ∧ l.endpoint = (fleet.backend l.guard).endpoint.getD ""

theorem Lease.names_new (fleet : Fleet) (b : Ref) : (Lease.new fleet b).Names fleet := ⟨rfl, rfl⟩

/-- The routing entries a call can still resolve. -/
def Pc.entries : Pc → List RoutingEntry
  | .tier p | .order p _ | .fast p _ _ | .tierWait p _ | .acquired p _ _ | .refused p _ _
  | .dropFutures p _ _ _ => p.tiers.flatten
  | .resolve p todo _ => p.tiers.flatten ++ todo
  | _ => []

/-- The registered backends that the legacy path has not tested yet. -/
def Pc.pending : Pc → List Ref
  | .gather todo _ => todo
  | _ => []

/-! ## What a step can do to a call -/

variable {s s' : State} {a : Act}

section Grows

attribute [local simp] TierEnd.refs Pc.refs Pc.entries Pc.pending

variable (fleet : Fleet) (env : Env) (caps : Ref → Capacity) (r : Request)

/-- How a backend becomes a candidate: it is what the map has for an entry, or it is registered for the
    role, and it passes the test of its path. -/
inductive Enters : Pc → Ref → Prop
  | tiered {p : Tiers} {e : RoutingEntry} {todo : List RoutingEntry} {cands : List Ref} {b : Ref}
      (hlookup : env.backends.lookup (dbBackendKey e.modelId) = some b)
      (hready : (ready env.clock (fleet.backend b) (env.live b) (caps b)).1 = true)
      (hresident : tieredResident r.localOnly (fleet.backend b) = true) :
      Enters (.resolve p (e :: todo) cands) b
  | legacy {b : Ref} {todo cands : List Ref}
      (hready : (ready env.clock (fleet.backend b) (env.live b) (caps b)).1 = true)
      (hresident : legacyResident r.localOnly (fleet.backend b) = true) :
      Enters (.gather (b :: todo) cands) b

/-- What a step can do to a call: a new backend has passed its test, new entries come from the routing
    table, the legacy path goes through the registered backends, and a new lease names its backend. -/
structure Grows (pc pc' : Pc) : Prop where
  refs : ∀ b ∈ pc'.refs, b ∈ pc.refs ∨ Enters fleet env caps r pc b
  entries : ∀ e ∈ pc'.entries, e ∈ pc.entries ∨ ∃ table, env.routing = some table ∧
    e ∈ (effectiveTiers r.role (table.tiersFor r.tenantId r.role)).flatten
  pending : ∀ b ∈ pc'.pending, b ∈ pc.pending ∨ b ∈ fleet.byRole r.role
  lease : ∀ l, pc' = .returned (.ok l) → l.Names fleet

variable {fleet env caps r} {pc pc' : Pc} {p : Tiers} {counters : ℕ × ℕ → ℕ} {free : Ref → ℕ} {m : Move} {t : ℕ}

theorem Tiers.mem_flatten_next {e : RoutingEntry} (h : e ∈ p.next.tiers.flatten) : e ∈ p.tiers.flatten := by
  obtain ⟨tier, htier, he⟩ := mem_flatten.1 h
  exact mem_flatten.2 ⟨tier, mem_of_mem_tail htier, he⟩

/-- A step to a place that returns no lease and knows nothing new. -/
theorem Grows.of_subset (hrefs : ∀ b ∈ pc'.refs, b ∈ pc.refs) (hentries : ∀ e ∈ pc'.entries, e ∈ pc.entries)
    (hquiet : (∀ b ∈ pc'.pending, b ∈ pc.pending) ∧ ∀ l, pc' ≠ .returned (.ok l)) :
    Grows fleet env caps r pc pc' :=
  ⟨fun b hb => .inl (hrefs b hb), fun e he => .inl (hentries e he), fun b hb => .inl (hquiet.1 b hb),
    fun l hl => absurd hl (hquiet.2 l)⟩

theorem grows_legacy : Grows fleet env caps r pc (.gather (fleet.byRole r.role) []) :=
  ⟨fun b hb => absurd hb (by simp), fun e he => absurd he (by simp),
    fun b hb => .inr hb, fun l hl => absurd hl (by simp)⟩

variable {cands : List Ref}

/-- A candidate that passes its test is new; nothing else is. -/
theorem grows_testCandidate {resident : Backend → Bool} {b : Ref} {next : List Ref → Pc}
    (henters : (ready env.clock (fleet.backend b) (env.live b) (caps b)).1 = true → resident (fleet.backend b) =
      true → Enters fleet env caps r pc b)
    (hrefs : ∀ l x, x ∈ (next l).refs → x ∈ l ∨ x ∈ pc.refs) (hcands : ∀ x ∈ cands, x ∈ pc.refs)
    (hentries : ∀ l, ∀ e ∈ (next l).entries, e ∈ pc.entries) (hpending : ∀ l, ∀ x ∈ (next l).pending, x ∈ pc.pending)
    (hlease : ∀ l x, next l ≠ .returned (.ok x)) :
    Grows fleet env caps r pc (testCandidate fleet env caps resident b cands next).pc := by
  refine ⟨fun x hx => ?_, fun e he => .inl (hentries _ e he), fun x hx => .inl (hpending _ x hx),
    fun l hl => absurd hl (hlease _ l)⟩
  rcases hrefs _ x hx with hx | hx
  · split at hx
    next hpass =>
      rw [Bool.and_eq_true] at hpass
      rcases mem_append.1 hx with hx | hx
      · exact .inl (hcands x hx)
      · obtain rfl := mem_singleton.1 hx
        exact .inr (henters hpass.1 hpass.2)
    next => exact .inl (hcands x hx)
  · exact .inl hx

/-- A lease from a fast path is on the candidate that was tried. -/
theorem grows_tryCandidate {b : Ref} {attach : Lease → Lease} {next : Pc} (hb : b ∈ pc.refs)
    (hattach : ∀ l, (attach l).guard = l.guard ∧ ((attach l).Names fleet ↔ l.Names fleet))
    (hnext : Grows fleet env caps r pc next) :
    Grows fleet env caps r pc (tryCandidate fleet env caps b attach next).pc := by
  simp only [tryCandidate]
  split
  · refine ⟨fun x hx => ?_, fun e he => absurd he (by simp), fun x hx => absurd hx (by simp), fun l hl => ?_⟩
    · obtain rfl : x = (attach (.new fleet b)).guard := mem_singleton.1 hx
      rw [(hattach _).1]
      exact .inl hb
    · obtain rfl : attach (.new fleet b) = l := by
        injection hl with hl
        injection hl
      exact (hattach _).2.2 (Lease.names_new fleet b)
  · exact hnext

theorem guard_withNotify (role : Role) (l : Lease) :
    (l.withNotify role).guard = l.guard ∧ ((l.withNotify role).Names fleet ↔ l.Names fleet) :=
  ⟨rfl, Iff.rfl⟩

theorem guard_granted (w : Wait) (role : Role) (l : Lease) :
    (w.granted role l).guard = l.guard ∧ ((w.granted role l).Names fleet ↔ l.Names fleet) := by
  unfold Wait.granted
  split
  · exact ⟨rfl, Iff.rfl⟩
  · exact guard_withNotify role l

/-- Loading the table: the tiers to walk are the effective ones of the role. -/
theorem grows_start (h : advance fleet env caps counters t r free .start = some m) :
    Grows fleet env caps r .start m.pc := by
  simp only [advance] at h
  split at h
  · cases h
    exact grows_legacy
  next table htable =>
    split at h <;> cases h
    · exact grows_legacy
    · exact ⟨fun b hb => absurd hb (by simp), fun e he => .inr ⟨table, htable, he⟩,
        fun b hb => absurd hb (by simp), fun l hl => absurd hl (by simp)⟩

/-- The head of the loop: a tier is resolved, skipped, or there is none left. -/
theorem grows_tier (h : advance fleet env caps counters t r free (.tier p) = some m) :
    Grows fleet env caps r (.tier p) m.pc := by
  simp only [advance] at h
  split at h
  · split at h <;> cases h
    · exact grows_legacy
    · exact .of_subset (fun b hb => hb) (by simp) (by simp)
  next entries rest htiers =>
    split at h <;> cases h
    · exact .of_subset (fun b hb => hb) (fun e he => Tiers.mem_flatten_next he) (by simp)
    · refine .of_subset (by simp) (fun e he => ?_) (by simp)
      simp only [Move.pc_to, Pc.entries, htiers, flatten_cons, mem_append] at he ⊢
      exact he.elim id .inl

/-- `resolve_and_filter`: one entry is looked up and its backend tested. -/
theorem grows_resolve {todo : List RoutingEntry}
    (h : advance fleet env caps counters t r free (.resolve p todo cands) = some m) :
    Grows fleet env caps r (.resolve p todo cands) m.pc := by
  cases todo with
  | nil =>
    cases h
    split
    · exact .of_subset (fun b hb => mem_append_left _ hb)
        (fun e he => mem_append_left _ (Tiers.mem_flatten_next he)) (by simp)
    · exact .of_subset (fun b hb => hb) (by simp) (by simp)
  | cons e todo =>
    have hentries : ∀ l, ∀ x ∈ (Pc.resolve p todo l).entries, x ∈ (Pc.resolve p (e :: todo) cands).entries := by
      intro l x hx
      simp only [Pc.entries, mem_append, mem_cons] at hx ⊢
      exact hx.imp_right .inr
    simp only [advance] at h
    split at h <;> cases h
    · exact .of_subset (fun b hb => hb) (hentries cands) (by simp)
    next b hlookup =>
      refine grows_testCandidate (.tiered hlookup) (fun l x hx => ?_)
        (fun x hx => mem_append_right _ hx) hentries (by simp) (by simp)
      exact (mem_append.1 hx).symm.imp_right fun hx => mem_append_left _ hx

/-- A step that touches nothing shared, after the routing entries are resolved. -/
theorem grows_passes (h : Passes fleet r pc pc') (hstart : pc ≠ .start) (htier : ∀ p, pc ≠ .tier p)
    (hresolve : ∀ p todo cands, pc ≠ .resolve p todo cands) : Grows fleet env caps r pc pc' := by
  cases h with
  | legacy | tiered => exact absurd rfl hstart
  | noTier | union | emptyTier | resolve => exact absurd rfl (htier _)
  | noneResolved | resolved | unknown => exact absurd rfl (hresolve _ _ _)
  | sorted hperm =>
    refine .of_subset (fun b hb => ?_) (by simp) (by simp)
    simpa [hperm.mem_iff] using hb
  | spill p cands =>
    exact .of_subset (by simp [Tiers.spill]) (fun e he => Tiers.mem_flatten_next he) (by simp)
  | _ => exact .of_subset (by simp) (by simp) (by simp)

theorem grows_advance (h : advance fleet env caps counters t r free pc = some m) : Grows fleet env caps r pc m.pc := by
  by_cases hstart : pc = .start
  · subst hstart
    exact grows_start h
  by_cases htier : ∃ p, pc = .tier p
  · obtain ⟨p, rfl⟩ := htier
    exact grows_tier h
  by_cases hresolve : ∃ p todo cands, pc = .resolve p todo cands
  · obtain ⟨p, todo, cands, rfl⟩ := hresolve
    exact grows_resolve h
  cases advance_inv h with
  | passes hpass =>
    exact grows_passes hpass hstart (fun p hp => htier ⟨p, hp⟩) fun p todo cands hp => hresolve ⟨p, todo, cands, hp⟩
  | orders hperm counter =>
    refine .of_subset (fun b hb => ?_) (fun e he => he) (by simp)
    simpa [hperm.mem_iff] using hb
  | tests p e todo cands b => exact absurd ⟨p, e :: todo, cands, rfl⟩ hresolve
  | testsLegacy b todo cands =>
    exact grows_testCandidate .legacy (fun l x hx => .inl hx) (fun x hx => hx) (by simp)
      (fun l x hx => mem_cons_of_mem b hx) (by simp)
  | tries p cands b todo | triesLegacy cands b todo =>
    refine grows_tryCandidate (by simp) (guard_withNotify r.role) (.of_subset ?_ (by simp) (by simp))
    intro x hx
    simp only [Pc.refs, mem_append, mem_cons] at hx ⊢
    tauto
  | retries w b todo =>
    refine grows_tryCandidate (by simp) (guard_granted w r.role) (.of_subset ?_ (by simp) (by simp))
    intro x hx
    simp only [Pc.refs, mem_append, mem_cons] at hx ⊢
    tauto
  | charges p cands b =>
    split
    · exact .of_subset (fun x hx => by simpa using hx) (fun e he => he) (by simp)
    · exact .of_subset (fun x hx => hx) (fun e he => he) (by simp)
  | givesBack p cands b =>
    refine .of_subset (fun x hx => ?_) (fun e he => he) (by simp)
    simp only [Pc.refs, TierEnd.refs, append_nil, mem_append] at hx ⊢
    tauto
  | cancels p cands b i todo outcome =>
    exact .of_subset (fun x hx => hx) (fun e he => he) (by simp)
  | leases p cands b =>
    refine ⟨fun x hx => .inl ?_, fun e he => absurd he (by simp), fun x hx => absurd hx (by simp), fun l hl => ?_⟩
    · obtain rfl : x = b := mem_singleton.1 hx
      simp
    · injection hl with hl
      injection hl with hl
      subst hl
      exact Lease.names_new fleet b
  | resumes w | givesUp w => exact .of_subset (fun b hb => by simpa using hb) (by simp) (by simp)

/-- What a step of the system can do to a call. -/
theorem grows_step {fleet : Fleet} (h : Step fleet s a s') {c' : Call} (hc' : s'.calls.get? t = some c') :
    c'.pc = .start ∨ ∃ c, s.calls.get? t = some c ∧ c'.request = c.request ∧
      (c'.pc = c.pc ∨ Grows fleet s.env s.caps c.request c.pc c'.pc) := by
  -- a step that sets the program counter of call `i`
  have hset : ∀ {i : ℕ} {call : Call} {pc pc' : Pc}, s.calls.get? i = some call → call.pc = pc →
      (s.calls.modify i fun c => { c with pc := pc' }).get? t = some c' →
      Grows fleet s.env s.caps call.request pc pc' →
      ∃ c, s.calls.get? t = some c ∧ c'.request = c.request ∧
        (c'.pc = c.pc ∨ Grows fleet s.env s.caps c.request c.pc c'.pc) := by
    rintro i call pc pc' hcall rfl hget hgrows
    rcases get?_modify_pc hget with ⟨-, hsame⟩ | ⟨c₀, rfl, hc₀, rfl⟩
    · exact ⟨c', hsame, rfl, .inl rfl⟩
    · cases hcall.symm.trans hc₀
      exact ⟨call, hcall, rfl, .inr hgrows⟩
  cases h with
  | call r =>
    rw [Serial.get?_insert] at hc'
    split at hc'
    · cases hc'
      exact .inl rfl
    · exact .inr ⟨c', hc', rfl, .inl rfl⟩
  | register hcall hpc => exact .inr (hset hcall hpc hc' (.of_subset (fun b hb => hb) (by simp) (by simp)))
  | advance hcall hm =>
    rw [State.calls_perform] at hc'
    exact .inr (hset hcall rfl hc' (grows_advance hm))
  | poll hcall hpc hb =>
    rw [State.calls_perform] at hc'
    refine .inr (hset hcall hpc hc' ?_)
    split
    · refine .of_subset (fun x hx => ?_) (fun e he => he) (by simp)
      have hmem := mem_of_getElem? hb
      simp only [Pc.refs, mem_append, mem_singleton] at hx ⊢
      rcases hx with hx | hx | rfl
      · exact .inl hx
      · exact .inr hx
      · exact .inr hmem
    · exact .of_subset (fun x hx => hx) (fun e he => he) (by simp)
  | elapseTier hcall hpc | dropTier hcall hpc =>
    exact .inr (hset hcall hpc hc' (.of_subset (fun x hx => by simpa using hx) (fun e he => he) (by simp)))
  | elapseWait hcall hpc | dropWait hcall hpc =>
    exact .inr (hset hcall rfl hc' (.of_subset (by simp) (by simp) (by simp)))
  | notifyFired hn hfired =>
    rcases get?_modify_pc hc' with ⟨-, hsame⟩ | ⟨c₀, rfl, hc₀, rfl⟩
    · exact .inr ⟨c', hsame, rfl, .inl rfl⟩
    · refine .inr ⟨c₀, hc₀, rfl, ?_⟩
      cases hpc : c₀.pc with
      | waiting w k => exact .inr (.of_subset (fun b hb => hb) (by simp [Pc.fire]) (by simp [Pc.fire]))
      | _ => exact .inl rfl
  | _ => exact .inr ⟨c', hc', rfl, .inl rfl⟩

end Grows

/-! ## The two filters agree -/

theorem local_of_tieredResident {b : Backend} (h : tieredResident true b = true) :
    b.dataClass = .local := by
  cases hb : b.dataClass with
  | «local» => rfl
  | remote => simp [tieredResident, hb] at h

theorem local_of_legacyResident {b : Backend} (h : legacyResident true b = true) :
    b.dataClass = .local := by
  simpa [legacyResident] using h

/-- What a step can do to a call: new backends pass the residency filter, and a new lease names its
    backend. -/
structure Moves (fleet : Fleet) (r : Request) (pc pc' : Pc) : Prop where
  refs : ∀ b ∈ pc'.refs, b ∈ pc.refs ∨ (r.localOnly = true → (fleet.backend b).dataClass = .local)
  lease : ∀ l, pc' = .returned (.ok l) → l.Names fleet

theorem Grows.moves {fleet : Fleet} {env : Env} {caps : Ref → Capacity} {r : Request} {pc pc' : Pc}
    (h : Grows fleet env caps r pc pc') : Moves fleet r pc pc' := by
  refine ⟨fun b hb => (h.refs b hb).imp_right fun henters hlocal => ?_, h.lease⟩
  cases henters with
  | tiered _ _ hresident => exact local_of_tieredResident (hlocal ▸ hresident)
  | legacy _ hresident => exact local_of_legacyResident (hlocal ▸ hresident)

/-! ## Runs -/

/-- What holds of every call of every reachable state. -/
structure Call.Resident (fleet : Fleet) (c : Call) : Prop where
  refs : c.request.localOnly = true → ∀ b ∈ c.pc.refs, (fleet.backend b).dataClass = .local
  lease : ∀ l, c.pc = .returned (.ok l) → l.Names fleet

theorem resident_step {fleet : Fleet} (hs : ∀ t c, s.calls.get? t = some c → c.Resident fleet) (h : Step fleet s a s') :
    ∀ t c, s'.calls.get? t = some c → c.Resident fleet := by
  intro t c' hc'
  rcases grows_step h hc' with hstart | ⟨c, hc, hreq, hsame | hgrows⟩
  · exact ⟨fun _ b hb => absurd hb (by simp [hstart, Pc.refs]), fun l hl => absurd hl (by simp [hstart])⟩
  · have hres := hs t c hc
    exact ⟨hreq ▸ hsame ▸ hres.refs, hsame ▸ hres.lease⟩
  · refine ⟨fun hlocal b hb => ?_, hgrows.lease⟩
    rw [hreq] at hlocal
    exact (hgrows.moves.refs b hb).elim ((hs t c hc).refs hlocal b) fun hfilter => hfilter hlocal

/-- **Residency.** In every run from a pool in any state in which no call is under way, with the
    environment changing at will between any two steps, the lease returned to a local-only call holds a
    permit of a backend whose data class is `Local`, and names that backend. -/
theorem local_only_lease_is_local {fleet : Fleet} {s₀ s : State} {es : List (Edge State Act)}
    (hidle : s₀.calls.rows = []) (hrun : Run (Fires (step fleet)) s₀ es s) {t : ℕ} {c : Call}
    {l : Lease} (hc : s.calls.get? t = some c) (hlocal : c.request.localOnly = true)
    (hret : c.pc = .returned (.ok l)) :
    (fleet.backend l.guard).dataClass = .local ∧ l.backendId = (fleet.backend l.guard).id ∧
      l.endpoint = (fleet.backend l.guard).endpoint.getD "" := by
  have hinv : ∀ t c, s.calls.get? t = some c → c.Resident fleet := by
    refine Run.invariant (I := fun s => ∀ t c, s.calls.get? t = some c → c.Resident fleet) ?_ ?_ hrun
    · exact fun t c hc => absurd hc (by simp [Serial.get?_of_rows_nil hidle])
    · exact fun s a s' hstep hs => resident_step hs (step_inv hstep)
  have hres := hinv t c hc
  exact ⟨hres.refs hlocal l.guard (by simp [hret, Pc.refs]), hres.lease l hret⟩

/-! ## A hot swap under a local-only call -/

/-- Backend 0 is remote and backend 1 local; both serve every role. -/
def mixedFleet : Fleet where
  backend b := ⟨if b = 0 then "cloud" else "gpu", some "http", none,
    if b = 0 then .remote else .local, 0⟩
  byRole _ := [0, 1]
  acquireTimeout := 30

/-- A table that routes text to model 7, which the map resolves to `b`; everybody is healthy. -/
def routedTo (b : Ref) : Env where
  clock := ⟨0, 12, 0⟩
  routing := some ⟨[((none, .text), [[⟨.priority, 7⟩]])]⟩
  backends := [("db:7", b)]
  live _ := ⟨true, none, none, none⟩

/-- Two backends with one slot each, and the table routing to the local one. -/
def mixedPool : State := .initial (routedTo 1) fun _ => .newSlots 1

/-- A local-only call walks its tier; before its entry is looked up, the map is swapped so that the
    model is the remote backend. The call falls back to the legacy path. -/
def swappedUnderCall : List Act :=
  [.call ⟨.text, true, 0, none⟩, .run 1 fun _ => 1, .run 1 fun _ => 1, .env (routedTo 0)] ++
    List.replicate 8 (.run 1 fun _ => 1)

/-- The lease of a call that returned one. -/
def Call.lease? (c : Call) : Option Lease :=
  match c.pc with
  | .returned (.ok l) => some l
  | _ => none

theorem Call.pc_of_lease? {c : Call} {l : Lease} (h : c.lease? = some l) : c.pc = .returned (.ok l) := by
  unfold Call.lease? at h
  split at h
  next l' hpc => rw [hpc, Option.some.inj h]
  next => cases h

theorem swapped_call_stays_local :
    ∃ es s c l, Run (Fires (step mixedFleet)) mixedPool es s ∧ es.map Edge.label = swappedUnderCall ∧
      s.calls.get? 1 = some c ∧ c.request.localOnly = true ∧ c.pc = .returned (.ok l) ∧
      l.guard = 1 ∧ (mixedFleet.backend l.guard).dataClass = .local := by
  obtain ⟨es, s, hrun, hlabels, c, hc, hlocal, hlease⟩ : ∃ es s, Run (Fires (step mixedFleet)) mixedPool es s ∧
      es.map Edge.label = swappedUnderCall ∧ ∃ c ∈ s.calls.get? 1, c.request.localOnly = true ∧
        c.lease? = some ⟨"gpu", "http", 1, some .text⟩ := exists_run_of_holds (by decide +kernel)
  have hpc := Call.pc_of_lease? hlease
  exact ⟨es, s, c, _, hrun, hlabels, hc, hlocal, hpc, rfl, (local_only_lease_is_local rfl hrun hc hlocal hpc).1⟩

end Tagsmaxxing.Scheduler
