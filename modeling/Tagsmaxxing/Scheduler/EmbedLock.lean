import Tagsmaxxing.Scheduler.Residency

/-! # The lock of the embedding model (`pool.rs`, `tiered.rs`)

`acquire_tiered` walks tier 0 only for embeddings, so that vectors of two models are never mixed.
`Pool::acquire` however falls back to the backends of the configuration whenever the tiered path knows
no candidate, for embeddings too. The lock therefore holds for a pool exactly when every configured
embedding backend that could serve is itself one of tier 0: `embed_locked_iff`. -/

namespace Tagsmaxxing.Scheduler

open List Transition

/-! ## The lock -/

/-- The entries of tier 0 for embeddings, of any tenant. -/
def tierZeroEmbed (table : RoutingTable) : List RoutingEntry :=
  table.entries.flatMap fun x => if x.1.2 = .embed then x.2.headD [] else []

/-- The backend is the one materialized from an entry of tier 0 for embeddings. -/
def LockedTo (table : RoutingTable) (backends : List (String × Ref)) (b : Ref) : Prop :=
  ∃ e ∈ tierZeroEmbed table, backends.lookup (dbBackendKey e.modelId) = some b

/-- The environment may change clock and health, but keeps the table and the map. -/
def Steady (table : RoutingTable) (backends : List (String × Ref)) : Act → Prop
  | .env e => e.routing = some table ∧ e.backends = backends
  | _ => True

/-- From every state of the pool in which no call is under way, however the calls interleave and
    health and capacity change under them, a lease of `acquire(Embed)` is on a backend of tier 0. -/
def EmbedLocked (fleet : Fleet) (table : RoutingTable) (backends : List (String × Ref)) : Prop :=
  ∀ s₀ es s, s₀.calls.rows = [] → s₀.env.routing = some table → s₀.env.backends = backends →
    Run (Fires (step fleet)) s₀ es s → (∀ e ∈ es, Steady table backends e.label) →
    ∀ t c l, s.calls.get? t = some c → c.request.role = .embed → c.request.tenantId = none →
      c.pc = .returned (.ok l) → LockedTo table backends l.guard

/-! ## What an embedding call knows -/

theorem mem_of_lookup_eq_some {α β : Type} [BEq α] [LawfulBEq α] {l : List (α × β)} {a : α} {b : β}
    (h : l.lookup a = some b) : (a, b) ∈ l := by
  obtain ⟨l₁, l₂, rfl, -⟩ := lookup_eq_some_iff.1 h
  exact mem_append_right _ mem_cons_self

variable {tenantId : Option Int}

/-- The tiers of a tenant and role are a row of the table. -/
theorem mem_entries_of_mem_tiersFor {table : RoutingTable} {role : Role} (h : table.tiersFor tenantId role ≠ []) :
    ∃ tenant, ((tenant, role), table.tiersFor tenantId role) ∈ table.entries := by
  unfold RoutingTable.tiersFor at h ⊢
  split at h
  next tiers hlookup => exact ⟨tenantId, by simpa [hlookup] using mem_of_lookup_eq_some hlookup⟩
  next hnone =>
    cases hglobal : table.entries.lookup (none, role) with
    | none => exact absurd (by simp [hglobal]) h
    | some tiers =>
      refine ⟨none, ?_⟩
      simpa [hnone, hglobal] using mem_of_lookup_eq_some hglobal

/-- The tiers that `acquire_tiered` walks for embeddings hold entries of tier 0 only. -/
theorem mem_tierZeroEmbed {table : RoutingTable} {e : RoutingEntry}
    (h : e ∈ (effectiveTiers .embed (table.tiersFor tenantId .embed)).flatten) : e ∈ tierZeroEmbed table := by
  cases htiers : table.tiersFor tenantId .embed with
  | nil => simp [effectiveTiers, htiers] at h
  | cons tier rest =>
    have hne : table.tiersFor tenantId .embed ≠ [] := by simp [htiers]
    obtain ⟨tenant, hmem⟩ := mem_entries_of_mem_tiersFor hne
    refine mem_flatMap.2 ⟨_, hmem, ?_⟩
    simpa [effectiveTiers, htiers] using h

variable {fleet : Fleet} {table : RoutingTable} {backends : List (String × Ref)}

/-- What holds of every embedding call while the table and the map stay as they are. -/
structure Pc.FromTierZero (fleet : Fleet) (table : RoutingTable) (backends : List (String × Ref))
    (pc : Pc) : Prop where
  refs : ∀ b ∈ pc.refs, LockedTo table backends b ∨
    b ∈ fleet.byRole .embed ∧ (fleet.backend b).endpoint.isSome = true
  entries : ∀ e ∈ pc.entries, e ∈ tierZeroEmbed table
  pending : ∀ b ∈ pc.pending, b ∈ fleet.byRole .embed

theorem Pc.fromTierZero_start : Pc.start.FromTierZero fleet table backends :=
  ⟨fun b hb => absurd hb (by simp [Pc.refs]), fun e he => absurd he (by simp [Pc.entries]),
    fun b hb => absurd hb (by simp [Pc.pending])⟩

theorem endpoint_of_ready {clock : Clock} {b : Backend} {live : Live} {cap : Capacity}
    (h : (ready clock b live cap).1 = true) : b.endpoint.isSome = true := by
  unfold ready at h
  split at h
  · simp only [Bool.and_eq_true] at h
    exact h.1.1.2
  · cases h

variable {r : Request} {env : Env} {caps : Ref → Capacity}

/-- A backend enters from an entry of tier 0, or from the configuration. -/
theorem Enters.fromTierZero {pc : Pc} {b : Ref} (hbackends : env.backends = backends)
    (hpc : pc.FromTierZero fleet table backends) (h : Enters fleet env caps r pc b) :
    LockedTo table backends b ∨ b ∈ fleet.byRole .embed ∧ (fleet.backend b).endpoint.isSome = true := by
  cases h with
  | tiered hlookup hready hresident =>
    exact .inl ⟨_, hpc.entries _ (by simp [Pc.entries]), hbackends ▸ hlookup⟩
  | legacy hready hresident =>
    exact .inr ⟨hpc.pending b (by simp [Pc.pending]), endpoint_of_ready hready⟩

theorem Grows.fromTierZero {pc pc' : Pc} (hrole : r.role = .embed)
    (hrouting : env.routing = some table) (hbackends : env.backends = backends) (h : Grows fleet env caps r pc pc')
    (hpc : pc.FromTierZero fleet table backends) : pc'.FromTierZero fleet table backends := by
  refine ⟨fun b hb => ?_, fun e he => ?_, fun b hb => ?_⟩
  · exact (h.refs b hb).elim (hpc.refs b) (Enters.fromTierZero hbackends hpc)
  · rcases h.entries e he with he | ⟨table', htable, he⟩
    · exact hpc.entries e he
    · cases hrouting.symm.trans htable
      rw [hrole] at he
      exact mem_tierZeroEmbed he
  · exact (h.pending b hb).elim (hpc.pending b) fun hb => hrole ▸ hb

/-! ## Runs -/

/-- The table, the map, and what every embedding call knows. -/
structure State.FromTierZero (fleet : Fleet) (table : RoutingTable) (backends : List (String × Ref))
    (s : State) : Prop where
  routing_eq : s.env.routing = some table
  backends_eq : s.env.backends = backends
  calls : ∀ t c, s.calls.get? t = some c → c.request.role = .embed →
    c.pc.FromTierZero fleet table backends

@[simp] theorem State.env_perform (s : State) (t : ℕ) (m : Move) : (s.perform t m).env = s.env := by
  show (s.keep m.pc).env = s.env
  unfold State.keep
  split <;> rfl

variable {s s' : State} {a : Act}

/-- Only an action of the environment changes the environment. -/
theorem env_step (h : Step fleet s a s') : s'.env = s.env ∨ a = .env s'.env := by
  cases h with
  | env e => exact .inr rfl
  | advance | poll => exact .inl (State.env_perform ..)
  | _ => exact .inl rfl

theorem fromTierZero_step (h : Step fleet s a s') (ha : Steady table backends a)
    (hs : s.FromTierZero fleet table backends) : s'.FromTierZero fleet table backends := by
  have henv : s'.env.routing = some table ∧ s'.env.backends = backends := by
    rcases env_step h with hsame | rfl
    · exact hsame ▸ ⟨hs.routing_eq, hs.backends_eq⟩
    · exact ha
  refine ⟨henv.1, henv.2, fun t c' hc' hrole => ?_⟩
  rcases grows_step h hc' with hstart | ⟨c, hc, hreq, hsame | hgrows⟩
  · exact hstart ▸ Pc.fromTierZero_start
  · exact hsame ▸ hs.calls t c hc (hreq ▸ hrole)
  · exact hgrows.fromTierZero (hreq ▸ hrole) hs.routing_eq hs.backends_eq (hs.calls t c hc (hreq ▸ hrole))

/-- If the configured embedding backends are all of tier 0, so is every lease. -/
theorem embedLocked_of_configured (h : ∀ b ∈ fleet.byRole .embed,
    (fleet.backend b).endpoint.isSome = true → LockedTo table backends b) :
    EmbedLocked fleet table backends := by
  intro s₀ es s hidle hrouting hbackends hrun hsteady t c l hc hrole _ hret
  have h0 : s₀.FromTierZero fleet table backends :=
    ⟨hrouting, hbackends, fun t c hc => absurd hc (by simp [Serial.get?_of_rows_nil hidle])⟩
  have hs := (hrun.edges_where (C := fun e => Steady table backends e.label)
    (I := State.FromTierZero fleet table backends) h0
    (fun e he hC hI => fromTierZero_step (step_inv he) hC hI) hsteady).1
  have hguard := (hs.calls t c hc hrole).refs l.guard (by simp [hret, Pc.refs])
  exact hguard.elim id fun hb => h l.guard hb.1 hb.2

/-! ## The fallback leaves tier 0 -/

section Fallback

/-- The table and the map, with `b` the only healthy backend. -/
def onlyHealthy (table : RoutingTable) (backends : List (String × Ref)) (b : Ref) : Env where
  clock := ⟨0, 12, 0⟩
  routing := some table
  backends := backends
  live x := ⟨x == b, none, none, none⟩

/-- Every backend has one free slot. -/
def oneSlot : Ref → Capacity := fun _ => .newSlots 1

/-- The arguments of `acquire(Embed)`, with remote backends allowed. -/
def embedRequest : Request := ⟨.embed, false, 0, none⟩

variable (fleet : Fleet) (table : RoutingTable) (backends : List (String × Ref)) (b : Ref)

/-- A run of a single embedding call, in a pool whose only healthy backend is `b`, gets there without
    having changed the environment or a capacity. -/
def Reaches (pc : Pc) : Prop :=
  ∃ es s, Run (Fires (step fleet)) (.initial (onlyHealthy table backends b) oneSlot) es s ∧
    (∀ e ∈ es, Steady table backends e.label) ∧ s.env = onlyHealthy table backends b ∧
    s.caps = oneSlot ∧ s.calls.get? 1 = some ⟨embedRequest, pc⟩

variable {fleet table backends b}

theorem reaches_start : Reaches fleet table backends b .start :=
  ⟨_, _, .snoc .nil (rfl : step fleet _ (.call embedRequest) = some _), by simp [Steady], rfl, rfl, rfl⟩

section

variable {pc : Pc} {m : Move} (h : Reaches fleet table backends b pc)
  (hm : ∀ counters, advance fleet (onlyHealthy table backends b) oneSlot counters 1 embedRequest (fun _ => 0) pc =
    some m)

include h hm

theorem Reaches.run :
    ∃ (es : List (Edge State Act)) (s : State),
      Run (Fires (step fleet)) (.initial (onlyHealthy table backends b) oneSlot) es (s.perform 1 m) ∧
      (∀ e ∈ es, Steady table backends e.label) ∧ s.env = onlyHealthy table backends b ∧
      s.caps = oneSlot ∧ (s.perform 1 m).calls.get? 1 = some ⟨embedRequest, m.pc⟩ := by
  obtain ⟨es, s, hrun, hsteady, henv, hcaps, hcall⟩ := h
  have hstep : step fleet s (.run 1 fun _ => 0) = some (s.perform 1 m) :=
    step_run hcall (by rw [henv, hcaps]; exact hm _)
  refine ⟨_, s, hrun.snoc hstep, ?_, henv, hcaps, ?_⟩
  · exact forall_mem_append.2 ⟨hsteady, forall_mem_singleton.2 trivial⟩
  · rw [State.calls_perform, Serial.get?_modify, hcall]
    rfl

theorem Reaches.next (hcap : ∀ x ∈ m.cap, x.2 = .newSlots 1) :
    Reaches fleet table backends b m.pc := by
  obtain ⟨es, s, hrun, hsteady, henv, hcaps, hcall⟩ := h.run hm
  refine ⟨es, _, hrun, hsteady, by rw [State.env_perform, henv], ?_, hcall⟩
  rw [State.caps_perform, hcaps]
  split
  next x c hx =>
    have hc : c = oneSlot x := hcap _ hx
    rw [hc, Function.update_eq_self]
  next => rfl

end

/-- Testing a candidate changes no capacity here, and only `b` passes. -/
theorem ready_onlyHealthy (table : RoutingTable) (backends : List (String × Ref))
    (hb : (fleet.backend b).endpoint.isSome = true) (x : Ref) :
    ready (onlyHealthy table backends b).clock (fleet.backend x) ((onlyHealthy table backends b).live x)
      (oneSlot x) = (x == b, .newSlots 1) := by
  by_cases hx : x = b
  · subst hx
    simp [ready, onlyHealthy, oneSlot, Live.cooldownActive, Live.isInTimeWindow, Live.bandwidthAvailable,
      Capacity.isUsable, Capacity.newSlots, hb]
  · simp [ready, onlyHealthy, oneSlot, hx]

section

variable (hb : (fleet.backend b).endpoint.isSome = true)

include hb

/-- No entry of the tier resolves to a backend that is ready. -/
theorem Reaches.resolve {p : Tiers} {todo : List RoutingEntry}
    (htodo : ∀ e ∈ todo, backends.lookup (dbBackendKey e.modelId) ≠ some b)
    (h : Reaches fleet table backends b (.resolve p todo [])) :
    Reaches fleet table backends b (.tier p.next) := by
  induction todo with
  | nil => exact h.next (fun _ => rfl) (by simp)
  | cons e todo ih =>
    refine ih (fun e he => htodo e (mem_cons_of_mem _ he)) ?_
    cases hlookup : backends.lookup (dbBackendKey e.modelId) with
    | none =>
      refine h.next (m := .to (.resolve p todo [])) (fun _ => ?_) (by simp)
      simp [advance, onlyHealthy, hlookup]
    | some x =>
      have hx : x ≠ b := fun hx => htodo e mem_cons_self (hx ▸ hlookup)
      have hready := ready_onlyHealthy table backends hb x
      refine h.next (m := ⟨.resolve p todo [], some (x, .newSlots 1), none⟩) (fun _ => ?_) (by simp)
      have hfound : (onlyHealthy table backends b).backends.lookup (dbBackendKey e.modelId) =
          some x := hlookup
      simp [advance, hfound, testCandidate, hready, hx]

/-- The tiered path ends with no candidate, and the call falls back. -/
theorem reaches_legacy (hlock : ¬ LockedTo table backends b) :
    Reaches fleet table backends b (.gather (fleet.byRole .embed) []) := by
  have hstart : Reaches fleet table backends b .start := reaches_start
  -- from the end of the loop, with nothing collected
  have hend : ∀ p : Tiers, p.tiers = [] → p.union = [] → Reaches fleet table backends b (.tier p) →
      Reaches fleet table backends b (.gather (fleet.byRole .embed) []) := by
    intro p htiers hunion h
    refine h.next (m := .to (.gather (fleet.byRole .embed) [])) (fun _ => ?_) (by simp)
    simp [advance, htiers, hunion, embedRequest]
  cases htiers : effectiveTiers .embed (table.tiersFor none .embed) with
  | nil =>
    refine hstart.next (m := .to (.gather (fleet.byRole .embed) [])) (fun _ => ?_) (by simp)
    simp [advance, onlyHealthy, embedRequest, htiers]
  | cons entries rest =>
    obtain rfl : rest = [] := by
      have hlen : (entries :: rest).length ≤ 1 := by
        rw [← htiers]
        simp [effectiveTiers]
      simpa using hlen
    have htier : Reaches fleet table backends b (.tier ⟨[entries], 0, 1, []⟩) := by
      refine hstart.next (m := .to (.tier ⟨[entries], 0, 1, []⟩)) (fun _ => ?_) (by simp)
      simp [advance, onlyHealthy, embedRequest, htiers]
    refine hend (Tiers.next ⟨[entries], 0, 1, []⟩) rfl rfl ?_
    cases entries with
    | nil => exact htier.next (fun _ => rfl) (by simp)
    | cons e entries =>
      refine Reaches.resolve hb (fun x hx hlookup => hlock ⟨x, ?_, hlookup⟩)
        (htier.next (m := .to (.resolve _ (e :: entries) [])) (fun _ => rfl) (by simp))
      have hflat : x ∈ (effectiveTiers .embed (table.tiersFor none .embed)).flatten := by
        simpa [htiers] using hx
      exact mem_tierZeroEmbed hflat

/-- The legacy path keeps `b` of the registered backends, as often as it is registered. -/
theorem Reaches.gather {todo cands : List Ref}
    (h : Reaches fleet table backends b (.gather todo cands)) :
    Reaches fleet table backends b (.gather [] (cands ++ todo.filter (· == b))) := by
  induction todo generalizing cands with
  | nil => simpa using h
  | cons x todo ih =>
    have hready := ready_onlyHealthy table backends hb x
    have hnext := h.next (m := ⟨.gather todo (if x == b then cands ++ [x] else cands), some (x, .newSlots 1), none⟩)
      (fun _ => by simp [advance, testCandidate, hready, embedRequest, legacyResident]) (by simp)
    have hdone := ih hnext
    split at hdone
    next hx =>
      rw [filter_cons_of_pos (p := (· == b)) hx, append_cons]
      exact hdone
    next hx =>
      rw [filter_cons_of_neg (p := (· == b)) hx]
      exact hdone

end

/-- A call that falls back is leased the configured backend. -/
theorem leased_of_not_lockedTo (hmem : b ∈ fleet.byRole .embed)
    (hb : (fleet.backend b).endpoint.isSome = true) (hlock : ¬ LockedTo table backends b) :
    ∃ es s l, Run (Fires (step fleet)) (.initial (onlyHealthy table backends b) oneSlot) es s ∧
      (∀ e ∈ es, Steady table backends e.label) ∧
      s.calls.get? 1 = some ⟨embedRequest, .returned (.ok l)⟩ ∧ l.guard = b := by
  have hgather := (reaches_legacy hb hlock).gather hb
  set cands := [] ++ (fleet.byRole .embed).filter (· == b) with hcands
  have hbcands : b ∈ cands := by simpa [hcands] using hmem
  have hall : ∀ x ∈ cands, x = b := fun x hx => by
    simp only [hcands, nil_append, mem_filter, beq_iff_eq] at hx
    exact hx.2
  -- the sort has only copies of `b` to order
  set ordered := orderByPriority fleet.backend (fun _ => 0) cands with hordered
  have hperm : ordered.Perm cands := orderByPriority_perm ..
  have hsort : Reaches fleet table backends b (.sort cands) := by
    refine hgather.next (m := .to (.sort cands)) (fun _ => ?_) (by simp)
    simp [advance, ne_nil_of_mem hbcands]
  have hfast : Reaches fleet table backends b (.fastLegacy ordered ordered) :=
    hsort.next (m := .to (.fastLegacy ordered ordered)) (fun _ => rfl) (by simp)
  cases hcons : ordered with
  | nil => exact absurd (hperm.mem_iff.2 hbcands) (by simp [hcons])
  | cons x todo =>
    obtain rfl : x = b := hall x (hperm.mem_iff.1 (by simp [hcons]))
    rw [hcons] at hfast
    obtain ⟨es, s, hrun, hsteady, -, -, hcall⟩ := hfast.run (fun _ => rfl)
    exact ⟨es, _, _, hrun, hsteady, hcall, rfl⟩

end Fallback

/-- **The embedding lock.** Every lease of `acquire(Embed)`, from every state of the pool and in every
    interleaving, is on a backend materialized from tier 0 exactly when each configured embedding backend
    that has an endpoint is one of those. -/
theorem embed_locked_iff (fleet : Fleet) (table : RoutingTable) (backends : List (String × Ref)) :
    EmbedLocked fleet table backends ↔ ∀ b ∈ fleet.byRole .embed,
      (fleet.backend b).endpoint.isSome = true → LockedTo table backends b := by
  refine ⟨fun h b hmem hb => ?_, embedLocked_of_configured⟩
  by_contra hlock
  obtain ⟨es, s, l, hrun, hsteady, hcall, rfl⟩ := leased_of_not_lockedTo hmem hb hlock
  exact hlock (h _ es s rfl rfl rfl hrun hsteady 1 _ l hcall rfl rfl rfl)

/-! ## An embedding on another model -/

/-- Backend 0 is the model of tier 0; backend 1 is configured for embeddings and serves another. -/
def twoModels : Fleet where
  backend b := ⟨if b = 0 then "db:7" else "local-embed", some "http", none, .local, 0⟩
  byRole _ := [1]
  acquireTimeout := 30

/-- Embeddings are routed to model 7. -/
def embedTable : RoutingTable := ⟨[((none, .embed), [[⟨.priority, 7⟩]])]⟩

/-- The model of tier 0 is unhealthy for the moment. -/
def tierZeroDown : Env := onlyHealthy embedTable [("db:7", 0)] 1

/-- One call of `acquire(Embed)`, run to its end. -/
def acquireEmbed : List Act := .call embedRequest :: List.replicate 9 (.run 1 fun _ => 1)

/-- The lease of an embedding call is on the configured backend, which no entry of tier 0 is
    materialized as. -/
theorem embed_falls_back_to_another_model :
    ∃ es s c l, Run (Fires (step twoModels)) (.initial tierZeroDown oneSlot) es s ∧
      es.map Edge.label = acquireEmbed ∧ tierZeroEmbed embedTable = [⟨.priority, 7⟩] ∧
      s.calls.get? 1 = some c ∧ c.request.role = .embed ∧ c.request.tenantId = none ∧
      c.pc = .returned (.ok l) ∧ l.backendId = "local-embed" ∧
      ¬ LockedTo embedTable [("db:7", 0)] l.guard := by
  obtain ⟨es, s, hrun, hlabels, c, hc, hrole, htenant, hlease⟩ : ∃ es s,
      Run (Fires (step twoModels)) (.initial tierZeroDown oneSlot) es s ∧ es.map Edge.label = acquireEmbed ∧
      ∃ c ∈ s.calls.get? 1, c.request.role = .embed ∧ c.request.tenantId = none ∧
        c.lease? = some ⟨"local-embed", "http", 1, some .embed⟩ := exists_run_of_holds (by decide +kernel)
  refine ⟨es, s, c, _, hrun, hlabels, rfl, hc, hrole, htenant, Call.pc_of_lease? hlease, rfl, ?_⟩
  rintro ⟨e, he, hlookup⟩
  obtain rfl : e = ⟨.priority, 7⟩ := mem_singleton.1 he
  exact absurd hlookup (by decide +kernel)

end Tagsmaxxing.Scheduler
