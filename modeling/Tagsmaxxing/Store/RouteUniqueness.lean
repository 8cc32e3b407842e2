import Tagsmaxxing.Api.RouteForms

/-! # Is a route unique? (`db_routing.rs`)

`UNIQUE (tenant_id, role, tier, model_id)` compares with `=`, for which `NULL` equals nothing: the constraint, and the
`ON CONFLICT` of `create_route` that names it, see tenants' routes only. Over any calls those stay unique; the global
routes do as long as no call puts one where another one is (`slots_unique_iff`). -/

namespace Tagsmaxxing.Routing

open List

open Scheduler (Role RoutingStrategy)

/-- A call of the store's route functions. -/
inductive RouteCall
  | create (tenantId : Option Int) (role : Role) (tier : Int32) (strategy : RoutingStrategy) (spillMs : Int32)
      (modelId : Int)
  | update (id : Int) (tier : Option Int32) (strategy : Option RoutingStrategy) (spillMs : Option Int32)
      (modelId : Option Int)
  | delete (id : Int)

/-- `PgStore::delete_route`. -/
def deleteRoute (id : Int) (s : RouteStore) : RouteStore :=
  { s with db := { s.db with routes := s.db.routes.filter fun r => r.id != id } }

/-- The tables after a call, whatever it returns. -/
def RouteCall.run (s : RouteStore) : RouteCall → RouteStore
  | .create tenantId role tier strategy spillMs modelId =>
      (createRoute tenantId role tier strategy spillMs modelId s).1
  | .update id tier strategy spillMs modelId => (updateRoute id tier strategy spillMs modelId s).1
  | .delete id => deleteRoute id s

/-- The columns of the constraint; here a `NULL` is a value like any other. -/
def RouteRow.slot (r : RouteRow) : Option Int × Role × Int32 × Int := (r.tenantId, r.role, r.tier, r.modelId)

/-- What the calls keep: ids come from the sequence, and are distinct. -/
structure RouteStore.Inv (s : RouteStore) : Prop where
  issued : ∀ id ∈ s.db.routes.map RouteRow.id, id < s.nextId
  ids : (s.db.routes.map RouteRow.id).Nodup

variable {s : RouteStore}

/-- The constraint lets only a global row have the slot of another one. -/
theorem tenantId_of_not_duplicates {db : RoutingDb} {r o : RouteRow} (h : db.duplicates r = false)
    (ho : o ∈ db.routes) (heq : o.slot = r.slot) (hid : o.id ≠ r.id) : r.tenantId = none := by
  by_contra hsome
  simp only [RouteRow.slot, Prod.mk.injEq] at heq
  obtain ⟨htenant, hrole, htier, hmodel⟩ := heq
  have hdup : db.duplicates r = true := by
    simp only [RoutingDb.duplicates, Bool.and_eq_true, any_eq_true]
    exact ⟨Option.isSome_iff_ne_none.2 hsome, o, ho, by simp [hid, htenant, hrole, htier, hmodel]⟩
  cases hdup.symm.trans h

/-- The row with the id is the one that is read. -/
theorem getRoute_spec (h : s.Inv) {id : Int} {current : RouteRow} (hget : s.db.getRoute id = some current) :
    current ∈ s.db.routes ∧ current.id = id ∧ ∀ r ∈ s.db.routes, r.id = id → r = current := by
  have hcurrent : current ∈ s.db.routes := mem_of_find?_eq_some hget
  have hid : current.id = id := by simpa using find?_some hget
  exact ⟨hcurrent, hid, fun r hr hrid => inj_on_of_nodup_map h.ids hr hcurrent (hrid.trans hid.symm)⟩

/-! ## What a call does to the rows -/

/-- The row that a call asks for. -/
def RouteStore.asked (s : RouteStore) : RouteCall → Option RouteRow
  | .create tenantId role tier strategy spillMs modelId =>
      some ⟨s.nextId, tenantId, role, tier, strategy, spillMs, modelId⟩
  | .update id tier strategy spillMs modelId => (s.db.getRoute id).map fun current =>
      { current with
        tier := tier.getD current.tier
        strategy := strategy.getD current.strategy
        spillMs := spillMs.getD current.spillMs
        modelId := modelId.getD current.modelId }
  | .delete _ => none

/-- The call puts a global route where another one is. -/
def RouteStore.Repeats (s : RouteStore) (call : RouteCall) : Prop :=
  ∃ r, s.asked call = some r ∧ r.tenantId = none ∧ s.db.hasModel r.modelId = true ∧
    ∃ o ∈ s.db.routes, o.id ≠ r.id ∧ o.slot = r.slot

/-- A call stores the row that it asks for, beside the rows with other ids; or it stores nothing, because that row
    breaks a constraint or there is none. -/
theorem run_cases (h : s.Inv) (call : RouteCall) :
    (∃ r, s.asked call = some r ∧ s.db.duplicates r = false ∧ s.db.hasModel r.modelId = true ∧
        ∀ o, o ∈ (call.run s).db.routes ↔ o = r ∨ o ∈ s.db.routes ∧ o.id ≠ r.id) ∨
      (call.run s).db.routes ⊆ s.db.routes ∧
        ∀ r, s.asked call = some r → s.db.duplicates r = true ∨ s.db.hasModel r.modelId = false := by
  cases call with
  | create tenantId role tier strategy spillMs modelId =>
    simp only [RouteCall.run, RouteStore.asked, createRoute, Option.some.injEq]
    split_ifs with hdup hmodel
    · exact .inr ⟨fun _ ho => ho, fun r hr => .inl (hr ▸ hdup)⟩
    · refine .inl ⟨_, rfl, eq_false_of_ne_true hdup, hmodel, fun o => ?_⟩
      rw [mem_append, mem_singleton, or_comm]
      exact or_congr_right (and_iff_left_of_imp fun ho => (h.issued o.id (mem_map_of_mem ho)).ne).symm
    · exact .inr ⟨fun _ ho => ho, fun r hr => .inr (hr ▸ eq_false_of_ne_true hmodel)⟩
  | update id tier strategy spillMs modelId =>
    simp only [RouteCall.run, RouteStore.asked, updateRoute]
    cases hget : s.db.getRoute id with
    | none => exact .inr ⟨fun _ ho => ho, by simp⟩
    | some current =>
      simp only [Option.map_some, Option.some.injEq]
      split_ifs with hrefused
      · refine .inr ⟨fun _ ho => ho, fun r hr => ?_⟩
        subst hr
        simpa using hrefused
      · simp only [Bool.or_eq_true, Bool.not_eq_true', not_or, Bool.not_eq_true, Bool.not_eq_false] at hrefused
        obtain ⟨hcurrent, rfl, hread⟩ := getRoute_spec h hget
        refine .inl ⟨_, rfl, hrefused.1, hrefused.2, fun o => ?_⟩
        simp only [mem_map, beq_iff_eq]
        constructor
        · rintro ⟨x, hx, rfl⟩
          split_ifs with hid
          · rw [hread x hx hid]
            exact .inl rfl
          · exact .inr ⟨hx, hid⟩
        · rintro (rfl | ⟨ho, hid⟩)
          · exact ⟨current, hcurrent, if_pos rfl⟩
          · exact ⟨o, ho, if_neg hid⟩
  | delete id => exact .inr ⟨filter_subset_self _, by simp [RouteStore.asked]⟩

/-- A call adds the next id to the table, or none. -/
theorem ids_run (s : RouteStore) (call : RouteCall) :
    ((call.run s).db.routes.map RouteRow.id = s.db.routes.map RouteRow.id ++ [s.nextId] ∧
        (call.run s).nextId = s.nextId + 1) ∨
      (call.run s).db.routes.map RouteRow.id <+ s.db.routes.map RouteRow.id ∧ s.nextId ≤ (call.run s).nextId := by
  cases call with
  | create tenantId role tier strategy spillMs modelId =>
    simp only [RouteCall.run, createRoute]
    split_ifs
    · exact .inr ⟨.refl _, Int.le_add_one le_rfl⟩
    · exact .inl ⟨map_append, rfl⟩
    · exact .inr ⟨.refl _, Int.le_add_one le_rfl⟩
  | update id tier strategy spillMs modelId =>
    refine .inr ?_
    simp only [RouteCall.run, updateRoute]
    cases s.db.getRoute id with
    | none => exact ⟨.refl _, le_rfl⟩
    | some current =>
      dsimp only
      split_ifs
      · exact ⟨.refl _, le_rfl⟩
      · rw [map_map, map_congr_left fun r _ => ?_]
        · exact ⟨.refl _, le_rfl⟩
        · rw [Function.comp_apply]
          split_ifs <;> rfl
  | delete id => exact .inr ⟨filter_sublist.map _, le_rfl⟩

theorem inv_run (h : s.Inv) (call : RouteCall) : (call.run s).Inv := by
  obtain ⟨hids, hnext⟩ | ⟨hids, hnext⟩ := ids_run s call
  · constructor
    · rw [hids, hnext]
      refine forall_mem_append.2 ⟨fun i hi => ?_, forall_mem_singleton.2 (Int.lt_succ _)⟩
      exact (h.issued i hi).trans (Int.lt_succ _)
    · rw [hids, ← concat_eq_append]
      exact h.ids.concat fun hmem => (h.issued _ hmem).ne rfl
  · exact ⟨fun i hi => (h.issued i (hids.subset hi)).trans_le hnext, h.ids.sublist hids⟩

theorem inv_foldl (h : s.Inv) (calls : List RouteCall) : (calls.foldl RouteCall.run s).Inv := by
  induction calls generalizing s with
  | nil => exact h
  | cons call calls ih => exact ih (inv_run h call)

/-- Two rows have one slot only if they are one row. -/
def RouteStore.Unique (s : RouteStore) : Prop := ∀ a ∈ s.db.routes, ∀ b ∈ s.db.routes, a.slot = b.slot → a.id = b.id

theorem nodup_slots_iff (h : s.Inv) : (s.db.routes.map RouteRow.slot).Nodup ↔ s.Unique := by
  constructor
  · intro hnodup a ha b hb heq
    exact congrArg RouteRow.id (inj_on_of_nodup_map hnodup ha hb heq)
  · intro hu
    refine h.ids.of_map.map_on fun a ha b hb heq => ?_
    exact inj_on_of_nodup_map h.ids ha hb (hu a ha b hb heq)

theorem unique_run_iff (h : s.Inv) (hu : s.Unique) (call : RouteCall) : (call.run s).Unique ↔ ¬ s.Repeats call := by
  rcases run_cases h call with ⟨r, hr, hdup, hmodel, hrows⟩ | ⟨hsub, hrefused⟩
  · constructor
    · rintro hafter ⟨r', hr', -, -, o, ho, hid, hslot⟩
      cases hr.symm.trans hr'
      exact hid (hafter o ((hrows o).2 (.inr ⟨ho, hid⟩)) r ((hrows r).2 (.inl rfl)) hslot)
    · intro hnot
      -- a row beside the new one has another slot: else both are global
      have hnew : ∀ o ∈ s.db.routes, o.id ≠ r.id → o.slot ≠ r.slot := by
        intro o ho hid hslot
        exact hnot ⟨r, hr, tenantId_of_not_duplicates hdup ho hslot hid, hmodel, o, ho, hid, hslot⟩
      intro a ha b hb heq
      rcases (hrows a).1 ha with rfl | ⟨ha, haid⟩ <;> rcases (hrows b).1 hb with rfl | ⟨hb, hbid⟩
      · rfl
      · exact absurd heq.symm (hnew b hb hbid)
      · exact absurd heq (hnew a ha haid)
      · exact hu a ha b hb heq
  · refine iff_of_true (fun a ha b hb => hu a (hsub ha) b (hsub hb)) ?_
    rintro ⟨r, hr, hnone, hmodel, -⟩
    rcases hrefused r hr with hdup | hmissing
    · simp [RoutingDb.duplicates, hnone] at hdup
    · cases hmodel.symm.trans hmissing

/-- The tables after calls on an empty table of routes, over any providers and models. -/
def storeAfter (db : RoutingDb) (calls : List RouteCall) : RouteStore :=
  calls.foldl RouteCall.run ⟨{ db with routes := [] }, 1⟩

/-- **Routes stay unique exactly if no call repeats a global one**, in the table as it is before the call. -/
theorem slots_unique_iff (db : RoutingDb) (calls : List RouteCall) :
    (∀ k, ((storeAfter db (calls.take k)).db.routes.map RouteRow.slot).Nodup) ↔
      ∀ k call, calls[k]? = some call → ¬ (storeAfter db (calls.take k)).Repeats call := by
  have hinv : RouteStore.Inv ⟨{ db with routes := [] }, 1⟩ := ⟨by simp, nodup_nil⟩
  have hunique : RouteStore.Unique ⟨{ db with routes := [] }, 1⟩ := by
    rintro a ⟨⟩
  have hnodup : ∀ k, ((storeAfter db (calls.take k)).db.routes.map RouteRow.slot).Nodup ↔
      (storeAfter db (calls.take k)).Inv ∧ (storeAfter db (calls.take k)).Unique := by
    intro k
    have hk := inv_foldl hinv (calls.take k)
    exact (nodup_slots_iff hk).trans (and_iff_right hk).symm
  simp only [hnodup]
  have hstep : ∀ (s : RouteStore) call, s.Inv ∧ s.Unique →
      ((call.run s).Inv ∧ (call.run s).Unique ↔ ¬ s.Repeats call) := by
    intro s call hs
    rw [and_iff_right (inv_run hs.1 call)]
    exact unique_run_iff hs.1 hs.2 call
  exact forall_foldl_take_iff hstep ⟨hinv, hunique⟩ calls

/-- The same global route, created twice. -/
theorem global_route_twice :
    ¬ ((storeAfter ⟨[], [⟨7, 1, "m", [], none, none, none, none, none, none, .local, true⟩], []⟩
      [.create none .text 0 .leastLoaded 800 7, .create none .text 0 .leastLoaded 800 7]).db.routes.map
        RouteRow.slot).Nodup := by
  decide

end Tagsmaxxing.Routing
