import Tagsmaxxing.Pipeline.DocumentBuilder
import Tagsmaxxing.Store.RoutingIsolation

/-! # The admin forms for routes and the reload (`admin_routing_handlers.rs`, `db_routing.rs`)

`admin_route_create` and `admin_route_update` parse the fields of a form and call `create_route` and `update_route`;
the column `routes.tier` is an `INT`, and nobody checks its sign. The reload reads the rows back with
`get_routing_table` and groups them with `from_entries`, which takes the tier as an index. A reload comes through
exactly if every route to an enabled model of an enabled provider has a tier that is not negative
(`reload_isSome_iff`), so the first form that stores another one stops every reload from then on.

A form here has passed the gates in front of the handlers; the audit event is left out. -/

namespace Tagsmaxxing.Routing

open List

open Scheduler (Role RoutingStrategy)

/-! ## Form fields -/

/-- `str::parse::<i32>`. -/
def parseI32 (s : String) : Option Int32 :=
  ((parseI64 s).filter fun n => decide (-2 ^ 31 ≤ n) && decide (n < 2 ^ 31)).map Int32.ofInt

/-- `str::trim`. -/
def trimmed (s : String) : String := String.ofList (trim s.toList)

/-- The body of `parse_optional_i32` and `parse_optional_i64`. -/
def parseOptional {α : Type} (parse : String → Option α) (s : String) : Option α :=
  if (trimmed s).isEmpty then none else parse (trimmed s)

def parseOptionalI32 : String → Option Int32 := parseOptional parseI32

def parseOptionalI64 : String → Option Int := parseOptional parseI64

/-- `Role::from_str`. -/
def roleFromStr (s : String) : Option Role :=
  [Role.text, .vision, .code, .embed, .rerank].find? fun role => roleStr role == s

/-- `RoutingStrategy::as_str`. -/
def strategyStr : RoutingStrategy → String
  | .leastLoaded => "least_loaded"
  | .roundRobin => "round_robin"
  | .costAsc => "cost_asc"
  | .priority => "priority"

/-- `RoutingStrategy::from_str`. -/
def strategyFromStr (s : String) : Option RoutingStrategy :=
  [RoutingStrategy.leastLoaded, .roundRobin, .costAsc, .priority].find? fun strategy => strategyStr strategy == s

/-- `RouteForm`; the token and the client's `tenant_id` are not used once the gates are passed. -/
structure RouteForm where
  role : String
  tierStr : String
  strategy : String
  spillMsStr : String
  modelIdStr : String

/-! ## `create_route` and `update_route` -/

/-- The routing tables and the sequence of `routes.id`. -/
structure RouteStore where
  db : RoutingDb
  nextId : Int

/-- `UNIQUE (tenant_id, role, tier, model_id)`, against the rows with another id. A `NULL` is equal to nothing. -/
def RoutingDb.duplicates (db : RoutingDb) (r : RouteRow) : Bool :=
  r.tenantId.isSome && db.routes.any fun o =>
    o.id != r.id && o.tenantId == r.tenantId && o.role == r.role && o.tier == r.tier && o.modelId == r.modelId

/-- `REFERENCES models(id)`. -/
def RoutingDb.hasModel (db : RoutingDb) (modelId : Int) : Bool := db.models.any fun m => m.id == modelId

/-- `{:?}` of an `Option<i64>`. -/
def debugOption : Option Int → String
  | none => "None"
  | some n => "Some(" ++ toString n ++ ")"

/-- `PgStore::create_route`. An insert that is refused has used up its id. -/
def createRoute (tenantId : Option Int) (role : Role) (tier : Int32) (strategy : RoutingStrategy) (spillMs : Int32)
    (modelId : Int) (s : RouteStore) : RouteStore × Except String Int :=
  let r : RouteRow := ⟨s.nextId, tenantId, role, tier, strategy, spillMs, modelId⟩
  if s.db.duplicates r then
    ({ s with nextId := s.nextId + 1 },
      .error ("duplicate route: tenant=" ++ debugOption tenantId ++ " role=" ++ roleStr role ++ " tier=" ++
        toString tier.toInt ++ " model=" ++ toString modelId))
  else if s.db.hasModel modelId then
    (⟨{ s.db with routes := s.db.routes ++ [r] }, s.nextId + 1⟩, .ok r.id)
  else ({ s with nextId := s.nextId + 1 }, .error "failed to insert route")

/-- `PgStore::get_route`. -/
def RoutingDb.getRoute (db : RoutingDb) (id : Int) : Option RouteRow := db.routes.find? fun r => r.id == id

/-- `PgStore::update_route`. -/
def updateRoute (id : Int) (tier : Option Int32) (strategy : Option RoutingStrategy) (spillMs : Option Int32)
    (modelId : Option Int) (s : RouteStore) : RouteStore × Except String Unit :=
  match s.db.getRoute id with
  | none => (s, .error ("route " ++ toString id ++ " not found"))
  | some current =>
      let newTier := tier.getD current.tier
      let newStrategy := strategy.getD current.strategy
      let newSpill := spillMs.getD current.spillMs
      let newModel := modelId.getD current.modelId
      let set (r : RouteRow) : RouteRow :=
        { r with tier := newTier, strategy := newStrategy, spillMs := newSpill, modelId := newModel }
      if s.db.duplicates (set current) || !s.db.hasModel newModel then (s, .error "failed to update route")
      else
        ({ s with db := { s.db with routes := s.db.routes.map fun r => if r.id == id then set r else r } }, .ok ())

/-! ## The handlers -/

/-- The id of the new route, or the error that the list of routes shows. -/
def adminRouteCreate (tenantId : Int) (form : RouteForm) (s : RouteStore) : RouteStore × Except String Int :=
  match roleFromStr form.role with
  | none => (s, .error "Invalid role.")
  | some role =>
      let tier := (parseI32 (trimmed form.tierStr)).getD 0
      let strategy := (strategyFromStr form.strategy).getD .leastLoaded
      let spillMs := (parseI32 (trimmed form.spillMsStr)).getD 800
      match parseI64 (trimmed form.modelIdStr) with
      | none => (s, .error "Invalid model ID.")
      | some modelId =>
          let (s', result) := createRoute (some tenantId) role tier strategy spillMs modelId s
          (s', result.mapError fun e => "Failed to create route: " ++ e)

def adminRouteUpdate (id : Int) (form : RouteForm) (s : RouteStore) : RouteStore × Except String Unit :=
  let (s', result) := updateRoute id (parseOptionalI32 form.tierStr) (strategyFromStr form.strategy)
    (parseOptionalI32 form.spillMsStr) (parseOptionalI64 form.modelIdStr) s
  (s', result.mapError fun e => "Failed to update route: " ++ e)

/-- A form that is posted, with the caller's tenant or the id in its path. -/
inductive Submission
  | create (tenantId : Int) (form : RouteForm)
  | update (id : Int) (form : RouteForm)

def RouteStore.submit (s : RouteStore) : Submission → RouteStore
  | .create tenantId form => (adminRouteCreate tenantId form s).1
  | .update id form => (adminRouteUpdate id form s).1

/-- One form after the other. -/
def RouteStore.submitAll (s : RouteStore) (forms : List Submission) : RouteStore := forms.foldl RouteStore.submit s

/-- The tables before the first route. -/
def RouteStore.fresh (providers : List ProviderRow) (models : List ModelRow) : RouteStore :=
  ⟨⟨providers, models, []⟩, 1⟩

/-- What the reload builds from the rows; `none` if it aborts. -/
def reload (db : RoutingDb) : Option RoutingTable := RoutingTable.fromEntries (getRoutingTable db)

/-! ## When a reload comes through -/

/-- The model and its provider are enabled. -/
def RoutingDb.live (db : RoutingDb) (modelId : Int) : Bool :=
  db.models.any fun m => m.id == modelId && m.enabled &&
    db.providers.any fun p => p.id == m.providerId && p.enabled

/-- No route to an enabled model of an enabled provider has a negative tier. -/
def RoutingDb.TiersOk (db : RoutingDb) : Prop := ∀ r ∈ db.routes, db.live r.modelId = true → 0 ≤ r.tier

/-- A route shows up in the join if its model and provider are enabled, and with its own tier. -/
theorem forall_mem_resolve (db : RoutingDb) (r : RouteRow) :
    (∀ e ∈ db.resolve r, 0 ≤ e.tier) ↔ (db.live r.modelId = true → 0 ≤ r.tier) := by
  constructor
  · intro h hlive
    simp only [RoutingDb.live, any_eq_true, Bool.and_eq_true] at hlive
    obtain ⟨m, hm, hmodel, p, hp, hprovider⟩ := hlive
    refine h ⟨r.tenantId, r.role, r.tier, r.strategy, r.spillMs, p, m⟩ (mem_flatMap.2 ⟨m, ?_, ?_⟩)
    · exact mem_filter.2 ⟨hm, by simp [hmodel]⟩
    · exact mem_map.2 ⟨p, mem_filter.2 ⟨hp, by simp [hprovider]⟩, rfl⟩
  · intro h e he
    obtain ⟨m, hm, he⟩ := mem_flatMap.1 he
    obtain ⟨p, hp, rfl⟩ := mem_map.1 he
    obtain ⟨hm, hmodel⟩ := mem_filter.1 hm
    obtain ⟨hp, hprovider⟩ := mem_filter.1 hp
    refine h (any_eq_true.2 ⟨m, hm, ?_⟩)
    rw [hmodel, Bool.true_and]
    exact any_eq_true.2 ⟨p, hp, hprovider⟩

theorem reload_isSome_iff (db : RoutingDb) : (reload db).isSome = true ↔ db.TiersOk := by
  have hjoin : (∀ e ∈ db.rows, 0 ≤ e.tier) ↔ db.TiersOk := by
    simp only [mem_rows, RoutingDb.join, mem_flatMap]
    refine ⟨fun h r hr => ?_, ?_⟩
    · exact (forall_mem_resolve db r).1 fun e he => h e ⟨r, hr, he⟩
    · rintro h e ⟨r, hr, he⟩
      exact (forall_mem_resolve db r).2 (h r hr) e he
  rw [reload, RoutingTable.fromEntries, foldlM_pushEntry, Option.isSome_map, getRoutingTable, ← hjoin,
    ← applyOverrides_tiers db.rows]
  split
  next h => simpa using h
  next h => simpa using h

/-! ## What a form does to the rows -/

/-- The row that the call of a form asks for; blank and invalid fields are filled up. -/
def RouteStore.requested (s : RouteStore) : Submission → Option RouteRow
  | .create tenantId form => do
      let role ← roleFromStr form.role
      let modelId ← parseI64 (trimmed form.modelIdStr)
      return ⟨s.nextId, some tenantId, role, (parseI32 (trimmed form.tierStr)).getD 0,
        (strategyFromStr form.strategy).getD .leastLoaded, (parseI32 (trimmed form.spillMsStr)).getD 800, modelId⟩
  | .update id form => (s.db.getRoute id).map fun current =>
      { current with
        tier := (parseOptionalI32 form.tierStr).getD current.tier
        strategy := (strategyFromStr form.strategy).getD current.strategy
        spillMs := (parseOptionalI32 form.spillMsStr).getD current.spillMs
        modelId := (parseOptionalI64 form.modelIdStr).getD current.modelId }

/-- The form stores a negative tier for an enabled model of an enabled provider. -/
def RouteStore.storesNegative (s : RouteStore) (form : Submission) : Bool :=
  (s.requested form).any fun r => decide (r.tier < 0) && s.db.live r.modelId && !s.db.duplicates r

/-- The routes after the row `r` has been stored: the others are as before. -/
structure Stored (db db' : RoutingDb) (r : RouteRow) : Prop where
  providers : db'.providers = db.providers
  models : db'.models = db.models
  routes : ∀ o ∈ db'.routes, o ∈ db.routes ∨ o.tier = r.tier ∧ o.modelId = r.modelId
  stored : ∃ o ∈ db'.routes, o.tier = r.tier ∧ o.modelId = r.modelId

/-- A form stores the row that it asks for, or nothing if that row breaks a constraint or there is none. -/
theorem submit_cases (s : RouteStore) (form : Submission) :
    (∃ r, s.requested form = some r ∧ s.db.duplicates r = false ∧ s.db.hasModel r.modelId = true ∧
        Stored s.db (s.submit form).db r) ∨
      (s.submit form).db = s.db ∧
        ∀ r, s.requested form = some r → s.db.duplicates r = true ∨ s.db.hasModel r.modelId = false := by
  cases form with
  | create tenantId form =>
    simp only [RouteStore.submit, RouteStore.requested, adminRouteCreate]
    cases hrole : roleFromStr form.role with
    | none => exact .inr ⟨rfl, by simp⟩
    | some role =>
      cases hmodel : parseI64 (trimmed form.modelIdStr) with
      | none => exact .inr ⟨rfl, by simp⟩
      | some modelId =>
        simp only [createRoute, Option.bind_eq_bind, Option.bind_some, Option.pure_def, Option.some.injEq]
        split
        next hdup => exact .inr ⟨rfl, fun r hr => .inl (hr ▸ hdup)⟩
        next hdup =>
          split
          · next hhas =>
            refine .inl ⟨_, rfl, Bool.eq_false_iff.2 hdup, hhas, rfl, rfl, ?_, ?_⟩
            · exact forall_mem_append.2 ⟨fun o => .inl, forall_mem_singleton.2 (.inr ⟨rfl, rfl⟩)⟩
            · exact ⟨_, mem_append_right _ (mem_singleton.2 rfl), rfl, rfl⟩
          · next hhas => exact .inr ⟨rfl, fun r hr => .inr (hr ▸ Bool.eq_false_iff.2 hhas)⟩
  | update id form =>
    simp only [RouteStore.submit, RouteStore.requested, adminRouteUpdate, updateRoute]
    cases hget : s.db.getRoute id with
    | none => exact .inr ⟨rfl, by simp⟩
    | some current =>
      simp only [Option.map_some, Option.some.injEq]
      split
      next hrefused =>
        refine .inr ⟨rfl, fun r hr => ?_⟩
        subst hr
        simpa using hrefused
      next haccepted =>
        simp only [Bool.or_eq_true, Bool.not_eq_true', not_or, Bool.not_eq_true, Bool.not_eq_false] at haccepted
        refine .inl ⟨_, rfl, haccepted.1, haccepted.2, rfl, rfl, ?_, ?_⟩
        · intro o ho
          obtain ⟨r, hr, rfl⟩ := mem_map.1 ho
          split
          · exact .inr ⟨rfl, rfl⟩
          · exact .inl hr
        · have hid := find?_some hget
          refine ⟨_, mem_map.2 ⟨current, mem_of_find?_eq_some hget, rfl⟩, ?_⟩
          simp only [hid, if_true, and_self]

theorem RoutingDb.live_congr {db db' : RoutingDb} (hproviders : db'.providers = db.providers)
    (hmodels : db'.models = db.models) (modelId : Int) : db'.live modelId = db.live modelId := by
  rw [RoutingDb.live, RoutingDb.live, hproviders, hmodels]

theorem RoutingDb.hasModel_of_live {db : RoutingDb} {modelId : Int} (h : db.live modelId = true) :
    db.hasModel modelId = true := by
  simp only [RoutingDb.live, any_eq_true, Bool.and_eq_true] at h
  obtain ⟨m, hm, ⟨hid, -⟩, -⟩ := h
  exact any_eq_true.2 ⟨m, hm, hid⟩

/-- If the tiers are in order before a form, they are after it exactly if it does not store a negative one. -/
theorem tiersOk_submit {s : RouteStore} (h : s.db.TiersOk) (form : Submission) :
    (s.submit form).db.TiersOk ↔ s.storesNegative form = false := by
  rcases submit_cases s form with ⟨r, hr, hdup, hhas, hstored⟩ | ⟨hsame, hrefused⟩
  · have hlive := RoutingDb.live_congr hstored.providers hstored.models
    have hneg : s.storesNegative form = false ↔ (s.db.live r.modelId = true → 0 ≤ r.tier) := by
      simp only [RouteStore.storesNegative, hr, Option.any_some, hdup, Bool.not_false, Bool.and_true,
        Bool.and_eq_false_iff, decide_eq_false_iff_not, Int32.not_lt]
      cases s.db.live r.modelId <;> simp
    rw [hneg]
    constructor
    · intro hok hl
      obtain ⟨o, ho, htier, hmodel⟩ := hstored.stored
      have := hok o ho
      rw [hlive, hmodel, htier] at this
      exact this hl
    · intro hnew o ho
      rw [hlive]
      rcases hstored.routes o ho with hold | ⟨htier, hmodel⟩
      · exact h o hold
      · rw [htier, hmodel]
        exact hnew
  · rw [hsame, iff_true_intro h, true_iff, RouteStore.storesNegative]
    cases hr : s.requested form with
    | none => rfl
    | some r =>
      -- a refused row has a duplicate or no model
      rcases hrefused r hr with hdup | hhas
      · simp [hdup]
      · cases hlive : s.db.live r.modelId with
        | false => simp [hlive]
        | true =>
          rw [RoutingDb.hasModel_of_live hlive] at hhas
          cases hhas

/-! ## Every sequence of forms -/

/-- What a step keeps exactly if it is fine holds after every step of a list exactly if they all are. -/
theorem forall_foldl_take_iff {σ α : Type} {f : σ → α → σ} {P : σ → Prop} {ok : σ → α → Prop}
    (hstep : ∀ s a, P s → (P (f s a) ↔ ok s a)) {s : σ} (h : P s) (as : List α) :
    (∀ k, P ((as.take k).foldl f s)) ↔ ∀ k a, as[k]? = some a → ok ((as.take k).foldl f s) a := by
  have hsucc : ∀ k a, as[k]? = some a → (as.take (k + 1)).foldl f s = f ((as.take k).foldl f s) a := by
    intro k a ha
    rw [take_add_one, ha, Option.toList_some, foldl_append]
    rfl
  constructor
  · intro hall k a ha
    rw [← hstep _ a (hall k), ← hsucc k a ha]
    exact hall (k + 1)
  · intro hok k
    induction k with
    | zero => exact h
    | succ k ih =>
      cases ha : as[k]? with
      | some a =>
        rw [hsucc k a ha]
        exact (hstep _ a ih).2 (hok k a ha)
      | none =>
        -- the list has run out
        have hlength := List.getElem?_eq_none_iff.1 ha
        rw [take_of_length_le hlength] at ih
        rwa [take_of_length_le (Nat.le_succ_of_le hlength)]

end Tagsmaxxing.Routing
