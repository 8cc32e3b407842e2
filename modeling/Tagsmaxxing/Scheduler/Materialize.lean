import Mathlib
import Tagsmaxxing.Store.Routing

/-! # Backends from the routing table (`materialize.rs`)

The pool's flat map holds the configured backends under their ids and, under the keys `db:<id>`, one backend for each
routed model of the database. `sync_backends` brings the second kind up to date with a list of routing entries: it
keeps a backend whose definition still matches (its semaphore goes on counting the permits that are out), builds one
where there is none that matches, and removes what is not wanted any more.

What a backend is built from (`materialize_backend`) and what it is compared with (`definition_matches`) are two
lists of fields in the source; `materializeBackend_matches` says that they agree. The map's `Arc`s are references
into a heap, so that keeping a backend and building an equal one differ. Prices and rates are rationals. -/

namespace Tagsmaxxing.Materialize

open Option List

open Routing (ModelRow RoutingEntry)
open Scheduler (Role Backend Live Capacity TokenBucket Pricing Ref dbBackendKey)

/-! ## The definition of a backend -/

structure CapSet where
  bits : UInt8
deriving DecidableEq

def roleToBit : Role → UInt8
  | .text => 0b00001
  | .vision => 0b00010
  | .code => 0b00100
  | .embed => 0b01000
  | .rerank => 0b10000

namespace CapSet

def empty : CapSet := ⟨0⟩

def insert (role : Role) (s : CapSet) : CapSet := ⟨s.bits ||| roleToBit role⟩

def supports (s : CapSet) (role : Role) : Bool := s.bits &&& roleToBit role != 0

/-- `impl From<Role> for CapSet`. -/
def ofRole (role : Role) : CapSet := empty.insert role

/-- `impl From<&[Role]> for CapSet`. -/
def ofRoles (roles : List Role) : CapSet := roles.foldl (fun s role => s.insert role) empty

end CapSet

/-- `Role::from_str`. -/
def roleFromStr (s : String) : Option Role :=
  [Role.text, .vision, .code, .embed, .rerank].find? fun role => Routing.roleStr role == s

def defaultDbSlots : ℕ := 1

def unlimitedPerMin : ℚ := 10 ^ 12

def isDbBackendKey (key : String) : Bool := "db:".toList.isPrefixOf key.toList

def capsetFor (entry : RoutingEntry) : CapSet :=
  let roles := entry.model.caps.filterMap roleFromStr
  if roles.isEmpty then .ofRole entry.role else .ofRoles roles

/-- A negative `max_conc` does not convert to `usize`, and counts as one. -/
def concFor (model : ModelRow) : ℕ :=
  match model.maxConc with
  | none => defaultDbSlots
  | some c => max (if c.toInt < 0 then 1 else c.toInt.toNat) 1

/-- A per-minute limit of a model row. -/
def perMin (limit : Option Int32) : ℚ :=
  match limit with
  | none => unlimitedPerMin
  | some n => n.toInt

/-- Whether the row documents a rate. -/
def wantsRated (model : ModelRow) : Bool := model.rpm.isSome || model.tpm.isSome

def capacityFor (now : Time) (model : ModelRow) : Capacity :=
  if wantsRated model then .newRated (concFor model) (perMin model.rpm) (perMin model.tpm) now
  else .newSlots (concFor model)

def pricingFor (model : ModelRow) : Option Pricing :=
  if model.priceIn.isNone && model.priceOut.isNone then none
  else some ⟨model.priceIn.getD 0, model.priceOut.getD 0⟩

/-- A provider kind that the live client speaks. -/
def servedKind (kind : Routing.ProviderKind) : Bool := kind == .local || kind == .openAiCompat

def servable (entry : RoutingEntry) : Bool :=
  servedKind entry.provider.kind && entry.provider.endpoint.isSome && entry.provider.apiKeyEnc.isNone

/-- A `Backend` as it lies behind an `Arc`: what acquiring reads, the rest of its definition, and the parts
    that change in place. -/
structure Cell where
  backend : Backend
  modelId : String
  caps : CapSet
  maxConcurrency : ℕ
  ctxTokens : Option Int
  live : Live
  capacity : Capacity

/-- `materialize_backend`, with the time at which the buckets of a rated capacity are filled. -/
def materializeBackend (now : Time) (entry : RoutingEntry) : Option Cell :=
  if !servedKind entry.provider.kind then none
  else
    match entry.provider.endpoint with
    | none => none
    | some endpoint =>
        if entry.provider.apiKeyEnc.isSome then none
        else some {
          backend := ⟨dbBackendKey entry.model.id, some endpoint, pricingFor entry.model,
            entry.model.dataClass, 0⟩
          modelId := entry.model.modelId
          caps := capsetFor entry
          maxConcurrency := concFor entry.model
          ctxTokens := entry.model.ctxTokens.map Int32.toInt
          live := ⟨true, none, none, none⟩
          capacity := capacityFor now entry.model }

deriving instance DecidableEq for Scheduler.Pricing

def definitionMatches (existing : Cell) (entry : RoutingEntry) : Bool :=
  let model := entry.model
  if !servable entry then false
  else if existing.backend.endpoint != entry.provider.endpoint
      || existing.modelId != model.modelId
      || existing.backend.dataClass != model.dataClass
      || existing.backend.pricing != pricingFor model
      || existing.caps.bits != (capsetFor entry).bits
      || existing.maxConcurrency != concFor model
      || existing.ctxTokens != model.ctxTokens.map Int32.toInt then false
  else
    match existing.capacity with
    | .slots _ => !wantsRated model
    | .rated _ rpm tpm =>
        wantsRated model && rpm.maxTokens == perMin model.rpm && tpm.maxTokens == perMin model.tpm
    | .concurrency _ => false

variable {cell : Cell}

/-- What is built is what an existing backend is compared with. -/
theorem materializeBackend_matches {now : Time} {entry : RoutingEntry} (h : materializeBackend now entry = some cell) :
    servable entry = true ∧ definitionMatches cell entry = true ∧ cell.live.healthy = true := by
  unfold materializeBackend at h
  split at h
  · cases h
  next hkind =>
    split at h
    · cases h
    next endpoint hendpoint =>
      split at h <;> cases h
      rename_i hkey
      have hservable : servable entry = true := by
        rw [servable, hendpoint]
        simp only [Bool.not_eq_true, Bool.not_eq_false', isSome_eq_false_iff] at hkind hkey
        simp [hkind, hkey]
      refine ⟨hservable, ?_, rfl⟩
      cases hrated : wantsRated entry.model with
      | false => simp [definitionMatches, hservable, hendpoint, capacityFor, hrated, Capacity.newSlots]
      | true =>
        simp [definitionMatches, hservable, hendpoint, capacityFor, hrated, Capacity.newRated, TokenBucket.new]

theorem exists_materializeBackend {entry : RoutingEntry} (h : servable entry = true) (now : Time) :
    ∃ cell, materializeBackend now entry = some cell := by
  rw [servable, Bool.and_eq_true, Bool.and_eq_true] at h
  obtain ⟨⟨hkind, hendpoint⟩, hkey⟩ := h
  obtain ⟨endpoint, hendpoint⟩ := isSome_iff_exists.1 hendpoint
  have hnokey : entry.provider.apiKeyEnc.isSome = false := by
    rw [isNone_iff_eq_none.1 hkey]
    rfl
  rw [materializeBackend, hkind, hendpoint, hnokey]
  exact ⟨_, rfl⟩

/-! ## The map of backends -/

/-- `DashMap<String, Arc<Backend>>`; an `Arc` is a reference to a cell that exists. -/
structure BackendMap where
  map : Keyed String Ref
  heap : Serial Cell
  bound : ∀ key ref, map.get? key = some ref → (heap.get? ref).isSome = true

/-- `healthy.store(true)`. -/
def Cell.revive (cell : Cell) : Cell := { cell with live := { cell.live with healthy := true } }

namespace BackendMap

/-- The `Arc` under a key and the backend behind it. -/
def get? (m : BackendMap) (key : String) : Option (Ref × Cell) := do
  let ref ← m.map.get? key
  let cell ← m.heap.get? ref
  return (ref, cell)

variable (m : BackendMap)

theorem bound_reviveAt (ref : Ref) (key : String) (r : Ref) (h : m.map.get? key = some r) :
    ((m.heap.modify ref Cell.revive).get? r).isSome = true := by
  rw [Serial.get?_modify, isSome_map]
  exact m.bound key r h

/-- Store `true` in the health flag behind an `Arc`. -/
def reviveAt (m : BackendMap) (ref : Ref) : BackendMap where
  map := m.map
  heap := m.heap.modify ref Cell.revive
  bound := m.bound_reviveAt ref

theorem bound_insert (key : String) (cell : Cell) (k : String) (r : Ref)
    (h : (m.map.upsert key m.heap.next).get? k = some r) : ((m.heap.insert cell).get? r).isSome = true := by
  rw [Keyed.get?_upsert] at h
  split at h
  · cases h
    rw [Serial.get?_insert_next]
    rfl
  · obtain ⟨c, hc⟩ := isSome_iff_exists.1 (m.bound k r h)
    rw [Serial.get?_insert_of_some hc]
    rfl

/-- `map.insert(key, Arc::new(cell))`. -/
def insert (m : BackendMap) (key : String) (cell : Cell) : BackendMap where
  map := m.map.upsert key m.heap.next
  heap := m.heap.insert cell
  bound := m.bound_insert key cell

theorem bound_retain (p : String → Bool) (k : String) (r : Ref)
    (h : (m.map.deleteWhere fun key _ => !p key).get? k = some r) : (m.heap.get? r).isSome = true := by
  rw [Keyed.get?_deleteWhere] at h
  exact m.bound k r (filter_eq_some_iff.1 h).1

/-- `map.retain(|key, _| p(key))`. -/
def retain (m : BackendMap) (p : String → Bool) : BackendMap where
  map := m.map.deleteWhere fun key _ => !p key
  heap := m.heap
  bound := m.bound_retain p

/-- `map.remove(key)`. -/
def remove (m : BackendMap) (key : String) : BackendMap := m.retain fun k => k != key

end BackendMap

/-! ## `sync_backends` -/

/-- The first entry of each model, under its key. -/
def desired (entries : List RoutingEntry) : Keyed String RoutingEntry :=
  entries.foldl (fun d entry => d.insertNew (dbBackendKey entry.model.id) entry) .empty

/-- Put a new backend under a key, or make sure that there is none. -/
def rebuild (now : Time) (m : BackendMap) (key : String) (entry : RoutingEntry) : BackendMap :=
  match materializeBackend now entry with
  | some cell => m.insert key cell
  | none => m.remove key

/-- One turn of the loop of `sync_backends`. -/
def syncOne (now : String → Time) (m : BackendMap) (wanted : String × RoutingEntry) : BackendMap :=
  match m.get? wanted.1 with
  | some (ref, existing) =>
      if definitionMatches existing wanted.2 then m.reviveAt ref
      else rebuild (now wanted.1) m wanted.1 wanted.2
  | none => rebuild (now wanted.1) m wanted.1 wanted.2

/-- `sync_backends`. `order` is the order in which the hash map of the desired entries is iterated, and `now`
    the time at which the backend under a key is built. -/
def syncBackends (now : String → Time) (order : List (String × RoutingEntry)) (entries : List RoutingEntry)
    (m : BackendMap) : BackendMap :=
  (order.foldl (syncOne now) m).retain fun key =>
    !isDbBackendKey key || ((desired entries).get? key).isSome

/-! ## What a turn does to a key -/

variable {ref : Ref}

namespace BackendMap

theorem get?_eq_some_iff {m : BackendMap} {key : String} :
    m.get? key = some (ref, cell) ↔ m.map.get? key = some ref ∧ m.heap.get? ref = some cell := by
  simp [get?, bind_eq_some_iff]

variable (m : BackendMap)

theorem map_fst_get? (key : String) : (m.get? key).map Prod.fst = m.map.get? key := by
  cases hr : m.map.get? key with
  | none => simp [get?, hr]
  | some ref =>
    obtain ⟨cell, hcell⟩ := isSome_iff_exists.1 (m.bound key ref hr)
    rw [get?_eq_some_iff.2 ⟨hr, hcell⟩, map_some]

theorem get?_eq_none_iff {m : BackendMap} {key : String} : m.get? key = none ↔ m.map.get? key = none := by
  rw [← map_fst_get?, map_eq_none_iff]

theorem get?_reviveAt (ref : Ref) (key : String) :
    (m.reviveAt ref).get? key = (m.get? key).map fun x => (x.1, if x.1 = ref then x.2.revive else x.2) := by
  simp only [get?, reviveAt, Serial.get?_modify]
  cases m.map.get? key with
  | none => rfl
  | some r => cases hr : m.heap.get? r <;> simp [hr]

theorem get?_insert (key k : String) (cell : Cell) :
    (m.insert key cell).get? k = if k = key then some (m.heap.next, cell) else m.get? k := by
  split
  next hk =>
    subst hk
    refine get?_eq_some_iff.2 ⟨?_, Serial.get?_insert_next m.heap cell⟩
    show (m.map.upsert k m.heap.next).get? k = _
    rw [Keyed.get?_upsert, if_pos rfl]
  next hk =>
    have hmap : (m.insert key cell).map.get? k = m.map.get? k := by
      show (m.map.upsert key m.heap.next).get? k = _
      rw [Keyed.get?_upsert, if_neg hk]
    cases h : m.get? k with
    | none => exact get?_eq_none_iff.2 (hmap.trans (get?_eq_none_iff.1 h))
    | some x =>
      obtain ⟨hr, hc⟩ := get?_eq_some_iff.1 h
      exact get?_eq_some_iff.2 ⟨hmap.trans hr, Serial.get?_insert_of_some hc cell⟩

theorem get?_retain (p : String → Bool) (k : String) : (m.retain p).get? k = if p k then m.get? k else none := by
  simp only [get?, retain, Keyed.get?_deleteWhere, Bool.not_not]
  cases hp : p k <;> cases m.map.get? k <;> rfl

end BackendMap

/-- The same `Arc`, or none as before; at most its health flag was set. -/
def Kept (x y : Option (Ref × Cell)) : Prop :=
  y = x ∨ ∃ ref cell, x = some (ref, cell) ∧ y = some (ref, cell.revive)

variable {x y z : Option (Ref × Cell)}

theorem Kept.trans (h₁ : Kept x y) (h₂ : Kept y z) : Kept x z := by
  rcases h₁ with rfl | ⟨ref, cell, rfl, rfl⟩
  · exact h₂
  · rcases h₂ with rfl | ⟨ref', cell', heq, rfl⟩
    · exact .inr ⟨ref, cell, rfl, rfl⟩
    · cases heq
      exact .inr ⟨ref, cell, rfl, rfl⟩

theorem definitionMatches_revive (cell : Cell) (entry : RoutingEntry) :
    definitionMatches cell.revive entry = definitionMatches cell entry := rfl

theorem Kept.some_iff (h : Kept x y) (hx : x = some (ref, cell)) :
    y = some (ref, cell) ∨ y = some (ref, cell.revive) := by
  subst hx
  rcases h with h | ⟨ref', cell', heq, rfl⟩
  · exact .inl h
  · cases heq
    exact .inr rfl

/-- What a turn for `entry` makes of the entry under its key. -/
inductive Synced (entry : RoutingEntry) : Option (Ref × Cell) → Option (Ref × Cell) → Prop
  | kept {ref : Ref} {cell : Cell} : definitionMatches cell entry = true →
      Synced entry (some (ref, cell)) (some (ref, cell.revive))
  | built {x : Option (Ref × Cell)} {now : Time} {ref : Ref} {cell : Cell} :
      (∀ r c, x = some (r, c) → definitionMatches c entry = false) →
      materializeBackend now entry = some cell → Synced entry x (some (ref, cell))
  | removed {x : Option (Ref × Cell)} : servable entry = false → Synced entry x none

/-- A rebuilt key has a new backend or none; the others are as they were. -/
theorem get?_rebuild (now : Time) (m : BackendMap) (key k : String) (entry : RoutingEntry) :
    (rebuild now m key entry).get? k =
      if k = key then (materializeBackend now entry).map fun cell => (m.heap.next, cell) else m.get? k := by
  unfold rebuild
  cases materializeBackend now entry with
  | some cell => exact m.get?_insert key k cell
  | none =>
    show (m.retain fun k => k != key).get? k = _
    rw [BackendMap.get?_retain]
    by_cases hk : k = key
    · simp [hk]
    · simp [hk]

theorem rebuild_synced {now : Time} {m : BackendMap} {key : String} {entry : RoutingEntry}
    (h : ∀ r c, m.get? key = some (r, c) → definitionMatches c entry = false) :
    Synced entry (m.get? key) ((rebuild now m key entry).get? key) := by
  rw [get?_rebuild, if_pos rfl]
  cases hcell : materializeBackend now entry with
  | some cell => exact .built h hcell
  | none =>
    refine .removed ?_
    cases hs : servable entry with
    | false => rfl
    | true =>
      obtain ⟨cell, hsome⟩ := exists_materializeBackend hs now
      cases hcell.symm.trans hsome

/-- A turn syncs its own key and keeps the others. -/
theorem syncOne_spec (now : String → Time) (m : BackendMap) (key : String) (entry : RoutingEntry) :
    Synced entry (m.get? key) ((syncOne now m (key, entry)).get? key) ∧
      ∀ k, k ≠ key → Kept (m.get? k) ((syncOne now m (key, entry)).get? k) := by
  have hrebuilt : ∀ k, k ≠ key → Kept (m.get? k) ((rebuild (now key) m key entry).get? k) := by
    intro k hk
    rw [get?_rebuild, if_neg hk]
    exact .inl rfl
  cases hget : m.get? key with
  | none =>
    simp only [syncOne, hget]
    refine ⟨?_, hrebuilt⟩
    rw [← hget]
    exact rebuild_synced fun r c h => by rw [hget] at h; cases h
  | some x =>
    obtain ⟨ref, existing⟩ := x
    simp only [syncOne, hget]
    cases hmatch : definitionMatches existing entry with
    | true =>
      simp only [if_true]
      refine ⟨?_, fun k _ => ?_⟩
      · rw [BackendMap.get?_reviveAt, hget, map_some, if_pos rfl]
        exact .kept hmatch
      · rw [BackendMap.get?_reviveAt]
        cases hk : m.get? k with
        | none => exact .inl rfl
        | some y =>
          rw [map_some]
          split
          · exact .inr ⟨y.1, y.2, rfl, rfl⟩
          · exact .inl rfl
    | false =>
      refine ⟨?_, hrebuilt⟩
      rw [← hget]
      refine rebuild_synced fun r c h => ?_
      rw [hget, Option.some.injEq, Prod.mk.injEq] at h
      rw [← h.2]
      exact hmatch

/-! ## The whole loop -/

variable {now : String → Time} {m : BackendMap} {order : List (String × RoutingEntry)}
  {key : String} {entry : RoutingEntry}

theorem Kept.map_fst (h : Kept x y) : y.map Prod.fst = x.map Prod.fst := by
  rcases h with rfl | ⟨ref, cell, rfl, rfl⟩ <;> rfl

theorem foldl_kept (h : key ∉ order.map Prod.fst) :
    Kept (m.get? key) ((order.foldl (syncOne now) m).get? key) := by
  induction order generalizing m with
  | nil => exact .inl rfl
  | cons wanted order ih =>
    rw [map_cons, mem_cons, not_or] at h
    have hturn := (syncOne_spec now m wanted.1 wanted.2).2 key h.1
    exact hturn.trans (ih h.2)

/-- A key with a turn is kept until then, synced, and kept from then on. -/
theorem foldl_synced (now : String → Time) (m : BackendMap) (hnd : (order.map Prod.fst).Nodup)
    (h : (key, entry) ∈ order) :
    ∃ x y, Kept (m.get? key) x ∧ Synced entry x y ∧ Kept y ((order.foldl (syncOne now) m).get? key) := by
  induction order generalizing m with
  | nil => cases h
  | cons wanted order ih =>
    rw [map_cons, nodup_cons] at hnd
    rw [foldl_cons]
    rcases mem_cons.1 h with rfl | h
    · exact ⟨_, _, .inl rfl, (syncOne_spec now m key entry).1, foldl_kept hnd.1⟩
    · have hne : key ≠ wanted.1 := by
        rintro rfl
        exact hnd.1 (mem_map.2 ⟨_, h, rfl⟩)
      obtain ⟨x, y, hx, hsynced, hy⟩ := ih (syncOne now m wanted) hnd.2 h
      exact ⟨x, y, ((syncOne_spec now m wanted.1 wanted.2).2 key hne).trans hx, hsynced, hy⟩

/-- A backend that is under no key of the loop is not written. -/
theorem heap_foldl (hnd : (order.map Prod.fst).Nodup) (hcell : m.heap.get? ref = some cell)
    (hfree : ∀ k ∈ order.map Prod.fst, m.map.get? k ≠ some ref) :
    (order.foldl (syncOne now) m).heap.get? ref = some cell := by
  induction order generalizing m with
  | nil => exact hcell
  | cons wanted order ih =>
    rw [map_cons, nodup_cons] at hnd
    rw [map_cons] at hfree
    have hrebuilt : (rebuild (now wanted.1) m wanted.1 wanted.2).heap.get? ref = some cell := by
      unfold rebuild
      split
      · exact Serial.get?_insert_of_some hcell _
      · exact hcell
    apply ih hnd.2
    · unfold syncOne
      split
      next r existing hget =>
        split
        · have hr : ref ≠ r := by
            rintro rfl
            exact hfree wanted.1 mem_cons_self (BackendMap.get?_eq_some_iff.1 hget).1
          show (m.heap.modify r Cell.revive).get? ref = some cell
          rw [Serial.get?_modify, hcell, map_some, if_neg hr]
        · exact hrebuilt
      · exact hrebuilt
    · intro k hk
      have hne : k ≠ wanted.1 := by
        rintro rfl
        exact hnd.1 hk
      have hkept := ((syncOne_spec now m wanted.1 wanted.2).2 k hne).map_fst
      rw [BackendMap.map_fst_get?, BackendMap.map_fst_get?] at hkept
      rw [hkept]
      exact hfree k (mem_cons_of_mem _ hk)

theorem servable_of_matches (h : definitionMatches cell entry = true) : servable entry = true := by
  unfold definitionMatches at h
  cases hs : servable entry with
  | true => rfl
  | false => simp [hs] at h

/-- What a key with a turn holds at the end. -/
theorem synced_result {x₀ : Option (Ref × Cell)} (hx : Kept x₀ x) (hsynced : Synced entry x y) (hz : Kept y z) :
    (z.isSome = true ↔ servable entry = true) ∧
    (∀ ref cell, z = some (ref, cell) → cell.live.healthy = true ∧ definitionMatches cell entry = true) ∧
    (∀ ref cell, x₀ = some (ref, cell) → definitionMatches cell entry = true →
      z = some (ref, cell.revive)) := by
  cases hsynced with
  | @kept ref cell hmatch =>
    obtain rfl : z = some (ref, cell.revive) := by rcases hz.some_iff rfl with h | h <;> exact h
    refine ⟨by simp [servable_of_matches hmatch], ?_, ?_⟩
    · rintro r c heq
      cases heq
      exact ⟨rfl, hmatch⟩
    · rintro r c rfl -
      rcases hx.some_iff rfl with h | h
      all_goals
        cases h
        rfl
  | @built _ now ref cell hnomatch hcell =>
    obtain ⟨hservable, hmatch, hhealthy⟩ := materializeBackend_matches hcell
    have hz' := hz.some_iff rfl
    refine ⟨?_, ?_, ?_⟩
    · rcases hz' with rfl | rfl <;> simp [hservable]
    · intro r c heq
      rcases hz' with rfl | rfl
      all_goals
        cases heq
      · exact ⟨hhealthy, hmatch⟩
      · exact ⟨rfl, hmatch⟩
    · rintro r c rfl hc
      rcases hx.some_iff rfl with h | h
      all_goals
        have hfalse := hnomatch _ _ h
      · cases hc.symm.trans hfalse
      · rw [definitionMatches_revive, hc] at hfalse
        cases hfalse
  | removed hservable =>
    have hnone : z = none := by
      rcases hz with h | ⟨_, _, h, -⟩
      · exact h
      · cases h
    subst hnone
    refine ⟨by simp [hservable], fun _ _ h => (by cases h), ?_⟩
    rintro r c rfl hc
    rw [servable_of_matches hc] at hservable
    cases hservable

/-! ## `sync_backends` as a whole -/

/-- The desired entry of a key is the first one listed for it. -/
theorem get?_desired (entries : List RoutingEntry) (key : String) :
    (desired entries).get? key = entries.find? fun e => dbBackendKey e.model.id == key := by
  have hfold : ∀ d : Keyed String RoutingEntry,
      (entries.foldl (fun d entry => d.insertNew (dbBackendKey entry.model.id) entry) d).get? key =
        (d.get? key).or (entries.find? fun e => dbBackendKey e.model.id == key) := by
    induction entries with
    | nil => intro d; simp
    | cons e entries ih =>
      intro d
      rw [foldl_cons, ih, Keyed.get?_insertNew, find?_cons]
      by_cases hk : key = dbBackendKey e.model.id
      · subst hk
        cases d.get? (dbBackendKey e.model.id) <;> simp
      · rw [if_neg hk, beq_eq_false_iff_ne.2 (Ne.symm hk)]
  rw [desired, hfold]
  simp

theorem isDbBackendKey_dbBackendKey (id : Int) : isDbBackendKey (dbBackendKey id) = true := by
  simp [isDbBackendKey, dbBackendKey]

theorem dbBackendKey_injective : Function.Injective dbBackendKey := by
  intro a b h
  have hrepr : a.repr = b.repr := (String.append_right_inj "db:").1 h
  exact Int.repr_injective hrepr

/-- The first entry listed for a model. -/
def firstEntry (entries : List RoutingEntry) (id : Int) : Option RoutingEntry :=
  entries.find? fun e => e.model.id == id

theorem get?_desired_dbBackendKey (entries : List RoutingEntry) (id : Int) :
    (desired entries).get? (dbBackendKey id) = firstEntry entries id := by
  rw [get?_desired, firstEntry]
  congr 1
  funext e
  by_cases h : e.model.id = id
  · simp [h]
  · simp [h, dbBackendKey_injective.eq_iff]

section Sync

variable {entries : List RoutingEntry}

theorem desired_isDbBackendKey (h : (desired entries).get? key = some entry) :
    isDbBackendKey key = true ∧ key = dbBackendKey entry.model.id := by
  rw [get?_desired] at h
  have hkey : dbBackendKey entry.model.id = key := by
    have hfound := find?_some h
    exact beq_iff_eq.1 hfound
  exact ⟨hkey ▸ isDbBackendKey_dbBackendKey _, hkey.symm⟩

theorem sync_stale (hdb : isDbBackendKey key = true) (h : (desired entries).get? key = none) :
    (syncBackends now order entries m).get? key = none := by
  rw [syncBackends, BackendMap.get?_retain, hdb, h]
  rfl

section

variable (hperm : order.Perm (desired entries).rows)

include hperm

theorem mem_order_iff : (key, entry) ∈ order ↔ (desired entries).get? key = some entry := by
  rw [hperm.mem_iff, Keyed.get?_eq_some_iff]

theorem nodup_order : (order.map Prod.fst).Nodup :=
  (hperm.map Prod.fst).nodup_iff.2 (desired entries).nodup

theorem sync_desired (now : String → Time) (m : BackendMap) (h : (desired entries).get? key = some entry) :
    (((syncBackends now order entries m).get? key).isSome = true ↔ servable entry = true) ∧
    (∀ ref cell, (syncBackends now order entries m).get? key = some (ref, cell) →
      cell.live.healthy = true ∧ definitionMatches cell entry = true) ∧
    ∀ ref cell, m.get? key = some (ref, cell) → definitionMatches cell entry = true →
      (syncBackends now order entries m).get? key = some (ref, cell.revive) := by
  rw [syncBackends, BackendMap.get?_retain, h, isSome_some, Bool.or_true, if_pos rfl]
  obtain ⟨x, y, hx, hsynced, hy⟩ := foldl_synced now m (nodup_order hperm) ((mem_order_iff hperm).2 h)
  exact synced_result hx hsynced hy

theorem sync_config (now : String → Time) (m : BackendMap) (hdb : isDbBackendKey key = false) :
    Kept (m.get? key) ((syncBackends now order entries m).get? key) := by
  rw [syncBackends, BackendMap.get?_retain, hdb, Bool.not_false, Bool.true_or, if_pos rfl]
  apply foldl_kept
  intro hmem
  obtain ⟨⟨k, e⟩, he, rfl⟩ := mem_map.1 hmem
  rw [(desired_isDbBackendKey ((mem_order_iff hperm).1 he)).1] at hdb
  cases hdb

/-- The `Arc`s of the configured keys, and what is behind those that are under no reserved key. -/
theorem sync_config_untouched (hdb : isDbBackendKey key = false) :
    (syncBackends now order entries m).map.get? key = m.map.get? key ∧
    ∀ ref cell, m.get? key = some (ref, cell) →
      (∀ k, isDbBackendKey k = true → m.map.get? k ≠ some ref) →
      (syncBackends now order entries m).get? key = some (ref, cell) := by
  have hmap : (syncBackends now order entries m).map.get? key = m.map.get? key := by
    have hkept := (sync_config hperm now m hdb).map_fst
    rwa [BackendMap.map_fst_get?, BackendMap.map_fst_get?] at hkept
  refine ⟨hmap, fun ref cell hget hfree => ?_⟩
  obtain ⟨href, hcell⟩ := BackendMap.get?_eq_some_iff.1 hget
  refine BackendMap.get?_eq_some_iff.2 ⟨hmap.trans href, ?_⟩
  refine heap_foldl (nodup_order hperm) hcell fun k hk => ?_
  obtain ⟨⟨k', e⟩, he, rfl⟩ := mem_map.1 hk
  exact hfree _ (desired_isDbBackendKey ((mem_order_iff hperm).1 he)).1

/-- Another sync with the same entries keeps every `Arc`. -/
theorem sync_again {now' : String → Time} {order' : List (String × RoutingEntry)}
    (hperm' : order'.Perm (desired entries).rows) (key : String) :
    (syncBackends now' order' entries (syncBackends now order entries m)).map.get? key =
      (syncBackends now order entries m).map.get? key := by
  cases hdb : isDbBackendKey key with
  | false => exact (sync_config_untouched hperm' hdb).1
  | true =>
    rw [← BackendMap.map_fst_get?, ← BackendMap.map_fst_get?]
    cases hd : (desired entries).get? key with
    | none => rw [sync_stale hdb hd, sync_stale hdb hd]
    | some e =>
      obtain ⟨hsome, hmatches, -⟩ := sync_desired hperm now m hd
      obtain ⟨hsome', -, hkept⟩ := sync_desired hperm' now' (syncBackends now order entries m) hd
      cases hz : (syncBackends now order entries m).get? key with
      | some z =>
        rw [hkept z.1 z.2 hz (hmatches z.1 z.2 hz).2]
        rfl
      | none =>
        -- the entry is not servable, so there is none after the second sync either
        rw [hz, isSome_none] at hsome
        rw [not_isSome_iff_eq_none.1 fun h => Bool.false_ne_true (hsome.2 (hsome'.1 h))]

end

/-- After `sync_backends`, whatever the map was and in whatever order the desired entries are visited: the
    reserved keys are those of the listed models whose first entry is servable, and each has a healthy backend
    that matches the entry; configured keys have the same `Arc`s, and what is behind them is untouched unless it
    is also under a reserved key; a backend that matched is still the same `Arc`, with its permits; and syncing
    again changes no `Arc`. What is materialized from an entry matches it. -/
theorem routing_sync (now : String → Time) (m : BackendMap) (hperm : order.Perm (desired entries).rows) :
    (∀ key, isDbBackendKey key = true →
      (((syncBackends now order entries m).get? key).isSome = true ↔
        ∃ id e, key = dbBackendKey id ∧ firstEntry entries id = some e ∧ servable e = true)) ∧
    (∀ id e ref cell, firstEntry entries id = some e →
      (syncBackends now order entries m).get? (dbBackendKey id) = some (ref, cell) →
      cell.live.healthy = true ∧ definitionMatches cell e = true) ∧
    (∀ key, isDbBackendKey key = false →
      (syncBackends now order entries m).map.get? key = m.map.get? key ∧
      ∀ ref cell, m.get? key = some (ref, cell) → (∀ k, isDbBackendKey k = true → m.map.get? k ≠ some ref) →
        (syncBackends now order entries m).get? key = some (ref, cell)) ∧
    (∀ id e ref cell, firstEntry entries id = some e → m.get? (dbBackendKey id) = some (ref, cell) →
      definitionMatches cell e = true →
      (syncBackends now order entries m).get? (dbBackendKey id) = some (ref, cell.revive)) ∧
    (∀ now' order', order'.Perm (desired entries).rows → ∀ key,
      (syncBackends now' order' entries (syncBackends now order entries m)).map.get? key =
        (syncBackends now order entries m).map.get? key) ∧
    (∀ t e cell, materializeBackend t e = some cell → definitionMatches cell e = true) := by
  refine ⟨?_, ?_, ?_, ?_, ?_, ?_⟩
  · intro key hdb
    cases hd : (desired entries).get? key with
    | none =>
      rw [sync_stale hdb hd]
      constructor
      · rintro ⟨⟩
      · rintro ⟨id, e, rfl, hfirst, -⟩
        rw [get?_desired_dbBackendKey, hfirst] at hd
        cases hd
    | some e =>
      rw [(sync_desired hperm now m hd).1]
      obtain ⟨-, hkey⟩ := desired_isDbBackendKey hd
      constructor
      · intro hservable
        rw [hkey, get?_desired_dbBackendKey] at hd
        exact ⟨e.model.id, e, hkey, hd, hservable⟩
      · rintro ⟨id, e', rfl, hfirst, hservable⟩
        rw [get?_desired_dbBackendKey, hfirst, Option.some.injEq] at hd
        rwa [← hd]
  · intro id e ref cell hfirst hget
    rw [← get?_desired_dbBackendKey] at hfirst
    exact (sync_desired hperm now m hfirst).2.1 ref cell hget
  · exact fun key hdb => sync_config_untouched hperm hdb
  · intro id e ref cell hfirst hget hmatch
    rw [← get?_desired_dbBackendKey] at hfirst
    exact (sync_desired hperm now m hfirst).2.2 ref cell hget hmatch
  · exact fun now' order' hperm' key => sync_again hperm hperm' key
  · exact fun t e cell h => (materializeBackend_matches h).2.1

/-- An entry for model 1 on a keyless local server, with two slots. -/
def localEntry : RoutingEntry where
  tenantId := none
  role := .text
  tier := 0
  strategy := .leastLoaded
  spillMs := 800
  provider := ⟨7, "llama-gpu", .local, some "http://gpu", .obj [], true, none⟩
  model := ⟨1, 7, "qwen", ["text"], some 8192, some 2, none, none, none, none, .local, true⟩

def noBackends : BackendMap := ⟨.empty, .empty, fun _ _ h => by cases h⟩

/-- The same for model 2. -/
def otherEntry : RoutingEntry := { localEntry with model := { localEntry.model with id := 2 } }

/-- Two entries, of which the second is visited first: the backend of the first is kept, that of the second built. -/
theorem routing_sync_two_entries :
    ∃ cell, materializeBackend 0 localEntry = some cell ∧ cell.capacity = .newSlots 2 ∧
      (syncBackends (fun _ => 0) [("db:2", otherEntry), ("db:1", localEntry)] [localEntry, otherEntry]
        (noBackends.insert "db:1" cell)).get? "db:1" = some (1, cell.revive) ∧
      ((syncBackends (fun _ => 0) [("db:2", otherEntry), ("db:1", localEntry)] [localEntry, otherEntry]
        (noBackends.insert "db:1" cell)).get? "db:2").isSome = true := by
  have hperm : [("db:2", otherEntry), ("db:1", localEntry)].Perm (desired [localEntry, otherEntry]).rows :=
    .swap _ _ _
  have hservable : servable localEntry = true := rfl
  obtain ⟨cell, hcell⟩ := exists_materializeBackend hservable 0
  have hcapacity : cell.capacity = .newSlots 2 := by
    cases hcell
    rfl
  have hget : (noBackends.insert "db:1" cell).get? "db:1" = some (1, cell) := by
    rw [BackendMap.get?_insert, if_pos rfl]
    rfl
  obtain ⟨hkeys, -, -, hkept, -, hmatches⟩ := routing_sync (fun _ => 0) (noBackends.insert "db:1" cell) hperm
  exact ⟨cell, hcell, hcapacity, hkept 1 localEntry 1 cell rfl hget (hmatches 0 localEntry cell hcell),
    (hkeys "db:2" rfl).2 ⟨2, otherEntry, rfl, rfl, rfl⟩⟩

end Sync

end Tagsmaxxing.Materialize
