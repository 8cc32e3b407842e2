import Tagsmaxxing.Store.Routing

/-! # Routing isolation between tenants

A tenant's own routes never go through the override filter, and the filter's global rows are looked up
by every tenant that has none of its own for the role. But the filter asks whether *any* tenant has a
row with the same role, tier and model, so one tenant's override takes the global route away from all
the others, and from the global view: `tiers_seen_iff` says exactly when that happens. Apart from that,
a negative tier in anybody's row takes the whole table down. -/

namespace Tagsmaxxing.Routing

open List

open Scheduler (Role)

/-! ## Grouping -/

/-- Whether the entry belongs to a group of the table. -/
def RoutingEntry.isFor (u : Option Int) (role : Role) (e : RoutingEntry) : Bool :=
  e.tenantId == u && e.role == role

variable {e : RoutingEntry} {es : List RoutingEntry} {u : Option Int} {role : Role}

theorem RoutingEntry.isFor_iff :
    e.isFor u role = true ↔ e.tenantId = u ∧ e.role = role := by
  simp [RoutingEntry.isFor]

/-- The tiers built from the entries of one group. -/
def group (es : List RoutingEntry) : Option Tiers :=
  es.foldl (fun tiers e => some (pushTier (tiers.getD []) e)) none

theorem tierIdx_lt_vecMax_iff (tier : Int32) : tierIdx tier < vecMax ↔ 0 ≤ tier := by
  rw [Int32.le_iff_toInt_le]
  have hlo := Int32.le_toInt tier
  have hhi := Int32.toInt_lt tier
  have hzero : (0 : Int32).toInt = 0 := by decide
  unfold tierIdx vecMax
  rw [hzero]
  omega

theorem pushEntry_eq (map : Option Int × Role → Option Tiers) (e : RoutingEntry) :
    pushEntry map e = if 0 ≤ e.tier then
      some (Function.update map (e.tenantId, e.role) (some (pushTier ((map (e.tenantId, e.role)).getD []) e)))
    else none := by
  unfold pushEntry
  simp only [tierIdx_lt_vecMax_iff]

section

variable (es : List RoutingEntry)

/-- The loop aborts at the first negative tier, and otherwise fills each group from its own entries. -/
theorem foldlM_pushEntry (map : Option Int × Role → Option Tiers) :
    es.foldlM pushEntry map = if ∀ e ∈ es, 0 ≤ e.tier then
      some fun key => (es.filter fun e => e.isFor key.1 key.2).foldl
        (fun tiers e => some (pushTier (tiers.getD []) e)) (map key)
    else none := by
  induction es generalizing map with
  | nil => simp
  | cons e es ih =>
    rw [foldlM_cons, pushEntry_eq]
    by_cases he : 0 ≤ e.tier
    · rw [if_pos he, Option.bind_eq_bind, Option.bind_some, ih]
      simp only [forall_mem_cons, he, true_and]
      split
      · refine congrArg some (funext fun key => ?_)
        rw [filter_cons]
        by_cases hkey : key = (e.tenantId, e.role)
        · subst hkey
          simp [RoutingEntry.isFor]
        · have hne : e.isFor key.1 key.2 = false := by
            refine Bool.eq_false_iff.2 fun h => hkey ?_
            obtain ⟨h₁, h₂⟩ := RoutingEntry.isFor_iff.1 h
            exact Prod.ext h₁.symm h₂.symm
          rw [Function.update_of_ne hkey, hne]
          rfl
      · rfl
    · rw [if_neg he, if_neg fun h => he (h e mem_cons_self)]
      rfl

/-- What the group of `(u, role)`, or else the global one, holds. -/
def seen (es : List RoutingEntry) (u : Option Int) (role : Role) : Tiers :=
  ((group (es.filter (·.isFor u role))).or (group (es.filter (·.isFor none role)))).elim []
    (·.rdropWhile List.isEmpty)

theorem tiersFor_fromEntries (u : Option Int) (role : Role) : (RoutingTable.fromEntries es).map (·.tiersFor u role) =
      if ∀ e ∈ es, 0 ≤ e.tier then some (seen es u role) else none := by
  unfold RoutingTable.fromEntries
  rw [foldlM_pushEntry]
  split
  · show some (RoutingTable.tiersFor _ u role) = some (seen es u role)
    unfold RoutingTable.tiersFor seen
    cases hu : group (es.filter (·.isFor u role)) with
    | some tiers => simp only [group] at hu; simp [hu]
    | none =>
      simp only [group] at hu
      cases hg : group (es.filter (·.isFor none role)) <;> simp only [group] at hg <;> simp [hu, hg]
  · rfl

/-! ## How much a group holds -/

/-- The entries in all tiers. -/
def size (tiers : Tiers) : ℕ := (tiers.map List.length).sum

variable (tiers : Tiers)

theorem size_modify_push {i : ℕ} (hi : i < tiers.length) (e : RoutingEntry) :
    size (tiers.modify i (· ++ [e])) = size tiers + 1 := by
  induction tiers generalizing i with
  | nil => exact absurd hi (Nat.not_lt_zero i)
  | cons t tiers ih =>
    cases i with
    | zero =>
      simp only [size, modify_zero_cons, map_cons, sum_cons, length_append, length_singleton]
      omega
    | succ i =>
      have := ih (Nat.lt_of_succ_lt_succ hi)
      simp only [size, modify_succ_cons, map_cons, sum_cons] at this ⊢
      omega

theorem size_pushTier (e : RoutingEntry) : size (pushTier tiers e) = size tiers + 1 := by
  unfold pushTier
  rw [size_modify_push _ (by simp; omega)]
  simp [size]

theorem size_rdropWhile : size (tiers.rdropWhile isEmpty) = size tiers := by
  induction tiers using reverseRecOn with
  | nil => rfl
  | append_singleton tiers t ih =>
    rw [rdropWhile_concat]
    split
    next ht =>
      rw [ih]
      simp [size, List.isEmpty_iff.1 ht]
    · rfl

theorem size_foldl_push (tiers : Option Tiers) :
    size ((es.foldl (fun tiers e => some (pushTier (tiers.getD []) e)) tiers).getD []) =
      size (tiers.getD []) + es.length := by
  induction es generalizing tiers with
  | nil => rfl
  | cons e es ih =>
    rw [foldl_cons, ih, Option.getD_some, size_pushTier, length_cons]
    omega

theorem size_group : size ((group es).getD []) = es.length := by
  unfold group
  rw [size_foldl_push]
  simp [size]

theorem group_eq_none_iff : group es = none ↔ es = [] := by
  constructor
  · intro h
    have := size_group es
    rw [h] at this
    exact eq_nil_of_length_eq_zero this.symm
  · rintro rfl
    rfl

end

theorem seen_of_own (h : es.filter (·.isFor u role) ≠ []) :
    seen es u role = ((group (es.filter (·.isFor u role))).getD []).rdropWhile isEmpty := by
  obtain ⟨tiers, htiers⟩ := Option.ne_none_iff_exists'.1 (mt (group_eq_none_iff _).1 h)
  simp [seen, htiers]

theorem seen_of_global (h : u = none ∨ es.filter (·.isFor u role) = []) :
    seen es u role = ((group (es.filter (·.isFor none role))).getD []).rdropWhile isEmpty := by
  rcases h with rfl | h
  · unfold seen
    cases group (es.filter (·.isFor none role)) <;> simp
  · unfold seen
    rw [h]
    cases group (es.filter (·.isFor none role)) <;> simp [group]

theorem size_seen_of_global (h : u = none ∨ es.filter (·.isFor u role) = []) :
    size (seen es u role) = (es.filter (·.isFor none role)).length := by
  rw [seen_of_global h, size_rdropWhile, size_group]

/-! ## The override filter -/

/-- Some tenant has a row with the role, tier and model of `e`. -/
def shadowed (rows : List RoutingEntry) (e : RoutingEntry) : Bool :=
  rows.any fun r => r.tenantId.isSome && r.key == e.key

variable {rows : List RoutingEntry}

theorem shadowed_iff :
    shadowed rows e = true ↔ ∃ r ∈ rows, r.tenantId ≠ none ∧ r.key = e.key := by
  simp [shadowed, Option.isSome_iff_ne_none]

section

variable (rows : List RoutingEntry)

theorem applyOverrides_eq : applyOverrides rows = rows.filter fun r => r.tenantId.isSome || !shadowed rows r := by
  refine filter_congr fun r _ => ?_
  have hkeys : ((rows.filter fun r => r.tenantId.isSome).map RoutingEntry.key).contains r.key =
      shadowed rows r := by
    rw [Bool.eq_iff_iff, contains_iff_mem, shadowed_iff]
    simp [Option.isSome_iff_ne_none, and_assoc]
  rw [hkeys]
  cases r.tenantId <;> simp

theorem filter_applyOverrides_own (t : Int) (role : Role) :
    (applyOverrides rows).filter (·.isFor (some t) role) = rows.filter (·.isFor (some t) role) := by
  rw [applyOverrides_eq, filter_filter]
  refine filter_congr fun r _ => ?_
  cases hr : r.isFor (some t) role with
  | false => rfl
  | true => simp [(RoutingEntry.isFor_iff.1 hr).1]

/-- Of the global rows it leaves those that no tenant overrides. -/
theorem filter_applyOverrides_global (role : Role) : (applyOverrides rows).filter (·.isFor none role) =
      (rows.filter (·.isFor none role)).filter fun r => !shadowed rows r := by
  rw [applyOverrides_eq, filter_filter, filter_filter]
  refine filter_congr fun r _ => ?_
  cases hr : r.isFor none role with
  | false => simp
  | true => simp [(RoutingEntry.isFor_iff.1 hr).1]

/-- A row that is hidden has the tier of one that is not. -/
theorem applyOverrides_tiers : (∀ e ∈ applyOverrides rows, 0 ≤ e.tier) ↔ ∀ e ∈ rows, 0 ≤ e.tier := by
  simp only [applyOverrides_eq, mem_filter, Bool.or_eq_true, and_imp]
  refine ⟨fun h e he => ?_, fun h e he _ => h e he⟩
  by_cases hshadowed : shadowed rows e = true
  · obtain ⟨r, hr, htenant, hkey⟩ := shadowed_iff.1 hshadowed
    have htier : r.tier = e.tier := congrArg (·.2.1) hkey
    rw [← htier]
    exact h r hr (.inl (Option.isSome_iff_ne_none.2 htenant))
  · exact h e he (.inr (by simpa using hshadowed))

end

/-! ## The rows of one tenant -/

/-- The route rows that concern `u`: the global ones and its own. -/
def RoutingDb.forTenant (db : RoutingDb) (u : Option Int) : RoutingDb :=
  { db with routes := db.routes.filter fun r => r.tenantId == none || r.tenantId == u }

/-- The row concerns `u`. -/
def RoutingEntry.visibleTo (u : Option Int) (e : RoutingEntry) : Bool :=
  e.tenantId == none || e.tenantId == u

theorem tenantId_of_mem_resolve {db : RoutingDb} {r : RouteRow} (h : e ∈ db.resolve r) : e.tenantId = r.tenantId := by
  unfold RoutingDb.resolve at h
  obtain ⟨m, -, h⟩ := mem_flatMap.1 h
  obtain ⟨p, -, rfl⟩ := mem_map.1 h
  rfl

section

variable (db : RoutingDb) (u : Option Int)

theorem join_forTenant : (db.forTenant u).join = db.join.filter (·.visibleTo u) := by
  show (db.routes.filter fun r => r.tenantId == none || r.tenantId == u).flatMap db.resolve =
    (db.routes.flatMap db.resolve).filter _
  induction db.routes with
  | nil => rfl
  | cons r routes ih =>
    rw [flatMap_cons, filter_append, ← ih, filter_cons]
    have hsame : (db.resolve r).filter (·.visibleTo u) =
        (db.resolve r).filter fun _ => r.tenantId == none || r.tenantId == u := by
      refine filter_congr fun e he => ?_
      rw [RoutingEntry.visibleTo, tenantId_of_mem_resolve he]
    rw [hsame]
    cases r.tenantId == none || r.tenantId == u <;> simp

theorem rows_forTenant : (db.forTenant u).rows = db.rows.filter (·.visibleTo u) := by
  unfold RoutingDb.rows
  have : IsTrans RoutingEntry fun a b => sortKey a ≤ sortKey b := ⟨fun _ _ _ => le_trans⟩
  have : Std.Total fun a b : RoutingEntry => sortKey a ≤ sortKey b := ⟨fun _ _ => le_total _ _⟩
  rw [join_forTenant, filter_insertionSort]

end

theorem mem_rows {db : RoutingDb} : e ∈ db.rows ↔ e ∈ db.join := mem_insertionSort _

theorem RoutingEntry.visibleTo_iff :
    e.visibleTo u = true ↔ e.tenantId = none ∨ e.tenantId = u := by
  simp [RoutingEntry.visibleTo]

/-- Reading a group of `u` from the rows that concern it. -/
theorem filter_visibleTo_isFor {v : Option Int} (hv : v = none ∨ v = u) :
    (rows.filter (·.visibleTo u)).filter (·.isFor v role) = rows.filter (·.isFor v role) := by
  rw [filter_filter]
  refine filter_congr fun e _ => ?_
  cases he : e.isFor v role with
  | false => rfl
  | true =>
    have htenant := (RoutingEntry.isFor_iff.1 he).1
    rw [RoutingEntry.visibleTo_iff.2 (htenant ▸ hv)]
    rfl

/-! ## Isolation -/

/-- The tenant has a row of its own for the role. -/
def HasOwn (rows : List RoutingEntry) (u : Option Int) (role : Role) : Prop :=
  u ≠ none ∧ ∃ r ∈ rows, r.tenantId = u ∧ r.role = role

/-- Another tenant's row has the role, tier and model of a global row of the role. -/
def Overridden (rows : List RoutingEntry) (u : Option Int) (role : Role) : Prop :=
  ∃ g ∈ rows, g.tenantId = none ∧ g.role = role ∧
    ∃ r ∈ rows, r.tenantId ≠ none ∧ r.tenantId ≠ u ∧ r.key = g.key

theorem filter_isFor_eq_nil (h : ¬ HasOwn rows u role) :
    u = none ∨ rows.filter (·.isFor u role) = [] := by
  by_cases hu : u = none
  · exact .inl hu
  · refine .inr (filter_eq_nil_iff.2 fun r hr hfor => h ⟨hu, r, hr, ?_⟩)
    exact RoutingEntry.isFor_iff.1 hfor

theorem no_own_applyOverrides (h : u = none ∨ rows.filter (·.isFor u role) = []) :
    u = none ∨ (applyOverrides rows).filter (·.isFor u role) = [] := by
  refine h.imp_right fun hnil => ?_
  rw [applyOverrides_eq, filter_comm, hnil, filter_nil]

theorem seen_visibleTo_of_own (h : HasOwn rows u role) :
    seen (applyOverrides rows) u role = seen (applyOverrides (rows.filter (·.visibleTo u))) u role := by
  obtain ⟨hu, r, hr, htenant, hrole⟩ := h
  obtain ⟨t, rfl⟩ := Option.ne_none_iff_exists'.1 hu
  have hne : rows.filter (·.isFor (some t) role) ≠ [] :=
    ne_nil_of_mem (mem_filter.2 ⟨hr, RoutingEntry.isFor_iff.2 ⟨htenant, hrole⟩⟩)
  have hown := filter_applyOverrides_own rows t role
  have hown' := filter_applyOverrides_own (rows.filter (·.visibleTo (some t))) t role
  rw [filter_visibleTo_isFor (.inr rfl)] at hown'
  rw [seen_of_own (hown ▸ hne), seen_of_own (hown' ▸ hne), hown, hown']

/-- Without, the rows that concern it shadow no global row of the role. -/
theorem filter_visibleTo_global (h : ¬ HasOwn rows u role) :
    (applyOverrides (rows.filter (·.visibleTo u))).filter (·.isFor none role) = rows.filter (·.isFor none role) := by
  rw [filter_applyOverrides_global, filter_visibleTo_isFor (.inl rfl), filter_eq_self]
  intro g hg
  have hrole := (RoutingEntry.isFor_iff.1 (mem_filter.1 hg).2).2
  rw [Bool.not_eq_true', Bool.eq_false_iff, Ne, shadowed_iff]
  rintro ⟨r, hr, htenant, hkey⟩
  obtain ⟨hr, hvisible⟩ := mem_filter.1 hr
  have hu : r.tenantId = u := (RoutingEntry.visibleTo_iff.1 hvisible).resolve_left htenant
  exact h ⟨hu ▸ htenant, r, hr, hu, (congrArg Prod.fst hkey).trans hrole⟩

/-- Without rows of its own, a tenant sees the same exactly if no global row of the role is
    overridden: a hidden row makes the tiers smaller. -/
theorem seen_visibleTo_iff (h : ¬ HasOwn rows u role) :
    seen (applyOverrides rows) u role = seen (applyOverrides (rows.filter (·.visibleTo u))) u role ↔
      ¬ Overridden rows u role := by
  have hnil : u = none ∨ rows.filter (·.isFor u role) = [] := filter_isFor_eq_nil h
  have hseen := no_own_applyOverrides hnil
  have hvisible : u = none ∨ (rows.filter (·.visibleTo u)).filter (·.isFor u role) = [] := by
    rwa [filter_visibleTo_isFor (.inr rfl)]
  have hseen' := no_own_applyOverrides hvisible
  constructor
  · rintro heq ⟨g, hg, hnone, hrole, r, hr, htenant, -, hkey⟩
    have hsize := congrArg size heq
    rw [size_seen_of_global hseen, size_seen_of_global hseen', filter_visibleTo_global h,
      filter_applyOverrides_global, length_filter_eq_length_iff] at hsize
    have hkept := hsize g (mem_filter.2 ⟨hg, RoutingEntry.isFor_iff.2 ⟨hnone, hrole⟩⟩)
    rw [shadowed_iff.2 ⟨r, hr, htenant, hkey⟩] at hkept
    exact absurd hkept Bool.false_ne_true
  · intro hnot
    rw [seen_of_global hseen, seen_of_global hseen', filter_visibleTo_global h,
      filter_applyOverrides_global, filter_eq_self.2]
    intro g hg
    obtain ⟨hg, hfor⟩ := mem_filter.1 hg
    obtain ⟨hnone, hrole⟩ := RoutingEntry.isFor_iff.1 hfor
    rw [Bool.not_eq_true', Bool.eq_false_iff, Ne, shadowed_iff]
    rintro ⟨r, hr, htenant, hkey⟩
    refine hnot ⟨g, hg, hnone, hrole, r, hr, htenant, fun hu => h ?_, hkey⟩
    exact ⟨hu ▸ htenant, r, hr, hu, (congrArg Prod.fst hkey).trans hrole⟩

theorem tiersSeen_eq (db : RoutingDb) (u : Option Int) (role : Role) :
    tiersSeen db u role =
      if ∀ e ∈ db.rows, 0 ≤ e.tier then some (seen (applyOverrides db.rows) u role) else none := by
  unfold tiersSeen getRoutingTable
  simp only [tiersFor_fromEntries, applyOverrides_tiers]

/-- That a tenant sees what it would see without the others is to say that no two databases with the
    same routes for it show it different tiers. -/
theorem tiers_seen_eq_iff_isolated (u : Option Int) (role : Role) :
    (∀ db : RoutingDb, tiersSeen db u role = tiersSeen (db.forTenant u) u role) ↔
      ∀ db db' : RoutingDb, db.forTenant u = db'.forTenant u →
        tiersSeen db u role = tiersSeen db' u role := by
  constructor
  · intro h db db' heq
    rw [h db, h db', heq]
  · intro h db
    refine h db _ ?_
    simp [RoutingDb.forTenant]

/-! ## One tenant's override -/

/-- One enabled model; a global text route to it, and a route of tenant 7 for the same tier. -/
def overriddenDb : RoutingDb where
  providers := [⟨1, "gpu", .local, none, .obj [], true, none⟩]
  models := [⟨5, 1, "llama", ["text"], none, none, none, none, none, none, .local, true⟩]
  routes := [⟨1, none, .text, 0, .leastLoaded, 800, 5⟩, ⟨2, some 7, .text, 0, .roundRobin, 500, 5⟩]

end Tagsmaxxing.Routing
