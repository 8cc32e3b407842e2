import Tagsmaxxing.Store.RoutingIsolation

/-! # What the groups of a routing table hold

`from_entries` pads the tiers of a group up to the tier of each entry it meets, so a group has a list for every
tier below its highest one, the unused ones empty. Read at any index, past the end as an empty tier, the group
holds exactly its entries of that tier, in the order of the list (`tier_group`); dropping the trailing empty tiers
does not change that reading. -/

namespace Tagsmaxxing.Routing

open List

open Scheduler (Role)

/-- The entries at an index; past the end there are none. -/
def tierAt (tiers : Tiers) (i : ℕ) : List RoutingEntry := tiers[i]?.getD []

/-! ## One entry -/

variable (tiers : Tiers)

theorem tierAt_append_replicate (n i : ℕ) : tierAt (tiers ++ replicate n []) i = tierAt tiers i := by
  unfold tierAt
  by_cases hi : i < tiers.length
  · rw [getElem?_append_left hi]
  · rw [getElem?_append_right (not_lt.1 hi), getElem?_replicate, getElem?_eq_none (not_lt.1 hi)]
    split <;> rfl

theorem tierAt_modify {k : ℕ} (hk : k < tiers.length) (e : RoutingEntry) (i : ℕ) :
    tierAt (tiers.modify k (· ++ [e])) i = tierAt tiers i ++ if k = i then [e] else [] := by
  unfold tierAt
  rw [getElem?_modify]
  by_cases hi : k = i
  · subst hi
    simp [hk]
  · simp [hi]

/-- An entry goes to the end of its tier and leaves the others alone. -/
theorem tierAt_pushTier (e : RoutingEntry) (i : ℕ) :
    tierAt (pushTier tiers e) i = tierAt tiers i ++ if tierIdx e.tier = i then [e] else [] := by
  have hlength : tierIdx e.tier <
      (tiers ++ replicate (tierIdx e.tier + 1 - tiers.length) ([] : List RoutingEntry)).length := by
    rw [length_append, length_replicate]
    omega
  rw [pushTier, tierAt_modify _ hlength, tierAt_append_replicate]

/-! ## A group -/

/-- The loop keeps what a tier holds and adds the entries of that tier in their order. -/
theorem tierAt_foldl_push (es : List RoutingEntry) (tiers : Option Tiers) (i : ℕ) :
    tierAt ((es.foldl (fun tiers e => some (pushTier (tiers.getD []) e)) tiers).getD []) i =
      tierAt (tiers.getD []) i ++ es.filter fun e => tierIdx e.tier == i := by
  induction es generalizing tiers with
  | nil => simp
  | cons e es ih =>
    rw [foldl_cons, ih, Option.getD_some, tierAt_pushTier, append_assoc, filter_cons]
    by_cases he : tierIdx e.tier = i
    · simp [he]
    · simp [he]

theorem tierAt_rdropWhile (i : ℕ) : tierAt (tiers.rdropWhile isEmpty) i = tierAt tiers i := by
  induction tiers using reverseRecOn with
  | nil => rfl
  | append_singleton tiers tier ih =>
    rw [rdropWhile_concat]
    split
    next hempty =>
      rw [ih, List.isEmpty_iff.1 hempty]
      exact (tierAt_append_replicate tiers 1 i).symm
    · rfl

theorem tierIdx_of_nonneg {tier : Int32} (h : 0 ≤ tier) : (tierIdx tier : Int) = tier.toInt := by
  have hnonneg : 0 ≤ tier.toInt := Int32.le_iff_toInt_le.1 h
  have hhi := Int32.toInt_lt tier
  unfold tierIdx
  omega

theorem tier_group {es : List RoutingEntry} (h : ∀ e ∈ es, 0 ≤ e.tier) (i : ℕ) :
    tierAt (((group es).getD []).rdropWhile isEmpty) i = es.filter fun e => e.tier.toInt == (i : Int) := by
  rw [tierAt_rdropWhile, group, tierAt_foldl_push, Option.getD_none]
  refine filter_congr fun e he => ?_
  rw [Bool.eq_iff_iff, beq_iff_eq, beq_iff_eq, ← tierIdx_of_nonneg (h e he), Nat.cast_inj]

theorem getLast?_rdropWhile : (tiers.rdropWhile isEmpty).getLast? ≠ some [] := by
  intro h
  have hne : tiers.rdropWhile isEmpty ≠ [] := by
    intro hnil
    rw [hnil] at h
    cases h
  refine rdropWhile_last_not isEmpty tiers hne ?_
  rw [getLast?_eq_some_getLast hne, Option.some.injEq] at h
  rw [h]
  rfl

/-! ## The table -/

/-- **What `tiers_for` reads.** A table is built from any entries without a negative tier. For a tenant with
    entries for the role, and for the global view, the list it gives has at each index the entries of that tenant,
    role and tier in their order, and no empty tier at its end; any other tenant gets the global one. -/
theorem tiersFor_fromEntries_groups (es : List RoutingEntry) (h : ∀ e ∈ es, 0 ≤ e.tier) :
    ∃ table, RoutingTable.fromEntries es = some table ∧ ∀ (t : Option Int) (role : Role),
      (t = none ∨ (∃ e ∈ es, e.tenantId = t ∧ e.role = role) →
        (∀ i : ℕ, tierAt (table.tiersFor t role) i =
          es.filter fun e => e.tenantId == t && e.role == role && e.tier.toInt == (i : Int)) ∧
        (table.tiersFor t role).getLast? ≠ some []) ∧
      ((¬ ∃ e ∈ es, e.tenantId = t ∧ e.role = role) → table.tiersFor t role = table.tiersFor none role) := by
  obtain ⟨table, htable⟩ : ∃ table, RoutingTable.fromEntries es = some table := by
    rw [RoutingTable.fromEntries, foldlM_pushEntry, if_pos h]
    exact ⟨_, rfl⟩
  have hseen : ∀ t role, table.tiersFor t role = seen es t role := by
    intro t role
    have hfor := tiersFor_fromEntries es t role
    rw [htable, if_pos h] at hfor
    exact Option.some.inj hfor
  have hgroup : ∀ t role, (∀ i : ℕ,
      tierAt (((group (es.filter (·.isFor t role))).getD []).rdropWhile isEmpty) i =
        es.filter fun e => e.tenantId == t && e.role == role && e.tier.toInt == (i : Int)) := by
    intro t role i
    rw [tier_group fun e he => h e (mem_of_mem_filter he), filter_filter]
    refine filter_congr fun e _ => ?_
    rw [RoutingEntry.isFor, Bool.and_comm]
  refine ⟨table, htable, fun t role => ⟨?_, ?_⟩⟩
  · intro hown
    rw [hseen]
    by_cases hnil : t = none ∨ es.filter (·.isFor t role) = []
    · -- the global view, since a tenant in question has entries
      have hnone : t = none := by
        rcases hnil with hnone | hnil
        · exact hnone
        · refine hown.resolve_right ?_
          rintro ⟨e, he, hfor⟩
          exact filter_eq_nil_iff.1 hnil e he (RoutingEntry.isFor_iff.2 hfor)
      subst hnone
      rw [seen_of_global (.inl rfl)]
      exact ⟨hgroup none role, getLast?_rdropWhile _⟩
    · rw [not_or] at hnil
      rw [seen_of_own hnil.2]
      exact ⟨hgroup t role, getLast?_rdropWhile _⟩
  · intro hnone
    have hnil : es.filter (·.isFor t role) = [] := by
      refine filter_eq_nil_iff.2 fun e he hfor => hnone ⟨e, he, ?_⟩
      exact RoutingEntry.isFor_iff.1 hfor
    rw [hseen, hseen, seen_of_global (.inr hnil), seen_of_global (.inl rfl)]

/-- Tenant 7 has a route at tier 2 and one at tier 0, and nothing in between. -/
def gapEntries : List RoutingEntry :=
  let provider : ProviderRow := ⟨1, "gpu", .local, none, .obj [], true, none⟩
  let model : ModelRow := ⟨5, 1, "llama", ["text"], none, none, none, none, none, none, .local, true⟩
  [⟨some 7, .text, 2, .leastLoaded, 800, provider, model⟩, ⟨some 7, .text, 0, .leastLoaded, 800, provider, model⟩,
    ⟨none, .text, 1, .roundRobin, 500, provider, model⟩]

theorem tiersFor_fromEntries_groups_gap :
    ∃ table, RoutingTable.fromEntries gapEntries = some table ∧
      (∀ i : ℕ, tierAt (table.tiersFor (some 7) .text) i =
        gapEntries.filter fun e => e.tenantId == some 7 && e.role == .text && e.tier.toInt == (i : Int)) ∧
      table.tiersFor (some 9) .text = table.tiersFor none .text := by
  obtain ⟨table, htable, hfor⟩ := tiersFor_fromEntries_groups gapEntries (by decide)
  refine ⟨table, htable, ?_, ?_⟩
  · exact ((hfor (some 7) .text).1 (.inr (by decide))).1
  · exact (hfor (some 9) .text).2 (by decide)

end Tagsmaxxing.Routing
