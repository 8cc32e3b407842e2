import Tagsmaxxing.Store.BlobCacheOrder

/-! # What the blob cache evicts

On a cache that has not been reopened the access numbers list the entries in the order of their last use
(`lru_eq_byLast`), and eviction takes the shortest part of that list after which what is left has room for the incoming
bytes. There is one exception: a `put` of a key that is cached already counts the bytes of the old entry, which it is
about to replace, among those that need room. `eviction_iff` says when more goes than has to. The cap holds in any
case, but for an entry that is alone in the cache. -/

namespace Tagsmaxxing.BlobCache

open List

/-! ## The property -/

/-- The entries in the order of their last use, the oldest first. -/
def byLast (last : String → ℕ) (rows : Keyed String CacheEntry) : List (String × CacheEntry) :=
  rows.rows.insertionSort fun a b => last a.1 ≤ last b.1

/-- The recorded total is within the cap, or there is only one entry. -/
def Bounded (cache : Settings) (s : State) : Prop :=
  (∃ total, dbTotalSize .none s = some total ∧ total ≤ cache.maxBytes) ∨ s.rows.rows.length = 1

/-- The keys that go when room is made for the incoming bytes, as `db_evict_lru` returns them. For `trim` there are
    no incoming bytes. -/
def evictedKeys (cache : Settings) (s : State) (incoming : ℕ) : List String :=
  ((dbTotalSize .none s).bind fun current =>
    if current + incoming ≤ cache.maxBytes then some []
    else (dbEvictLru .none s (current + incoming - cache.maxBytes)).2).elim [] (·.map Prod.fst)

/-- Without the first `k` of the entries there is room for the incoming bytes, which replace the entry of `key`; or
    nothing else is left. -/
def Enough (max : ℕ) (entries : List (String × CacheEntry)) (key : Option String) (incoming k : ℕ) : Prop :=
  Greedy.Fits entrySize max incoming ((entries.drop k).filter fun x => decide (some x.1 ≠ key))

/-- The evicted keys are the shortest part of the entries, in the order of their last use, that is enough. -/
def Shortest (cache : Settings) (last : String → ℕ) (s : State) (key : Option String) (incoming : ℕ) : Prop :=
  ∃ k, evictedKeys cache s incoming = ((byLast last s.rows).take k).map Prod.fst ∧
    Enough cache.maxBytes (byLast last s.rows) key incoming k ∧
    ∀ j < k, ¬ Enough cache.maxBytes (byLast last s.rows) key incoming j

/-- A call evicts the shortest part that is enough. A `get` makes room if it has to fetch the bytes, and after it has
    removed a row without a file. -/
def EvictsShortest (sha : Sha256) (cache : Settings) (h : History) : Call → Prop
  | .put key data => Shortest cache h.last h.state (some key) data.length
  | .get key => ∀ data, (lookUp sha cache .none h.state key).2 = some none →
      backendGet .none (lookUp sha cache .none h.state key).1 key = some data →
      Shortest cache h.last (lookUp sha cache .none h.state key).1 (some key) data.length
  | .delete _ => True
  | .trim => Shortest cache h.last h.state none 0

/-- Giving back the bytes of the old entry makes no difference to how much has to go: a part of the entries that is
    enough when they are given back is enough when they are not. -/
def NoWaste (cache : Settings) (h : History) : Call → Prop
  | .put key data => ∀ k, Enough cache.maxBytes (byLast h.last h.state.rows) (some key) data.length k →
      Enough cache.maxBytes (byLast h.last h.state.rows) none data.length k
  | .get _ => True
  | .delete _ => True
  | .trim => True

/-! ## The order of the list -/

/-- The access numbers of the rows are in the order of their last use. -/
def InOrder (last : String → ℕ) (rows : Keyed String CacheEntry) : Prop :=
  ∀ k row k' row', rows.get? k = some row → rows.get? k' = some row' → k ≠ k' →
    last k < last k' ∧ row.accessSeq < row'.accessSeq ∨ last k' < last k ∧ row'.accessSeq < row.accessSeq

variable {rows : Keyed String CacheEntry} {last : String → ℕ} {entries : List (String × CacheEntry)}
  {max incoming : ℕ}

theorem InOrder.deleteWhere (h : InOrder last rows) (p : String → CacheEntry → Bool) :
    InOrder last (rows.deleteWhere p) := by
  intro k row k' row' hget hget' hne
  exact h k row k' row' (get?_deleteWhere_imp hget) (get?_deleteWhere_imp hget') hne

theorem lru_eq_byLast (h : InOrder last rows) : lru rows = byLast last rows := by
  have hlast : (lru rows).Pairwise fun a b => last a.1 < last b.1 := by
    have hne : (lru rows).Pairwise fun a b => a.1 ≠ b.1 := pairwise_map.1 (nodup_lru rows)
    refine ((lru_pairwise rows).and hne).imp_of_mem fun {a b} ha hb hab => ?_
    rcases h a.1 a.2 b.1 b.2 (get?_of_mem_lru ha) (get?_of_mem_lru hb) hab.2 with hlt | hgt
    · exact hlt.1
    · exact absurd hab.1 (not_le.2 hgt.2)
  have hperm : (lru rows).Perm (byLast last rows) := (lru_perm rows).trans (perm_insertionSort _ rows.rows).symm
  have hsorted : (byLast last rows).Pairwise fun a b => last a.1 ≤ last b.1 :=
    pairwise_insertionSort (fun a b : String × CacheEntry => last a.1 ≤ last b.1) rows.rows
  refine List.Perm.eq_of_pairwise ?_ (hlast.imp fun h => le_of_lt h) hsorted hperm
  intro a b ha hb hab hba
  have hb' : b ∈ lru rows := hperm.mem_iff.2 hb
  by_contra hne
  have hkey : a.1 ≠ b.1 := fun hkey => hne (inj_on_of_nodup_map (nodup_lru rows) ha hb' hkey)
  rcases h a.1 a.2 b.1 b.2 (get?_of_mem_lru ha) (get?_of_mem_lru hb') hkey with hlt | hgt
  · exact absurd hba (not_le.2 hlt.1)
  · exact absurd hab (not_le.2 hgt.1)

section

variable (sha : Sha256) (cache : Settings) (backend : String → Option Bytes) (calls : List Call)

/-- As long as the cache is not reopened, everything is of one session. -/
theorem session_run_calls : ((History.initial backend).run sha cache (calls.map .call)).opened = 0 ∧
      ∀ k, ((History.initial backend).run sha cache (calls.map .call)).session k = 0 := by
  unfold History.run
  induction calls using reverseRecOn with
  | nil => exact ⟨rfl, fun _ => rfl⟩
  | append_singleton calls c ih =>
    rw [map_append, foldl_append]
    refine ⟨ih.1, fun k => ?_⟩
    simp only [map_cons, map_nil, foldl_cons, foldl_nil, History.step, noted]
    split
    · exact ih.1
    · exact ih.2 k

theorem inOrder_run_calls : InOrder ((History.initial backend).run sha cache (calls.map .call)).last
      ((History.initial backend).run sha cache (calls.map .call)).state.rows := by
  intro k row k' row' hget hget' hne
  have hsession := (session_run_calls sha cache backend calls).2
  have hdated := @History.dated_run sha cache backend (calls.map .call)
  have horder := hdated.order k row k' row' hget hget' hne
  simp only [History.Before, hsession, lt_irrefl, true_and, false_or] at horder
  exact horder

end

/-! ## The shortest part -/

theorem evictedKeys_eq (cache : Settings) (s : State) (incoming : ℕ) :
    evictedKeys cache s incoming = (evicted cache.maxBytes s.rows incoming).map Prod.fst := by
  rw [evictedKeys, dbTotalSize_none, Option.bind_some]
  split
  next hfits =>
    rw [evicted_of_fits hfits]
    rfl
  · rw [dbEvictLru_none]
    simp only [Option.elim_some, map_map, evicted]
    rfl

theorem enough_none (max : ℕ) (entries : List (String × CacheEntry)) (incoming k : ℕ) :
    Enough max entries none incoming k ↔ Greedy.Fits entrySize max incoming (entries.drop k) := by
  simp [Enough]

/-- What is enough beside the old entry is enough in its place. -/
theorem Enough.of_none {k : ℕ} (h : Enough max entries none incoming k) (key : Option String) :
    Enough max entries key incoming k :=
  ((enough_none max entries incoming k).1 h).of_sublist entrySize filter_sublist

theorem Enough.mono_none {j k : ℕ} (h : Enough max entries none incoming j) (hjk : j ≤ k) :
    Enough max entries none incoming k := by
  rw [enough_none] at h ⊢
  exact h.of_sublist entrySize (drop_sublist_drop_left entries hjk)

theorem enough_length (max : ℕ) (entries : List (String × CacheEntry)) (key : Option String) (incoming : ℕ) :
    Enough max entries key incoming entries.length := by
  refine .inr ?_
  rw [drop_length, filter_nil]

/-- The code evicts the shortest part that is enough beside the old entry. So it evicts the shortest part that is
    enough exactly if the old entry makes no difference. -/
theorem shortest_iff {cache : Settings} {s : State} (horder : InOrder last s.rows) (key : Option String)
    (incoming : ℕ) :
    Shortest cache last s key incoming ↔
      ∀ k, Enough cache.maxBytes (byLast last s.rows) key incoming k →
        Enough cache.maxBytes (byLast last s.rows) none incoming k := by
  have htotal : Greedy.total entrySize s.rows.rows = Greedy.total entrySize (byLast last s.rows) :=
    Greedy.total_perm entrySize (perm_insertionSort _ s.rows.rows).symm
  rw [Shortest, evictedKeys_eq, evicted, lru_eq_byLast horder, htotal]
  generalize byLast last s.rows = entries
  have hfits := Greedy.fits_count entrySize cache.maxBytes incoming entries
  have hless {j : ℕ} := @Greedy.not_fits_of_lt _ entrySize entries j incoming cache.maxBytes
  have hle := Greedy.count_le_length entrySize (Greedy.total entrySize entries + incoming - cache.maxBytes) entries
  generalize Greedy.count entrySize (Greedy.total entrySize entries + incoming - cache.maxBytes) entries = n
    at hfits hless hle
  constructor
  · rintro ⟨k, hkeys, -, hshorter⟩ j hj
    have hk : k ≤ entries.length :=
      le_of_not_gt fun hlong => hshorter entries.length hlong (enough_length cache.maxBytes entries key incoming)
    have hnk : n = k := by
      have hlength := congrArg length hkeys
      simpa [Nat.min_eq_left hk, Nat.min_eq_left hle] using hlength
    subst hnk
    have hnj : n ≤ j := le_of_not_gt fun hlt => hshorter j hlt hj
    exact ((enough_none _ _ _ _).2 hfits).mono_none hnj
  · intro hsame
    refine ⟨n, rfl, ((enough_none _ _ _ _).2 hfits).of_none key, fun j hj henough => ?_⟩
    exact hless hj ((enough_none _ _ _ _).1 (hsame j henough))

/-- The bytes of a key that has no entry replace nothing. -/
theorem enough_iff_of_absent {key : String} (habsent : rows.get? key = none) (last : String → ℕ) (incoming k : ℕ) :
    Enough max (byLast last rows) (some key) incoming k ↔ Enough max (byLast last rows) none incoming k := by
  have hall : ∀ x ∈ (byLast last rows).drop k, decide (some x.1 ≠ some key) = true := by
    intro x hx
    have hmem : x ∈ rows.rows := (perm_insertionSort _ rows.rows).mem_iff.1 (mem_of_mem_drop hx)
    rw [decide_eq_true_eq, ne_eq, Option.some.injEq]
    rintro rfl
    rw [(rows.get?_eq_some_iff x.1 x.2).2 hmem] at habsent
    cases habsent
  rw [enough_none, Enough, filter_eq_self.2 hall]

theorem evictsShortest_iff {sha : Sha256} {cache : Settings} {h : History}
    (horder : InOrder h.last h.state.rows) (c : Call) : EvictsShortest sha cache h c ↔ NoWaste cache h c := by
  cases c with
  | put key data => exact shortest_iff horder (some key) data.length
  | get key =>
    refine iff_of_true (fun data hmiss _ => ?_) trivial
    rcases lookUp_none sha cache h.state key with hlookup | ⟨d, hlookup⟩
    · rw [hlookup]
      refine (shortest_iff (horder.deleteWhere _) (some key) data.length).2 fun k => ?_
      exact (enough_iff_of_absent (by simp) h.last data.length k).1
    · rw [hlookup] at hmiss
      cases hmiss
  | delete key => exact Iff.rfl
  | trim => exact iff_of_true ((shortest_iff horder none 0).2 fun k h => h) trivial

/-! ## The cap -/

/-- `Bounded`, said of the rows. -/
def Small (max : ℕ) (rows : Keyed String CacheEntry) : Prop :=
  Greedy.total entrySize rows.rows ≤ max ∨ rows.rows.length = 1

theorem bounded_iff (cache : Settings) (s : State) : Bounded cache s ↔ Small cache.maxBytes s.rows := by
  simp [Bounded, Small, dbTotalSize_none]

theorem Small.deleteWhere (h : Small max rows) (p : String → CacheEntry → Bool) : Small max (rows.deleteWhere p) := by
  have hsub : (rows.deleteWhere p).rows.Sublist rows.rows := filter_sublist
  rcases h with htotal | hone
  · exact .inl ((Greedy.total_le_of_sublist entrySize hsub).trans htotal)
  · -- the one row is still there, or none is
    rcases Nat.lt_or_ge (rows.deleteWhere p).rows.length 1 with hnone | hsome
    · rw [Nat.lt_one_iff, length_eq_zero_iff] at hnone
      exact .inl (by rw [hnone]; exact Nat.zero_le _)
    · exact .inr (le_antisymm (hone ▸ hsub.length_le) hsome)

theorem without_perm (hperm : entries.Perm rows.rows) (k : ℕ) :
    (without rows (entries.take k)).rows.Perm (entries.drop k) := by
  have hnodup : (entries.map Prod.fst).Nodup := (hperm.map Prod.fst).nodup_iff.2 rows.nodup
  rw [← take_append_drop k entries, map_append, nodup_append] at hnodup
  have hsplit : (entries.take k ++ entries.drop k).filter
      (fun x => !((entries.take k).map Prod.fst).contains x.1) = entries.drop k := by
    rw [filter_append, filter_eq_nil_iff.2, filter_eq_self.2, nil_append]
    · intro x hx
      rw [Bool.not_eq_true', ← Bool.not_eq_true, contains_iff_mem]
      exact fun hmem => hnodup.2.2 x.1 hmem x.1 (mem_map_of_mem hx) rfl
    · intro x hx
      rw [contains_iff_mem.2 (mem_map_of_mem hx)]
      exact Bool.false_ne_true
  rw [take_append_drop] at hsplit
  rw [← hsplit]
  exact hperm.symm.filter _

/-- After eviction there is room for the incoming bytes, or nothing is left. -/
theorem fits_without (max : ℕ) (rows : Keyed String CacheEntry) (incoming : ℕ) :
    Greedy.Fits entrySize max incoming (without rows (evicted max rows incoming)).rows := by
  have htotal : Greedy.total entrySize rows.rows = Greedy.total entrySize (lru rows) :=
    Greedy.total_perm entrySize (lru_perm rows).symm
  have hfits := Greedy.fits_count entrySize max incoming (lru rows)
  have hperm := without_perm (lru_perm rows)
    (Greedy.count entrySize (Greedy.total entrySize (lru rows) + incoming - max) (lru rows))
  rw [evicted, htotal]
  rcases hfits with hroom | hnil
  · exact .inl (by rwa [Greedy.total_perm entrySize hperm])
  · rw [hnil] at hperm
    exact .inr hperm.eq_nil

theorem small_upsert {row : CacheEntry} (h : Greedy.Fits entrySize max row.sizeBytes rows.rows) (key : String) :
    Small max (rows.upsert key row) := by
  have hsub : (rows.deleteWhere fun k _ => k == key).rows.Sublist rows.rows := filter_sublist
  have hrows : (rows.upsert key row).rows = (rows.deleteWhere fun k _ => k == key).rows ++ [(key, row)] := rfl
  rw [Small, hrows]
  rcases h.of_sublist entrySize hsub with hroom | hnil
  · left
    rw [Greedy.total_append]
    exact hroom
  · right
    rw [hnil]
    rfl

theorem total_updateWhere (rows : Keyed String CacheEntry) (p : String → CacheEntry → Bool) (seq : ℕ) :
    Greedy.total entrySize (rows.updateWhere p fun row => { row with accessSeq := seq }).rows =
      Greedy.total entrySize rows.rows := by
  simp only [Keyed.updateWhere]
  induction rows.rows with
  | nil => rfl
  | cons x l ih =>
    rw [map_cons, Greedy.total, Greedy.total, ih]
    split <;> rfl

theorem RowStep.small {seq seq' : ℕ} {rows' : Keyed String CacheEntry} {c : Call} {key : Option String}
    (hstep : RowStep max rows seq c key rows' seq') (h : Small max rows) : Small max rows' := by
  cases hstep with
  | stored key data row hsize hseq => exact small_upsert (hsize ▸ fits_without max rows data.length) key
  | hit key =>
    rw [Small, total_updateWhere]
    refine h.imp_right fun hone => ?_
    rw [Keyed.updateWhere, length_map, hone]
  | fetched key row hseq => exact small_upsert (fits_without max _ row.sizeBytes) key
  | missed key | deleted key => exact h.deleteWhere _
  | trimmed =>
    left
    rcases fits_without max rows 0 with hroom | hnil
    · exact hroom
    · rw [hnil]
      exact Nat.zero_le max

theorem bounded_run_calls (sha : Sha256) (cache : Settings) (backend : String → Option Bytes)
    (calls : List Call) : Bounded cache ((History.initial backend).run sha cache (calls.map .call)).state := by
  rw [bounded_iff]
  unfold History.run
  induction calls using reverseRecOn with
  | nil => exact .inl (Nat.zero_le _)
  | append_singleton calls c ih =>
    rw [map_append, foldl_append]
    exact (rowStep_perform sha cache _ c).small ih

/-! ## Every call of every sequence -/

/-- **What a call evicts.** After any calls on a new cache, the recorded total is within the cap or there is only one
    entry; and the next call evicts the shortest part of the entries, in the order of their last use, that is enough,
    exactly if it is not a `put` over an old entry whose bytes, given back, would have saved some of them. -/
theorem eviction_iff (sha : Sha256) (cacheDir : String) (maxBytes : ℕ) (paranoid : Bool)
    (backend : String → Option Bytes) (calls : List Call) (c : Call) :
    Bounded (.new cacheDir maxBytes paranoid)
        ((History.initial backend).run sha (.new cacheDir maxBytes paranoid) ((calls ++ [c]).map .call)).state ∧
      (EvictsShortest sha (.new cacheDir maxBytes paranoid)
          ((History.initial backend).run sha (.new cacheDir maxBytes paranoid) (calls.map .call)) c ↔
        NoWaste (.new cacheDir maxBytes paranoid)
          ((History.initial backend).run sha (.new cacheDir maxBytes paranoid) (calls.map .call)) c) :=
  ⟨bounded_run_calls sha _ backend (calls ++ [c]), evictsShortest_iff (inOrder_run_calls sha _ backend calls) c⟩

/-- A cap of ten bytes; `b` takes two of them and `a` the others. -/
def fullCalls : List Call := [.put "b" [1, 2], .put "a" [1, 2, 3, 4, 5, 6, 7, 8]]

/-- The same bytes are put under `a` once more: nothing would have to go, and both entries do. -/
theorem put_again_evicts_all :
    evictedKeys (.new "/cache" 10 false)
        ((History.initial fun _ => none).run .latin1 (.new "/cache" 10 false) (fullCalls.map .call)).state 8 =
      ["b", "a"] ∧
    ¬ EvictsShortest .latin1 (.new "/cache" 10 false)
        ((History.initial fun _ => none).run .latin1 (.new "/cache" 10 false) (fullCalls.map .call))
        (.put "a" [1, 2, 3, 4, 5, 6, 7, 8]) := by
  refine ⟨by decide +kernel, ?_⟩
  rintro ⟨k, hevicted, -, hshorter⟩
  obtain rfl : k = 0 := by
    refine Nat.eq_zero_of_not_pos fun hpos => hshorter 0 hpos ?_
    left
    decide +kernel
  exact absurd hevicted (by decide +kernel)

end Tagsmaxxing.BlobCache
