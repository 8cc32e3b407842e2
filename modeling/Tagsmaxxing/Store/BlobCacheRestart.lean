import Tagsmaxxing.Store.BlobCacheOrder

/-! # Eviction after a restart of the blob cache

`BlobCache::new` starts the counter of accesses at zero, and the rows in the directory keep the numbers that an earlier
instance gave them. Entries used since then are listed by small numbers, before entries that nobody has used for
longer, and are evicted first. `evictsOldest_iff` says when a cache with such a history still evicts the entries in the
order of their last use: an entry must not be listed before one that was last used in an earlier session. -/

namespace Tagsmaxxing.BlobCache

open List

/-! ## The property and its condition -/

/-- Whatever number of bytes is needed, no entry is evicted while one is kept whose last use is older. -/
def History.EvictsOldest (h : History) : Prop :=
  ∀ needed x y, (h.state.rows.get? x).isSome = true →
    ((dbEvictLru .none h.state needed).1.rows.get? x).isSome = false →
    ((dbEvictLru .none h.state needed).1.rows.get? y).isSome = true → ¬ h.last y < h.last x

/-- In the order of the access numbers, no entry stands before one that was last used in an earlier session; unless
    there is not a byte in any entry from the one to the other. -/
def History.SessionsInOrder (h : History) : Prop :=
  ∀ front x between y back, lru h.state.rows = front ++ x :: (between ++ y :: back) →
    h.session y.1 < h.session x.1 → ∀ z ∈ x :: between, z.2.sizeBytes = 0

/-! ## Which entries go -/

section
variable {rows : Keyed String CacheEntry}

theorem mem_lru_of_get? {k : String} {row : CacheEntry} (h : rows.get? k = some row) : (k, row) ∈ lru rows :=
  (lru_perm rows).mem_iff.2 ((rows.get?_eq_some_iff k row).1 h)

theorem get?_without (entries : List (String × CacheEntry)) (k : String) :
    (without rows entries).get? k = if k ∈ entries.map Prod.fst then none else rows.get? k := by
  rw [without, Keyed.get?_deleteWhere]
  by_cases hk : k ∈ entries.map Prod.fst
  · rw [if_pos hk, contains_iff_mem.2 hk]
    cases rows.get? k <;> rfl
  · rw [if_neg hk]
    have hcontains : (entries.map Prod.fst).contains k = false := by
      rw [← Bool.not_eq_true, contains_iff_mem]
      exact hk
    rw [hcontains]
    cases rows.get? k <;> rfl

/-- Keys are distinct, so an entry behind the first `n` has a key that is not among theirs. -/
theorem not_mem_take_of_mem_drop {n : ℕ} {x : String × CacheEntry} (hx : x ∈ (lru rows).drop n) :
    x.1 ∉ ((lru rows).take n).map Prod.fst := by
  have hnodup := nodup_lru rows
  rw [← take_append_drop n (lru rows), map_append, nodup_append] at hnodup
  intro hmem
  exact hnodup.2.2 x.1 hmem x.1 (mem_map_of_mem hx) rfl

theorem evictsOldest_def (h : History) :
    h.EvictsOldest ↔ ∀ needed, ∀ x ∈ (lru h.state.rows).take (Greedy.count entrySize needed (lru h.state.rows)),
      ∀ y ∈ (lru h.state.rows).drop (Greedy.count entrySize needed (lru h.state.rows)), ¬ h.last y.1 < h.last x.1 := by
  constructor
  · intro holdest needed x hx y hy
    refine holdest needed x.1 y.1 ?_ ?_ ?_
    · rw [get?_of_mem_lru (mem_of_mem_take hx)]
      rfl
    · rw [dbEvictLru_none, get?_without, if_pos (mem_map_of_mem hx)]
      rfl
    · rw [dbEvictLru_none, get?_without, if_neg (not_mem_take_of_mem_drop hy),
        get?_of_mem_lru (mem_of_mem_drop hy)]
      rfl
  · intro hfirst needed x y hx hgone hkept
    rw [dbEvictLru_none, get?_without] at hgone hkept
    have hx' : x ∈ ((lru h.state.rows).take (Greedy.count entrySize needed (lru h.state.rows))).map Prod.fst := by
      by_contra hnot
      rw [if_neg hnot, hx] at hgone
      cases hgone
    split at hkept
    · cases hkept
    next hnot =>
      obtain ⟨row, hrow⟩ := Option.isSome_iff_exists.1 hkept
      have hy := mem_lru_of_get? hrow
      rw [← take_append_drop (Greedy.count entrySize needed (lru h.state.rows)) (lru h.state.rows),
        mem_append] at hy
      have hbehind := hy.resolve_left fun hmem => hnot (mem_map_of_mem (f := Prod.fst) hmem)
      obtain ⟨entry, hentry, rfl⟩ := mem_map.1 hx'
      exact hfirst needed entry hentry (y, row) hbehind

end

/-! ## Sessions and the list -/

/-- Of two entries in the list, the second was used before the first only in an earlier session. -/
theorem History.Dated.last_lt_iff {h : History} (hd : h.Dated) {front between back : List (String × CacheEntry)}
    {x y : String × CacheEntry} (hlist : lru h.state.rows = front ++ x :: (between ++ y :: back)) :
    h.last y.1 < h.last x.1 ↔ h.session y.1 < h.session x.1 := by
  have hx := get?_of_mem_lru (show x ∈ lru h.state.rows by rw [hlist]; simp)
  have hy := get?_of_mem_lru (show y ∈ lru h.state.rows by rw [hlist]; simp)
  have hseq : x.2.accessSeq ≤ y.2.accessSeq := by
    have hsorted := lru_pairwise h.state.rows
    rw [hlist, pairwise_append, pairwise_cons] at hsorted
    exact hsorted.2.1.1 y (by simp)
  have hne : x.1 ≠ y.1 := by
    have hnodup := nodup_lru h.state.rows
    rw [hlist] at hnodup
    simp only [map_append, map_cons, nodup_append, nodup_cons] at hnodup
    intro heq
    exact hnodup.2.1.1 (by simp [heq])
  have horder := hd.order x.1 x.2 y.1 y.2 hx hy hne
  unfold History.Before at horder
  omega

/-- **When a reopened cache evicts the least recently used entries.** After any calls and reopenings, no eviction takes
    an entry and keeps one whose last use is older, exactly if the entries, as their access numbers list them, are in
    the order of the sessions in which they were last used (empty ones aside). -/
theorem evictsOldest_iff (sha : Sha256) (cache : Settings) (backend : String → Option Bytes) (events : List Event) :
    ((History.initial backend).run sha cache events).EvictsOldest ↔
      ((History.initial backend).run sha cache events).SessionsInOrder := by
  have hd := @History.dated_run sha cache backend events
  generalize (History.initial backend).run sha cache events = h at hd
  rw [evictsOldest_def]
  constructor
  · intro hfirst front x between y back hlist hsession
    have hlast := (hd.last_lt_iff hlist).2 hsession
    rw [hlist, ← cons_append] at hfirst
    -- otherwise an eviction can stop between the two
    refine (Greedy.total_eq_zero_iff entrySize (x :: between)).1 ?_
    by_contra hbytes
    obtain ⟨needed, hlo, hhi⟩ := Greedy.exists_count entrySize (y :: back) (Nat.pos_of_ne_zero hbytes)
    refine hfirst needed x ?_ y ?_ hlast
    · rw [take_append, mem_append]
      right
      rw [← Nat.succ_pred_eq_of_pos (Nat.sub_pos_of_lt hlo), cons_append, take_succ_cons]
      exact mem_cons_self
    · rw [← append_assoc, drop_append, mem_append]
      right
      rw [← append_assoc] at hhi
      rw [length_append, Nat.sub_eq_zero_of_le hhi, drop_zero]
      exact mem_cons_self
  · intro hsessions needed x hx y hy hlast
    obtain ⟨front, taken, htake⟩ := append_of_mem hx
    obtain ⟨kept, back, hdrop⟩ := append_of_mem hy
    have hlist : lru h.state.rows = front ++ x :: ((taken ++ kept) ++ y :: back) := by
      rw [← take_append_drop (Greedy.count entrySize needed (lru h.state.rows)) (lru h.state.rows), htake, hdrop]
      simp
    have hempty := hsessions front x (taken ++ kept) y back hlist ((hd.last_lt_iff hlist).1 hlast)
    -- the last entry that went lies between the two, and it freed something
    have hlength := congrArg length htake
    rw [length_take_of_le (Greedy.count_le_length ..), length_append, length_cons] at hlength
    rw [hlist, ← cons_append] at hlength
    have hlo : front.length < Greedy.count entrySize needed (front ++ (x :: (taken ++ kept) ++ y :: back)) := by
      omega
    have hhi : Greedy.count entrySize needed (front ++ (x :: (taken ++ kept) ++ y :: back)) ≤
        front.length + (x :: (taken ++ kept)).length := by
      rw [hlength, length_cons, length_append]
      omega
    have hpos := Greedy.total_pos_of_count entrySize (cons_ne_nil y back) hlo hhi
    rw [(Greedy.total_eq_zero_iff entrySize (x :: (taken ++ kept))).2 hempty] at hpos
    exact lt_irrefl 0 hpos

/-- Two entries of one byte, the older one used again after the cache was reopened. -/
def restartEvents : List Event :=
  [.call (.put "a" [1]), .call (.put "b" [2]), .reopen, .call (.get "a")]

/-- The entry just used goes and the other one stays. -/
theorem restart_evicts_latest :
    (dbEvictLru .none ((History.initial fun _ => none).run .latin1 (.new "/cache" 10 false) restartEvents).state 1).2 =
      some [("a", cacheFilePath .latin1 (.new "/cache" 10 false) "a")] ∧
    ¬ ((History.initial fun _ => none).run .latin1 (.new "/cache" 10 false) restartEvents).EvictsOldest := by
  refine ⟨by decide +kernel, fun holdest => ?_⟩
  refine holdest 1 "a" "b" ?_ ?_ ?_ ?_
  · decide +kernel
  · decide +kernel
  · decide +kernel
  · decide +kernel

end Tagsmaxxing.BlobCache
