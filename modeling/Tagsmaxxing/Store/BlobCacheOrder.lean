import Tagsmaxxing.Lib.Greedy
import Tagsmaxxing.Store.BlobCache

/-! # The blob cache over its history

The calls here are made one at a time and meet no failure. `RowStep` says once what each of them does to the rows
and to the counter of accesses; whatever is said about eviction later is read off it. Beside the cache, a `History`
keeps what the cache does not know: which call used a key last, and how often the cache had been reopened by then.
Reopening starts the counter at zero again and leaves the rows as they are. -/

namespace Tagsmaxxing.BlobCache

/-! ## Calls -/

inductive Call
  | put (key : String) (data : Bytes)
  | get (key : String)
  | delete (key : String)
  | trim

variable (sha : Sha256) (cache : Settings)

/-- The cache after a call that meets no failure. -/
def perform (s : State) : Call → State
  | .put key data => (put sha cache .none s key data).1
  | .get key => (get sha cache .none s key).1
  | .delete key => (delete .none s key).1
  | .trim => (trim cache .none s).1

/-- The key whose entry a call uses: the one it stores, or the one it finds bytes for. -/
def used (s : State) : Call → Option String
  | .put key _ => some key
  | .get key => if (get sha cache .none s key).2.isSome then some key else none
  | .delete _ => none
  | .trim => none

/-! ## Eviction -/

def entrySize (x : String × CacheEntry) : ℕ := x.2.sizeBytes

/-- Least recently used first, as the access numbers have it. -/
def lru (rows : Keyed String CacheEntry) : List (String × CacheEntry) :=
  rows.rows.insertionSort fun a b => a.2.accessSeq ≤ b.2.accessSeq

/-- What is evicted to have room for the incoming bytes. -/
def evicted (max : ℕ) (rows : Keyed String CacheEntry) (incoming : ℕ) : List (String × CacheEntry) :=
  (lru rows).take (Greedy.count entrySize (Greedy.total entrySize rows.rows + incoming - max) (lru rows))

/-- The rows without the entries of a list. -/
def without (rows : Keyed String CacheEntry) (entries : List (String × CacheEntry)) : Keyed String CacheEntry :=
  rows.deleteWhere fun key _ => (entries.map Prod.fst).contains key

section

variable (rows : Keyed String CacheEntry)

theorem lru_perm : (lru rows).Perm rows.rows := List.perm_insertionSort _ _

theorem lru_pairwise : (lru rows).Pairwise fun a b => a.2.accessSeq ≤ b.2.accessSeq :=
  List.pairwise_insertionSort (fun a b : String × CacheEntry => a.2.accessSeq ≤ b.2.accessSeq) rows.rows

theorem nodup_lru : ((lru rows).map Prod.fst).Nodup :=
  ((lru_perm rows).map Prod.fst).nodup_iff.2 rows.nodup

theorem get?_of_mem_lru {rows : Keyed String CacheEntry} {x : String × CacheEntry} (hx : x ∈ lru rows) :
    rows.get? x.1 = some x.2 :=
  (rows.get?_eq_some_iff x.1 x.2).2 ((lru_perm rows).mem_iff.1 hx)

theorem without_nil : without rows [] = rows :=
  Keyed.deleteWhere_of_forall fun _ _ => rfl

end

theorem foldl_totalSize (l : List (String × CacheEntry)) (acc : ℕ) :
    l.foldl (fun total x => total + x.2.sizeBytes) acc = acc + Greedy.total entrySize l := by
  induction l generalizing acc with
  | nil => rfl
  | cons x l ih =>
    rw [List.foldl_cons, ih, Greedy.total, entrySize]
    omega

variable (s : State)

theorem dbTotalSize_none : dbTotalSize .none s = some (Greedy.total entrySize s.rows.rows) := by
  rw [dbTotalSize, foldl_totalSize, Nat.zero_add]
  rfl

/-- The loop takes the entries in front until it has freed what is needed. -/
theorem evictLoop_none (needed : ℕ) (entries : List (String × CacheEntry)) (freed : ℕ)
    (rows : Keyed String CacheEntry) (gone : List (String × String)) :
    evictLoop .none needed entries freed rows gone =
      (without rows (entries.take (Greedy.count entrySize (needed - freed) entries)),
        some (gone ++ (entries.take (Greedy.count entrySize (needed - freed) entries)).map
          fun x => (x.1, x.2.filePath))) := by
  induction entries generalizing freed rows gone with
  | nil => simp [evictLoop, Greedy.count, without_nil]
  | cons x entries ih =>
    rw [evictLoop, Greedy.count]
    by_cases henough : freed ≥ needed
    · rw [if_pos henough, if_pos (Nat.sub_eq_zero_of_le henough)]
      simp [without_nil]
    · rw [if_neg henough, if_neg (Nat.sub_ne_zero_of_lt (not_le.1 henough)), if_neg (by simp [Faults.none]), ih,
        Nat.sub_add_eq]
      have hrows : ∀ l, without (rows.deleteWhere fun k _ => k == x.1) l = without rows (x :: l) := by
        intro l
        rw [without, Keyed.deleteWhere_deleteWhere]
        rfl
      rw [hrows]
      simp [entrySize]

theorem dbEvictLru_none (needed : ℕ) : dbEvictLru .none s needed =
      ({ s with rows := without s.rows ((lru s.rows).take (Greedy.count entrySize needed (lru s.rows))) },
        some (((lru s.rows).take (Greedy.count entrySize needed (lru s.rows))).map fun x => (x.1, x.2.filePath))) := by
  have hentries : dbAllEntriesWithSizes .none s = some (lru s.rows) := rfl
  simp only [dbEvictLru, hentries, evictLoop_none, Nat.sub_zero, List.nil_append]

/-! ## What a call does to the rows -/

theorem removeFile_eq (f : Faults) (s : State) (path : String) :
    ∃ files, removeFile f s path = { s with files := files } := by
  rw [removeFile]
  split
  · exact ⟨s.files, rfl⟩
  · exact ⟨_, rfl⟩

theorem removeFiles_eq (f : Faults) (s : State) (paths : List String) :
    ∃ files, removeFiles f s paths = { s with files := files } := by
  unfold removeFiles
  induction paths generalizing s with
  | nil => exact ⟨s.files, rfl⟩
  | cons path paths ih =>
    rw [List.foldl_cons]
    split
    · obtain ⟨files, hfiles⟩ := removeFile_eq f s path
      rw [hfiles]
      exact ih _
    · exact ih s

theorem removeCounting_eq (f : Faults) (acc : State × ℕ) (paths : List String) :
    ∃ files, (paths.foldl (removeCounting f) acc).1 = { acc.1 with files := files } := by
  induction paths generalizing acc with
  | nil => exact ⟨acc.1.files, rfl⟩
  | cons path paths ih =>
    rw [List.foldl_cons]
    obtain ⟨files, hfiles⟩ := ih (removeCounting f acc path)
    rw [hfiles]
    simp only [removeCounting]
    split
    · obtain ⟨files', hfiles'⟩ := removeFile_eq f acc.1 path
      simp only [hfiles']
      exact ⟨files, rfl⟩
    · exact ⟨files, rfl⟩

theorem evicted_of_fits {max incoming : ℕ} {rows : Keyed String CacheEntry}
    (h : Greedy.total entrySize rows.rows + incoming ≤ max) : evicted max rows incoming = [] := by
  have hzero : Greedy.count entrySize 0 (lru rows) = 0 := by
    cases lru rows with
    | nil | cons x l => rfl
  rw [evicted, Nat.sub_eq_zero_of_le h, hzero, List.take_zero]

theorem ensureCapacity_none (cache : Settings) (s : State) (incoming : ℕ) :
    ∃ files, ensureCapacity cache .none s incoming =
      ({ s with rows := without s.rows (evicted cache.maxBytes s.rows incoming), files := files }, true) := by
  rw [ensureCapacity, dbTotalSize_none]
  dsimp only
  split
  next hfits =>
    refine ⟨s.files, ?_⟩
    rw [evicted_of_fits hfits, without_nil]
  · rw [dbEvictLru_none]
    obtain ⟨files, hfiles⟩ := removeFiles_eq .none
      { s with rows := without s.rows (evicted cache.maxBytes s.rows incoming) }
      ((evicted cache.maxBytes s.rows incoming).map fun x => x.2.filePath)
    refine ⟨files, ?_⟩
    rw [← hfiles, evicted]
    simp only [List.map_map]
    rfl

theorem trim_none (cache : Settings) (s : State) :
    ∃ files, (trim cache .none s).1 =
      { s with rows := without s.rows (evicted cache.maxBytes s.rows 0), files := files } := by
  rw [trim, dbTotalSize_none]
  dsimp only
  split
  next hfits =>
    refine ⟨s.files, ?_⟩
    rw [evicted_of_fits hfits, without_nil]
  · rw [dbEvictLru_none]
    exact removeCounting_eq .none (_, 0) _

/-- What a call does to the rows and the counter, and which key it uses. The rows are those before the call; a
    `get` that misses has removed the row of its key, if there was one, before it makes room. -/
inductive RowStep (max : ℕ) (rows : Keyed String CacheEntry) (seq : ℕ) :
    Call → Option String → Keyed String CacheEntry → ℕ → Prop
  | stored (key : String) (data : Bytes) (row : CacheEntry) (hsize : row.sizeBytes = data.length)
      (hseq : row.accessSeq = seq) :
      RowStep max rows seq (.put key data) (some key)
        ((without rows (evicted max rows data.length)).upsert key row) (seq + 1)
  | hit (key : String) :
      RowStep max rows seq (.get key) (some key)
        (rows.updateWhere (fun k _ => k == key) fun row => { row with accessSeq := seq }) (seq + 1)
  | fetched (key : String) (row : CacheEntry) (hseq : row.accessSeq = seq) :
      RowStep max rows seq (.get key) (some key)
        ((without (rows.deleteWhere fun k _ => k == key)
          (evicted max (rows.deleteWhere fun k _ => k == key) row.sizeBytes)).upsert key row) (seq + 1)
  | missed (key : String) : RowStep max rows seq (.get key) none (rows.deleteWhere fun k _ => k == key) seq
  | deleted (key : String) : RowStep max rows seq (.delete key) none (rows.deleteWhere fun k _ => k == key) seq
  | trimmed : RowStep max rows seq .trim none (without rows (evicted max rows 0)) seq

theorem writeToCache_none (key : String) (data : Bytes) : writeToCache sha cache .none s key data = ({ s with
          rows := s.rows.upsert key ⟨cacheFilePath sha cache key, data.length, s.nextSeq, some (sha.hex data)⟩
          nextSeq := s.nextSeq + 1
          files := Function.update s.files (cacheFilePath sha cache key) (some data) }, true) := rfl

/-- The cache has the bytes of a key, or no row of the key is left. -/
theorem lookUp_none (key : String) :
    lookUp sha cache .none s key = ({ s with rows := s.rows.deleteWhere fun k _ => k == key }, some none) ∨
      ∃ d, lookUp sha cache .none s key = (dbUpdateAccess .none s key, some (some d)) := by
  have hlookup : dbLookup .none s key = some (s.rows.get? key) := rfl
  simp only [lookUp, hlookup]
  cases hrow : s.rows.get? key with
  | none =>
    left
    rw [Keyed.deleteWhere_key_of_none hrow]
  | some row =>
    have hread : readFromCache sha cache .none s row.filePath row.sha256Hex = some none ∨
        ∃ d, readFromCache sha cache .none s row.filePath row.sha256Hex = some (some d) := by
      rw [readFromCache]
      cases hfile : s.files row.filePath with
      | none => exact .inl (by simp [pathExists, Faults.none, hfile])
      | some d =>
        simp only [pathExists, Faults.none, hfile, Option.isSome_some, Bool.not_false, Bool.and_self,
          Bool.not_true, Bool.false_eq_true, if_false]
        split
        · exact .inl rfl
        · exact .inr ⟨d, rfl⟩
    rcases hread with hread | ⟨d, hread⟩
    · left
      simp only [hread]
      rfl
    · right
      exact ⟨d, by simp only [hread]⟩

theorem rowStep_perform (c : Call) :
    RowStep cache.maxBytes s.rows s.nextSeq c (used sha cache s c) (perform sha cache s c).rows
      (perform sha cache s c).nextSeq := by
  cases c with
  | put key data =>
    obtain ⟨files, hroom⟩ := ensureCapacity_none cache
      { s with backend := Function.update s.backend key (some data) } data.length
    have hput : (put sha cache .none s key data).1 =
        (writeToCache sha cache .none (ensureCapacity cache .none
          { s with backend := Function.update s.backend key (some data) } data.length).1 key data).1 := by
      have hok : Faults.none.backend = .ok := rfl
      simp only [put, hok, hroom, if_true]
    rw [perform, hput, hroom, writeToCache_none]
    exact .stored key data _ rfl rfl
  | get key =>
    rcases lookUp_none sha cache s key with hmiss | ⟨d, hhit⟩
    · cases hdata : s.backend key with
      | none =>
        have hget : get sha cache .none s key = ({ s with rows := s.rows.deleteWhere fun k _ => k == key }, none) := by
          simp only [get, hmiss, backendGet, hdata]
          rfl
        rw [perform, used, hget]
        exact .missed key
      | some data =>
        obtain ⟨files, hroom⟩ := ensureCapacity_none cache
          { s with rows := s.rows.deleteWhere fun k _ => k == key } data.length
        have hget : get sha cache .none s key = ((writeToCache sha cache .none (ensureCapacity cache .none
            { s with rows := s.rows.deleteWhere fun k _ => k == key } data.length).1 key data).1, some data) := by
          simp only [get, hmiss, backendGet, hdata]
          rfl
        rw [perform, used, hget, hroom, writeToCache_none]
        exact .fetched key ⟨_, data.length, s.nextSeq, _⟩ rfl
    · have hget : get sha cache .none s key = (dbUpdateAccess .none s key, some d) := by
        simp only [get, hhit]
      rw [perform, used, hget]
      exact .hit key
  | delete key =>
    have hlookup : dbLookup .none { s with backend := Function.update s.backend key none } key =
        some (s.rows.get? key) := rfl
    obtain ⟨hrows, hseq⟩ : (delete .none s key).1.rows = (s.rows.deleteWhere fun k _ => k == key) ∧
        (delete .none s key).1.nextSeq = s.nextSeq := by
      have hok : Faults.none.backend = .ok := rfl
      simp only [delete, hok, hlookup]
      cases hrow : s.rows.get? key with
      | none => exact ⟨(Keyed.deleteWhere_key_of_none hrow).symm, rfl⟩
      | some row => exact ⟨rfl, rfl⟩
    rw [perform, hrows, hseq]
    exact .deleted key
  | trim =>
    obtain ⟨files, htrim⟩ := trim_none cache s
    rw [perform, used, htrim]
    exact .trimmed

section

variable {max seq seq' : ℕ} {rows rows' : Keyed String CacheEntry} {c : Call} {key : Option String}
  (h : RowStep max rows seq c key rows' seq')

include h

theorem RowStep.nextSeq_eq : seq' = seq + key.toList.length := by
  cases h <;> rfl

/-- Every row after a call is the one that the call has used, with the next number, or was there before. -/
theorem RowStep.get?_cases {k : String} {row : CacheEntry} (hget : rows'.get? k = some row) :
    key = some k ∧ row.accessSeq = seq ∨ key ≠ some k ∧ rows.get? k = some row := by
  cases h with
  | stored key data new hsize hseq =>
    rw [Keyed.get?_upsert] at hget
    split at hget
    next hk => exact .inl ⟨by rw [hk], by rw [← Option.some.inj hget, hseq]⟩
    next hk => exact .inr ⟨by simpa using Ne.symm hk, get?_deleteWhere_imp hget⟩
  | hit key =>
    rw [Keyed.get?_updateWhere, Option.map_eq_some_iff] at hget
    obtain ⟨old, hold, rfl⟩ := hget
    by_cases hk : k = key
    · exact .inl ⟨by rw [hk], by simp [hk]⟩
    · exact .inr ⟨by simpa using Ne.symm hk, by simp [hk, hold]⟩
  | fetched key new hseq =>
    rw [Keyed.get?_upsert] at hget
    split at hget
    next hk => exact .inl ⟨by rw [hk], by rw [← Option.some.inj hget, hseq]⟩
    next hk => exact .inr ⟨by simpa using Ne.symm hk, get?_deleteWhere_imp (get?_deleteWhere_imp hget)⟩
  | missed key | deleted key | trimmed => exact .inr ⟨by simp, get?_deleteWhere_imp hget⟩

end

/-! ## Histories -/

/-- A cache and its past. -/
structure History where
  state : State
  /-- the calls so far -/
  clock : ℕ
  /-- the call that used a key last -/
  last : String → ℕ
  /-- how often the cache has been reopened -/
  opened : ℕ
  /-- how often it had been when a key was used last -/
  session : String → ℕ

/-- A cache in a new directory. -/
def History.initial (backend : String → Option Bytes) : History :=
  ⟨.initial backend, 0, fun _ => 0, 0, fun _ => 0⟩

/-- A note about the key that was used, if one was. -/
def noted (key : Option String) (notes : String → ℕ) (value : ℕ) : String → ℕ :=
  fun k => if key = some k then value else notes k

inductive Event
  | call (c : Call)
  /-- `BlobCache` is dropped, and `BlobCache::new` called on the same directory -/
  | reopen

def History.step (h : History) : Event → History
  | .call c =>
      { state := perform sha cache h.state c
        clock := h.clock + 1
        last := noted (used sha cache h.state c) h.last h.clock
        opened := h.opened
        session := noted (used sha cache h.state c) h.session h.opened }
  | .reopen => { h with state := { h.state with nextSeq := 0 }, opened := h.opened + 1 }

def History.run (h : History) (events : List Event) : History := events.foldl (History.step sha cache) h

/-- One row was used before another, and its number shows it: it is of an earlier session, or of the same one and
    smaller. -/
def History.Before (h : History) (k : String) (row : CacheEntry) (k' : String) (row' : CacheEntry) : Prop :=
  h.last k < h.last k' ∧
    (h.session k < h.session k' ∨ h.session k = h.session k' ∧ row.accessSeq < row'.accessSeq)

/-- The rows are of the calls so far, those of this session have numbers from the counter, and of any two one was
    used before the other. -/
structure History.Dated (h : History) : Prop where
  session_le : ∀ k row, h.state.rows.get? k = some row → h.session k ≤ h.opened
  last_lt : ∀ k row, h.state.rows.get? k = some row → h.last k < h.clock
  seq_lt : ∀ k row, h.state.rows.get? k = some row → h.session k = h.opened → row.accessSeq < h.state.nextSeq
  order : ∀ k row k' row', h.state.rows.get? k = some row → h.state.rows.get? k' = some row' → k ≠ k' →
    h.Before k row k' row' ∨ h.Before k' row' k row

namespace History

variable {sha cache}

theorem dated_initial (backend : String → Option Bytes) : (History.initial backend).Dated := by
  have hnone : ∀ k row, (History.initial backend).state.rows.get? k ≠ some row := by
    rintro k row ⟨⟩
  exact ⟨fun k row h => absurd h (hnone k row), fun k row h => absurd h (hnone k row),
    fun k row h => absurd h (hnone k row), fun k row _ _ h => absurd h (hnone k row)⟩

section Call

variable (h : History) (c : Call) (k : String)

theorem last_of_used (hk : used sha cache h.state c = some k) : (h.step sha cache (.call c)).last k = h.clock :=
  if_pos hk

theorem last_of_not_used (hk : used sha cache h.state c ≠ some k) :
    (h.step sha cache (.call c)).last k = h.last k := if_neg hk

theorem session_of_used (hk : used sha cache h.state c = some k) :
    (h.step sha cache (.call c)).session k = h.opened := if_pos hk

theorem session_of_not_used (hk : used sha cache h.state c ≠ some k) :
    (h.step sha cache (.call c)).session k = h.session k := if_neg hk

end Call

/-- A row that is not used comes before the one that is. -/
theorem Dated.before_used {h : History} (hd : h.Dated) {c : Call} {k k' : String} {row row' : CacheEntry}
    (hget : h.state.rows.get? k = some row) (hk : used sha cache h.state c ≠ some k)
    (hk' : used sha cache h.state c = some k') (hseq : row'.accessSeq = h.state.nextSeq) :
    (h.step sha cache (.call c)).Before k row k' row' := by
  rw [Before, last_of_not_used h c k hk, last_of_used h c k' hk', session_of_not_used h c k hk,
    session_of_used h c k' hk']
  refine ⟨hd.last_lt k row hget, ?_⟩
  rcases (hd.session_le k row hget).lt_or_eq with hearlier | hcurrent
  · exact .inl hearlier
  · exact .inr ⟨hcurrent, hseq ▸ hd.seq_lt k row hget hcurrent⟩

/-- The key that is used gets the newest notes and the largest number. -/
theorem Dated.call {h : History} (hd : h.Dated) (c : Call) : (h.step sha cache (.call c)).Dated := by
  have hstep := rowStep_perform sha cache h.state c
  have hnext : (h.step sha cache (.call c)).state.nextSeq =
      h.state.nextSeq + (used sha cache h.state c).toList.length := hstep.nextSeq_eq
  refine ⟨?_, ?_, ?_, ?_⟩
  · intro k row hget
    rcases hstep.get?_cases hget with ⟨hk, -⟩ | ⟨hk, hold⟩
    · exact (session_of_used h c k hk).le
    · rw [session_of_not_used h c k hk]
      exact hd.session_le k row hold
  · intro k row hget
    rcases hstep.get?_cases hget with ⟨hk, -⟩ | ⟨hk, hold⟩
    · rw [last_of_used h c k hk]
      exact Nat.lt_succ_self _
    · rw [last_of_not_used h c k hk]
      exact Nat.lt_succ_of_lt (hd.last_lt k row hold)
  · intro k row hget hcurrent
    rw [hnext]
    rcases hstep.get?_cases hget with ⟨hk, hnew⟩ | ⟨hk, hold⟩
    · rw [hnew, hk]
      exact Nat.lt_succ_self _
    · rw [session_of_not_used h c k hk] at hcurrent
      exact Nat.lt_add_right _ (hd.seq_lt k row hold hcurrent)
  · intro k row k' row' hget hget' hne
    rcases hstep.get?_cases hget with ⟨hk, hnew⟩ | ⟨hk, hold⟩
    · rcases hstep.get?_cases hget' with ⟨hk', -⟩ | ⟨hk', hold'⟩
      · exact absurd (Option.some.inj (hk.symm.trans hk')) hne
      · exact .inr (hd.before_used hold' hk' hk hnew)
    · rcases hstep.get?_cases hget' with ⟨hk', hnew'⟩ | ⟨hk', hold'⟩
      · exact .inl (hd.before_used hold hk hk' hnew')
      · -- neither of them is touched
        have horder := hd.order k row k' row' hold hold' hne
        simp only [Before, last_of_not_used h c k hk, last_of_not_used h c k' hk', session_of_not_used h c k hk,
          session_of_not_used h c k' hk'] at horder ⊢
        exact horder

theorem Dated.reopen {h : History} (hd : h.Dated) : (h.step sha cache .reopen).Dated where
  session_le k row hget := Nat.le_succ_of_le (hd.session_le k row hget)
  last_lt := hd.last_lt
  seq_lt k row hget hcurrent := by
    have hle := hd.session_le k row hget
    have hopened : h.session k = h.opened + 1 := hcurrent
    omega
  order := hd.order

theorem dated_run (backend : String → Option Bytes) (events : List Event) :
    ((History.initial backend).run sha cache events).Dated := by
  unfold History.run
  induction events using List.reverseRecOn with
  | nil => exact dated_initial backend
  | append_singleton events e ih =>
    rw [List.foldl_append]
    cases e with
    | call c => exact ih.call c
    | reopen => exact @Dated.reopen sha cache _ ih

end History

end Tagsmaxxing.BlobCache
