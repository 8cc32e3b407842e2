import Tagsmaxxing.Store.BlobCache

/-! # `get` and `delete` of the blob cache at the same time

Nothing fails here. The calls of `BlobCache` run on several threads, and each access to the backend, the
metadata or the disk is a step of its own; what a call has read before may be out of date when it uses it. -/

namespace Tagsmaxxing.BlobCache.Race

open Transition

/-- Where a call is; the access named is the next one. -/
inductive Pc
  /-- `get`: `db_lookup` -/
  | lookup
  /-- `read_from_cache`: `path.exists()` -/
  | pathExists (row : CacheEntry)
  /-- `read_from_cache`: `std::fs::read` -/
  | read (row : CacheEntry)
  /-- `db_update_access`, with the bytes read -/
  | access (data : Bytes)
  /-- `db_delete` of a stale row -/
  | stale
  /-- `inner.get` -/
  | fetch
  /-- `ensure_capacity`: `db_total_size`, with the bytes fetched -/
  | capacity (data : Bytes)
  /-- `db_evict_lru`: `db_all_entries_with_sizes` -/
  | entries (data : Bytes) (neededBytes : ℕ)
  /-- `db_evict_lru`: the loop, under the lock -/
  | evict (data : Bytes) (neededBytes : ℕ) (entries : List (String × CacheEntry))
  /-- `ensure_capacity`: the evicted files that are left to remove -/
  | remove (data : Bytes) (paths : List String)
  /-- `write_to_cache`: `std::fs::write` -/
  | write (data : Bytes)
  /-- `write_to_cache`: `db_upsert` -/
  | upsert (data : Bytes)
  /-- `get` has returned the bytes, or an error -/
  | returned (result : Option Bytes)
  /-- `delete`: `inner.delete` -/
  | deleteBackend
  /-- `delete`: `db_lookup` -/
  | deleteLookup
  /-- `delete`: `remove_file` -/
  | removeFile (path : String)
  /-- `delete`: `db_delete` -/
  | removeRow
  /-- `delete` has returned -/
  | deleted
deriving DecidableEq

structure Call where
  key : String
  pc : Pc
deriving DecidableEq

/-- The cache and the calls on it. -/
structure World where
  state : State
  calls : Keyed ℕ Call

/-- Any cache and backend, before the first call. -/
def World.initial (s : State) : World := ⟨s, .empty⟩

inductive Act
  | get (id : ℕ) (key : String)
  | delete (id : ℕ) (key : String)
  /-- the next access of a call -/
  | move (id : ℕ)
deriving DecidableEq

section
variable (sha : Sha256) (cache : Settings)

/-- One access of a call for `key`. -/
def next (s : State) (key : String) : Pc → Option (State × Pc)
  | .lookup =>
      match s.rows.get? key with
      | none => some (s, .fetch)
      | some row => some (s, .pathExists row)
  | .pathExists row => some (s, if (s.files row.filePath).isSome then .read row else .stale)
  | .read row =>
      match s.files row.filePath with
      | none => some (s, .returned none)
      | some data =>
          if cache.paranoid && row.sha256Hex.any (fun expected => sha.hex data != expected) then some (s, .stale)
          else some (s, .access data)
  | .access data => some (dbUpdateAccess .none s key, .returned (some data))
  | .stale => some (dbDelete .none s key, .fetch)
  | .fetch =>
      match s.backend key with
      | none => some (s, .returned none)
      | some data => some (s, .capacity data)
  | .capacity data =>
      match dbTotalSize .none s with
      | none => some (s, .write data)
      | some current =>
          if current + data.length ≤ cache.maxBytes then some (s, .write data)
          else some (s, .entries data (current + data.length - cache.maxBytes))
  | .entries data neededBytes =>
      match dbAllEntriesWithSizes .none s with
      | none => some (s, .write data)
      | some entries => some (s, .evict data neededBytes entries)
  | .evict data neededBytes entries =>
      let looped := evictLoop .none neededBytes entries 0 s.rows []
      some ({ s with rows := looped.1 }, .remove data ((looped.2.getD []).map Prod.snd))
  | .remove data [] => some (s, .write data)
  | .remove data (path :: paths) => some (removeFile .none s path, .remove data paths)
  | .write data => some ((writeFile .none s (cacheFilePath sha cache key) data).1, .upsert data)
  | .upsert data =>
      some ((dbUpsert .none s key (cacheFilePath sha cache key) data.length (some (sha.hex data))).1,
        .returned (some data))
  | .returned _ => none
  | .deleteBackend => some ({ s with backend := Function.update s.backend key none }, .deleteLookup)
  | .deleteLookup =>
      match s.rows.get? key with
      | none => some (s, .deleted)
      | some row => some (s, .removeFile row.filePath)
  | .removeFile path => some (removeFile .none s path, .removeRow)
  | .removeRow => some (dbDelete .none s key, .deleted)
  | .deleted => none

def step (w : World) : Act → Option World
  | .get id key =>
      match w.calls.get? id with
      | some _ => none
      | none => some { w with calls := w.calls.upsert id ⟨key, .lookup⟩ }
  | .delete id key =>
      match w.calls.get? id with
      | some _ => none
      | none => some { w with calls := w.calls.upsert id ⟨key, .deleteBackend⟩ }
  | .move id =>
      (w.calls.get? id).bind fun call =>
        (next sha cache w.state call.key call.pc).map fun r => ⟨r.1, w.calls.upsert id ⟨call.key, r.2⟩⟩

end

/-! ## Where a call can still do harm -/

/-- The call holds bytes from the backend and has not stored their row. -/
@[simp] def Pc.fetched : Pc → Bool
  | .capacity _ => true
  | .entries _ _ => true
  | .evict _ _ _ => true
  | .remove _ _ => true
  | .write _ => true
  | .upsert _ => true
  | _ => false

/-- The call has seen a row and has not returned. -/
@[simp] def Pc.reading : Pc → Bool
  | .pathExists _ => true
  | .read _ => true
  | .access _ => true
  | _ => false

/-- The call has deleted the key in the backend. -/
@[simp] def Pc.gone : Pc → Bool
  | .deleteLookup => true
  | .removeFile _ => true
  | .removeRow => true
  | .deleted => true
  | _ => false

/-- And has looked its row up. -/
@[simp] def Pc.swept : Pc → Bool
  | .removeFile _ => true
  | .removeRow => true
  | .deleted => true
  | _ => false

/-! ## What one access can do -/

/-- What an access from `pc` to `pc'` can do to the backend and the rows, and where a call can come from. -/
structure Access (s : State) (key : String) (pc : Pc) (s' : State) (pc' : Pc) : Prop where
  backend : ∀ k, s.backend k = none → s'.backend k = none
  rows : ∀ k, s.rows.get? k = none → s'.rows.get? k = none ∨ k = key ∧ pc.fetched = true
  fetched : pc'.fetched = true → pc.fetched = true ∨ s.backend key ≠ none
  reading : pc'.reading = true → pc.reading = true ∨ s.rows.get? key ≠ none
  gone : pc'.gone = true → pc.gone = true ∨ s'.backend key = none
  swept : pc'.swept = true → pc.swept = true ∨ pc = .deleteLookup
  deleted : pc' = .deleted → s'.rows.get? key = none
  returned : ∀ d, pc' = .returned (some d) → pc.fetched = true ∨ pc.reading = true

variable {key : String} {call : Call} {id : ℕ} {w w' : World} {a : Act} {pc : Pc} {s s' : State} {pc' : Pc}
  {p : Pc → Bool}

/-- An access that takes rows and files away at most. -/
theorem Access.of_shrinks (hs : Shrinks s s')
    (fetched : pc'.fetched = true → pc.fetched = true ∨ s.backend key ≠ none)
    (reading : pc'.reading = true → pc.reading = true ∨ s.rows.get? key ≠ none)
    (gone : pc'.gone = true → pc.gone = true) (swept : pc'.swept = true → pc.swept = true ∨ pc = .deleteLookup)
    (deleted : pc' = .deleted → s'.rows.get? key = none)
    (returned : ∀ d, pc' = .returned (some d) → pc.fetched = true ∨ pc.reading = true) : Access s key pc s' pc' where
  backend k hk := by rw [hs.backend, hk]
  rows k hk := by
    left
    cases hrow : s'.rows.get? k with
    | none => rfl
    | some row =>
      obtain ⟨row', hrow', -⟩ := hs.rows k row hrow
      cases hk.symm.trans hrow'
  fetched := fetched
  reading := reading
  gone h := .inl (gone h)
  swept := swept
  deleted := deleted
  returned := returned

/-- A move that takes the call to bytes, to a row or into a deletion only if it was there, and ends none. -/
structure Pc.Onward (pc pc' : Pc) : Prop where
  fetched : pc'.fetched = true → pc.fetched = true
  reading : pc'.reading = true → pc.reading = true
  gone : pc'.gone = true → pc.gone = true
  swept : pc'.swept = true → pc.swept = true
  deleted : pc' ≠ .deleted
  returned : ∀ d, pc' = .returned (some d) → pc.fetched = true ∨ pc.reading = true

theorem Access.of_onward (hs : Shrinks s s') (h : pc.Onward pc') : Access s key pc s' pc' :=
  .of_shrinks hs (fun hf => .inl (h.fetched hf)) (fun hr => .inl (h.reading hr)) h.gone
    (fun hw => .inl (h.swept hw)) (fun hd => absurd hd h.deleted) h.returned

section
variable {sha : Sha256} {cache : Settings}

theorem access_next (h : next sha cache s key pc = some (s', pc')) :
    Access s key pc s' pc' := by
  revert h
  fun_cases next sha cache s key pc <;> rintro ⟨⟩
  -- looking the key up and fetching it find out what the backend and the rows hold
  case case2 row hrow => refine .of_shrinks (.refl s) ?_ ?_ ?_ ?_ ?_ ?_ <;> simp [hrow]
  case case10 data hdata => refine .of_shrinks (.refl s) ?_ ?_ ?_ ?_ ?_ ?_ <;> simp [hdata]
  case case23 hnone => refine .of_shrinks (.refl s) ?_ ?_ ?_ ?_ (fun _ => hnone) ?_ <;> simp
  case case24 => refine .of_shrinks (.refl s) ?_ ?_ ?_ ?_ ?_ ?_ <;> simp
  case case3 =>
    split
    all_goals exact .of_onward (.refl s) (by constructor <;> simp)
  -- rows and files that go
  case case7 => exact .of_onward (shrinks_dbUpdateAccess _ s key) (by constructor <;> simp)
  case case8 => exact .of_onward (shrinks_dbDelete _ s key) (by constructor <;> simp)
  case case16 data neededBytes entries _ =>
    exact .of_onward (.of_rows fun k row => evictLoop_subset _ _ entries 0 s.rows [] k row) (by constructor <;> simp)
  case case18 path _ => exact .of_onward (shrinks_removeFile _ s path) (by constructor <;> simp)
  case case25 path => exact .of_onward (shrinks_removeFile _ s path) (by constructor <;> simp)
  case case26 => refine .of_shrinks (shrinks_dbDelete _ s key) ?_ ?_ ?_ ?_ ?_ ?_ <;> simp [dbDelete, Faults.none]
  -- and those that come
  case case19 => refine ⟨fun _ hk => hk, fun _ hk => .inl hk, ?_, ?_, ?_, ?_, ?_, ?_⟩ <;> simp
  case case20 =>
    refine ⟨fun _ hk => hk, fun k hk => ?_, ?_, ?_, ?_, ?_, ?_, ?_⟩
    · by_cases hkey : k = key
      · exact .inr ⟨hkey, rfl⟩
      · left
        simp only [dbUpsert, Faults.none, Bool.false_eq_true, if_false, Keyed.get?_upsert, if_neg hkey]
        exact hk
    all_goals simp
  case case22 =>
    refine ⟨fun k hk => ?_, fun _ hk => .inl hk, ?_, ?_, fun _ => .inr (Function.update_self ..), ?_, ?_, ?_⟩
    · dsimp only
      rw [Function.update_apply, hk, ite_self]
    all_goals simp
  all_goals exact .of_onward (.refl s) (by constructor <;> simp)

/-- A step starts a call, or is an access of one. -/
theorem step_cases (h : step sha cache w a = some w') :
    (∃ id key pc, (pc.fetched = false ∧ pc.reading = false ∧ pc.gone = false) ∧ (∀ i, a ≠ .move i) ∧
      w' = { w with calls := w.calls.upsert id ⟨key, pc⟩ }) ∨
    ∃ id call s' pc', a = .move id ∧ w.calls.get? id = some call ∧ Access w.state call.key call.pc s' pc' ∧
      w' = ⟨s', w.calls.upsert id ⟨call.key, pc'⟩⟩ := by
  cases a with
  | get id key | delete id key =>
    simp only [step] at h
    split at h <;> cases h
    exact .inl ⟨id, key, _, ⟨rfl, rfl, rfl⟩, fun i => by simp, rfl⟩
  | move id =>
    obtain ⟨call, hcall, hmap⟩ := Option.bind_eq_some_iff.1 h
    obtain ⟨⟨s', pc'⟩, hnext, rfl⟩ := Option.map_eq_some_iff.1 hmap
    exact .inr ⟨id, call, s', pc', rfl, hcall, access_next hnext, rfl⟩

end

/-! ## A key that is gone -/

/-- No call for the key is at a place with the property. -/
def NoneAt (p : Pc → Bool) (key : String) (calls : Keyed ℕ Call) : Prop :=
  ∀ id call, calls.get? id = some call → call.key = key → p call.pc = false

theorem noneAt_iff (p : Pc → Bool) (key : String) (calls : Keyed ℕ Call) :
    (∀ x ∈ calls.rows, x.2.key = key → p x.2.pc = false) ↔ NoneAt p key calls := by
  simp only [NoneAt, Keyed.get?_eq_some_iff, Prod.forall]

instance (p : Pc → Bool) (key : String) (calls : Keyed ℕ Call) : Decidable (NoneAt p key calls) :=
  decidable_of_iff _ (noneAt_iff p key calls)

theorem NoneAt.upsert {calls : Keyed ℕ Call} (h : NoneAt p key calls)
    (hcall : call.key = key → p call.pc = false) : NoneAt p key (calls.upsert id call) := by
  intro i c hc hkey
  rw [Keyed.get?_upsert] at hc
  split at hc
  · cases hc
    exact hcall hkey
  · exact h i c hc hkey

/-- A call that moves on gets there from there, or by what `q` says of the key. -/
theorem NoneAt.move {calls : Keyed ℕ Call} {q : Prop} (h : NoneAt p key calls)
    (hcall : calls.get? id = some call) (hp : p pc' = true → p call.pc = true ∨ q) (hq : call.key = key → ¬ q) :
    NoneAt p key (calls.upsert id ⟨call.key, pc'⟩) := by
  refine h.upsert fun hkey => Bool.eq_false_iff.2 fun hnew => ?_
  rcases hp hnew with hold | hholds
  · cases (h id call hcall hkey).symm.trans hold
  · exact hq hkey hholds

/-- Neither the backend nor the cache has the key, and no call has seen it there. -/
structure Absent (key : String) (w : World) : Prop where
  backend : w.state.backend key = none
  rows : w.state.rows.get? key = none
  fetched : NoneAt Pc.fetched key w.calls
  reading : NoneAt Pc.reading key w.calls

variable {cache : Settings} {sha : Sha256}

theorem absent_step (hstep : step sha cache w a = some w')
    (h : Absent key w) : Absent key w' := by
  rcases step_cases hstep with ⟨id, k, pc, hpc, -, rfl⟩ | ⟨id, call, s', pc', -, hcall, haccess, rfl⟩
  · exact ⟨h.backend, h.rows, h.fetched.upsert fun _ => hpc.1, h.reading.upsert fun _ => hpc.2.1⟩
  · refine ⟨haccess.backend key h.backend, ?_, h.fetched.move hcall haccess.fetched fun hkey hheld => ?_,
      h.reading.move hcall haccess.reading fun hkey hrow => ?_⟩
    · rcases haccess.rows key h.rows with hnone | ⟨rfl, hfetched⟩
      · exact hnone
      · cases (h.fetched id call hcall rfl).symm.trans hfetched
    · exact hheld (hkey ▸ h.backend)
    · exact hrow (hkey ▸ h.rows)

/-- What a `get` of the key returns at this step. -/
def result (key : String) (e : Edge World Act) : Option (Option Bytes) :=
  match e.label with
  | .move id =>
      match e.dst.calls.get? id with
      | some ⟨k, .returned r⟩ => if k = key then some r else none
      | _ => none
  | _ => none

theorem result_of_absent (hstep : step sha cache w a = some w')
    (h : Absent key w) (d : Bytes) : result key ⟨w, a, w'⟩ ≠ some (some d) := by
  intro hresult
  simp only [result] at hresult
  split at hresult
  next i =>
    rcases step_cases hstep with ⟨id, k, pc, -, hlabel, -⟩ | ⟨id, call, s', pc', hlabel, hcall, haccess, rfl⟩
    · exact hlabel i rfl
    · cases hlabel
      simp only [Keyed.get?_upsert, if_true] at hresult
      split at hresult
      · next k r heq =>
        cases heq
        split at hresult <;> cases hresult
        rename_i hkey
        rcases haccess.returned d rfl with hfetched | hreading
        · cases (h.fetched i call hcall hkey).symm.trans hfetched
        · cases (h.reading i call hcall hkey).symm.trans hreading
      · cases hresult
  · cases hresult

/-! ## The way of a delete -/

/-- At the look-up of the delete `id` no `get` of its key holds bytes whose row it has yet to store. -/
def NoRefill (id : ℕ) (e : Edge World Act) : Prop :=
  e.label = .move id → ∀ call ∈ e.src.calls.get? id, call.pc = .deleteLookup →
    NoneAt Pc.fetched call.key e.src.calls

instance (id : ℕ) (e : Edge World Act) : Decidable (NoRefill id e) :=
  inferInstanceAs (Decidable (_ → _))

/-- What the delete `id` has achieved so far. -/
structure Deleting (id : ℕ) (w : World) : Prop where
  gone : ∀ call, w.calls.get? id = some call → call.pc.gone = true → w.state.backend call.key = none
  swept : ∀ call, w.calls.get? id = some call → call.pc.swept = true → NoneAt Pc.fetched call.key w.calls
  deleted : ∀ call, w.calls.get? id = some call → call.pc = .deleted → w.state.rows.get? call.key = none

theorem Pc.of_swept (h : pc.swept = true) : pc.gone = true ∧ pc.fetched = false := by
  cases pc with
  | removeFile path | removeRow | deleted => exact ⟨rfl, rfl⟩
  | _ => cases h

theorem Deleting.initial (id : ℕ) (s : State) : Deleting id (.initial s) := by
  constructor
  all_goals
    rintro call ⟨⟩

theorem Deleting.started (h : Deleting id w) {i : ℕ} (hgone : pc.gone = false) (hfetched : pc.fetched = false) :
    Deleting id { w with calls := w.calls.upsert i ⟨key, pc⟩ } := by
  -- the delete itself, if it was there before
  have hold : ∀ call, (w.calls.upsert i ⟨key, pc⟩).get? id = some call → call.pc.gone = true →
      w.calls.get? id = some call := by
    intro call hcall hg
    rw [Keyed.get?_upsert] at hcall
    split at hcall
    · cases hcall
      cases hgone.symm.trans hg
    · exact hcall
  constructor
  · intro call hcall hg
    exact h.gone call (hold call hcall hg) hg
  · intro call hcall hs
    exact (h.swept call (hold call hcall (Pc.of_swept hs).1) hs).upsert fun _ => hfetched
  · intro call hcall hd
    exact h.deleted call (hold call hcall (by rw [hd]; rfl)) hd

theorem Deleting.own (h : Deleting id w) (hcall : w.calls.get? id = some call)
    (haccess : Access w.state call.key call.pc s' pc')
    (hquiet : call.pc = .deleteLookup → NoneAt Pc.fetched call.key w.calls) :
    Deleting id ⟨s', w.calls.upsert id ⟨call.key, pc'⟩⟩ := by
  have hself : ∀ c, (w.calls.upsert id ⟨call.key, pc'⟩).get? id = some c → c = ⟨call.key, pc'⟩ := by
    intro c hc
    rw [Keyed.get?_upsert, if_pos rfl] at hc
    exact (Option.some.inj hc).symm
  constructor
  · intro c hc hg
    obtain rfl := hself c hc
    rcases haccess.gone hg with hbefore | hnow
    · exact haccess.backend _ (h.gone call hcall hbefore)
    · exact hnow
  · intro c hc hs
    obtain rfl := hself c hc
    have hnone : NoneAt Pc.fetched call.key w.calls := by
      rcases haccess.swept hs with hbefore | hlookup
      · exact h.swept call hcall hbefore
      · exact hquiet hlookup
    exact hnone.upsert fun _ => (Pc.of_swept hs).2
  · intro c hc hd
    obtain rfl := hself c hc
    exact haccess.deleted hd

/-- Another call moves on: once the key is gone from the backend it cannot be fetched any more. -/
theorem Deleting.other {i : ℕ} (hne : id ≠ i) (h : Deleting id w) (hcall : w.calls.get? i = some call)
    (haccess : Access w.state call.key call.pc s' pc') : Deleting id ⟨s', w.calls.upsert i ⟨call.key, pc'⟩⟩ := by
  have hsame : ∀ c, (w.calls.upsert i ⟨call.key, pc'⟩).get? id = some c → w.calls.get? id = some c := by
    intro c hc
    rwa [Keyed.get?_upsert, if_neg hne] at hc
  constructor
  · intro c hc hg
    exact haccess.backend _ (h.gone c (hsame c hc) hg)
  · intro c hc hs
    refine (h.swept c (hsame c hc) hs).move hcall haccess.fetched fun hkey hheld => ?_
    exact hheld (hkey ▸ h.gone c (hsame c hc) (Pc.of_swept hs).1)
  · intro c hc hd
    have hs : c.pc.swept = true := by
      rw [hd]
      rfl
    rcases haccess.rows _ (h.deleted c (hsame c hc) hd) with hnone | ⟨hkey, hfetched⟩
    · exact hnone
    · cases (h.swept c (hsame c hc) hs i call hcall hkey.symm).symm.trans hfetched

theorem deleting_step (hstep : step sha cache w a = some w')
    (hquiet : NoRefill id ⟨w, a, w'⟩) (h : Deleting id w) : Deleting id w' := by
  rcases step_cases hstep with ⟨i, k, pc, hpc, -, rfl⟩ | ⟨i, call, s', pc', rfl, hcall, haccess, rfl⟩
  · exact h.started hpc.2.2 hpc.1
  · by_cases hi : id = i
    · subst hi
      exact h.own hcall haccess (hquiet rfl call hcall)
    · exact h.other hi hcall haccess

/-- The step at which the delete `id` of the key returns. -/
def deletes (id : ℕ) (key : String) (e : Edge World Act) : Prop :=
  e.label = .move id ∧ e.dst.calls.get? id = some ⟨key, .deleted⟩

instance (id : ℕ) (key : String) (e : Edge World Act) : Decidable (deletes id key e) :=
  inferInstanceAs (Decidable (_ ∧ _))

/-- In every interleaving in which, at the look-up of a delete, no `get` of its key is between its fetch
    and its upsert, and at its return none has seen the row: after the return no `get` of the key returns
    bytes any more. -/
theorem deleted_is_gone (sha : Sha256) (cache : Settings) (s : State) {before after : List (Edge World Act)}
    {e : Edge World Act} {w : World} (r : Run (Fires (step sha cache)) (.initial s) (before ++ e :: after) w)
    {id : ℕ} {key : String} (hdeleted : deletes id key e) (hrefill : ∀ f ∈ before ++ [e], NoRefill id f)
    (hreading : NoneAt Pc.reading key e.dst.calls) :
    ∀ f ∈ after, ∀ d, result key f ≠ some (some d) := by
  rw [show before ++ e :: after = (before ++ [e]) ++ after by simp] at r
  obtain ⟨t, hbefore, hafter⟩ := Run.append_iff.1 r
  have hdeleting := hbefore.edges_where (I := Deleting id) (.initial id s)
    (fun f hstep hquiet h => deleting_step hstep hquiet h) hrefill
  -- the cache as the delete leaves it
  have ht : e.dst = t := by
    obtain ⟨v, -, hlast⟩ := Run.append_iff.1 hbefore
    obtain ⟨-, -, hnil⟩ := Run.cons_iff.1 hlast
    exact hnil.eq_of_nil
  have habsent : Absent key t := by
    subst ht
    exact ⟨hdeleting.1.gone _ hdeleted.2 rfl, hdeleting.1.deleted _ hdeleted.2 rfl,
      hdeleting.1.swept _ hdeleted.2 rfl, hreading⟩
  intro f hf d
  obtain ⟨hstep, hsrc, -⟩ := hafter.edge_invariant (I := Absent key) habsent
    (fun _ _ _ hstep h => absent_step hstep h) f hf
  exact result_of_absent hstep hsrc d

/-- A backend that holds one blob, under `k`. -/
private def one : State := .initial fun key => if key = "k" then some [1, 2] else none

/-- Calls one after the other: a `get` that refills the cache, the delete, and a `get` that fails. -/
theorem deleted_is_gone_sequential : ∃ before e after w,
    Run (Fires (step .latin1 (.new "cache" 0 false))) (.initial one) (before ++ e :: after) w ∧
      (before ++ e :: after).map Edge.label = .get 1 "k" :: List.replicate 5 (.move 1) ++
        .delete 2 "k" :: List.replicate 4 (.move 2) ++ .get 3 "k" :: List.replicate 2 (.move 3) ∧
      deletes 2 "k" e ∧ (∀ f ∈ before ++ [e], NoRefill 2 f) ∧ NoneAt Pc.reading "k" e.dst.calls ∧
      ∀ f ∈ after, ∀ d, result "k" f ≠ some (some d) := by
  obtain ⟨es, w, r, hlabels, e, he, hdeletes, hrefill, hreading⟩ : ∃ es w,
      Run (Fires (step .latin1 (.new "cache" 0 false))) (.initial one) es w ∧
        es.map Edge.label = .get 1 "k" :: List.replicate 5 (.move 1) ++ .delete 2 "k" :: List.replicate 4 (.move 2) ++
          .get 3 "k" :: List.replicate 2 (.move 3) ∧
        ∃ e ∈ (es.drop 10).head?, deletes 2 "k" e ∧ (∀ f ∈ es.take 10 ++ [e], NoRefill 2 f) ∧
          NoneAt Pc.reading "k" e.dst.calls := exists_run_of_holds (by decide +kernel)
  obtain ⟨after, hafter⟩ := List.head?_eq_some_iff.1 he
  rw [← List.take_append_drop 10 es, hafter] at r hlabels
  exact ⟨es.take 10, e, after, w, r, hlabels, hdeletes, hrefill, hreading,
    deleted_is_gone .latin1 _ one r hdeletes hrefill hreading⟩

/-- A `get` fetches the blob and pauses; the blob is deleted; the `get` goes on and fills the cache. Every
    `get` that starts now returns the deleted bytes. -/
theorem deleted_is_served : ∃ es w,
    Run (Fires (step .latin1 (.new "cache" 0 false))) (.initial one) es w ∧
      es.map Edge.label = [.get 1 "k", .move 1, .move 1] ++ [.delete 2 "k", .move 2, .move 2] ++
        List.replicate 3 (.move 1) ++ .get 3 "k" :: List.replicate 4 (.move 3) ∧
      (∃ e ∈ es.take 6, deletes 2 "k" e) ∧
      (es.drop 9).filterMap (result "k") = [some [1, 2]] ∧ w.state.backend "k" = none := by
  exact exists_run_of_holds (by decide +kernel)

end Tagsmaxxing.BlobCache.Race
