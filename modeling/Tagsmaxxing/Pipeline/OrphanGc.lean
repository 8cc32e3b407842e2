import Mathlib.Data.List.AList
import Tagsmaxxing.Core.Types
import Tagsmaxxing.Lib.Run

/-! # The orphan collector (`orphan_gc.rs`)

`run_orphan_gc` lists the blob store, then lists the `files` rows, and deletes every listed blob that no listed row
names. It means to leave alone what was put within the grace period, since an ingest puts its blob first and commits
its row later; but `filter_by_grace_period` looks creation times up in the rows, and an orphan is exactly a blob
without a row. The filter keeps every orphan (`filterByGracePeriod_orphans`).

The system is one tenant's part of both stores with any number of ingests and collector runs. `gc_spares_in_flight`
says what a deployment would have to guarantee for the promise to hold. -/

namespace Tagsmaxxing.OrphanGc

open Transition

/-! ## The pure functions -/

structure DbBlobRecord where
  blobKey : String
  createdAt : Time

def findOrphanBlobs (storeKeys dbKeys : List String) : List String :=
  storeKeys.filter fun k => !dbKeys.contains k

def findMissingDbBlobs (dbRecords : List DbBlobRecord) (storeKeys : List String) : List String :=
  (dbRecords.filter fun r => !storeKeys.contains r.blobKey).map DbBlobRecord.blobKey

/-- The grace period, in seconds. -/
def grace (graceHours : ℕ) : ℚ := 3600 * graceHours

def filterByGracePeriod (orphans : List String) (dbRecords : List DbBlobRecord) (graceHours : ℕ)
    (now : Time) : List String :=
  let cutoff := now - grace graceHours
  let createdMap := (dbRecords.filter fun r => decide (cutoff < r.createdAt)).map DbBlobRecord.blobKey
  orphans.filter fun key => !createdMap.contains key

/-! ## Runs of the collector among ingests -/

/-- Where a run of `run_orphan_gc` stands. -/
inductive Phase
  /-- `list_blob_keys` has answered. -/
  | listedBlobs (storeKeys : List String)
  /-- `list_db_records` has answered. -/
  | listedRows (storeKeys : List String) (dbRecords : List DbBlobRecord)
  /-- `todo` is what is left of the eligible orphans. -/
  | deleting (now : Time) (todo : List String) (orphansFound deleted missing : ℕ)

/-- An ingest that has put its blob and not committed its row. -/
structure Ingest where
  key : String
  putAt : Time
  /-- `files.ingested_at`, chosen when the record is built. -/
  ingestedAt : Time

/-- How a run ends: the numbers for `record_orphan_gc_result`, or the error of a listing. -/
inductive Report
  | done (orphansFound deleted missing : ℕ)
  | failed (err : String)
deriving DecidableEq

structure State where
  clock : Time
  /-- The blobs of the tenant, each with the time it was last put. -/
  blobs : AList fun _ : String => Time
  rows : List DbBlobRecord
  ingests : Serial Ingest
  runs : Serial Phase
  reports : List Report

inductive Act
  /-- Time passes. -/
  | tick (seconds : ℚ)
  /-- An ingest puts its blob. -/
  | put (key : String) (ingestedAt : Time)
  /-- An ingest commits its row. -/
  | commit (i : ℕ)
  /-- A run starts by listing the blobs. -/
  | listBlobs
  /-- The blob listing of a run fails. -/
  | listBlobsFails (err : String)
  /-- Run `g` lists the rows. -/
  | listRows (g : ℕ)
  | listRowsFails (g : ℕ) (err : String)
  /-- Run `g` reads the clock and computes what to delete. -/
  | select (g : ℕ)
  /-- Run `g` deletes its next key; a failed delete is logged and passed over. -/
  | delete (g : ℕ) (ok : Bool)
  /-- Run `g` has nothing left to delete. -/
  | finish (g : ℕ)

/-- The keys that rows name. -/
def State.rowKeys (s : State) : List String := s.rows.map DbBlobRecord.blobKey

/-- Steps 2 to 4 of `run_orphan_gc`, after both listings. -/
def selectPhase (graceHours : ℕ) (storeKeys : List String) (dbRecords : List DbBlobRecord) (now : Time) : Phase :=
  let orphans := findOrphanBlobs storeKeys (dbRecords.map DbBlobRecord.blobKey)
  .deleting now (filterByGracePeriod orphans dbRecords graceHours now) orphans.length 0
    (findMissingDbBlobs dbRecords storeKeys).length

def step (graceHours : ℕ) (s : State) : Act → Option State
  | .tick seconds => if 0 ≤ seconds then some { s with clock := s.clock + seconds } else none
  | .put key ingestedAt => some { s with
      blobs := s.blobs.insert key s.clock
      ingests := s.ingests.insert ⟨key, s.clock, ingestedAt⟩ }
  | .commit i =>
      match s.ingests.get? i with
      | some ing => some { s with
          rows := s.rows ++ [⟨ing.key, ing.ingestedAt⟩]
          ingests := s.ingests.erase i }
      | none => none
  | .listBlobs => some { s with runs := s.runs.insert (.listedBlobs s.blobs.keys) }
  | .listBlobsFails err => some { s with
      reports := s.reports ++ [.failed ("orphan-gc: failed to list blob keys: " ++ err)] }
  | .listRows g =>
      match s.runs.get? g with
      | some (.listedBlobs storeKeys) =>
          some { s with runs := s.runs.modify g fun _ => .listedRows storeKeys s.rows }
      | _ => none
  | .listRowsFails g err =>
      match s.runs.get? g with
      | some (.listedBlobs _) => some { s with
          runs := s.runs.erase g
          reports := s.reports ++ [.failed ("orphan-gc: failed to list DB records: " ++ err)] }
      | _ => none
  | .select g =>
      match s.runs.get? g with
      | some (.listedRows storeKeys dbRecords) => some { s with
          runs := s.runs.modify g fun _ => selectPhase graceHours storeKeys dbRecords s.clock }
      | _ => none
  | .delete g ok =>
      match s.runs.get? g with
      | some (.deleting now (key :: todo) found deleted missing) =>
          if ok then
            some { s with
              blobs := s.blobs.erase key
              runs := s.runs.modify g fun _ => .deleting now todo found (deleted + 1) missing }
          else
            some { s with
              runs := s.runs.modify g fun _ => .deleting now todo found deleted missing }
      | _ => none
  | .finish g =>
      match s.runs.get? g with
      | some (.deleting _ [] found deleted missing) => some { s with
          runs := s.runs.erase g
          reports := s.reports ++ [.done found deleted missing] }
      | _ => none

/-! ## The filter does nothing -/

variable {k : String} {storeKeys : List String}

theorem mem_findOrphanBlobs {dbKeys : List String} :
    k ∈ findOrphanBlobs storeKeys dbKeys ↔ k ∈ storeKeys ∧ k ∉ dbKeys := by
  simp [findOrphanBlobs]

/-- **The grace filter keeps every orphan**, however recent: it looks for orphans among the rows they
    do not have. -/
theorem filterByGracePeriod_orphans (storeKeys : List String) (dbRecords : List DbBlobRecord)
    (graceHours : ℕ) (now : Time) :
    filterByGracePeriod (findOrphanBlobs storeKeys (dbRecords.map DbBlobRecord.blobKey)) dbRecords
      graceHours now = findOrphanBlobs storeKeys (dbRecords.map DbBlobRecord.blobKey) := by
  refine List.filter_eq_self.2 fun k hk => ?_
  have hno := (mem_findOrphanBlobs.1 hk).2
  have hsub : k ∉ (dbRecords.filter fun r =>
      decide (now - grace graceHours < r.createdAt)).map DbBlobRecord.blobKey := by
    intro hmem
    obtain ⟨r, hr, rfl⟩ := List.mem_map.1 hmem
    exact hno (List.mem_map_of_mem (List.mem_of_mem_filter hr))
  simpa using hsub

/-! ## What a step can do -/

/-- The run will delete the key, unless it fails to. -/
def Phase.dooms : Phase → String → Prop
  | .listedBlobs _, _ => False
  | .listedRows storeKeys dbRecords, k => k ∈ storeKeys ∧ k ∉ dbRecords.map DbBlobRecord.blobKey
  | .deleting _ todo _ _ _, k => k ∈ todo

instance : ∀ (ph : Phase) (k : String), Decidable (ph.dooms k)
  | .listedBlobs _, _ => inferInstanceAs (Decidable False)
  | .listedRows storeKeys dbRecords, k =>
      inferInstanceAs (Decidable (k ∈ storeKeys ∧ k ∉ dbRecords.map DbBlobRecord.blobKey))
  | .deleting _ todo _ _ _, k => inferInstanceAs (Decidable (k ∈ todo))

/-- The run's `now`; before it has read the clock, the clock. -/
def Phase.asOf (clock : Time) : Phase → Time
  | .deleting now _ _ _ _ => now
  | _ => clock

/-- The `now` and the key of a delete that takes effect. -/
def deleted (s : State) : Act → Option (Time × String)
  | .delete g true =>
      match s.runs.get? g with
      | some (.deleting now (key :: _) _ _ _) => some (now, key)
      | _ => none
  | _ => none

/-- What one step can do. -/
structure Changes (s : State) (a : Act) (s' : State) : Prop where
  clock : s.clock ≤ s'.clock
  rows : ∀ k ∈ s.rowKeys, k ∈ s'.rowKeys
  blobs : ∀ k, s'.blobs.lookup k = s.blobs.lookup k ∨
    (∃ t, a = .put k t ∧ s'.blobs.lookup k = some s.clock) ∨
    ∃ now, deleted s a = some (now, k) ∧ s'.blobs.lookup k = none
  put : ∀ k t, a = .put k t → s'.blobs.lookup k = some s.clock
  /-- A run that dooms a key did so before, or has just listed the rows. -/
  runs : ∀ g ph' k, s'.runs.get? g = some ph' → ph'.dooms k →
    (∃ ph, s.runs.get? g = some ph ∧ ph.dooms k ∧ ph.asOf s.clock ≤ ph'.asOf s'.clock) ∨
    ∃ keys, a = .listRows g ∧ s.runs.get? g = some (.listedBlobs keys) ∧ k ∈ keys ∧
      k ∉ s.rowKeys ∧ ph'.asOf s'.clock = s.clock
  asOf : ∀ g ph', s'.runs.get? g = some ph' → ph'.asOf s'.clock ≤ s'.clock ∨
    ∃ ph, s.runs.get? g = some ph ∧ ph'.asOf s'.clock = ph.asOf s.clock
  ingests : ∀ i ing, s'.ingests.get? i = some ing → s.ingests.get? i = some ing ∨
    ∃ t, a = .put ing.key t ∧ ing.putAt = s.clock

variable {ph : Phase} {g graceHours : ℕ} {t now : Time} {s s' : State} {a : Act} {runs : Serial Phase}

/-- What steps that leave the stores and the ingests alone have to show about the runs. -/
theorem Changes.of_runs {reports : List Report} (hput : ∀ k t, a ≠ .put k t)
    (hruns : ∀ g ph', runs.get? g = some ph' → s.runs.get? g = some ph' ∨
      (ph'.asOf s.clock = s.clock ∨ ∃ ph, s.runs.get? g = some ph ∧ ph'.asOf s.clock = ph.asOf s.clock) ∧
      ∀ k, ph'.dooms k →
        (∃ ph, s.runs.get? g = some ph ∧ ph.dooms k ∧ ph.asOf s.clock ≤ ph'.asOf s.clock) ∨
        ∃ keys, a = .listRows g ∧ s.runs.get? g = some (.listedBlobs keys) ∧ k ∈ keys ∧
          k ∉ s.rowKeys ∧ ph'.asOf s.clock = s.clock) :
    Changes s a { s with runs := runs, reports := reports } where
  clock := le_refl _
  rows := fun _ hk => hk
  blobs := fun _ => .inl rfl
  put := fun k t h => absurd h (hput k t)
  runs := by
    intro g ph' k hget hdoom
    rcases hruns g ph' hget with h | ⟨-, h⟩
    · exact .inl ⟨ph', h, hdoom, le_refl _⟩
    · exact h k hdoom
  asOf := by
    intro g ph' hget
    rcases hruns g ph' hget with h | ⟨h | h, -⟩
    · exact .inr ⟨ph', h, rfl⟩
    · exact .inl (le_of_eq h)
    · exact .inr h
  ingests := fun _ _ h => .inl h

theorem get?_modify_phase {g' : ℕ} {ph' : Phase}
    (h : (runs.modify g fun _ => ph).get? g' = some ph') : runs.get? g' = some ph' ∨ g' = g ∧ ph' = ph := by
  obtain ⟨old, hold, heq⟩ := Serial.get?_of_modify h
  split at heq
  next hg => exact .inr ⟨hg, heq.symm⟩
  · exact .inl (heq ▸ hold)

/-- The selected keys are those the row listing doomed. -/
theorem dooms_selectPhase {dbRecords : List DbBlobRecord}
    (h : (selectPhase graceHours storeKeys dbRecords now).dooms k) :
    (Phase.listedRows storeKeys dbRecords).dooms k := by
  simp only [selectPhase, Phase.dooms, filterByGracePeriod_orphans, mem_findOrphanBlobs] at h
  exact h

theorem asOf_mono {t' : Time} (h : t ≤ t') : ph.asOf t ≤ ph.asOf t' := by
  cases ph with
  | deleting => exact le_refl _
  | listedBlobs | listedRows => exact h

/-- Time passes, also for the runs that have not read the clock yet. -/
theorem Changes.tick {seconds : ℚ} (hpos : 0 ≤ seconds) :
    Changes s (.tick seconds) { s with clock := s.clock + seconds } := by
  have hle : s.clock ≤ s.clock + seconds := le_add_of_nonneg_right hpos
  refine ⟨hle, fun _ hk => hk, fun _ => .inl rfl, fun k t h => absurd h (by simp), ?_, ?_, fun _ _ h => .inl h⟩
  · exact fun g ph' k hget hdoom => .inl ⟨ph', hget, hdoom, asOf_mono hle⟩
  · intro g ph' hget
    cases ph' with
    | deleting => exact .inr ⟨_, hget, rfl⟩
    | listedBlobs | listedRows => exact .inl (le_refl _)

theorem Changes.of_put (key : String) (ingestedAt : Time) :
    Changes s (.put key ingestedAt) { s with
      blobs := s.blobs.insert key s.clock
      ingests := s.ingests.insert ⟨key, s.clock, ingestedAt⟩ } := by
  have hput : (s.blobs.insert key s.clock).lookup key = some s.clock := AList.lookup_insert _
  refine ⟨le_refl _, fun _ hk => hk, fun k => ?_, ?_, fun g ph' k hget hdoom => .inl ⟨ph', hget, hdoom, le_refl _⟩,
    fun g ph' hget => .inr ⟨ph', hget, rfl⟩, ?_⟩
  · by_cases hk : k = key
    · subst hk
      exact .inr (.inl ⟨ingestedAt, rfl, hput⟩)
    · exact .inl (AList.lookup_insert_ne hk)
  · rintro k t hkt
    cases hkt
    exact hput
  · intro i ing hing
    rw [Serial.get?_insert] at hing
    split at hing
    · cases hing
      exact .inr ⟨ingestedAt, rfl, rfl⟩
    · exact .inl hing

theorem Changes.delete {ok : Bool} {key : String} {todo : List String} {found n n' missing : ℕ}
    {blobs : AList fun _ : String => Time} (hget : s.runs.get? g = some (.deleting now (key :: todo) found n missing))
    (hblobs : ∀ k, blobs.lookup k = s.blobs.lookup k ∨ ∃ now, deleted s (.delete g ok) = some (now, k) ∧
      blobs.lookup k = none) :
    Changes s (.delete g ok) { s with
      blobs := blobs
      runs := s.runs.modify g fun _ => .deleting now todo found n' missing } where
  clock := le_refl _
  rows := fun _ hk => hk
  blobs := fun k => (hblobs k).imp_right .inr
  put := fun k t h => absurd h (by simp)
  runs := by
    intro g' ph' k hget' hdoom
    rcases get?_modify_phase hget' with h | ⟨rfl, rfl⟩
    · exact .inl ⟨ph', h, hdoom, le_refl _⟩
    · exact .inl ⟨_, hget, List.mem_cons_of_mem _ hdoom, le_refl _⟩
  asOf := by
    intro g' ph' hget'
    rcases get?_modify_phase hget' with h | ⟨rfl, rfl⟩
    · exact .inr ⟨ph', h, rfl⟩
    · exact .inr ⟨_, hget, rfl⟩
  ingests := fun _ _ h => .inl h

/-- **Every step changes the stores, the runs and the ingests only as `Changes` says.** -/
theorem changes_of_step (h : step graceHours s a = some s') : Changes s a s' := by
  revert h
  fun_cases step graceHours s a <;> rintro ⟨⟩
  next hpos => exact .tick hpos
  next key ingestedAt => exact .of_put key ingestedAt
  next i ing hget => -- the ingest commits
    exact ⟨le_refl _, fun k hk => by simp only [State.rowKeys] at hk ⊢; simp [hk],
      fun _ => .inl rfl, fun k t h => absurd h (by simp),
      fun g ph' k hget hdoom => .inl ⟨ph', hget, hdoom, le_refl _⟩,
      fun g ph' hget => .inr ⟨ph', hget, rfl⟩, fun _ _ h => .inl (Serial.get?_of_erase h)⟩
  next => -- a run lists the blobs
    refine .of_runs (by simp) fun g ph' hget => ?_
    rw [Serial.get?_insert] at hget
    split at hget
    · cases hget
      exact .inr ⟨.inl rfl, fun k hdoom => absurd hdoom id⟩
    · exact .inl hget
  next => exact .of_runs (by simp) fun g ph' hget => .inl hget
  next g storeKeys hget => -- and the rows
    refine .of_runs (by simp) fun g' ph' hget' => ?_
    rcases get?_modify_phase hget' with h | ⟨rfl, rfl⟩
    · exact .inl h
    · exact .inr ⟨.inl rfl, fun k hdoom => .inr ⟨storeKeys, rfl, hget, hdoom.1, hdoom.2, rfl⟩⟩
  next => exact .of_runs (by simp) fun g ph' hget => .inl (Serial.get?_of_erase hget)
  next g storeKeys dbRecords hget =>
    refine .of_runs (by simp) fun g' ph' hget' => ?_
    rcases get?_modify_phase hget' with h | ⟨rfl, rfl⟩
    · exact .inl h
    · exact .inr ⟨.inl rfl, fun k hdoom => .inl ⟨_, hget, dooms_selectPhase hdoom, le_refl _⟩⟩
  next g now key todo found n missing hget =>
    refine .delete hget fun k => ?_
    by_cases hk : k = key
    · subst hk
      exact .inr ⟨now, by simp [deleted, hget], AList.lookup_erase _ _⟩
    · exact .inl (AList.lookup_erase_ne hk)
  next hget _ => exact .delete hget fun k => .inl rfl
  next => exact .of_runs (by simp) fun g ph' hget => .inl (Serial.get?_of_erase hget)

theorem dooms_of_deleted (h : deleted s a = some (now, k)) :
    ∃ g ph, s.runs.get? g = some ph ∧ ph.dooms k ∧ ph.asOf s.clock = now := by
  cases a with
  | delete g ok =>
    cases ok with
    | false => exact absurd h (by simp [deleted])
    | true =>
      simp only [deleted] at h
      split at h
      next hget =>
        cases h
        exact ⟨g, _, hget, List.mem_cons_self, rfl⟩
      · cases h
  | _ => exact absurd h (by simp [deleted])

/-! ## What the promise needs -/

/-- The blob listing of the run that is about to list the rows. -/
def listing (s : State) : Act → List String
  | .listRows g =>
      match s.runs.get? g with
      | some (.listedBlobs storeKeys) => storeKeys
      | _ => []
  | _ => []

/-- The key an ingest is about to put. -/
def putKey : Act → Option String
  | .put key _ => some key
  | _ => none

/-- The care a deployment would have to take, in the state before a step: when a run lists the rows,
    every blob of its listing that was put within the grace period has its row; and no key is put that
    a run has already doomed. -/
def Careful (graceHours : ℕ) (s : State) (a : Act) : Prop :=
  (∀ k ∈ listing s a, ∀ p ∈ s.blobs.lookup k, s.clock - p ≤ grace graceHours → k ∈ s.rowKeys) ∧
    ∀ k ∈ putKey a, ∀ r ∈ s.runs.rows, ¬ r.2.dooms k

instance (graceHours : ℕ) (s : State) (a : Act) : Decidable (Careful graceHours s a) :=
  inferInstanceAs (Decidable ((∀ k ∈ listing s a, ∀ p ∈ s.blobs.lookup k,
    s.clock - p ≤ grace graceHours → k ∈ s.rowKeys) ∧
      ∀ k ∈ putKey a, ∀ r ∈ s.runs.rows, ¬ r.2.dooms k))

/-- What careful steps maintain. -/
structure Guarded (graceHours : ℕ) (s : State) : Prop where
  /-- A doomed blob is old. -/
  doomed : ∀ g ph k p, s.runs.get? g = some ph → ph.dooms k → s.blobs.lookup k = some p →
    grace graceHours < ph.asOf s.clock - p
  past : ∀ g ph, s.runs.get? g = some ph → ph.asOf s.clock ≤ s.clock
  stamped : ∀ i ing, s.ingests.get? i = some ing → ing.putAt ≤ s.clock
  /-- The blob of an ingest that is still within its grace period exists. -/
  fresh : ∀ i ing, s.ingests.get? i = some ing → s.clock - ing.putAt ≤ grace graceHours →
    ∃ p, s.blobs.lookup ing.key = some p ∧ ing.putAt ≤ p

theorem Careful.not_dooms (h : Careful graceHours s (.put k t)) (hget : s.runs.get? g = some ph) : ¬ ph.dooms k :=
  h.2 k rfl (g, ph) ((Serial.get?_eq_some_iff _ g ph).1 hget)

theorem guarded_step (hs : step graceHours s a = some s') (hcare : Careful graceHours s a)
    (h : Guarded graceHours s) : Guarded graceHours s' := by
  have hch := changes_of_step hs
  refine ⟨?_, ?_, ?_, ?_⟩
  · intro g ph' k p hget hdoom hp
    rcases hch.blobs k with hsame | ⟨t, rfl, -⟩ | ⟨now, -, hnone⟩
    · rw [hsame] at hp
      rcases hch.runs g ph' k hget hdoom with ⟨ph, hph, hd, hle⟩ | ⟨keys, rfl, hkeys, hk, hrow, heq⟩
      · have := h.doomed g ph k p hph hd hp
        linarith
      · -- the rows were just listed: a recent blob would have had its row
        rw [heq]
        by_contra hrecent
        have hlisted : k ∈ listing s (.listRows g) := by simpa [listing, hkeys] using hk
        exact hrow (hcare.1 k hlisted p hp (le_of_not_gt hrecent))
    · rcases hch.runs g ph' k hget hdoom with ⟨ph, hph, hd, -⟩ | ⟨keys, habs, -⟩
      · exact absurd hd (hcare.not_dooms hph)
      · cases habs
    · cases hnone.symm.trans hp
  · intro g ph' hget
    rcases hch.asOf g ph' hget with hle | ⟨ph, hph, heq⟩
    · exact hle
    · rw [heq]
      exact le_trans (h.past g ph hph) hch.clock
  · intro i ing hing
    rcases hch.ingests i ing hing with hold | ⟨t, -, hnew⟩
    · exact le_trans (h.stamped i ing hold) hch.clock
    · rw [hnew]
      exact hch.clock
  · intro i ing hing hgrace
    rcases hch.ingests i ing hing with hold | ⟨t, rfl, hnew⟩
    · have hclock := hch.clock
      obtain ⟨p, hp, hle⟩ := h.fresh i ing hold (by linarith)
      rcases hch.blobs ing.key with hsame | ⟨t, -, hput⟩ | ⟨now, hdel, -⟩
      · exact ⟨p, by rw [hsame, hp], hle⟩
      · exact ⟨s.clock, hput, h.stamped i ing hold⟩
      · -- a run that deletes the blob would have found it old
        obtain ⟨g, ph, hph, hdoom, hnow⟩ := dooms_of_deleted hdel
        have hold' := h.doomed g ph ing.key p hph hdoom hp
        have hpast := h.past g ph hph
        exact absurd hgrace (by linarith)
    · exact ⟨s.clock, hch.put _ _ rfl, le_of_eq hnew⟩

/-- The key has its row and its blob, and no run will delete it. -/
structure Settled (s : State) (k : String) : Prop where
  row : k ∈ s.rowKeys
  blob : k ∈ s.blobs
  safe : ∀ g ph, s.runs.get? g = some ph → ¬ ph.dooms k

/-- A settled key stays settled, with no condition on the step. -/
theorem settled_step (hs : step graceHours s a = some s') (h : Settled s k) : Settled s' k := by
  have hch := changes_of_step hs
  refine ⟨hch.rows k h.row, ?_, ?_⟩
  · rw [← AList.lookup_isSome]
    rcases hch.blobs k with hsame | ⟨t, -, hput⟩ | ⟨now, hdel, -⟩
    · rw [hsame]
      exact AList.lookup_isSome.2 h.blob
    · rw [hput]
      rfl
    · obtain ⟨g, ph, hph, hdoom, -⟩ := dooms_of_deleted hdel
      exact absurd hdoom (h.safe g ph hph)
  · intro g ph' hget hdoom
    rcases hch.runs g ph' k hget hdoom with ⟨ph, hph, hd, -⟩ | ⟨keys, -, -, -, hrow, -⟩
    · exact h.safe g ph hph hd
    · exact hrow h.row

/-- A commit within the grace period settles its key. -/
theorem settled_of_commit {i : ℕ} {ing : Ingest} (hs : step graceHours s (.commit i) = some s')
    (hget : s.ingests.get? i = some ing) (hgrace : s.clock - ing.putAt ≤ grace graceHours)
    (h : Guarded graceHours s) : Settled s' ing.key := by
  simp only [step, hget] at hs
  cases hs
  obtain ⟨p, hp, hle⟩ := h.fresh i ing hget hgrace
  refine ⟨by simp [State.rowKeys], AList.lookup_isSome.1 (by rw [hp]; rfl), ?_⟩
  intro g ph hph hdoom
  have hold := h.doomed g ph ing.key p hph hdoom hp
  have hpast := h.past g ph hph
  linarith

/-- **Under that care the collector spares data in flight.** In every run whose steps are careful, no
    delete removes a blob put less than the grace period before the collector's `now`; and a row
    committed within the grace period of its put has its blob, then and in every later state. -/
theorem gc_spares_in_flight {graceHours : ℕ} {s u : State} {es : List (Edge State Act)}
    (hingests : s.ingests.rows = []) (hruns : s.runs.rows = [])
    (hrun : Run (Fires (step graceHours)) s es u) (hcare : ∀ e ∈ es, Careful graceHours e.src e.label) :
    (∀ e ∈ es, ∀ now k p, deleted e.src e.label = some (now, k) → e.src.blobs.lookup k = some p →
      ¬ now - p < grace graceHours) ∧
    ∀ before e later i ing, es = before ++ e :: later → e.label = .commit i →
      e.src.ingests.get? i = some ing → e.src.clock - ing.putAt ≤ grace graceHours →
      ∀ t, t = e.dst ∨ t ∈ later.map Edge.dst → ing.key ∈ t.rowKeys ∧ ing.key ∈ t.blobs := by
  have hrun₀ := Serial.get?_of_rows_nil hruns
  have hing₀ := Serial.get?_of_rows_nil hingests
  have h0 : Guarded graceHours s :=
    ⟨fun g ph _ _ hget => absurd hget (by simp [hrun₀]), fun g ph hget => absurd hget (by simp [hrun₀]),
      fun i ing hget => absurd hget (by simp [hing₀]), fun i ing hget => absurd hget (by simp [hing₀])⟩
  have hedges := (hrun.edges_where h0 (fun e hs hc h => guarded_step hs hc h) hcare).2
  constructor
  · intro e he now k p hdel hp
    obtain ⟨g, ph, hph, hdoom, rfl⟩ := dooms_of_deleted hdel
    have := (hedges e he).2.1.doomed g ph k p hph hdoom hp
    linarith
  · intro before e later i ing hes hlabel hget hgrace
    subst hes
    obtain ⟨hs, hguard, -⟩ := hedges e (by simp)
    have hs' : step graceHours e.src (.commit i) = some e.dst := hlabel ▸ hs
    have hsettled := settled_of_commit hs' hget hgrace hguard
    obtain ⟨t₀, -, hrest⟩ := Run.append_iff.1 hrun
    obtain ⟨-, -, hlater⟩ := Run.cons_iff.1 hrest
    have hkeep := hlater.edge_invariant (I := fun t => Settled t ing.key) hsettled
      fun _ _ _ hstep h => settled_step hstep h
    rintro t (rfl | ht)
    · exact ⟨hsettled.row, hsettled.blob⟩
    · obtain ⟨e', he', rfl⟩ := List.mem_map.1 ht
      exact ⟨(hkeep e' he').2.2.row, (hkeep e' he').2.2.blob⟩

/-- Nothing stored, nothing running. -/
def State.initial : State := ⟨0, ∅, [], Serial.empty, Serial.empty, []⟩

/-- One ingest commits a minute after its put, another is abandoned, and the collector runs a day
    later. -/
def quietDay : List Act :=
  [.put "1/a" 0, .tick 60, .commit 1, .put "1/b" 60, .tick 90000, .listBlobs, .listRows 1, .select 1,
    .delete 1 true, .finish 1]

theorem gc_spares_quietDay :
    ∃ es u, runEdges (step 24) State.initial quietDay = some (es, u) ∧ u.reports = [.done 1 1 0] ∧
      ∀ e ∈ es, ∀ now k p, deleted e.src e.label = some (now, k) → e.src.blobs.lookup k = some p →
        ¬ now - p < grace 24 := by
  obtain ⟨⟨es, u⟩, hrun, hcare, hreports⟩ : ∃ r ∈ runEdges (step 24) State.initial quietDay,
      (∀ e ∈ r.1, Careful 24 e.src e.label) ∧ r.2.reports = [.done 1 1 0] := by decide +kernel
  exact ⟨es, u, hrun, hreports, (gc_spares_in_flight rfl rfl (run_of_runEdges (fun _ _ _ _ h => h) hrun) hcare).1⟩

/-- An ingest puts its blob, the collector runs, and a minute later the ingest commits. -/
def busyMinute : List Act :=
  [.put "1/a" 0, .listBlobs, .listRows 1, .select 1, .delete 1 true, .finish 1, .tick 60, .commit 1]

/-- With a grace period of a day, the collector deletes a blob put in the same second, and the row
    committed a minute later names a blob that is gone. -/
theorem gc_deletes_blob_in_flight :
    ∃ es u, Run (Fires (step 24)) State.initial es u ∧ es.map Edge.label = busyMinute ∧
      (∃ e ∈ es, deleted e.src e.label = some (0, "1/a") ∧ e.src.blobs.lookup "1/a" = some 0) ∧
      u.rowKeys = ["1/a"] ∧ "1/a" ∉ u.blobs := by
  exact exists_run_of_holds (by decide +kernel)

end Tagsmaxxing.OrphanGc
