import Tagsmaxxing.Core.Types
import Tagsmaxxing.Lib.Statements

/-! # Shredding a tenant (`crypto_shred.rs`, `crypto_shred_store.rs`)

`shred_tenant` revokes the tenant's sessions, deletes its blobs, deletes its rows in one transaction, destroys its key
and writes a tombstone. Each of these can fail, and the caller retries. What tells a retry that there is nothing left
to do is that the `tenants` row is gone; but the row goes in the fourth step, and the tombstone comes in the sixth. An
attempt that stops in between leaves a tenant that every later attempt takes for finished, and that never gets its
tombstone.

`Effect` says what one attempt on an existing tenant can leave; `shred_complete_iff` says of a whole sequence of
attempts when success means what it should. -/

namespace Tagsmaxxing.CryptoShred

open Statements

/-! ## What is shredded -/

/-- The tables `delete_tenant_data` empties, in its order. -/
inductive Table
  | usageEvents | jobs | documentTags | tagAliases | chunks | files | documents | tags | users
deriving DecidableEq

/-- `TenantTombstone` without its id. -/
structure TenantTombstone where
  tenantId : Int
  tenantSlug : String
  tenantName : String
  deletedBy : Option Int
  deletedAt : Time
deriving DecidableEq

/-- The stores a shred works on. A row is given by the tenant it belongs to: through its own `tenant_id`,
    or that of the document, tag or file it hangs on. The references of the assistant tables to `users`
    (`assistantUserRows`) and to `tenants` alone (`assistantTenantRows`) do not cascade. -/
structure Stores where
  tenants : List Int
  rows : Table → List Int
  assistantUserRows : List Int
  assistantTenantRows : List Int
  dataKeys : List Int
  tombstones : Serial TenantTombstone
  sessions : List (String × Int)
  blobs : List String

/-- The key starts with `{tenant_id}/`. -/
def ownedBy (tenantId : Int) (key : String) : Bool :=
  (toString tenantId ++ "/").toList.isPrefixOf key.toList

/-! ## The steps -/

def tenantExists (tenantId : Int) : Prog Stores Bool :=
  query "failed to check tenant existence" fun s => s.tenants.contains tenantId

def revokeAllForTenant (tenantId : Int) : Prog Stores Unit :=
  execute "failed to revoke sessions during tenant shred: failed to revoke all sessions for tenant" fun s =>
    { s with sessions := s.sessions.filter fun x => x.2 != tenantId }

/-- The tenant's blobs without those whose key has the property. -/
def dropBlobs (tenantId : Int) (p : String → Bool) (s : Stores) : Stores :=
  { s with blobs := s.blobs.filter fun key => !(ownedBy tenantId key && p key) }

/-- `delete_all_for_tenant`, which deletes the keys one by one: `first` are the ones gone before a call that
    fails does so. -/
def deleteAllForTenant (tenantId : Int) (first : String → Bool) : Prog Stores Unit := do
  execute "failed to delete tenant blobs during shred" (dropBlobs tenantId first)
  execute "failed to delete tenant blobs during shred" (dropBlobs tenantId fun _ => true)

/-- `delete_tenant_data`. Deleting the tenant cascades to its key and its sessions; a row of the assistant
    tables makes the deletion of the users, or of the tenant, fail. -/
def deleteTenantData (tenantId : Int) (s : Stores) : Except String Stores :=
  if s.assistantUserRows.contains tenantId then
    .error "failed to delete tenant data during shred: failed to delete users for tenant"
  else if s.assistantTenantRows.contains tenantId then
    .error "failed to delete tenant data during shred: failed to delete tenant row"
  else .ok { s with
    rows := fun table => (s.rows table).filter (· != tenantId)
    tenants := s.tenants.filter (· != tenantId)
    dataKeys := s.dataKeys.filter (· != tenantId)
    sessions := s.sessions.filter fun x => x.2 != tenantId }

/-- The stores with the tenant's key destroyed. -/
def withoutDek (tenantId : Int) (s : Stores) : Stores :=
  { s with dataKeys := s.dataKeys.filter (· != tenantId) }

def destroyTenantDek (tenantId : Int) : Prog Stores Unit :=
  execute "failed to destroy tenant DEK during shred: failed to destroy tenant DEK" (withoutDek tenantId)

def createTombstone (t : TenantTombstone) : Prog Stores (ℕ × TenantTombstone) :=
  stmt "failed to create tombstone during tenant shred: failed to create tenant tombstone" fun s =>
    ((s.tombstones.next, t), { s with tombstones := s.tombstones.insert t })

/-- What an attempt is given: the arguments of the tombstone, the time, and where it breaks. -/
structure Attempt where
  tenantSlug : String
  tenantName : String
  deletedBy : Option Int
  now : Time
  first : String → Bool
  fault : Option Fault

/-- Steps 4 to 6 of `shred_tenant`. -/
def finishShred (tenantId : Int) (a : Attempt) : Prog Stores (Option (ℕ × TenantTombstone)) := do
  transact "failed to delete tenant data during shred: failed to commit tenant data deletion transaction"
    (deleteTenantData tenantId)
  destroyTenantDek tenantId
  let tombstone ← createTombstone ⟨tenantId, a.tenantSlug, a.tenantName, a.deletedBy, a.now⟩
  pure (some tombstone)

def shredTenant (tenantId : Int) (a : Attempt) : Prog Stores (Option (ℕ × TenantTombstone)) := do
  if ← tenantExists tenantId then
    revokeAllForTenant tenantId
    deleteAllForTenant tenantId a.first
    finishShred tenantId a
  else pure none

/-- The attempt a job of the queue makes: slug and name are made up. -/
def jobAttempt (tenantId : Int) (now : Time) (first : String → Bool) (fault : Option Fault) : Attempt :=
  ⟨"tenant-" ++ toString tenantId, "deleted tenant (name not captured)", none, now, first, fault⟩

/-- `process_delete_tenant_job`; the error names the job. -/
def processDeleteTenantJob (jobId : ℕ) (tenantId : Int) (now : Time) (first : String → Bool)
    (fault : Option Fault) : Prog Stores Unit := fun conn =>
  match shredTenant tenantId (jobAttempt tenantId now first fault) conn with
  | .ok _ conn' => .ok () conn'
  | .error e conn' => .error ("delete-tenant job " ++ toString jobId ++ " failed: " ++ e) conn'

/-- The stores after an attempt, however it ended. -/
def after (tenantId : Int) (s : Stores) (a : Attempt) : Stores :=
  finalDb ((shredTenant tenantId a).run ⟨s, a.fault⟩)

/-! ## Completeness -/

/-- Sessions, blobs, rows and key of the tenant are gone. -/
structure Erased (tenantId : Int) (s : Stores) : Prop where
  sessions : ∀ x ∈ s.sessions, x.2 ≠ tenantId
  blobs : ∀ key ∈ s.blobs, ownedBy tenantId key = false
  rows : ∀ table, tenantId ∉ s.rows table
  tenant : tenantId ∉ s.tenants
  dataKey : tenantId ∉ s.dataKeys

def HasTombstone (tenantId : Int) (s : Stores) : Prop :=
  ∃ i t, s.tombstones.get? i = some t ∧ t.tenantId = tenantId

/-- Every attempt of the sequence that succeeds leaves nothing of the tenant but a tombstone. -/
def Complete (tenantId : Int) : List Attempt → Stores → Prop
  | [], _ => True
  | a :: as, s =>
      (returnsOk ((shredTenant tenantId a).run ⟨s, a.fault⟩) = true →
        Erased tenantId (after tenantId s a) ∧ HasTombstone tenantId (after tenantId s a)) ∧
      Complete tenantId as (after tenantId s a)

/-- A row of the assistant tables keeps the tenant from being deleted. -/
def Blocked (tenantId : Int) (s : Stores) : Prop :=
  tenantId ∈ s.assistantUserRows ∨ tenantId ∈ s.assistantTenantRows

/-- The first attempt whose deletion of the rows takes effect does not write the tombstone, and a later
    attempt gets through the test for the tenant. The statements of an attempt are the test, the sessions,
    two for the blobs, the rows, the key and the tombstone. -/
def abandons : List Attempt → Bool
  | [] => false
  | a :: as =>
      if takes a.fault 4 then !takes a.fault 6 && as.any fun b => passes b.fault
      else abandons as

/-! ## One attempt -/

/-- The stores a step has not touched: the tenant is still there, or not, and so is its tombstone. -/
structure Keeps (s s' : Stores) : Prop where
  tenants : s'.tenants = s.tenants
  assistantUserRows : s'.assistantUserRows = s.assistantUserRows
  assistantTenantRows : s'.assistantTenantRows = s.assistantTenantRows
  tombstones : s'.tombstones = s.tombstones

/-- What an attempt on an existing tenant leaves, `n` statements before the deletion of the rows. -/
inductive Effect (tenantId : Int) (n : ℕ) (s : Stores) (fault : Option Fault)
    (r : EStateM.Result String (Conn Stores) (Option (ℕ × TenantTombstone))) : Prop
  | alive (herr : returnsOk r = false) (hnot : takes fault n = false ∨ Blocked tenantId s)
      (hkeeps : Keeps s (finalDb r))
  | stranded (herr : returnsOk r = false) (hfree : ¬ Blocked tenantId s) (hrows : takes fault n = true)
      (hlost : takes fault (n + 2) = false) (herased : Erased tenantId (finalDb r))
      (hsame : (finalDb r).tombstones = s.tombstones)
  | done (hfree : ¬ Blocked tenantId s) (hrows : takes fault n = true) (hmade : takes fault (n + 2) = true)
      (herased : Erased tenantId (finalDb r)) (htombstone : HasTombstone tenantId (finalDb r))

section Attempt

variable {tenantId : Int} {n : ℕ} {s s' : Stores} {fault : Option Fault} {a : Attempt}

theorem Keeps.refl (s : Stores) : Keeps s s := ⟨rfl, rfl, rfl, rfl⟩

theorem Keeps.trans {s₁ s₂ s₃ : Stores} (h : Keeps s₁ s₂) (h' : Keeps s₂ s₃) : Keeps s₁ s₃ :=
  ⟨h'.tenants.trans h.tenants, h'.assistantUserRows.trans h.assistantUserRows,
    h'.assistantTenantRows.trans h.assistantTenantRows, h'.tombstones.trans h.tombstones⟩

theorem Keeps.blocked_iff (h : Keeps s s') : Blocked tenantId s' ↔ Blocked tenantId s := by
  rw [Blocked, Blocked, h.assistantUserRows, h.assistantTenantRows]

theorem Keeps.hasTombstone_iff (h : Keeps s s') : HasTombstone tenantId s' ↔ HasTombstone tenantId s := by
  rw [HasTombstone, HasTombstone, h.tombstones]

/-- A statement before the deletion of the rows only moves the count. -/
theorem Effect.of_step {α : Type} {f : Stores → α × Stores} {err : String}
    {k : α → Prog Stores (Option (ℕ × TenantTombstone))} (hf : Keeps s (f s).2)
    (h : Effect tenantId n (f s).2 (rest fault) ((k (f s).1).run ⟨(f s).2, rest fault⟩)) :
    Effect tenantId (n + 1) s fault ((stmt err f >>= k).run ⟨s, fault⟩) := by
  refine stmt_bind_elim ?_ ?_ ?_
  · intro hpasses
    cases h with
    | alive herr hnot hkeeps =>
      rw [takes_rest hpasses, hf.blocked_iff] at hnot
      exact .alive herr hnot (hf.trans hkeeps)
    | stranded herr hfree hrows hlost herased hsame =>
      rw [takes_rest hpasses] at hrows hlost
      rw [hf.blocked_iff] at hfree
      exact .stranded herr hfree hrows hlost herased (hsame.trans hf.tombstones)
    | done hfree hrows hmade herased htombstone =>
      rw [takes_rest hpasses] at hrows hmade
      rw [hf.blocked_iff] at hfree
      exact .done hfree hrows hmade herased htombstone
  · intro _ hlost
    exact .alive rfl (.inl (hlost n)) hf
  · intro _ hlost
    exact .alive rfl (.inl (hlost n)) (.refl s)

/-- The transaction on the rows: what of the tenant was gone stays gone, and the rest goes. -/
theorem deleteTenantData_ok (hsessions : ∀ x ∈ s.sessions, x.2 ≠ tenantId)
    (hblobs : ∀ key ∈ s.blobs, ownedBy tenantId key = false)
    (h : deleteTenantData tenantId s = .ok s') :
    ¬ Blocked tenantId s ∧ Erased tenantId s' ∧ s'.tombstones = s.tombstones := by
  unfold deleteTenantData at h
  split at h
  · cases h
  next husers =>
    split at h <;> cases h
    rename_i htenant
    rw [List.contains_iff_mem] at husers htenant
    refine ⟨fun hblocked => hblocked.elim husers htenant, ⟨?_, hblobs, ?_, ?_, ?_⟩, rfl⟩
    · intro x hx
      exact hsessions x (List.mem_of_mem_filter hx)
    · intro table
      simp
    · simp
    · simp

theorem deleteTenantData_error {e : String} (h : deleteTenantData tenantId s = .error e) :
    Blocked tenantId s := by
  unfold deleteTenantData at h
  split at h
  next husers => exact .inl (List.contains_iff_mem.1 husers)
  · split at h
    next htenant => exact .inr (List.contains_iff_mem.1 htenant)
    · cases h

theorem Erased.withoutDek (h : Erased tenantId s) : Erased tenantId (withoutDek tenantId s) :=
  ⟨h.sessions, h.blobs, h.rows, h.tenant, by simp [CryptoShred.withoutDek]⟩

theorem Erased.insert (h : Erased tenantId s) (t : TenantTombstone) :
    Erased tenantId { s with tombstones := s.tombstones.insert t } :=
  ⟨h.sessions, h.blobs, h.rows, h.tenant, h.dataKey⟩

theorem hasTombstone_insert {t : TenantTombstone} (ht : t.tenantId = tenantId) :
    HasTombstone tenantId { s with tombstones := s.tombstones.insert t } :=
  ⟨s.tombstones.next, t, by simp, ht⟩

theorem effect_finishShred (hsessions : ∀ x ∈ s.sessions, x.2 ≠ tenantId)
    (hblobs : ∀ key ∈ s.blobs, ownedBy tenantId key = false) :
    Effect tenantId 0 s fault ((finishShred tenantId a).run ⟨s, fault⟩) := by
  refine transact_bind_elim ?passed ?applied ?lost ?refused
  case passed =>
    intro s₁ hdelete hfirst
    obtain ⟨hfree, herased, hsame⟩ := deleteTenantData_ok hsessions hblobs hdelete
    have hrows := takes_zero_of_passes hfirst
    have herased₂ := herased.withoutDek
    rw [destroyTenantDek, execute]
    refine stmt_bind_elim ?_ ?_ ?_
    · intro hsecond
      have hthird : takes (rest (rest fault)) 0 = takes fault 2 := by
        rw [takes_rest hsecond, takes_rest hfirst]
      rw [createTombstone]
      refine stmt_bind_elim ?_ ?_ ?_
      · intro hpasses
        have hmade : takes fault 2 = true := hthird ▸ takes_zero_of_passes hpasses
        exact .done hfree hrows hmade (herased₂.insert _) (hasTombstone_insert rfl)
      · intro hmade _
        exact .done hfree hrows (hthird ▸ hmade) (herased₂.insert _) (hasTombstone_insert rfl)
      · intro hlost _
        exact .stranded rfl hfree hrows (hthird ▸ hlost) herased₂ hsame
    · intro _ hlost
      exact .stranded rfl hfree hrows ((takes_rest hfirst 1).symm.trans (hlost 0)) herased₂ hsame
    · intro _ hlost
      exact .stranded rfl hfree hrows ((takes_rest hfirst 1).symm.trans (hlost 0)) herased hsame
  case applied =>
    intro s₁ hdelete hrows hlost
    obtain ⟨hfree, herased, hsame⟩ := deleteTenantData_ok hsessions hblobs hdelete
    exact .stranded rfl hfree hrows (hlost 1) herased hsame
  case lost =>
    intro hnot _
    exact .alive rfl (.inl hnot) (.refl s)
  case refused =>
    intro e msg fault' hdelete
    exact .alive rfl (.inr (deleteTenantData_error hdelete)) (.refl s)

/-- An attempt on a tenant that exists: the deletion of the rows is its fifth statement. -/
theorem effect_shredTenant (hexists : tenantId ∈ s.tenants) :
    Effect tenantId 4 s a.fault ((shredTenant tenantId a).run ⟨s, a.fault⟩) := by
  unfold shredTenant tenantExists revokeAllForTenant deleteAllForTenant query execute
  refine Effect.of_step (.refl s) ?_
  simp only [List.contains_iff_mem.2 hexists, if_true]
  refine Effect.of_step ⟨rfl, rfl, rfl, rfl⟩ ?_
  rw [bind_assoc]
  refine Effect.of_step ⟨rfl, rfl, rfl, rfl⟩ (Effect.of_step ⟨rfl, rfl, rfl, rfl⟩ (effect_finishShred ?_ ?_))
  · intro x hx
    simpa using (List.mem_filter.1 hx).2
  · intro key hkey
    simpa using (List.mem_filter.1 hkey).2

/-- An attempt on a tenant that is gone succeeds and changes nothing, if the test gets through. -/
theorem shredTenant_gone (hgone : tenantId ∉ s.tenants) :
    returnsOk ((shredTenant tenantId a).run ⟨s, a.fault⟩) = passes a.fault ∧ after tenantId s a = s := by
  have hcontains : s.tenants.contains tenantId = false := by
    rw [← Bool.not_eq_true, List.contains_iff_mem]
    exact hgone
  unfold after shredTenant tenantExists query
  simp only [run_stmt_bind, hcontains, Bool.false_eq_true, if_false]
  by_cases hpasses : passes a.fault = true
  · rw [if_pos hpasses, hpasses]
    exact ⟨rfl, rfl⟩
  · rw [if_neg hpasses, ite_self, eq_false_of_ne_true hpasses]
    exact ⟨rfl, rfl⟩

end Attempt

/-- A job ends as its attempt does. -/
theorem processDeleteTenantJob_run (jobId : ℕ) (tenantId : Int) (now : Time) (first : String → Bool)
    (fault : Option Fault) (s : Stores) :
    returnsOk ((processDeleteTenantJob jobId tenantId now first fault).run ⟨s, fault⟩) =
        returnsOk ((shredTenant tenantId (jobAttempt tenantId now first fault)).run ⟨s, fault⟩) ∧
      finalDb ((processDeleteTenantJob jobId tenantId now first fault).run ⟨s, fault⟩) =
        after tenantId s (jobAttempt tenantId now first fault) := by
  have hfault : (jobAttempt tenantId now first fault).fault = fault := rfl
  simp only [EStateM.run, processDeleteTenantJob, after, hfault]
  cases shredTenant tenantId (jobAttempt tenantId now first fault) ⟨s, fault⟩ with
  | ok t conn | error e conn => exact ⟨rfl, rfl⟩

/-! ## Sequences of attempts -/

/-- Once the tenant is gone, every attempt finds the stores as they are. -/
theorem complete_gone_iff {tenantId : Int} {s : Stores} (herased : Erased tenantId s) (as : List Attempt) :
    Complete tenantId as s ↔ HasTombstone tenantId s ∨ (as.any fun b => passes b.fault) = false := by
  induction as with
  | nil => simp [Complete]
  | cons a as ih =>
    obtain ⟨hok, hafter⟩ := shredTenant_gone (a := a) herased.tenant
    rw [Complete, hok, hafter, ih, List.any_cons, Bool.or_eq_false_iff]
    by_cases htombstone : HasTombstone tenantId s
    · simp [herased, htombstone]
    · simp [htombstone]

/-- A sequence of attempts on an existing tenant shreds it completely as soon as one succeeds, exactly if the
    tenant cannot be deleted at all, or has a tombstone already, or no attempt that gets past the test for the
    tenant follows one that deleted the rows without writing the tombstone. -/
theorem shred_complete_iff {tenantId : Int} {s : Stores} (hexists : tenantId ∈ s.tenants) (as : List Attempt) :
    Complete tenantId as s ↔ Blocked tenantId s ∨ HasTombstone tenantId s ∨ abandons as = false := by
  induction as generalizing s with
  | nil => simp [Complete, abandons]
  | cons a as ih =>
    rw [Complete, abandons]
    cases effect_shredTenant (a := a) hexists with
    | alive herr hnot hkeeps =>
      have hkeeps : Keeps s (after tenantId s a) := hkeeps
      rw [herr, ih (hkeeps.tenants ▸ hexists), hkeeps.blocked_iff, hkeeps.hasTombstone_iff]
      rcases hnot with hrows | hblocked
      · simp [hrows]
      · simp [hblocked]
    | stranded herr hfree hrows hlost herased hsame =>
      have hgone := complete_gone_iff (s := after tenantId s a) herased as
      have htombstone : HasTombstone tenantId (after tenantId s a) ↔ HasTombstone tenantId s := by
        rw [HasTombstone, HasTombstone, after, hsame]
      rw [herr, hgone, htombstone]
      simp [hfree, hrows, hlost]
    | done hfree hrows hmade herased htombstone =>
      have hgone := complete_gone_iff (s := after tenantId s a) herased as
      have hshredded : Erased tenantId (after tenantId s a) ∧ HasTombstone tenantId (after tenantId s a) :=
        ⟨herased, htombstone⟩
      rw [hgone]
      simp [hshredded, hrows, hmade]

/-! ## Runs -/

/-- An attempt of the job queue on tenant 1. -/
def attemptWith (fault : Option Fault) : Attempt := jobAttempt 1 10 (fun _ => false) fault

/-- Tenant 1 with a session, a blob, a document and a key; tenant 2 has a session. -/
def twoTenants : Stores where
  tenants := [1, 2]
  rows := fun table => if table = .documents then [1] else []
  assistantUserRows := []
  assistantTenantRows := []
  dataKeys := [1, 2]
  tombstones := Serial.empty
  sessions := [("a", 1), ("b", 2)]
  blobs := ["1/x", "2/y"]

/-- The first attempt breaks while it deletes the blobs, the second succeeds. -/
theorem retried_shred_is_complete :
    returnsOk ((shredTenant 1 (attemptWith none)).run
      ⟨after 1 twoTenants (attemptWith (some ⟨2, true⟩)), none⟩) = true ∧
    Complete 1 [attemptWith (some ⟨2, true⟩), attemptWith none] twoTenants :=
  ⟨by decide +kernel, (shred_complete_iff (by decide) _).2 (.inr (.inr (by decide +kernel)))⟩

/-- The first attempt breaks before the tombstone. The second finds no tenant and succeeds without one. -/
theorem retried_shred_has_no_tombstone :
    returnsOk ((shredTenant 1 (attemptWith none)).run
      ⟨after 1 twoTenants (attemptWith (some ⟨6, false⟩)), none⟩) = true ∧
    (after 1 (after 1 twoTenants (attemptWith (some ⟨6, false⟩))) (attemptWith none)).tombstones.rows = [] ∧
    ¬ Complete 1 [attemptWith (some ⟨6, false⟩), attemptWith none] twoTenants := by
  have hnone : (after 1 (after 1 twoTenants (attemptWith (some ⟨6, false⟩)))
      (attemptWith none)).tombstones.rows = [] := by decide +kernel
  refine ⟨by decide +kernel, hnone, fun hcomplete => ?_⟩
  obtain ⟨-, i, t, hget, -⟩ := hcomplete.2.1 (by decide +kernel)
  rw [Serial.get?_eq_some_iff, hnone] at hget
  cases hget

end Tagsmaxxing.CryptoShred
