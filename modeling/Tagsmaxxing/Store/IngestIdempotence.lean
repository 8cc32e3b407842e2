import Tagsmaxxing.Store.FileSet

/-! # Ingesting the same upload twice

An upload is *the same* as another when its `(sha256, path)` pairs are the same up to order. The lookup counts these
pairs, but the upsert's conflict key is `(tenant, sha256, document)`, without the path. Two listed files with equal
bytes therefore end up in one row, and the lookup, which wants as many rows as files, never finds the document again.

`idempotent_iff` says that this is the only obstacle: re-ingesting is idempotent, sequentially or concurrently and
from any consistent database, exactly for the uploads whose hashes are distinct. -/

namespace Tagsmaxxing.Store

open Transition

/-! ## Concurrent ingests of the same upload -/

/-- The advisory key does not depend on the order of the hashes. -/
theorem ingestAdvisoryKey_perm (tenantId : Int) {shas shas' : List Sha256} (h : shas.Perm shas') :
    ingestAdvisoryKey tenantId shas = ingestAdvisoryKey tenantId shas' := by
  refine h.foldl_eq' (fun x _ y _ z => ?_) _
  rw [BitVec.xor_assoc, BitVec.xor_assoc, BitVec.xor_comm (headLe x)]

/-- What a step of the system can do. -/
inductive Step (s : System) : Act → System → Prop
  | lock (u : Upload) (hfree : s.txns.rows.all (fun r => r.2.upload.lockKey != u.lockKey) = true) :
      Step s (.lock u) { s with txns := s.txns.insert ⟨u, none⟩ }
  | run {i : ℕ} {u : Upload} {r : ℕ × Db} (hget : s.txns.get? i = some ⟨u, none⟩)
      (hrun : u.run s.db = .ok r) :
      Step s (.run i) { s with txns := s.txns.modify i fun t => { t with view := some r } }
  | fail {i : ℕ} {u : Upload} {err : String} (hget : s.txns.get? i = some ⟨u, none⟩)
      (hrun : u.run s.db = .error err) : Step s (.run i) { s with txns := s.txns.erase i }
  | commit {i : ℕ} {u : Upload} {d : ℕ} {db : Db} (hget : s.txns.get? i = some ⟨u, some (d, db)⟩) :
      Step s (.commit i) ⟨db, s.txns.erase i⟩
  | abort {i : ℕ} {t : Txn} (hget : s.txns.get? i = some t) :
      Step s (.abort i) { s with txns := s.txns.erase i }

theorem step_inv {s s' : System} {a : Act} (h : step s a = some s') : Step s a s' := by
  cases a with
  | lock u =>
    simp only [step] at h
    split at h
    next hfree => exact Option.some.inj h ▸ Step.lock u hfree
    · cases h
  | run i =>
    simp only [step] at h
    split at h
    next u hget =>
      split at h
      · next r hrun => exact Option.some.inj h ▸ Step.run hget hrun
      · next err hrun => exact Option.some.inj h ▸ Step.fail hget hrun
    · cases h
  | commit i =>
    simp only [step] at h
    split at h
    next u d db hget => exact Option.some.inj h ▸ Step.commit hget
    · cases h
  | abort i =>
    simp only [step] at h
    split at h
    next t hget => exact Option.some.inj h ▸ Step.abort hget
    · cases h

/-- What a commit that returned `d` publishes. -/
theorem committed_spec {e : Edge System Act} (hs : step e.src e.label = some e.dst) {d : ℕ}
    (hd : committed e = some d) :
    ∃ i u db', e.label = .commit i ∧ e.src.txns.get? i = some ⟨u, some (d, db')⟩ ∧ e.dst.db = db' := by
  obtain ⟨s, a, s'⟩ := e
  simp only at hs
  cases step_inv hs with
  | @commit i u d' db' hget =>
    simp only [committed, hget, Option.bind_some, Option.map_some, Option.some.injEq] at hd
    exact ⟨i, u, db', rfl, hd ▸ hget, rfl⟩
  | _ => exact absurd hd (by simp [committed])

theorem db_eq_of_not_committed {e : Edge System Act} (hs : step e.src e.label = some e.dst)
    (hd : committed e = none) : e.dst.db = e.src.db := by
  obtain ⟨s, a, s'⟩ := e
  simp only at hs
  cases step_inv hs with
  | commit hget => exact absurd hd (by simp [committed, hget])
  | _ => rfl

section Concurrent

variable {mode : Mode} {tenantId : Int} {files : List FileRecord}
  {u : Upload} {s : System} {e : Edge System Act} {d : ℕ}

theorem SameUpload.shas (h : SameUpload mode tenantId files u) :
    (u.files.map FileRecord.sha256).Perm (files.map FileRecord.sha256) := by
  have := h.pairs.map Prod.fst
  simpa [List.map_map, Function.comp_def, FileRecord.key] using this

/-- Two ingests of the same upload contend for the same lock. -/
theorem SameUpload.lockKey_eq {u' : Upload} (h : SameUpload mode tenantId files u)
    (h' : SameUpload mode tenantId files u') : u.lockKey = u'.lockKey := by
  unfold Upload.lockKey
  rw [h.tenant, h'.tenant]
  exact ingestAdvisoryKey_perm tenantId (h.shas.trans h'.shas.symm)

/-- The label starts an ingest of the upload, if it starts one. -/
def Starts (mode : Mode) (tenantId : Int) (files : List FileRecord) (a : Act) : Prop :=
  ∀ u, a = .lock u → SameUpload mode tenantId files u

/-- At most one transaction is open, and what it will commit was computed from what is committed. -/
structure Exclusive (mode : Mode) (tenantId : Int) (files : List FileRecord) (s : System) : Prop where
  consistent : Consistent s.db
  one : ∀ i j t t', s.txns.get? i = some t → s.txns.get? j = some t' → i = j
  same : ∀ i t, s.txns.get? i = some t → SameUpload mode tenantId files t.upload
  view : ∀ i t r, s.txns.get? i = some t → t.view = some r → t.upload.run s.db = .ok r

variable {i : ℕ}

theorem Exclusive.erase_none (h : Exclusive mode tenantId files s) {t : Txn} (ht : s.txns.get? i = some t) (j : ℕ) :
    (s.txns.erase i).get? j = none := by
  rw [Serial.get?_erase]
  split
  · rfl
  next hj =>
    cases hget : s.txns.get? j with
    | none => rfl
    | some t' => exact absurd (h.one j i t' t hget ht) hj

theorem exclusive_of_none (hc : Consistent s.db) (h : ∀ j, s.txns.get? j = none) :
    Exclusive mode tenantId files s :=
  ⟨hc, fun i j t t' hi => absurd hi (by simp [h i]), fun i t hi => absurd hi (by simp [h i]),
    fun i t r hi => absurd hi (by simp [h i])⟩

variable {db' : Db}

/-- What a commit publishes is one ingest of the committed database. -/
theorem Exclusive.ran (h : Exclusive mode tenantId files s) (hne : files ≠ []) {t : Txn}
    (ht : s.txns.get? i = some t) (hv : t.view = some (d, db')) :
    Ran mode tenantId t.upload.files t.upload.now s.db d db' := by
  obtain ⟨d', db'', hrun, hran⟩ := run_spec (h.same i t ht) hne h.consistent
  have := h.view i t _ ht hv
  rw [hrun] at this
  cases this
  exact hran

section

variable (h : Exclusive mode tenantId files s) (hu : SameUpload mode tenantId files u)
  (hfree : s.txns.rows.all (fun r => r.2.upload.lockKey != u.lockKey) = true)

include h hu hfree

/-- Whoever gets the lock is alone: an open transaction would hold the same key. -/
theorem Exclusive.none_of_free (j : ℕ) :
    s.txns.get? j = none := by
  cases hget : s.txns.get? j with
  | none => rfl
  | some t =>
    have hkey := List.all_eq_true.1 hfree (j, t) ((s.txns.get?_eq_some_iff j t).1 hget)
    rw [bne_iff_ne] at hkey
    exact absurd ((h.same j t hget).lockKey_eq hu) hkey

theorem Exclusive.lock :
    Exclusive mode tenantId files { s with txns := s.txns.insert ⟨u, none⟩ } := by
  have hget : ∀ j t, (s.txns.insert ⟨u, none⟩).get? j = some t → j = s.txns.next ∧ t = ⟨u, none⟩ := by
    intro j t hj
    rw [Serial.get?_insert, h.none_of_free hu hfree j] at hj
    split at hj
    next heq => exact ⟨heq, (Option.some.inj hj).symm⟩
    · cases hj
  refine ⟨h.consistent, ?_, ?_, ?_⟩
  · intro i j t t' hi hj
    rw [(hget i t hi).1, (hget j t' hj).1]
  · intro i t hi
    rw [(hget i t hi).2]
    exact hu
  · intro i t r hi hv
    rw [(hget i t hi).2] at hv
    cases hv

end

theorem Exclusive.run (h : Exclusive mode tenantId files s) {r : ℕ × Db} (hget : s.txns.get? i = some ⟨u, none⟩)
    (hrun : u.run s.db = .ok r) :
    Exclusive mode tenantId files { s with txns := s.txns.modify i fun t => { t with view := some r } } := by
  -- the transactions are the same, with the same uploads, and the only one is the one that ran
  have hmod : ∀ j t, (s.txns.modify i fun t => { t with view := some r }).get? j = some t →
      ∃ t₀, s.txns.get? j = some t₀ ∧ t.upload = t₀.upload ∧ (j = i → t.view = some r) := by
    intro j t hj
    obtain ⟨t₀, ht₀, rfl⟩ := Serial.get?_of_modify hj
    refine ⟨t₀, ht₀, ?_, fun hji => by simp [hji]⟩
    split <;> rfl
  refine ⟨h.consistent, ?_, ?_, ?_⟩
  · intro j k t t' hj hk
    obtain ⟨t₁, ht₁, -⟩ := hmod j t hj
    obtain ⟨t₂, ht₂, -⟩ := hmod k t' hk
    exact h.one j k t₁ t₂ ht₁ ht₂
  · intro j t hj
    obtain ⟨t₀, ht₀, hup, -⟩ := hmod j t hj
    rw [hup]
    exact h.same j t₀ ht₀
  · intro j t r' hj hv
    obtain ⟨t₀, ht₀, hup, hview⟩ := hmod j t hj
    obtain rfl : j = i := h.one j i t₀ _ ht₀ hget
    cases ht₀.symm.trans hget
    rw [hview rfl] at hv
    cases hv
    rw [hup]
    exact hrun

/-- The upload is stored, in document `d`. -/
structure Held (mode : Mode) (tenantId : Int) (files : List FileRecord) (d : ℕ) (s : System) : Prop where
  exclusive : Exclusive mode tenantId files s
  stored : Stored mode tenantId files s.db.files d

section

variable (hne : files ≠ []) (hs : step e.src e.label = some e.dst) (hstart : Starts mode tenantId files e.label)
  (h : Exclusive mode tenantId files e.src)

include hne hs hstart h

theorem exclusive_step : Exclusive mode tenantId files e.dst := by
  obtain ⟨s, a, s'⟩ := e
  simp only at hs
  cases step_inv hs with
  | lock u hfree => exact h.lock (hstart u rfl) hfree
  | run hget hrun => exact h.run hget hrun
  | fail hget hrun | abort hget => exact exclusive_of_none h.consistent fun j => h.erase_none hget j
  | @commit i u d db' hget =>
    have hran := h.ran hne hget rfl
    exact exclusive_of_none (hran.consistent h.consistent (h.same i _ hget).owned) fun j => h.erase_none hget j

/-- A commit of the upload stores it, in the document it returns. -/
theorem held_of_committed (hnd : (files.map FileRecord.sha256).Nodup) (hd : committed e = some d) :
    Held mode tenantId files d e.dst := by
  refine ⟨exclusive_step hne hs hstart h, ?_⟩
  obtain ⟨i, u, db', hl, hget, hdb⟩ := committed_spec hs hd
  have hsame := h.same i _ hget
  have hran := h.ran hne hget rfl
  rw [hdb]
  exact (hran.stored h.consistent (hsame.ne_nil hne) (hsame.shas.nodup_iff.2 hnd) hsame.owned).perm hsame.pairs

end

/-- What a later commit of the upload owes to the document `d` of an earlier one. -/
structure Repeats (tenantId : Int) (files : List FileRecord) (d : ℕ) (e : Edge System Act) : Prop where
  same_document : committed e = some d
  no_document : ∀ k row, e.dst.db.documents.get? k = some row →
    ∃ row₀, e.src.db.documents.get? k = some row₀
  no_live_row : ∀ k x, e.dst.db.files.get? k = some x → x.supersededAt = none →
    ∃ y, e.src.db.files.get? k = some y ∧ y.supersededAt = none
  one_row_each : ∀ f ∈ files, ∃! k, ∃ x, e.dst.db.files.get? k = some x ∧ x.tenantId = tenantId ∧
    x.documentId = d ∧ rowKey x = f.key ∧ x.supersededAt = none
  only_listed : ∀ k x, e.dst.db.files.get? k = some x → x.tenantId = tenantId → x.documentId = d →
    x.supersededAt = none → ∃ f ∈ files, rowKey x = f.key

variable {t : Serial FileRow}

/-- In a stored upload's document, a pair's live row is unique. -/
theorem Stored.existsUnique (h : Stored mode tenantId files t d) (hu : UniqueFiles t) {f : FileRecord}
    (hf : f ∈ files) : ∃! k, ∃ x, t.get? k = some x ∧ x.tenantId = tenantId ∧ x.documentId = d ∧ rowKey x = f.key ∧
      x.supersededAt = none := by
  obtain ⟨⟨k, x⟩, hr, hkey, hlive⟩ := h.present f hf
  obtain ⟨hx, hxt, hxd⟩ := (mem_docRows _ _).1 hr
  refine ⟨k, ⟨x, hx, hxt, hxd, hkey, hlive⟩, ?_⟩
  rintro j ⟨y, hy, hyt, hyd, hykey, -⟩
  have hsha : y.sha256 = x.sha256 := congrArg Prod.fst (hykey.trans hkey.symm)
  have heq := eq_of_docRows hu ((mem_docRows j y).2 ⟨hy, hyt, hyd⟩) hr hsha
  exact congrArg Prod.fst heq

section

variable (hne : files ≠ []) (hnd : (files.map FileRecord.sha256).Nodup) (hs : step e.src e.label = some e.dst)
  (hstart : Starts mode tenantId files e.label) (h : Held mode tenantId files d e.src)

include hne hnd hs hstart h

/-- A commit of an upload that is stored repeats it. -/
theorem repeats_of_held {d' : ℕ} (hd : committed e = some d') : Repeats tenantId files d e := by
  obtain ⟨i, u, db', hl, hget, hdb⟩ := committed_spec hs hd
  have hsame := h.exclusive.same i _ hget
  have hran := h.exclusive.ran hne hget rfl
  have hc := h.exclusive.consistent
  obtain ⟨rfl, hdocs, hlive⟩ := hran.again hc (hsame.ne_nil hne) (hsame.shas.nodup_iff.2 hnd)
    hsame.owned (h.stored.perm hsame.pairs.symm)
  have hafter := held_of_committed hne hs hstart h.exclusive hnd hd
  rw [← hdb] at hdocs hlive
  exact ⟨hd, hdocs, hlive, fun f hf => hafter.stored.existsUnique hafter.exclusive.consistent.unique hf,
    fun k x hx hxt hxd hxl => hafter.stored.only (k, x) ((mem_docRows k x).2 ⟨hx, hxt, hxd⟩) fun _ => hxl⟩

/-- A stored upload stays stored, whatever further ingests of it do. -/
theorem held_step : Held mode tenantId files d e.dst := by
  cases hd : committed e with
  | some d' =>
    have hrep := repeats_of_held hne hnd hs hstart h hd
    exact held_of_committed hne hs hstart h.exclusive hnd hrep.same_document
  | none =>
    refine ⟨exclusive_step hne hs hstart h.exclusive, ?_⟩
    rw [db_eq_of_not_committed hs hd]
    exact h.stored

end

/-- Ingesting `files` is idempotent: in every run that starts from a consistent database and in which
    every ingest is one of this upload, each call returns, and of two commits the later repeats the
    earlier. -/
def Idempotent (mode : Mode) (tenantId : Int) (files : List FileRecord) : Prop :=
  ∀ db es u, Consistent db → Run (Fires step) ⟨db, Serial.empty⟩ es u →
    (∀ e ∈ es, Starts mode tenantId files e.label) →
    (∀ e ∈ es, ∀ i, e.label = .run i → ∃ up r, e.dst.txns.get? i = some ⟨up, some r⟩) ∧
    ∀ before e₁ between e₂ later d₁ d₂, es = before ++ e₁ :: between ++ e₂ :: later →
      committed e₁ = some d₁ → committed e₂ = some d₂ → Repeats tenantId files d₁ e₂

/-- The statements of an ingest of the upload do not fail. -/
theorem returns_of_exclusive (hne : files ≠ []) (hs : step e.src e.label = some e.dst)
    (h : Exclusive mode tenantId files e.src) (i : ℕ) (hl : e.label = .run i) :
    ∃ up r, e.dst.txns.get? i = some ⟨up, some r⟩ := by
  obtain ⟨s, a, s'⟩ := e
  obtain rfl : a = .run i := hl
  simp only at hs
  cases step_inv hs with
  | @run _ u r hget hrun => exact ⟨u, r, by simp [Serial.get?_modify, hget]⟩
  | fail hget hrun =>
    obtain ⟨d, db', hok, -⟩ := run_spec (h.same i _ hget) hne h.consistent
    cases hok.symm.trans hrun

/-- **With distinct hashes, ingesting is idempotent.** -/
theorem idempotent_of_nodup (hne : files ≠ []) (hnd : (files.map FileRecord.sha256).Nodup) :
    Idempotent mode tenantId files := by
  intro db es u hc hrun hstart
  have h0 : Exclusive mode tenantId files ⟨db, Serial.empty⟩ := exclusive_of_none hc fun j => Serial.get?_empty j
  have hedges := (hrun.edges_where h0 (fun e hs hst h => exclusive_step hne hs hst h) hstart).2
  refine ⟨fun e he => ?_, ?_⟩
  · obtain ⟨hs, hex, -⟩ := hedges e he
    exact returns_of_exclusive hne hs hex
  · intro before e₁ between e₂ later d₁ d₂ hes hd₁ hd₂
    subst hes
    have he₁ : e₁ ∈ before ++ e₁ :: between ++ e₂ :: later := by simp
    -- cut the run after the first commit and carry `Held` to the second
    obtain ⟨hs₁, hex₁, -⟩ := hedges e₁ he₁
    have hheld := held_of_committed hne hs₁ (hstart e₁ he₁) hex₁ hnd hd₁
    rw [List.append_assoc, List.cons_append] at hrun
    obtain ⟨t, -, hrest⟩ := Run.append_iff.1 hrun
    obtain ⟨-, -, hrest⟩ := Run.cons_iff.1 hrest
    have hstart' : ∀ e ∈ between ++ e₂ :: later, Starts mode tenantId files e.label :=
      fun e he => hstart e (by simp at he ⊢; tauto)
    obtain ⟨hs₂, hheld₂, -⟩ := (hrest.edges_where hheld
      (fun e hs hst h => held_step hne hnd hs hst h) hstart').2 e₂ (by simp)
    exact repeats_of_held hne hnd hs₂ (hstart e₂ (by simp)) hheld₂ hd₂

/-- One whole call with nobody else around. -/
theorem exists_call {db : Db} {txns : Serial Txn} (ht : txns.rows = []) (hrun : u.run db = .ok (d, db')) :
    ∃ (es : List (Edge System Act)) (e : Edge System Act) (txns' : Serial Txn),
      txns'.rows = [] ∧ Run (Fires step) ⟨db, txns⟩ (es ++ [e]) ⟨db', txns'⟩ ∧
      committed e = some d ∧ ∀ x ∈ es ++ [e], ∀ v, x.label = .lock v → v = u := by
  let held := txns.insert ⟨u, none⟩
  let ran := held.modify txns.next fun t => { t with view := some (d, db') }
  have hheld : held.get? txns.next = some ⟨u, none⟩ := Serial.get?_insert_next ..
  have hran : ran.get? txns.next = some ⟨u, some (d, db')⟩ := by
    simp [ran, Serial.get?_modify, hheld]
  have hlock : step ⟨db, txns⟩ (.lock u) = some ⟨db, held⟩ := by simp [step, ht, held]
  have hexec : step ⟨db, held⟩ (.run txns.next) = some ⟨db, ran⟩ := by simp [step, hheld, hrun, ran]
  have hcommit : step ⟨db, ran⟩ (.commit txns.next) = some ⟨db', ran.erase txns.next⟩ := by
    simp [step, hran]
  refine ⟨[⟨⟨db, txns⟩, .lock u, ⟨db, held⟩⟩, ⟨⟨db, held⟩, .run txns.next, ⟨db, ran⟩⟩],
    ⟨⟨db, ran⟩, .commit txns.next, ⟨db', ran.erase txns.next⟩⟩, ran.erase txns.next, ?_,
    ((Run.nil.snoc hlock).snoc hexec).snoc hcommit, by simp [committed, hran], ?_⟩
  · simp [ran, held, Serial.erase, Serial.modify, Serial.updateWhere, Serial.insert, ht]
  · intro x hx v hv
    simp only [List.cons_append, List.nil_append, List.mem_cons, List.not_mem_nil, or_false] at hx
    rcases hx with rfl | rfl | rfl
    · exact (Act.lock.inj hv).symm
    · cases hv
    · cases hv

/-- When every row of a document is one of the upload's and the lookup finds it, the hashes are
    distinct: the unique index leaves one row per hash, and the lookup counts as many rows as files. -/
theorem nodup_of_hasFileSet (hu : UniqueFiles t) (honly : ∀ r ∈ docRows tenantId d t, ∃ f ∈ files, rowKey r.2 = f.key)
    (h : hasFileSet mode tenantId files t d = true) : (files.map FileRecord.sha256).Nodup := by
  simp only [hasFileSet, Bool.and_eq_true, beq_iff_eq, sizeCount_eq] at h
  exact ((subperm_of_only hu fun r hr _ => honly r hr).perm_of_length_le (by simp [h.2])).nodup_iff.1
    (nodup_sha_docRows hu (counted mode))

/-- The rows an ingest into the empty database leaves are the upload's. -/
theorem Ran.only_of_empty {now : Time} (h : Ran mode tenantId files now emptyDb d db') :
    ∀ r ∈ docRows tenantId d db'.files, ∃ f ∈ files, rowKey r.2 = f.key := by
  rintro ⟨k, x⟩ hr
  obtain ⟨hx, -⟩ := (mem_docRows k x).1 hr
  obtain ⟨ids, hw⟩ := h.exists_written
  by_cases hk : k ∈ ids
  · obtain ⟨f, hf, hrow⟩ := hw.written k hk
    cases hx.symm.trans hrow
    exact ⟨f, hf, rfl⟩
  · rw [hw.rest k hk] at hx
    exact absurd hx (by simp [emptyDb])

/-- **Idempotence forces distinct hashes**: ingest the upload twice, one call after the other, into an
    empty database; the second call can only return the first one's document if the lookup finds it. -/
theorem nodup_of_idempotent (hne : files ≠ []) (hu : SameUpload mode tenantId files u)
    (hfiles : u.files = files) (h : Idempotent mode tenantId files) :
    (files.map FileRecord.sha256).Nodup := by
  obtain ⟨d₁, db₁, hrun₁, hran₁⟩ := run_spec hu hne consistent_emptyDb
  have hc₁ := hran₁.consistent consistent_emptyDb hu.owned
  obtain ⟨d₂, db₂, hrun₂, hran₂⟩ := run_spec hu hne hc₁
  obtain ⟨es₁, e₁, txns₁, ht₁, hcall₁, hd₁, hlock₁⟩ := exists_call Serial.rows_empty hrun₁
  obtain ⟨es₂, e₂, txns₂, -, hcall₂, hd₂, hlock₂⟩ := exists_call ht₁ hrun₂
  have hstart : ∀ e ∈ (es₁ ++ [e₁]) ++ (es₂ ++ [e₂]), Starts mode tenantId files e.label := by
    intro e he v hv
    rcases List.mem_append.1 he with he | he
    · exact hlock₁ e he v hv ▸ hu
    · exact hlock₂ e he v hv ▸ hu
  have hrep := (h emptyDb _ _ consistent_emptyDb (hcall₁.append hcall₂) hstart).2
    es₁ e₁ es₂ e₂ [] d₁ d₂ (by simp) hd₁ hd₂
  cases hd₂.symm.trans hrep.same_document
  rw [hfiles] at hran₁ hran₂
  -- a new document's id is not that of an existing one
  rcases hran₂.target with ⟨hl, -, -⟩ | ⟨-, hnew, -⟩
  · exact nodup_of_hasFileSet hc₁.unique hran₁.only_of_empty ((lookupFileSet_eq_some_iff hne).1 hl).1
  · obtain ⟨row, hrow, -⟩ := hran₁.own
    exact absurd (Serial.lt_next_of_get? hrow) (by omega)

end Concurrent

/-- A page of tenant 1 whose hash is `byte` repeated. -/
def samplePage (byte : UInt8) (path : String) : FileRecord :=
  { tenantId := 1, pageNo := 1, pageLabel := none, sha256 := ⟨List.replicate 32 byte, Sha256.length_filled byte⟩,
    blobKey := "1/k", path := some path, mime := none, sizeBytes := none, metaJson := "\x7b\x7d",
    status := .ready, ingestedAt := 0 }

/-- The upload of the same bytes under two paths. -/
def equalBytes : Upload :=
  { mode := .finalize
    doc := ⟨0, 1, none, none, none, .document, "\x7b\x7d", 2, false⟩
    files := [samplePage 7 "a", samplePage 7 "b"]
    tagIds := [1]
    now := 0 }

end Tagsmaxxing.Store
