import Tagsmaxxing.Api.IngestHandler
import Tagsmaxxing.Store.FileSet

/-! # Rows and their blobs

Every `files` row names a blob; `RowsBacked` says that the blob exists. The handlers put blobs before they commit
rows, so the only thing that can break it is their own clean-up. `cleanup_blobs` takes the request's keys to be
orphans, but keys are content addresses, which rows of other documents and other requests in flight share; and after
a failed enqueue the request's own rows are committed.

`changes` says once what a step can do to rows, blobs and requests. In every run in which each deleted key is named by
no row, and put by no request that may still commit, all rows stay backed (`rowsBacked_of_safe_cleanup`). -/

namespace Tagsmaxxing.IngestHandler

open List Store Transition

/-- Every committed row names a blob that exists. -/
def Server.RowsBacked (s : Server) : Prop :=
  ∀ k x, s.db.files.get? k = some x → (s.blobs x.blobKey).isSome

/-- The request has put the key and may still commit a row that names it. -/
def Phase.relies : Phase → String → Prop
  | .put _ records todo, key =>
      key ∈ records.map FileRecord.blobKey ∧ key ∉ todo.map fun t => t.1.blobKey
  | .stage _ records, key => key ∈ records.map FileRecord.blobKey
  | _, _ => False

instance : ∀ (phase : Phase) (key : String), Decidable (phase.relies key)
  | .put _ records todo, key =>
      inferInstanceAs (Decidable (key ∈ records.map FileRecord.blobKey ∧
        key ∉ todo.map fun t => t.1.blobKey))
  | .stage _ records, key => inferInstanceAs (Decidable (key ∈ records.map FileRecord.blobKey))
  | .admission _, _ | .existingFiles _, _ | .document _ _, _ | .enqueue _ _, _ | .cleanup _ _, _ =>
      inferInstanceAs (Decidable False)

/-- The key a step deletes. -/
def deleted (s : Server) : Act → Option String
  | .advance i outcome _ =>
      match (s.requests.get? i).map Request.phase, outcome with
      | some (.cleanup (key :: _) _), .ok => some key
      | some (.cleanup (key :: _) _), .lost _ => some key
      | _, _ => none
  | _ => none

/-! ## What a step can do -/

/-- What one step can do to rows, blobs and requests. -/
structure Changes (s : Server) (a : Act) (s' : Server) : Prop where
  files : ∀ k x', s'.db.files.get? k = some x' →
    (∃ x, s.db.files.get? k = some x ∧ x'.blobKey = x.blobKey) ∨
      ∃ i r, s.requests.get? i = some r ∧ r.phase.relies x'.blobKey
  blobs : ∀ key, (s.blobs key).isSome → (s'.blobs key).isSome ∨ deleted s a = some key
  requests : ∀ j r', s'.requests.get? j = some r' → ∀ key, r'.phase.relies key →
    (∃ r, s.requests.get? j = some r ∧ r.phase.relies key) ∨ (s'.blobs key).isSome

section Server

variable {s s' : Server} {a : Act} {i j : ℕ} {r r' : Request} {phase : Phase}

theorem get?_goto (h : (s.goto i phase).requests.get? j = some r') :
    s.requests.get? j = some r' ∨ j = i ∧ r'.phase = phase := by
  simp only [Server.goto, Serial.get?_modify] at h
  obtain ⟨r, hr, rfl⟩ := Option.map_eq_some_iff.1 h
  split
  next hji => exact .inr ⟨hji, rfl⟩
  · exact .inl hr

variable (todo : List String) (err : String)

@[simp] theorem gotoCleanup_db : (s.gotoCleanup i todo err).db = s.db := by
  unfold Server.gotoCleanup
  split <;> rfl

@[simp] theorem gotoCleanup_blobs : (s.gotoCleanup i todo err).blobs = s.blobs := by
  unfold Server.gotoCleanup
  split <;> rfl

/-- The phase after a hand-over to the puts relies on the records that are not to be put any more. -/
theorem relies_of_gotoPut {target : Target} {records : List FileRecord}
    {todo : List (FileRecord × List UInt8)}
    (h : (s.gotoPut i target records todo).requests.get? j = some r') :
    s.requests.get? j = some r' ∨ j = i ∧ ∀ key, r'.phase.relies key →
      key ∈ records.map FileRecord.blobKey ∧ key ∉ todo.map fun t => t.1.blobKey := by
  rcases get?_goto h with h | ⟨hji, hphase⟩
  · exact .inl h
  · refine .inr ⟨hji, fun key hkey => ?_⟩
    rw [hphase] at hkey
    split at hkey
    next hemp => exact ⟨hkey, by simp [List.isEmpty_iff.1 hemp]⟩
    · exact hkey

theorem Changes.refl (s : Server) (a : Act) : Changes s a s :=
  ⟨fun _ x hx => .inl ⟨x, hx, rfl⟩, fun _ => .inl, fun _ r hr _ hkey => .inl ⟨r, hr, hkey⟩⟩

theorem Changes.erase (h : Changes s a s') (replies : List (ℕ × Reply)) :
    Changes s a { s' with requests := s'.requests.erase i, replies := replies } :=
  ⟨h.files, h.blobs, fun j r' hr' => h.requests j r' (Serial.get?_of_erase hr')⟩

/-- Moving a request to a phase that relies on nothing afterwards. -/
theorem Changes.goto (h : Changes s a s') (hphase : ∀ key, ¬ phase.relies key) : Changes s a (s'.goto i phase) := by
  refine ⟨h.files, h.blobs, fun j r' hr' key hkey => ?_⟩
  rcases get?_goto hr' with hr' | ⟨-, hp⟩
  · exact h.requests j r' hr' key hkey
  · rw [hp] at hkey
    exact absurd hkey (hphase key)

theorem Changes.gotoCleanup {todo : List String} {err : String} (h : Changes s a s') :
    Changes s a (s'.gotoCleanup i todo err) := by
  unfold Server.gotoCleanup
  split
  · exact h.erase _
  · exact h.goto fun key => id

end Server

/-! ### The records of a request -/

section

variable (c : Content) (tenantId : Int)

theorem length_buildMulti (pages : List PageInput) (note : Option String) (now : Time) :
    (DocumentBuilder.buildMulti c tenantId pages note now).2.length = pages.length := by
  simp [DocumentBuilder.buildMulti]

theorem length_buildUpload (localOnly : Bool) (u : ParsedUpload) (now : Time) :
    (buildUpload c tenantId localOnly u now).2.length = u.files.length := by
  unfold buildUpload
  split
  next page hpages =>
    have hone : u.files.length = 1 := by simpa using congrArg length hpages
    rw [hone]
    exact length_buildMulti c tenantId [⟨page.bytes, page.path, page.path⟩] (u.userNote.map cleanNote) now
  · rw [length_buildMulti, length_map]

theorem length_buildPages (existing : ℕ) (u : ParsedUpload) (now : Time) :
    (buildPages c tenantId existing u now).length = u.files.length := by
  rw [buildPages, length_map, length_buildMulti, length_map]

end

variable {records : List FileRecord} {bytes : List (List UInt8)}

theorem keys_zip (h : records.length = bytes.length) :
    ((records.zip bytes).map fun t => t.1.blobKey) = records.map FileRecord.blobKey := by
  calc ((records.zip bytes).map fun t => t.1.blobKey)
      = ((records.zip bytes).map Prod.fst).map FileRecord.blobKey := by rw [map_map]; rfl
    _ = records.map FileRecord.blobKey := by rw [map_fst_zip (le_of_eq h)]

/-! ### Staging -/

variable {tenantId : Int}

/-- Staging leaves old rows and rows of its records. -/
theorem mem_of_stageTarget {target : Target} {db db' : Db}
    {d : ℕ} (h : stageTarget tenantId records db target = .ok (d, db')) {k : ℕ} {x : FileRow}
    (hx : db'.files.get? k = some x) :
    db.files.get? k = some x ∨ x.blobKey ∈ records.map FileRecord.blobKey := by
  cases target with
  | document doc =>
    simp only [stageTarget, Except.map] at h
    split at h <;> cases h
    rename_i hok
    obtain ⟨-, -, hup, -⟩ := createPendingIngest_ok hok
    exact (row_of_upsertFiles hup hx).imp_right fun hnew => hnew.2.2
  | pages documentId =>
    simp only [stageTarget, stagePendingFiles] at h
    split_ifs at h
    all_goals try cases h
    cases hup : upsertFiles .stage tenantId documentId
        (records.map fun f => { f with tenantId := tenantId }) db.files with
    | error e => rw [hup] at h; cases h
    | ok r =>
      rw [hup] at h
      cases h
      exact (row_of_upsertFiles hup hx).imp_right fun hnew => by simpa using hnew.2.2

/-! ### The steps -/

section Steps

variable {c : Content} {s s' : Server} {i : ℕ} {r : Request} {a : Act} {target : Target}

theorem Changes.gotoPut_zip (h : records.length = bytes.length) :
    Changes s a (s.gotoPut i target records (records.zip bytes)) := by
  refine ⟨(refl s a).files, (refl s a).blobs, fun j r' hr' key hkey => ?_⟩
  rcases relies_of_gotoPut hr' with hr' | ⟨-, hkeys⟩
  · exact .inl ⟨r', hr', hkey⟩
  · obtain ⟨hin, hout⟩ := hkeys key hkey
    rw [keys_zip h] at hout
    exact absurd hin hout

theorem Changes.arrive (hphase : ∀ key, ¬ r.phase.relies key) : Changes s a (arrive c r s) := by
  have hins : Changes s a { s with requests := s.requests.insert r } := by
    refine ⟨(refl s a).files, (refl s a).blobs, fun j r' hr' key hkey => ?_⟩
    simp only [Serial.get?_insert] at hr'
    split at hr'
    · cases hr'
      exact absurd hkey (hphase key)
    · exact .inl ⟨r', hr', hkey⟩
  unfold IngestHandler.arrive
  split
  · exact hins.erase _
  · exact hins

variable {outcome : Outcome}

theorem Changes.onRead {k : Server} (h : Changes s a k) :
    Changes s a (onRead s i outcome k) := by
  cases outcome with
  | ok => exact h
  | failed err | lost err => exact (refl s a).erase _

variable {now : Time} {bytes : List UInt8} {key : String}

theorem Changes.checkAdmission {caps : Caps} :
    Changes s a (checkAdmission c tenantId s i r caps now) := by
  unfold IngestHandler.checkAdmission
  simp only
  split
  · exact (refl s a).erase _
  · exact .gotoPut_zip (by rw [length_buildUpload, length_map])

theorem Changes.openDocument {d n : ℕ} :
    Changes s a (openDocument c tenantId s i r d n now) := by
  unfold IngestHandler.openDocument
  split
  · exact (refl s a).erase _
  · exact .gotoPut_zip (by rw [length_buildPages, length_map])

theorem isSome_update {blobs : String → Option (List UInt8)}
    {k : String} (h : (blobs k).isSome) : (Function.update blobs key (some bytes) k).isSome := by
  rw [Function.update_apply]
  split
  · rfl
  · exact h

theorem Changes.putBlob {f : FileRecord} {rest : List (FileRecord × List UInt8)}
    (hget : s.requests.get? i = some r) (hphase : r.phase = .put target records ((f, bytes) :: rest)) :
    Changes s a (putBlob s i target records f bytes rest outcome) := by
  have hstored : Changes s a { s with blobs := Function.update s.blobs f.blobKey (some bytes) } :=
    ⟨(refl s a).files, fun key hkey => .inl (isSome_update hkey), fun j r' hr' key hkey => .inl ⟨r', hr', hkey⟩⟩
  cases outcome with
  | failed err => exact (refl s a).erase _
  | lost err => exact hstored.erase _
  | ok =>
    refine ⟨hstored.files, hstored.blobs, fun j r' hr' key hkey => ?_⟩
    rcases relies_of_gotoPut hr' with hr' | ⟨rfl, hkeys⟩
    · exact .inl ⟨r', hr', hkey⟩
    · -- the key was already put, or it is the one just put
      obtain ⟨hin, hout⟩ := hkeys key hkey
      by_cases hkf : key = f.blobKey
      · exact .inr (by simp [IngestHandler.putBlob, Server.gotoPut, Server.goto, hkf])
      · exact .inl ⟨r, hget, by rw [hphase]; exact ⟨hin, by simpa [hkf] using hout⟩⟩

theorem Changes.stageRecords (hget : s.requests.get? i = some r) (hphase : r.phase = .stage target records) :
    Changes s a (stageRecords tenantId s i target records outcome) := by
  -- a committed row is an old one or one of the records', on which the request relied
  have hstaged : ∀ d db', stageTarget tenantId records s.db target = .ok (d, db') →
      Changes s a { s with db := db' } := by
    refine fun d db' hok => ⟨fun k x' hx => ?_, (refl s a).blobs, (refl s a).requests⟩
    rcases mem_of_stageTarget hok hx with h | h
    · exact .inl ⟨x', h, rfl⟩
    · exact .inr ⟨i, r, hget, by rw [hphase]; exact h⟩
  unfold IngestHandler.stageRecords
  split
  next d db' hok => exact (hstaged d db' hok).goto fun key => id
  · exact (refl s a).gotoCleanup
  · exact (refl s a).gotoCleanup
  next err d db' hok => exact (hstaged d db' hok).gotoCleanup
  · exact (refl s a).gotoCleanup

theorem Changes.enqueueJob {d : ℕ} :
    Changes s a (enqueueJob tenantId s i r d records outcome now) := by
  have hqueued : Changes s a { s with db := JobQueue.enqueue tenantId r.userId none (some d) .ingest 0 now s.db } :=
    ⟨(refl s a).files, (refl s a).blobs, (refl s a).requests⟩
  cases outcome with
  | ok => exact hqueued.erase _
  | failed err => exact (refl s a).gotoCleanup
  | lost err => exact hqueued.gotoCleanup

theorem Changes.deleteBlob {rest : List String} {err : String}
    (hget : s.requests.get? i = some r) (hphase : r.phase = .cleanup (key :: rest) err) :
    Changes s (.advance i outcome now) (deleteBlob s i key rest err outcome) := by
  have hdel : deleted s (.advance i outcome now) = some key → Changes s (.advance i outcome now)
      { s with blobs := Function.update s.blobs key none } := by
    refine fun hdel => ⟨(refl s (.advance i outcome now)).files, fun k hk => ?_, fun _ r hr _ hk => .inl ⟨r, hr, hk⟩⟩
    by_cases hkey : k = key
    · subst hkey
      exact .inr hdel
    · exact .inl (by simpa [Function.update_apply, hkey] using hk)
  cases outcome with
  | failed e => exact (refl s _).gotoCleanup
  | ok | lost e => exact (hdel (by simp [deleted, hget, hphase])).gotoCleanup

/-- **Every step of the system changes rows, blobs and requests only as `Changes` says.** -/
theorem changes_of_step (h : step c tenantId s a = some s') : Changes s a s' := by
  cases a with
  | upload userId localOnly caps u | addPage userId d u =>
    cases h
    exact .arrive fun key => id
  | drop i =>
    simp only [step] at h
    split at h <;> cases h
    exact (Changes.refl s _).erase _
  | advance i outcome now =>
    simp only [step] at h
    split at h
    next r hget =>
      unfold advance at h
      split at h <;> cases h
      · exact .onRead .checkAdmission
      · exact .onRead ((Changes.refl s _).goto fun key => id)
      · exact .onRead .openDocument
      · next hphase => exact .putBlob hget hphase
      · next hphase => exact .stageRecords hget hphase
      · exact .enqueueJob
      · next hphase => exact .deleteBlob hget hphase
    · cases h

end Steps

/-! ## Whole runs -/

/-- The clean-up deletes only keys that no row names and no request in flight relies on. -/
def SafeCleanup (e : Edge Server Act) : Prop :=
  ∀ key ∈ deleted e.src e.label, (∀ x ∈ e.src.db.files.rows, x.2.blobKey ≠ key) ∧
    ∀ q ∈ e.src.requests.rows, ¬ q.2.phase.relies key

instance (e : Edge Server Act) : Decidable (SafeCleanup e) :=
  inferInstanceAs (Decidable (∀ key ∈ deleted e.src e.label,
    (∀ x ∈ e.src.db.files.rows, x.2.blobKey ≠ key) ∧
      ∀ q ∈ e.src.requests.rows, ¬ q.2.phase.relies key))

/-- Rows are backed, and so is what requests rely on. -/
structure Backed (s : Server) : Prop where
  rows : s.RowsBacked
  relied : ∀ j r, s.requests.get? j = some r → ∀ key, r.phase.relies key → (s.blobs key).isSome

/-- A step whose clean-up is safe keeps everything backed. -/
theorem backed_step {c : Content} {e : Edge Server Act}
    (hs : step c tenantId e.src e.label = some e.dst) (hsafe : SafeCleanup e) (h : Backed e.src) :
    Backed e.dst := by
  have hch := changes_of_step hs
  -- a key that a row names or a request relies on is not deleted
  have hkeep : ∀ key, (e.src.blobs key).isSome →
      ((∃ k x, e.src.db.files.get? k = some x ∧ x.blobKey = key) ∨
        ∃ j r, e.src.requests.get? j = some r ∧ r.phase.relies key) → (e.dst.blobs key).isSome := by
    intro key hkey huse
    rcases hch.blobs key hkey with h' | hdel
    · exact h'
    · obtain ⟨hrow, hreq⟩ := hsafe key hdel
      rcases huse with ⟨k, x, hx, hxk⟩ | ⟨j, r, hr, hrel⟩
      · exact absurd hxk (hrow (k, x) ((Serial.get?_eq_some_iff _ k x).1 hx))
      · exact absurd hrel (hreq (j, r) ((Serial.get?_eq_some_iff _ j r).1 hr))
  refine ⟨fun k x' hx' => ?_, fun j r' hr' key hkey => ?_⟩
  · rcases hch.files k x' hx' with ⟨x, hx, hkey⟩ | ⟨i, r, hr, hrel⟩
    · rw [hkey]
      exact hkeep _ (h.rows k x hx) (.inl ⟨k, x, hx, rfl⟩)
    · exact hkeep _ (h.relied i r hr _ hrel) (.inr ⟨i, r, hr, hrel⟩)
  · rcases hch.requests j r' hr' key hkey with ⟨r, hr, hrel⟩ | hput
    · exact hkeep _ (h.relied j r hr key hrel) (.inr ⟨j, r, hr, hrel⟩)
    · exact hput

/-- **Rows stay backed as long as the clean-up is safe**: in every run of the tenant's requests in
    which each deleted key is named by no committed row and relied on by no request in flight, every
    row of every state reached names a blob that exists. -/
theorem rowsBacked_of_safe_cleanup {c : Content} {tenantId : Int} {s u : Server}
    {es : List (Edge Server Act)} (h0 : s.RowsBacked) (hidle : s.requests.rows = [])
    (hrun : Run (Fires (step c tenantId)) s es u) (hsafe : ∀ e ∈ es, SafeCleanup e) :
    u.RowsBacked ∧ ∀ e ∈ es, e.dst.RowsBacked := by
  have hstart : Backed s := ⟨h0, fun j r hr => absurd hr (by simp [Serial.get?_of_rows_nil hidle])⟩
  obtain ⟨hu, hes⟩ := hrun.edges_where hstart (fun e hs hsafe h => backed_step hs hsafe h) hsafe
  exact ⟨hu.rows, fun e he => (hes e he).2.2.rows⟩

instance (s : Server) : Decidable s.RowsBacked :=
  decidable_of_iff (∀ x ∈ s.db.files.rows, (s.blobs x.2.blobKey).isSome = true) <| by
    simp [Server.RowsBacked, Serial.get?_eq_some_iff]

/-- A digest and a detector good enough for one text file. -/
def sampleContent : Content := ⟨fun _ => ⟨List.replicate 32 7, by simp⟩, fun _ => "text/plain"⟩

/-- The upload of one small text file. -/
def sampleUpload : Act := .upload none false ⟨200, 2000⟩ ⟨[⟨[104, 105], none, some "a.txt"⟩], none⟩

/-- No documents, no blobs, no requests. -/
def Server.fresh : Server := ⟨emptyDb, fun _ => none, Serial.empty, []⟩

/-- An upload whose staging fails, with nobody else around: its clean-up is safe. -/
def failedStaging : List Act :=
  [sampleUpload, .advance 1 .ok 0, .advance 1 .ok 0, .advance 1 (.failed "connection closed") 0,
    .advance 1 .ok 0]

theorem rowsBacked_of_failed_staging :
    ∃ es u, runEdges (step sampleContent 1) Server.fresh failedStaging = some (es, u) ∧
      (∃ e ∈ es, (deleted e.src e.label).isSome) ∧ u.RowsBacked ∧ ∀ e ∈ es, e.dst.RowsBacked := by
  obtain ⟨⟨es, u⟩, hrun, hsafe, hdeletes⟩ : ∃ r ∈ runEdges (step sampleContent 1) Server.fresh failedStaging,
      (∀ e ∈ r.1, SafeCleanup e) ∧ ∃ e ∈ r.1, (deleted e.src e.label).isSome := by decide +kernel
  exact ⟨es, u, hrun, hdeletes, rowsBacked_of_safe_cleanup (by decide +kernel) rfl
    (run_of_runEdges (fun _ _ _ _ h => h) hrun) hsafe⟩

/-- The upload is staged, and its enqueue fails. -/
def failedEnqueue : List Act :=
  [sampleUpload, .advance 1 .ok 0, .advance 1 .ok 0, .advance 1 .ok 0,
    .advance 1 (.failed "connection closed") 0, .advance 1 .ok 0]

/-- The upload is accepted; a second upload of the same bytes fails to stage. -/
def failedTwin : List Act :=
  [sampleUpload, .advance 1 .ok 0, .advance 1 .ok 0, .advance 1 .ok 0, .advance 1 .ok 0,
    sampleUpload, .advance 2 .ok 0, .advance 2 .ok 0, .advance 2 (.failed "connection closed") 0,
    .advance 2 .ok 0]

/-- A run on these labels exists, and it ends with a row whose blob is gone. -/
def Unbacks (as : List Act) : Prop :=
  ∃ es u, Run (Fires (step sampleContent 1)) Server.fresh es u ∧ es.map Edge.label = as ∧
    ¬ u.RowsBacked

/-- Two ways to lose a committed row's blob: after a failed enqueue the clean-up deletes the blob of
    the row the request has just committed, and after a failed staging it deletes a blob that the row
    of an earlier upload of the same bytes names. -/
theorem cleanup_unbacks_rows : Unbacks failedEnqueue ∧ Unbacks failedTwin :=
  ⟨exists_run_of_holds (by decide +kernel), exists_run_of_holds (by decide +kernel)⟩

variable {key : String} {s : Server}

/-- A key is deleted only by a clean-up, at its turn, by a delete that takes effect. -/
theorem deleted_inv {a : Act} (h : deleted s a = some key) :
    ∃ i outcome now r rest err, a = .advance i outcome now ∧ s.requests.get? i = some r ∧
      r.phase = .cleanup (key :: rest) err ∧ ∀ e, outcome ≠ .failed e := by
  cases a with
  | advance i outcome now =>
    simp only [deleted] at h
    split at h <;> cases h
    next key' rest err hphase =>
      obtain ⟨r, hget, hphase⟩ := Option.map_eq_some_iff.1 hphase
      exact ⟨i, _, now, r, rest, err, rfl, hget, hphase, by simp⟩
    next key' rest err e hphase =>
      obtain ⟨r, hget, hphase⟩ := Option.map_eq_some_iff.1 hphase
      exact ⟨i, _, now, r, rest, err, rfl, hget, hphase, by simp⟩
  | _ => exact absurd h (by simp [deleted])

theorem deleteBlob_gone {i : ℕ} {rest : List String} {err : String} {outcome : Outcome} (h : ∀ e, outcome ≠ .failed e) :
    (deleteBlob s i key rest err outcome).db = s.db ∧
      (deleteBlob s i key rest err outcome).blobs key = none := by
  cases outcome with
  | failed e => exact absurd rfl (h e)
  | ok | lost e => exact ⟨gotoCleanup_db .., by simp [deleteBlob]⟩

/-- The condition on rows is necessary: deleting a key that a row names leaves that row without its
    blob. -/
theorem not_rowsBacked_of_deleted {c : Content} {s' : Server} {a : Act}
    (hs : step c tenantId s a = some s') (hdel : deleted s a = some key)
    (hrow : ∃ k x, s.db.files.get? k = some x ∧ x.blobKey = key) : ¬ s'.RowsBacked := by
  obtain ⟨i, outcome, now, r, rest, err, rfl, hget, hphase, hok⟩ := deleted_inv hdel
  obtain rfl : deleteBlob s i key rest err outcome = s' := by
    simpa [step, hget, advance, hphase] using hs
  obtain ⟨hdb, hgone⟩ := @deleteBlob_gone key s i rest err outcome hok
  obtain ⟨k, x, hx, rfl⟩ := hrow
  intro hbacked
  have hsome := hbacked k x (hdb ▸ hx)
  rw [hgone] at hsome
  cases hsome

end Tagsmaxxing.IngestHandler
