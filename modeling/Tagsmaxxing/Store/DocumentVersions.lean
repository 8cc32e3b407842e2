import Tagsmaxxing.Store.Ingest

/-! # Version history of a synced document (`document_versions.rs`)

Two functions write `document_versions`. `insert_document_version_and_advance` numbers its row with the document's
`current_version` and then advances it. `snapshot_current_version_if_none`, called when a source is attached, writes
row 1 and leaves `current_version` where it is. So after a snapshot the next advance finds its number taken, and its
`ON CONFLICT DO NOTHING` drops the row.

A document is `Numbered` by its `current_version` and the largest number present. The first is one ahead of the second,
but for a snapshot that no advance followed yet, when both are 1. The history has a row for every advance unless an
advance meets that state (`complete_iff`). -/

namespace Tagsmaxxing.Store

/-! ## Tables -/

/-- The columns of `documents` that migration `0006` added. -/
structure SyncColumns where
  sourceUrl : Option String := none
  fetchIntervalSecs : Option Int := none
  nextFetchAt : Option Time := none
  lastFetchedAt : Option Time := none
  lastFetchSha256 : Option (List UInt8) := none
  currentVersion : Int := 1
  fetchFailureCount : Int := 0
deriving DecidableEq

structure TagSnapshotEntry where
  name : String
  source : String
  locked : Bool
deriving DecidableEq

/-- A row of `document_versions` without its key `(document_id, version_number)`. -/
structure VersionRow where
  tenantId : Int
  sha256 : Option (List UInt8)
  title : Option String
  summary : Option String
  tagsSnapshot : List TagSnapshotEntry
  chunkCount : Int
  contentDiffSummary : Option String
deriving DecidableEq

/-- The tables that source sync reads and writes. `sync` is the part of a `documents` row that migration
    `0006` added, by the row's id; `tags` and `liveChunks` are what `fetch_tags_snapshot` and
    `count_live_chunks` read of a document. -/
structure SourceDb where
  store : Db
  sync : ℕ → SyncColumns
  versions : Keyed (ℕ × Int) VersionRow
  tags : ℕ → List TagSnapshotEntry
  liveChunks : ℕ → Int

/-- `UPDATE documents SET … WHERE id = $1 AND tenant_id = $2` on the columns of `0006`. -/
def SourceDb.updateSync (tenantId : Int) (docId : ℕ) (f : SyncColumns → SyncColumns) (s : SourceDb) : SourceDb :=
  match getDocument tenantId docId s.store with
  | some _ => { s with sync := Function.update s.sync docId (f (s.sync docId)) }
  | none => s

/-- The largest value of a PostgreSQL `INT`. -/
def intMax : Int := 2147483647

/-! ## The two writers -/

/-- The row `insert_document_version_and_advance` inserts. -/
def advanceRow (tenantId : Int) (docId : ℕ) (newSha256 : Option Sha256)
    (newTitle newSummary diffSummary : Option String) (s : SourceDb) : VersionRow :=
  { tenantId := tenantId, sha256 := newSha256.map Sha256.bytes, title := newTitle,
    summary := newSummary, tagsSnapshot := s.tags docId, chunkCount := s.liveChunks docId,
    contentDiffSummary := diffSummary }

/-- `insert_document_version_and_advance`. A document the tenant does not see makes `version_number` null;
    `current_version + 1` may leave the range of its column. -/
def insertDocumentVersionAndAdvance (tenantId : Int) (docId : ℕ) (newSha256 : Option Sha256)
    (newTitle newSummary diffSummary : Option String) (now : Time) (s : SourceDb) :
    Except String SourceDb :=
  match getDocument tenantId docId s.store with
  | none => .error "failed to insert document version"
  | some _ =>
      let versions := s.versions.insertNew (docId, (s.sync docId).currentVersion)
        (advanceRow tenantId docId newSha256 newTitle newSummary diffSummary s)
      if intMax < (s.sync docId).currentVersion + 1 then .error "failed to advance document version"
      else
        .ok ({ s with versions := versions }.updateSync tenantId docId fun c =>
          { c with
            currentVersion := c.currentVersion + 1
            lastFetchedAt := some now
            lastFetchSha256 := newSha256.map Sha256.bytes
            fetchFailureCount := 0 })

/-- The row `snapshot_current_version_if_none` inserts. -/
def snapshotRow (tenantId : Int) (docId : ℕ) (doc : DocumentRow) (s : SourceDb) : VersionRow :=
  { tenantId := tenantId, sha256 := none, title := doc.title, summary := doc.summary,
    tagsSnapshot := s.tags docId, chunkCount := s.liveChunks docId,
    contentDiffSummary := some "Snapshot at sync enablement" }

/-- The lookup sees only the tenant's rows, the `INSERT` conflicts with
    anybody's, and its `SELECT` gives no row for a document the tenant does not see. -/
def snapshotCurrentVersionIfNone (tenantId : Int) (docId : ℕ) (s : SourceDb) : Except String SourceDb :=
  if ((s.versions.get? (docId, 1)).filter fun r => r.tenantId == tenantId).isSome then .ok s
  else
    match getDocument tenantId docId s.store with
    | none => .ok s
    | some doc =>
        if (s.versions.get? (docId, 1)).isSome then .error "failed to insert v1 snapshot"
        else .ok { s with versions := s.versions.insertNew (docId, 1) (snapshotRow tenantId docId doc s) }

/-! ## The fetch schedule (also `source_sync.rs`) -/

def computeNextFetchAt (now : Time) (clampedIntervalSecs : Option Int) : Option Time :=
  clampedIntervalSecs.map fun secs => now + secs

/-- `compute_failure_backoff`, with `saturating_mul` on `i64`; a negative count is a large `u32`. -/
def computeFailureBackoff (baseSecs failureCount maxBackoffSecs : Int) : Int :=
  let exp := if failureCount < 0 then 5 else min failureCount.toNat 5
  let shifted := max (-2 ^ 63) (min (2 ^ 63 - 1) (baseSecs * 2 ^ exp))
  min shifted maxBackoffSecs

def markDocumentFetchUnchanged (tenantId : Int) (docId : ℕ) (newSha256 : List UInt8) (nextFetchAt now : Time) :
    SourceDb → SourceDb :=
  SourceDb.updateSync tenantId docId fun c =>
    { c with
      lastFetchedAt := some now
      lastFetchSha256 := some newSha256
      nextFetchAt := some nextFetchAt
      fetchFailureCount := 0 }

/-- `mark_document_fetch_failed`; the tenth failure in a row pauses the document. -/
def markDocumentFetchFailed (tenantId : Int) (docId : ℕ) (minFetchInterval maxBackoff : Int) (now : Time)
    (s : SourceDb) : Except String SourceDb :=
  match getDocument tenantId docId s.store with
  | none => .error "failed to read document for failure backoff"
  | some _ =>
      let newCount := min ((s.sync docId).fetchFailureCount + 1) 10
      let base := (s.sync docId).fetchIntervalSecs.getD minFetchInterval
      .ok (s.updateSync tenantId docId fun c =>
        { c with
          fetchFailureCount := newCount
          nextFetchAt := if 10 ≤ newCount then none
            else some (now + computeFailureBackoff base newCount maxBackoff)
          lastFetchedAt := some now })

def setDocumentNextFetchAt (tenantId : Int) (docId : ℕ) (nextFetchAt : Time) : SourceDb → SourceDb :=
  SourceDb.updateSync tenantId docId fun c => { c with nextFetchAt := some nextFetchAt }

/-! ## Sequences of calls -/

/-- A call of one of the two writers on a document. -/
inductive VersionCall
  | snapshot (tenantId : Int)
  | advance (tenantId : Int) (newSha256 : Option Sha256) (newTitle newSummary diffSummary : Option String)
      (now : Time)

def VersionCall.run (docId : ℕ) : VersionCall → SourceDb → Except String SourceDb
  | .snapshot tenantId, s => snapshotCurrentVersionIfNone tenantId docId s
  | .advance tenantId sha title summary diff now, s =>
      insertDocumentVersionAndAdvance tenantId docId sha title summary diff now s

/-- The calls one after the other, if all of them succeed. -/
def runCalls (docId : ℕ) : List VersionCall → SourceDb → Except String SourceDb
  | [], s => .ok s
  | c :: cs, s =>
      match c.run docId s with
      | .error e => .error e
      | .ok s' => runCalls docId cs s'

def VersionCall.isAdvance : VersionCall → Bool
  | .snapshot _ => false
  | .advance .. => true

/-! ## Completeness -/

/-- The document has a row with this version number. -/
def SourceDb.HasVersion (s : SourceDb) (docId : ℕ) (n : Int) : Prop := (s.versions.get? (docId, n)).isSome

/-- The version numbers present are contiguous from 1. -/
def Contiguous (docId : ℕ) (s : SourceDb) : Prop :=
  ∃ k : Int, ∀ n, s.HasVersion docId n ↔ 1 ≤ n ∧ n ≤ k

/-- An advance added one row, and the row carries what the call was given. -/
def VersionCall.Recorded (docId : ℕ) : VersionCall → SourceDb → SourceDb → Prop
  | .snapshot _, _, _ => True
  | .advance _ sha title summary diff _, s, s' =>
      ∃ n row, s'.versions.rows = s.versions.rows ++ [((docId, n), row)] ∧
        row.sha256 = sha.map Sha256.bytes ∧ row.title = title ∧ row.summary = summary ∧
        row.contentDiffSummary = diff

/-- The history stays contiguous and every advance is recorded. -/
def Complete (docId : ℕ) : List VersionCall → SourceDb → Prop
  | [], s => Contiguous docId s
  | c :: cs, s =>
      Contiguous docId s ∧ ∀ s', c.run docId s = .ok s' → c.Recorded docId s s' ∧ Complete docId cs s'

/-- An advance follows a snapshot by the document's tenant that came before any advance. -/
def snapshotFirst (tenantId : Int) : List VersionCall → Bool
  | [] => false
  | .advance .. :: _ => false
  | .snapshot t :: cs =>
      if t = tenantId then cs.any VersionCall.isAdvance else snapshotFirst tenantId cs

/-! ## One call -/

/-- The tenant's document stands at version `v`, and its rows are those numbered `1` to `k`. -/
structure Numbered (tenantId : Int) (docId : ℕ) (v k : Int) (s : SourceDb) : Prop where
  visible : ∃ row, s.store.documents.get? docId = some row ∧ row.tenantId = tenantId
  own : ∀ n r, s.versions.get? (docId, n) = some r → r.tenantId = tenantId
  current : (s.sync docId).currentVersion = v
  present : ∀ n, s.HasVersion docId n ↔ 1 ≤ n ∧ n ≤ k

section Calls

variable {tenantId t : Int} {docId : ℕ} {v k : Int} {s s' : SourceDb}
  {sha : Option Sha256} {title summary diff : Option String} {now : Time}

section

variable (hrun : insertDocumentVersionAndAdvance t docId sha title summary diff now s = .ok s')
  (h : Numbered tenantId docId v k s)

include h

theorem Numbered.contiguous : Contiguous docId s := ⟨k, h.present⟩

/-- Row-level security shows the document to its tenant only. -/
theorem Numbered.getDocument_eq (t : Int) :
    (∃ row, getDocument t docId s.store = some row) ↔ t = tenantId := by
  obtain ⟨row, hrow, rfl⟩ := h.visible
  simp only [getDocument, hrow, Option.filter_eq_some_iff, Option.some.injEq, beq_iff_eq]
  constructor
  · rintro ⟨_, rfl, ht⟩
    exact ht.symm
  · intro ht
    exact ⟨row, rfl, ht.symm⟩

theorem Numbered.getDocument_none (ht : t ≠ tenantId) :
    getDocument t docId s.store = none := by
  rw [Option.eq_none_iff_forall_not_mem]
  intro row hrow
  exact ht ((h.getDocument_eq t).1 ⟨row, hrow⟩)

theorem Numbered.get?_eq_none {n : Int} (hn : k < n) :
    s.versions.get? (docId, n) = none := by
  rw [← Option.not_isSome_iff_eq_none]
  intro hsome
  have hle := ((h.present n).1 hsome).2
  omega

include hrun

/-- What a successful advance does: it is the tenant's, inserts at the current version unless the number
    is taken, and moves the version on. -/
theorem Numbered.advance_inv : t = tenantId ∧ s'.store = s.store ∧ (s'.sync docId).currentVersion = v + 1 ∧
      s'.versions = s.versions.insertNew (docId, v) (advanceRow t docId sha title summary diff s) := by
  unfold insertDocumentVersionAndAdvance at hrun
  split at hrun
  · cases hrun
  next row hrow =>
    have ht : t = tenantId := (h.getDocument_eq t).1 ⟨row, hrow⟩
    split at hrun <;> cases hrun
    subst ht
    simp [SourceDb.updateSync, hrow, h.current]

/-- An advance at a number that is taken drops its row and moves the version on all the same. -/
theorem Numbered.advance_taken (hv : 1 ≤ v ∧ v ≤ k) :
    s'.versions = s.versions ∧ Numbered tenantId docId (v + 1) k s' := by
  obtain ⟨rfl, hstore, hcurrent, hversions⟩ := h.advance_inv hrun
  obtain ⟨x, hx⟩ := Option.isSome_iff_exists.1 ((h.present v).2 hv)
  rw [Keyed.insertNew_of_some hx] at hversions
  refine ⟨hversions, by rw [hstore]; exact h.visible, ?_, hcurrent, ?_⟩
  · rw [hversions]
    exact h.own
  · simpa only [SourceDb.HasVersion, hversions] using h.present

omit h in
/-- An advance at a number that is free adds its row there. -/
theorem Numbered.advance_free (h : Numbered tenantId docId (k + 1) k s) (hk : 0 ≤ k) :
    (VersionCall.advance t sha title summary diff now).Recorded docId s s' ∧
      Numbered tenantId docId (k + 1 + 1) (k + 1) s' := by
  obtain ⟨rfl, hstore, hcurrent, hversions⟩ := h.advance_inv hrun
  have hfree : s.versions.get? (docId, k + 1) = none := h.get?_eq_none (by omega)
  refine ⟨?_, by rw [hstore]; exact h.visible, ?_, hcurrent, ?_⟩
  · rw [VersionCall.Recorded, hversions, Keyed.rows_insertNew_of_none hfree]
    exact ⟨k + 1, _, rfl, rfl, rfl, rfl, rfl⟩
  · intro n r hget
    rw [hversions, Keyed.get?_insertNew, hfree] at hget
    split at hget
    · cases hget
      rfl
    · exact h.own n r hget
  · intro n
    rw [SourceDb.HasVersion, hversions, Keyed.get?_insertNew]
    by_cases hn : n = k + 1
    · simp only [hn, if_true, Option.isSome_some, true_iff]
      omega
    · rw [if_neg (by simpa using hn)]
      exact (h.present n).trans (by omega)

end

variable {c : VersionCall}

theorem not_recorded_of_versions_eq (hc : c.isAdvance = true) (h : s'.versions = s.versions) :
    ¬ c.Recorded docId s s' := by
  cases c with
  | snapshot t => cases hc
  | advance t sha title summary diff now =>
    rintro ⟨n, row, hrows, -⟩
    rw [h] at hrows
    simpa using congrArg List.length hrows

/-- A snapshot of a document that has a row 1, or by another tenant, changes nothing. -/
theorem Numbered.snapshot_noop (h : Numbered tenantId docId v k s) (hk : 1 ≤ k ∨ t ≠ tenantId)
    (hrun : snapshotCurrentVersionIfNone t docId s = .ok s') : s' = s := by
  unfold snapshotCurrentVersionIfNone at hrun
  by_cases ht : t = tenantId
  · subst ht
    have hk : 1 ≤ k := hk.resolve_right fun hne => hne rfl
    obtain ⟨x, hx⟩ := Option.isSome_iff_exists.1 ((h.present 1).2 ⟨le_refl _, hk⟩)
    have hown := h.own 1 x hx
    simp only [hx, Option.filter_some, hown, beq_self_eq_true, if_true, Option.isSome_some] at hrun
    cases hrun
    rfl
  · rw [h.getDocument_none ht] at hrun
    simp only [ite_self] at hrun
    cases hrun
    rfl

/-- The first snapshot writes row 1 and leaves the version where it is. -/
theorem Numbered.snapshot_first (h : Numbered tenantId docId v 0 s)
    (hrun : snapshotCurrentVersionIfNone tenantId docId s = .ok s') : Numbered tenantId docId v 1 s' := by
  have hfree : s.versions.get? (docId, 1) = none := h.get?_eq_none (by omega)
  obtain ⟨row, hrow⟩ := (h.getDocument_eq tenantId).2 rfl
  simp only [snapshotCurrentVersionIfNone, hfree, hrow, Option.filter_none, Option.isSome_none,
    Bool.false_eq_true, if_false] at hrun
  cases hrun
  refine ⟨h.visible, ?_, h.current, ?_⟩
  · intro n r hget
    simp only [Keyed.get?_insertNew, hfree] at hget
    split at hget
    · cases hget
      rfl
    · exact h.own n r hget
  · intro n
    simp only [SourceDb.HasVersion, Keyed.get?_insertNew, Prod.mk.injEq, true_and]
    by_cases hn : n = 1
    · simp [hn]
    · rw [if_neg hn]
      exact (h.present n).trans (by omega)

/-! ## Runs -/

variable {s'' : SourceDb} {cs : List VersionCall}

theorem runCalls_cons (h : runCalls docId (c :: cs) s = .ok s'') :
    ∃ s', c.run docId s = .ok s' ∧ runCalls docId cs s' = .ok s'' := by
  rw [runCalls] at h
  cases hc : c.run docId s with
  | error e => simp [hc] at h
  | ok s' => exact ⟨s', rfl, by simpa [hc] using h⟩

theorem complete_cons_iff (hrun : c.run docId s = .ok s') :
    Complete docId (c :: cs) s ↔ Contiguous docId s ∧ c.Recorded docId s s' ∧ Complete docId cs s' := by
  rw [Complete]
  constructor
  · rintro ⟨hcontiguous, hnext⟩
    exact ⟨hcontiguous, hnext s' hrun⟩
  · rintro ⟨hcontiguous, hnext⟩
    refine ⟨hcontiguous, fun s'' hrun' => ?_⟩
    cases hrun.symm.trans hrun'
    exact hnext

variable (cs : List VersionCall)

/-- Once an advance has passed row 1, every later advance finds its number free. -/
theorem Numbered.complete (h : Numbered tenantId docId (k + 1) k s) (hk : 1 ≤ k) : Complete docId cs s := by
  induction cs generalizing s k with
  | nil => exact h.contiguous
  | cons c cs ih =>
    refine ⟨h.contiguous, fun s' hrun => ?_⟩
    cases c with
    | snapshot t =>
      rw [h.snapshot_noop (.inl hk) hrun]
      exact ⟨trivial, ih h hk⟩
    | advance t sha title summary diff now =>
      obtain ⟨hrecorded, hnext⟩ := h.advance_free hrun (by omega)
      exact ⟨hrecorded, ih hnext (by omega)⟩

/-- After a snapshot that no advance followed, the first advance is not recorded. -/
theorem Numbered.complete_snapped_iff (h : Numbered tenantId docId 1 1 s) (hrun : runCalls docId cs s = .ok s'') :
    Complete docId cs s ↔ cs.any VersionCall.isAdvance = false := by
  induction cs with
  | nil => simpa [Complete] using h.contiguous
  | cons c cs ih =>
    obtain ⟨s', hc, hcs⟩ := runCalls_cons hrun
    rw [complete_cons_iff hc]
    cases c with
    | snapshot t =>
      obtain rfl := h.snapshot_noop (.inl le_rfl) hc
      rw [ih hcs]
      simp [h.contiguous, VersionCall.Recorded, VersionCall.isAdvance]
    | advance t sha title summary diff now =>
      have hdropped := (h.advance_taken hc ⟨le_rfl, le_rfl⟩).1
      have hnot : ¬ (VersionCall.advance t sha title summary diff now).Recorded docId s s' :=
        not_recorded_of_versions_eq rfl hdropped
      simp [hnot, VersionCall.isAdvance]

theorem Numbered.complete_fresh_iff (h : Numbered tenantId docId 1 0 s) (hrun : runCalls docId cs s = .ok s'') :
    Complete docId cs s ↔ snapshotFirst tenantId cs = false := by
  induction cs with
  | nil => simpa [Complete, snapshotFirst] using h.contiguous
  | cons c cs ih =>
    obtain ⟨s', hc, hcs⟩ := runCalls_cons hrun
    rw [complete_cons_iff hc]
    cases c with
    | snapshot t =>
      rw [snapshotFirst]
      by_cases ht : t = tenantId
      · subst ht
        rw [if_pos rfl, (h.snapshot_first hc).complete_snapped_iff cs hcs]
        simp [h.contiguous, VersionCall.Recorded]
      · obtain rfl := h.snapshot_noop (.inr ht) hc
        rw [if_neg ht, ih hcs]
        simp [h.contiguous, VersionCall.Recorded]
    | advance t sha title summary diff now =>
      obtain ⟨hrecorded, hnext⟩ := h.advance_free (k := 0) hc le_rfl
      simpa [snapshotFirst, h.contiguous, hrecorded] using hnext.complete cs (by omega)

/-- The version numbers are contiguous from 1 after every sequence of calls that succeed. -/
theorem Numbered.contiguous_runCalls (h : Numbered tenantId docId v k s) (hv : v = k + 1 ∧ 0 ≤ k ∨ v = 1 ∧ k = 1)
    (hrun : runCalls docId cs s = .ok s') : Contiguous docId s' := by
  induction cs generalizing s v k with
  | nil =>
    cases hrun
    exact h.contiguous
  | cons c cs ih =>
    obtain ⟨s₁, hc, hcs⟩ := runCalls_cons hrun
    cases c with
    | snapshot t =>
      by_cases hnoop : 1 ≤ k ∨ t ≠ tenantId
      · exact ih (h.snapshot_noop hnoop hc ▸ h) hv hcs
      · push Not at hnoop
        obtain ⟨hk, rfl⟩ := hnoop
        obtain ⟨rfl, rfl⟩ : v = 1 ∧ k = 0 := by omega
        exact ih (h.snapshot_first hc) (.inr ⟨rfl, rfl⟩) hcs
    | advance t sha title summary diff now =>
      obtain ⟨rfl, hk⟩ | ⟨rfl, rfl⟩ := hv
      · exact ih (h.advance_free hc hk).2 (.inl ⟨rfl, by omega⟩) hcs
      · exact ih (h.advance_taken hc ⟨le_rfl, le_rfl⟩).2 (.inl ⟨rfl, by omega⟩) hcs

end Calls

/-- The history of a new document is complete after a sequence of calls that succeed exactly if no advance
    follows a snapshot that came first; its numbers are contiguous in any case. -/
theorem complete_iff {docId : ℕ} {row : DocumentRow} {calls : List VersionCall} {s s' : SourceDb}
    (hdoc : s.store.documents.get? docId = some row) (hversion : (s.sync docId).currentVersion = 1)
    (hempty : ∀ n, s.versions.get? (docId, n) = none) (hrun : runCalls docId calls s = .ok s') :
    (Complete docId calls s ↔ snapshotFirst row.tenantId calls = false) ∧ Contiguous docId s' := by
  have hfresh : Numbered row.tenantId docId 1 0 s := by
    refine ⟨⟨row, hdoc, rfl⟩, fun n r hget => ?_, hversion, fun n => ?_⟩
    · rw [hempty n] at hget
      cases hget
    · simp only [SourceDb.HasVersion, hempty n, Option.isSome_none, Bool.false_eq_true, false_iff]
      omega
  exact ⟨hfresh.complete_fresh_iff calls hrun, hfresh.contiguous_runCalls calls (.inl ⟨rfl, le_rfl⟩) hrun⟩

/-! ## Runs -/

/-- A digest of 32 equal bytes. -/
def filledSha256 (b : UInt8) : Sha256 := ⟨List.replicate 32 b, Sha256.length_filled b⟩

def syncedRow : DocumentRow :=
  { tenantId := 1, title := none, summary := none, userNote := none, kind := .document, metaJson := "",
    pageCount := 1, status := .ready, localOnly := false }

/-- Document 1 of tenant 1, at version 1 and without history. -/
def syncedDb : SourceDb where
  store := ⟨Serial.empty, Serial.empty.insert syncedRow, Serial.empty⟩
  sync := fun _ => {}
  versions := Keyed.empty
  tags := fun _ => []
  liveChunks := fun _ => 3

def advanceTo (b : UInt8) : VersionCall :=
  .advance 1 (some (filledSha256 b)) (some "title") none (some "changed") 10

theorem complete_without_snapshot :
    ∃ s', runCalls 1 [advanceTo 7, .snapshot 1, advanceTo 8] syncedDb = .ok s' ∧
      Complete 1 [advanceTo 7, .snapshot 1, advanceTo 8] syncedDb := by
  have hdoc : syncedDb.store.documents.get? 1 = some syncedRow := rfl
  exact ⟨_, rfl, (complete_iff hdoc rfl (fun _ => rfl) rfl).1.2 rfl⟩

/-- The source is attached, its content changes, and the history has the snapshot only. -/
theorem snapshot_hides_first_advance :
    ∃ s', runCalls 1 [.snapshot 1, advanceTo 7] syncedDb = .ok s' ∧
      (s'.sync 1).currentVersion = 2 ∧
      s'.versions.rows.map (fun r => (r.1, r.2.sha256)) = [((1, 1), none)] ∧
      ¬ Complete 1 [.snapshot 1, advanceTo 7] syncedDb := by
  refine ⟨_, rfl, rfl, rfl, fun hcomplete => ?_⟩
  have hafter := ((complete_cons_iff rfl).1 hcomplete).2.2
  have hrecorded := ((complete_cons_iff rfl).1 hafter).2.1
  exact not_recorded_of_versions_eq (c := advanceTo 7) rfl rfl hrecorded

end Tagsmaxxing.Store
