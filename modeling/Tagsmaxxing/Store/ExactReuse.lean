import Mathlib.Data.Finset.Dedup
import Tagsmaxxing.Store.IngestIdempotence

/-! # When an ingest reuses a document (`pg_store.rs`)

The reuse lookup of `transactional_ingest` compares two counts with the number of files: the rows of a
document that match a listed file, and the live rows of the document. The first count ranges over all
rows, tombstones included, the second over live rows only. So a document qualifies in two ways: its live
pairs are the upload's (`liveSet = incomingSet`), or it once held a listed file that has been superseded
since, and has as many live rows as the upload has files (`Lookalike`). -/

namespace Tagsmaxxing.Store

/-! ## The two ways to qualify -/

/-- The `(sha256, path)` pairs of the live rows of document `d`. -/
def liveSet (tenantId : Int) (t : Serial FileRow) (d : ℕ) : Finset (Sha256 × Option String) :=
  (((docRows tenantId d t).filter fun r => r.2.supersededAt.isNone).map fun r => rowKey r.2).toFinset

/-- The `(sha256, path)` pairs of an upload. -/
def incomingSet (files : List FileRecord) : Finset (Sha256 × Option String) :=
  (files.map FileRecord.key).toFinset

/-- Document `d` has a row for every listed file, one of them a tombstone, and as many live rows as files
    are listed. -/
structure Lookalike (tenantId : Int) (files : List FileRecord) (t : Serial FileRow) (d : ℕ) : Prop where
  present : ∀ f ∈ files, ∃ r ∈ docRows tenantId d t, rowKey r.2 = f.key
  tombstoned : ∃ f ∈ files, ∃ r ∈ docRows tenantId d t, rowKey r.2 = f.key ∧ r.2.supersededAt ≠ none
  size : ((docRows tenantId d t).countP fun r => r.2.supersededAt.isNone) = files.length

section Qualify

variable {tenantId : Int} {files : List FileRecord} {t : Serial FileRow} {d : ℕ}

theorem mem_liveSet (k : Sha256 × Option String) : k ∈ liveSet tenantId t d ↔
    ∃ r ∈ docRows tenantId d t, r.2.supersededAt = none ∧ rowKey r.2 = k := by
  simp only [liveSet, List.mem_toFinset, List.mem_map, List.mem_filter, Option.isNone_iff_eq_none, and_assoc]

theorem mem_incomingSet (k : Sha256 × Option String) : k ∈ incomingSet files ↔ ∃ f ∈ files, f.key = k := by
  simp only [incomingSet, List.mem_toFinset, List.mem_map]

theorem counted_finalize (r : ℕ × FileRow) : counted .finalize r = true ↔ r.2.supersededAt = none :=
  Option.isNone_iff_eq_none

/-- The sets are equal if the live rows cover the upload and are all the upload's. -/
theorem liveSet_eq_iff : liveSet tenantId t d = incomingSet files ↔
    (∀ f ∈ files, ∃ r ∈ docRows tenantId d t, counted .finalize r = true ∧ rowKey r.2 = f.key) ∧
      ∀ r ∈ docRows tenantId d t, counted .finalize r = true → ∃ f ∈ files, rowKey r.2 = f.key := by
  simp only [Finset.Subset.antisymm_iff, Finset.subset_iff, mem_liveSet, mem_incomingSet, counted_finalize,
    forall_exists_index, and_imp, forall_apply_eq_imp_iff₂]
  rw [and_comm]
  refine and_congr_right' ⟨fun h r hr hlive => ?_, ?_⟩
  · obtain ⟨f, hf, hkey⟩ := h r hr hlive rfl
    exact ⟨f, hf, hkey.symm⟩
  · rintro h _ r hr hlive rfl
    obtain ⟨f, hf, hkey⟩ := h r hr hlive
    exact ⟨f, hf, hkey.symm⟩

/-- **What the lookup's two counts say.** -/
theorem hasFileSet_finalize_iff (hu : UniqueFiles t) (hnd : (files.map FileRecord.sha256).Nodup) :
    hasFileSet .finalize tenantId files t d = true ↔
      liveSet tenantId t d = incomingSet files ∨ Lookalike tenantId files t d := by
  constructor
  · intro h
    by_cases hlive : ∀ f ∈ files, ∃ r ∈ docRows tenantId d t, counted .finalize r = true ∧ rowKey r.2 = f.key
    · exact .inl (liveSet_eq_iff.2 ⟨hlive, (hasFileSet_iff_of_present hu hnd hlive).1 h⟩)
    · -- some listed file matched a tombstone only
      simp only [hasFileSet, Bool.and_eq_true, beq_iff_eq, joinCount_eq_iff hu] at h
      obtain ⟨hjoin, hsize⟩ := h
      push Not at hlive
      obtain ⟨f, hf, hdead⟩ := hlive
      obtain ⟨r, hr, hkey⟩ := hjoin f hf
      have hsuperseded : r.2.supersededAt ≠ none := fun hnone =>
        hdead r hr ((counted_finalize r).2 hnone) hkey
      exact .inr ⟨hjoin, ⟨f, hf, r, hr, hkey, hsuperseded⟩, hsize⟩
  · rintro (h | h)
    · obtain ⟨hlive, honly⟩ := liveSet_eq_iff.1 h
      exact (hasFileSet_iff_of_present hu hnd hlive).2 honly
    · have hjoin := (joinCount_eq_iff hu).2 h.present
      have hsize : sizeCount .finalize tenantId t d = files.length := h.size
      simp [hasFileSet, hjoin, hsize]

/-- The two ways exclude each other: a hash has one row in a document. -/
theorem Lookalike.liveSet_ne (hu : UniqueFiles t) (h : Lookalike tenantId files t d) :
    liveSet tenantId t d ≠ incomingSet files := by
  intro heq
  obtain ⟨f, hf, r, hr, hkey, hsuperseded⟩ := h.tombstoned
  have hmem : f.key ∈ liveSet tenantId t d := heq ▸ (mem_incomingSet _).2 ⟨f, hf, rfl⟩
  obtain ⟨r', hr', hlive, hkey'⟩ := (mem_liveSet _).1 hmem
  obtain rfl : r' = r := eq_of_docRows hu hr' hr (congrArg Prod.fst (hkey'.trans hkey.symm))
  exact hsuperseded hlive

end Qualify

/-! ## The document a call writes -/

section Call

variable {doc : Document} {files : List FileRecord} {tagIds : List ℕ} {now : Time} {db db' : Db} {d : ℕ}

/-- A call with `doc.id = 0` updates the document the lookup finds, or inserts a new one if it finds
    none. -/
theorem transactionalIngest_fresh (hc : Consistent db) (hid : doc.id = 0)
    (hok : transactionalIngest doc files tagIds now db = .ok (d, db')) :
    (files ≠ [] ∧ lookupFileSet .finalize doc.tenantId files db.files = some d ∧
      ∃ row, db.documents.get? d = some row) ∨
    ((files ≠ [] → lookupFileSet .finalize doc.tenantId files db.files = none) ∧
      d = db.documents.next ∧ db'.documents = db.documents.insert (newReadyRow doc)) := by
  obtain ⟨-, hdoc, -⟩ := transactionalIngest_ok hok
  have htarget : ingestTarget doc files db =
      if files = [] then 0 else (lookupFileSet .finalize doc.tenantId files db.files).getD 0 := by
    simp [ingestTarget, hid]
  rw [htarget] at hdoc
  obtain ⟨hpos, hd, ⟨row, hrow, -⟩, -⟩ | ⟨hzero, hd, hdocuments⟩ := resolveDocument_ok hdoc
  · split_ifs at hpos hd with hne
    · cases hpos
    · cases hl : lookupFileSet .finalize doc.tenantId files db.files with
      | none =>
        rw [hl] at hpos
        cases hpos
      | some e =>
        obtain rfl : d = e := by rwa [hl] at hd
        exact .inl ⟨hne, rfl, row, hrow⟩
  · refine .inr ⟨fun hne => ?_, hd, hdocuments⟩
    rw [if_neg hne] at hzero
    by_contra hsome
    -- the lookup returns a document that exists, and ids are positive
    obtain ⟨e, hl⟩ := Option.ne_none_iff_exists'.1 hsome
    obtain ⟨row, hrow, -⟩ := document_of_lookup hc hne hl
    exact (hc.positive e row hrow).ne' (by rwa [hl] at hzero)

/-- The call that returned `d` reused a document with exactly the upload's live pairs, or else created
    one. -/
def ReusesExactly (doc : Document) (files : List FileRecord) (db : Db) (d : ℕ) (db' : Db) : Prop :=
  ((∃ row, db.documents.get? d = some row) ∧ liveSet doc.tenantId db.files d = incomingSet files) ∨
  (db.documents.get? d = none ∧ db'.documents.get? d = some (newReadyRow doc))

/-- A created document is never a reused one. -/
theorem reusesExactly_of_get? {row : DocumentRow} (hrow : db.documents.get? d = some row) :
    ReusesExactly doc files db d db' ↔ liveSet doc.tenantId db.files d = incomingSet files := by
  constructor
  · rintro (⟨-, h⟩ | ⟨hnone, -⟩)
    · exact h
    · cases hrow.symm.trans hnone
  · exact fun h => .inl ⟨⟨row, hrow⟩, h⟩

theorem reusesExactly_of_insert (hd : d = db.documents.next)
    (hdocuments : db'.documents = db.documents.insert (newReadyRow doc)) :
    ReusesExactly doc files db d db' := by
  subst hd
  exact .inr ⟨db.documents.get?_next, by rw [hdocuments, Serial.get?_insert_next]⟩

/-- **When document reuse is exact**: no document looks like the upload through a tombstone before one
    that holds it. -/
theorem reuse_exact_iff (hc : Consistent db) (hnd : (files.map FileRecord.sha256).Nodup) (hid : doc.id = 0)
    (hok : transactionalIngest doc files tagIds now db = .ok (d, db')) :
    ReusesExactly doc files db d db' ↔
      ∀ e, Lookalike doc.tenantId files db.files e →
        ∃ e' < e, liveSet doc.tenantId db.files e' = incomingSet files := by
  have hqualify : ∀ e, hasFileSet .finalize doc.tenantId files db.files e = true ↔
      liveSet doc.tenantId db.files e = incomingSet files ∨ Lookalike doc.tenantId files db.files e :=
    fun e => hasFileSet_finalize_iff hc.unique hnd
  have hpassed : ∀ e, hasFileSet .finalize doc.tenantId files db.files e = false →
      ¬(liveSet doc.tenantId db.files e = incomingSet files ∨ Lookalike doc.tenantId files db.files e) :=
    fun e hfalse => (hqualify e).not.1 (Bool.eq_false_iff.1 hfalse)
  obtain ⟨hne, hlookup, row, hrow⟩ | ⟨hnone, hd, hdocuments⟩ := transactionalIngest_fresh hc hid hok
  · rw [reusesExactly_of_get? hrow]
    obtain ⟨hfound, hfirst⟩ := (lookupFileSet_eq_some_iff hne).1 hlookup
    constructor
    · intro hexact e he
      refine ⟨d, ?_, hexact⟩
      -- the lookup returned the smallest, and `e` is not it
      have hle : d ≤ e := not_lt.1 fun hlt => hpassed e (hfirst e hlt) (.inr he)
      refine lt_of_le_of_ne hle ?_
      rintro rfl
      exact he.liveSet_ne hc.unique hexact
    · intro hcover
      obtain hexact | hlook := (hqualify d).1 hfound
      · exact hexact
      · obtain ⟨e', hlt, hexact⟩ := hcover d hlook
        exact absurd (.inl hexact) (hpassed e' (hfirst e' hlt))
  · refine iff_of_true (reusesExactly_of_insert hd hdocuments) fun e he => ?_
    -- a lookalike would have been found
    obtain ⟨f, hf, -⟩ := he.tombstoned
    have hne : files ≠ [] := List.ne_nil_of_mem hf
    exact absurd (.inr he) (hpassed e ((lookupFileSet_eq_none_iff hne).1 (hnone hne) e))

end Call

/-! ## Runs -/

/-- A document of tenant 1 as a caller passes it, with the given id. -/
def sampleDocument (id : Int) : Document := ⟨id, 1, none, none, none, .document, "\x7b\x7d", 2, false⟩

/-- A document ingested as pages `a` and `c`, and then again, under its id, as `a` and `b`. -/
def twoVersions : Except String (ℕ × Db) := do
  let (d, db) ← transactionalIngest (sampleDocument 0) [samplePage 7 "a", samplePage 9 "c"] [1] 0 emptyDb
  transactionalIngest (sampleDocument d) [samplePage 7 "a", samplePage 8 "b"] [1] 1 db

/-- The database after both. -/
def twoVersionsDb : Db := (twoVersions.toOption.map Prod.snd).getD emptyDb

/-- After a second document, with pages `a` and `d`. -/
def twoDocumentsDb : Db :=
  ((transactionalIngest (sampleDocument 0) [samplePage 7 "a", samplePage 10 "d"] [1] 2 twoVersionsDb).toOption.map
    Prod.snd).getD emptyDb

/-- Consistency, of the rows of a database that can be looked through. -/
theorem consistent_of_rows {db : Db}
    (hunique : ∀ r ∈ db.files.rows, ∀ x ∈ db.files.rows, conflicts r.2 x.2 = true → r.1 = x.1)
    (howner : ∀ r ∈ db.files.rows, ∃ row ∈ db.documents.get? r.2.documentId, row.tenantId = r.2.tenantId)
    (hpos : ∀ r ∈ db.documents.rows, 0 < r.1) (hnext : 0 < db.documents.next) : Consistent db where
  unique i j x y hi hj :=
    hunique (i, x) ((Serial.get?_eq_some_iff ..).1 hi) (j, y) ((Serial.get?_eq_some_iff ..).1 hj)
  owner k x hx := howner (k, x) ((Serial.get?_eq_some_iff ..).1 hx)
  positive k row hk := hpos (k, row) ((Serial.get?_eq_some_iff ..).1 hk)
  next_pos := hnext

/-- The second document is reused, and the first one passed over: it has the page `a`, and a tombstone. -/
theorem reuse_exact_second_document :
    liveSet 1 twoDocumentsDb.files 1 = incomingSet [samplePage 7 "a", samplePage 8 "b"] ∧
    ∃ db', transactionalIngest (sampleDocument 0) [samplePage 7 "a", samplePage 10 "d"] [1] 3 twoDocumentsDb =
        .ok (2, db') ∧
      ReusesExactly (sampleDocument 0) [samplePage 7 "a", samplePage 10 "d"] twoDocumentsDb 2 db' := by
  have hc : Consistent twoDocumentsDb :=
    consistent_of_rows (by decide +kernel) (by decide +kernel) (by decide +kernel) (by decide +kernel)
  have hdead : ∀ r ∈ twoDocumentsDb.files.rows, r.2.supersededAt ≠ none →
      ∀ f ∈ [samplePage 7 "a", samplePage 10 "d"], rowKey r.2 ≠ f.key := by decide +kernel
  refine ⟨by decide +kernel, Transition.exists_ok_of_imp (fun _ => True) (by decide +kernel) ?_⟩
  intro db' hok _
  refine (reuse_exact_iff hc (by decide) rfl hok).2 fun e he => ?_
  obtain ⟨f, hf, r, hr, hkey, hsuperseded⟩ := he.tombstoned
  exact absurd hkey (hdead r (List.mem_filter.1 hr).1 hsuperseded f hf)

/-- Uploading `a` and `c` as a new document returns the document whose live pages are `a` and `b`, and
    leaves it without `b`. -/
theorem superseded_page_reuses_document :
    twoVersions.toOption.map Prod.fst = some 1 ∧
    liveSet 1 twoVersionsDb.files 1 = incomingSet [samplePage 7 "a", samplePage 8 "b"] ∧
    ∃ db', transactionalIngest (sampleDocument 0) [samplePage 7 "a", samplePage 9 "c"] [1] 2 twoVersionsDb =
        .ok (1, db') ∧
      ¬ ReusesExactly (sampleDocument 0) [samplePage 7 "a", samplePage 9 "c"] twoVersionsDb 1 db' ∧
      liveSet 1 db'.files 1 = incomingSet [samplePage 7 "a", samplePage 9 "c"] := by
  have hrow : (twoVersionsDb.documents.get? 1).isSome = true := by decide +kernel
  have hlive : liveSet 1 twoVersionsDb.files 1 ≠ incomingSet [samplePage 7 "a", samplePage 9 "c"] := by
    decide +kernel
  refine ⟨by decide +kernel, by decide +kernel, ?_⟩
  obtain ⟨row, hrow⟩ := Option.isSome_iff_exists.1 hrow
  refine Transition.exists_ok_of_imp
    (fun db' => liveSet 1 db'.files 1 = incomingSet [samplePage 7 "a", samplePage 9 "c"]) (by decide +kernel) ?_
  exact fun db' _ hafter => ⟨fun h => hlive ((reusesExactly_of_get? hrow).1 h), hafter⟩

end Tagsmaxxing.Store
