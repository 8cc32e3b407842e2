import Tagsmaxxing.Store.Ingest

/-! # The file set of a document

What one ingest does to the file rows. The upsert loop, the lookup by file set and the tombstones each
get one lemma that says what they do to a table; `Ran` puts them together for a whole ingest, and
`Ran.stored` and `Ran.again` say that an ingest leaves its upload stored, and that ingesting a stored
upload changes nothing that counts, as long as the hashes of the upload are distinct. -/

namespace Tagsmaxxing.Store

open List

/-! ## The unique index and the foreign key -/

/-- `files_tenant_sha256_doc_unique`. -/
def UniqueFiles (t : Serial FileRow) : Prop :=
  ∀ i j x y, t.get? i = some x → t.get? j = some y → conflicts x y = true → i = j

/-- What the schema guarantees about documents and files: the unique index, and every file row's
    document exists in the row's own tenant. Ids come from a sequence that starts at one. -/
structure Consistent (db : Db) : Prop where
  unique : UniqueFiles db.files
  owner : ∀ k x, db.files.get? k = some x →
    ∃ row, db.documents.get? x.documentId = some row ∧ row.tenantId = x.tenantId
  positive : ∀ k row, db.documents.get? k = some row → 0 < k
  next_pos : 0 < db.documents.next

/-- The database before any ingest. -/
def emptyDb : Db := ⟨Serial.empty, Serial.empty, Serial.empty⟩

theorem consistent_emptyDb : Consistent emptyDb :=
  ⟨fun i j x y hi => absurd hi (by simp [emptyDb]), fun k x hx => absurd hx (by simp [emptyDb]),
    fun k row hk => absurd hk (by simp [emptyDb]), Nat.one_pos⟩

theorem conflicts_iff (x y : FileRow) : conflicts x y = true ↔
    y.tenantId = x.tenantId ∧ y.sha256 = x.sha256 ∧ y.documentId = x.documentId := by
  simp [conflicts, and_assoc]

theorem conflicts_comm (x y : FileRow) : conflicts x y = conflicts y x := by
  rw [Bool.eq_iff_iff, conflicts_iff, conflicts_iff]
  simp only [eq_comm]

variable {x : FileRow}

theorem conflicts_trans {y z : FileRow} (hxy : conflicts x y = true) (hyz : conflicts y z = true) :
    conflicts x z = true := by
  rw [conflicts_iff] at *
  exact ⟨hyz.1.trans hxy.1, hyz.2.1.trans hxy.2.1, hyz.2.2.trans hxy.2.2⟩

/-! ## One upsert -/

/-- The upsert writes the new row under the id of the conflicting row, or under a fresh id when there
    is none, and touches nothing else. -/
theorem upsertFile_spec (r : FileRow) (t : Serial FileRow) :
    (upsertFile r t).2.get? (upsertFile r t).1 = some r ∧
    (∀ k, k ≠ (upsertFile r t).1 → (upsertFile r t).2.get? k = t.get? k) ∧
    ((∃ x, t.get? (upsertFile r t).1 = some x ∧ conflicts r x = true) ∨
      (t.get? (upsertFile r t).1 = none ∧ ∀ k x, t.get? k = some x → conflicts r x = false)) := by
  unfold upsertFile
  split
  next id x hfind =>
    have hmem := mem_of_find?_eq_some hfind
    have hget : t.get? id = some x := (t.get?_eq_some_iff id x).2 hmem
    have hconf : conflicts r x = true := by simpa using find?_some hfind
    refine ⟨by simp [hget], fun k hk => by simp [hk], Or.inl ⟨x, hget, hconf⟩⟩
  next hfind =>
    refine ⟨by simp, fun k hk => by rw [Serial.get?_insert, if_neg hk], Or.inr ⟨t.get?_next, fun k x hget => ?_⟩⟩
    have := find?_eq_none.1 hfind (k, x) ((t.get?_eq_some_iff k x).1 hget)
    simpa using this

variable {r : FileRow}

theorem upsertFile_unique {t : Serial FileRow} (h : UniqueFiles t) : UniqueFiles (upsertFile r t).2 := by
  obtain ⟨hnew, hold, hcase⟩ := upsertFile_spec r t
  -- any other row that conflicted with `r` would have been the one updated
  have key : ∀ k x, k ≠ (upsertFile r t).1 → t.get? k = some x → conflicts r x ≠ true := by
    intro k x hk hx hc
    rcases hcase with ⟨y, hy, hconf⟩ | ⟨-, hnone⟩
    · rw [conflicts_comm] at hc
      exact hk (h k _ x y hx hy (conflicts_trans hc hconf))
    · exact absurd hc (by simp [hnone k x hx])
  have hrow : ∀ k x, (upsertFile r t).2.get? k = some x →
      k = (upsertFile r t).1 ∧ x = r ∨ k ≠ (upsertFile r t).1 ∧ t.get? k = some x := by
    intro k x hx
    by_cases hk : k = (upsertFile r t).1
    · rw [hk, hnew] at hx
      exact .inl ⟨hk, (Option.some.inj hx).symm⟩
    · exact .inr ⟨hk, hold k hk ▸ hx⟩
  intro i j x y hi hj hconf
  rcases hrow i x hi with ⟨rfl, rfl⟩ | ⟨hik, hx⟩ <;> rcases hrow j y hj with ⟨rfl, rfl⟩ | ⟨hjk, hy⟩
  · rfl
  · exact absurd hconf (key j y hjk hy)
  · exact absurd (conflicts_comm x y ▸ hconf) (key i x hik hx)
  · exact h i j x y hx hy hconf

/-! ## The loop over the files -/

/-- What an ingest into document `d` does to the table `t`, with ids `ids` and result `t'`: the file loop writes the
    rows of the files, and `g` happens to the others. -/
structure Written (mode : Mode) (tenantId : Int) (d : ℕ) (fs : List FileRecord) (g : FileRow → FileRow)
    (t : Serial FileRow) (ids : List ℕ) (t' : Serial FileRow) : Prop where
  unique : UniqueFiles t → UniqueFiles t'
  rest : ∀ k, k ∉ ids → t'.get? k = (t.get? k).map g
  written : ∀ k ∈ ids, ∃ f ∈ fs, t'.get? k = some (fileRow mode d f)
  /-- A written row is new, or was a row of the same document with the same bytes. -/
  old : ∀ k ∈ ids, t.get? k = none ∨ ∃ x, t.get? k = some x ∧ x.tenantId = tenantId ∧
    x.documentId = d ∧ x.sha256 ∈ fs.map FileRecord.sha256
  /-- With distinct hashes, no write overwrites another. -/
  all : (fs.map FileRecord.sha256).Nodup →
    ∀ f ∈ fs, ∃ k ∈ ids, t'.get? k = some (fileRow mode d f)
  /-- If every file has its row already, nothing is inserted. -/
  inPlace : (∀ f ∈ fs, ∃ k x, t.get? k = some x ∧ conflicts (fileRow mode d f) x = true) →
    ∀ k ∈ ids, ∃ x, t.get? k = some x

/-- The loop itself leaves the other rows alone. -/
theorem Written.nil (mode : Mode) (tenantId : Int) (d : ℕ) (t : Serial FileRow) :
    Written mode tenantId d [] id t [] t :=
  ⟨id, by simp, by simp, by simp, by simp, by simp⟩

variable {mode : Mode} {tenantId : Int} {k d : ℕ} {fs files : List FileRecord} {u : Upload}

section Cons

variable {f : FileRecord} {t t' : Serial FileRow} {ids : List ℕ}

/-- A row that a file conflicts with is still one it conflicts with after another file's upsert. -/
theorem exists_conflict_upsertFile {r' : FileRow} (hx : t.get? k = some x) (hc : conflicts r' x = true) :
    ∃ k y, (upsertFile r t).2.get? k = some y ∧ conflicts r' y = true := by
  obtain ⟨hnew, hold, hcase⟩ := upsertFile_spec r t
  by_cases hk : k = (upsertFile r t).1
  · -- the row was overwritten by `r`, which conflicts with it as well
    subst hk
    refine ⟨_, r, hnew, ?_⟩
    rcases hcase with ⟨y, hy, hcy⟩ | ⟨hn, -⟩
    · cases hx.symm.trans hy
      rw [conflicts_comm] at hcy
      exact conflicts_trans hc hcy
    · cases hx.symm.trans hn
  · exact ⟨k, x, by rw [hold k hk, hx], hc⟩

/-- The rest of the loop writes rows of other hashes only. -/
theorem Written.not_mem_head {g : FileRow → FileRow}
    (hr : Written mode tenantId d fs g (upsertFile (fileRow mode d f) t).2 ids t')
    (hf : f.sha256 ∉ fs.map FileRecord.sha256) : (upsertFile (fileRow mode d f) t).1 ∉ ids := by
  obtain ⟨hnew, -, -⟩ := upsertFile_spec (fileRow mode d f) t
  intro hmem
  rcases hr.old _ hmem with hn | ⟨x, hx, -, -, hsha⟩
  · cases hnew.symm.trans hn
  · cases hnew.symm.trans hx
    exact hf hsha

/-- One round of the loop: upsert `f`, then the rest. -/
theorem Written.cons (htenant : f.tenantId = tenantId)
    (hr : Written mode tenantId d fs id (upsertFile (fileRow mode d f) t).2 ids t') :
    Written mode tenantId d (f :: fs) id t ((upsertFile (fileRow mode d f) t).1 :: ids) t' := by
  obtain ⟨hnew, hold, hcase⟩ := upsertFile_spec (fileRow mode d f) t
  refine ⟨fun hu => hr.unique (upsertFile_unique hu), ?_, ?_, ?_, ?_, ?_⟩
  · intro k hk
    simp only [mem_cons, not_or] at hk
    rw [hr.rest k hk.2, hold k hk.1]
  · intro k hk
    by_cases hk' : k ∈ ids
    · obtain ⟨g, hg, hget⟩ := hr.written k hk'
      exact ⟨g, mem_cons_of_mem _ hg, hget⟩
    · obtain rfl := (mem_cons.1 hk).resolve_right hk'
      exact ⟨f, mem_cons_self, by rw [hr.rest _ hk', hnew, Option.map_id_apply]⟩
  · intro k hk
    by_cases hki : k = (upsertFile (fileRow mode d f) t).1
    · subst hki
      rcases hcase with ⟨x, hx, hc⟩ | ⟨hn, -⟩
      · rw [conflicts_iff] at hc
        exact .inr ⟨x, hx, hc.1.trans htenant, hc.2.2, by rw [hc.2.1]; exact mem_cons_self⟩
      · exact .inl hn
    · rcases hr.old k ((mem_cons.1 hk).resolve_left hki) with hn | ⟨x, hx, h₁, h₂, h₃⟩
      · exact .inl (by rw [← hold k hki, hn])
      · exact .inr ⟨x, by rw [← hold k hki, hx], h₁, h₂, mem_cons_of_mem _ h₃⟩
  · intro hnd g hg
    rw [map_cons, nodup_cons] at hnd
    rcases mem_cons.1 hg with rfl | hg
    · exact ⟨_, mem_cons_self, by rw [hr.rest _ (hr.not_mem_head hnd.1), hnew, Option.map_id_apply]⟩
    · obtain ⟨k, hk, hget⟩ := hr.all hnd.2 g hg
      exact ⟨k, mem_cons_of_mem _ hk, hget⟩
  · intro hall k hk
    by_cases hki : k = (upsertFile (fileRow mode d f) t).1
    · subst hki
      rcases hcase with ⟨x, hx, -⟩ | ⟨-, hnone⟩
      · exact ⟨x, hx⟩
      · obtain ⟨j, x, hx, hc⟩ := hall f mem_cons_self
        exact absurd hc (by simp [hnone j x hx])
    · have hrest : ∀ g ∈ fs, ∃ j y, (upsertFile (fileRow mode d f) t).2.get? j = some y ∧
          conflicts (fileRow mode d g) y = true := by
        intro g hg
        obtain ⟨j, x, hx, hc⟩ := hall g (mem_cons_of_mem _ hg)
        exact exists_conflict_upsertFile hx hc
      obtain ⟨x, hx⟩ := hr.inPlace hrest k ((mem_cons.1 hk).resolve_left hki)
      exact ⟨x, by rw [← hold k hki, hx]⟩

end Cons

/-- A loop only returns if all its files are the tenant's. -/
theorem upsertFiles_spec :
    ∀ {t t' : Serial FileRow} {ids : List ℕ}, upsertFiles mode tenantId d fs t = .ok (ids, t') →
      Written mode tenantId d fs id t ids t' ∧ ∀ f ∈ fs, f.tenantId = tenantId := by
  induction fs with
  | nil =>
    rintro t t' ids ⟨⟩
    exact ⟨Written.nil mode tenantId d t, by simp⟩
  | cons f fs ih =>
    intro t t' ids h
    simp only [upsertFiles] at h
    split at h
    · cases h
    next htenant =>
      split at h <;> cases h
      next hrest =>
        obtain ⟨hup, htenants⟩ := ih hrest
        exact ⟨hup.cons (not_not.1 htenant), forall_mem_cons.2 ⟨not_not.1 htenant, htenants⟩⟩

theorem upsertFiles_ok (mode : Mode) (d : ℕ) (h : ∀ f ∈ fs, f.tenantId = tenantId) (t : Serial FileRow) :
    ∃ ids t', upsertFiles mode tenantId d fs t = .ok (ids, t') := by
  induction fs generalizing t with
  | nil => exact ⟨[], t, rfl⟩
  | cons f fs ih =>
    obtain ⟨ids, t', hok⟩ := ih (fun g hg => h g (mem_cons_of_mem _ hg)) (upsertFile (fileRow mode d f) t).2
    refine ⟨(upsertFile (fileRow mode d f) t).1 :: ids, t', ?_⟩
    simp only [upsertFiles]
    rw [if_neg (by simp [h f mem_cons_self])]
    simp only [hok]

/-! ## Reading the lookup -/

section Lookup

variable {t : Serial FileRow}

theorem mem_docRows (k : ℕ) (x : FileRow) : (k, x) ∈ docRows tenantId d t ↔
    t.get? k = some x ∧ x.tenantId = tenantId ∧ x.documentId = d := by
  simp [docRows, Serial.get?_eq_some_iff]

theorem nodup_docRows : (docRows tenantId d t).Nodup := t.nodup_rows.filter _

theorem eq_of_docRows (hu : UniqueFiles t) {a b : ℕ × FileRow} (ha : a ∈ docRows tenantId d t)
    (hb : b ∈ docRows tenantId d t) (h : a.2.sha256 = b.2.sha256) : a = b := by
  obtain ⟨i, x⟩ := a
  obtain ⟨j, y⟩ := b
  rw [mem_docRows] at ha hb
  have hij : i = j := by
    refine hu i j x y ha.1 hb.1 ?_
    rw [conflicts_iff]
    exact ⟨hb.2.1.trans ha.2.1.symm, h.symm, hb.2.2.trans ha.2.2.symm⟩
  subst hij
  rw [Option.some.inj (ha.1.symm.trans hb.1)]

theorem nodup_sha_docRows (hu : UniqueFiles t) (p : ℕ × FileRow → Bool) :
    (((docRows tenantId d t).filter p).map fun r => r.2.sha256).Nodup := by
  refine List.Nodup.map_on ?_ (nodup_docRows.filter _)
  intro a ha b hb h
  exact eq_of_docRows hu (mem_of_mem_filter ha) (mem_of_mem_filter hb) h

/-- The join counts every listed file exactly when each has a row with its bytes and its path. -/
theorem joinCount_eq_iff (hu : UniqueFiles t) : joinCount tenantId files t d = files.length ↔
    ∀ f ∈ files, ∃ r ∈ docRows tenantId d t, rowKey r.2 = f.key := by
  have hle : ∀ f ∈ files, (docRows tenantId d t).countP (fun r => f.key == rowKey r.2) ≤ 1 := by
    intro f _
    refine countP_le_one nodup_docRows fun a ha b hb hpa hpb => ?_
    rw [beq_iff_eq] at hpa hpb
    exact eq_of_docRows hu ha hb (congrArg Prod.fst (hpa.symm.trans hpb))
  unfold joinCount
  rw [sum_countP_comm (fun (r : ℕ × FileRow) (f : FileRecord) => f.key == rowKey r.2), sum_eq_length_iff hle]
  refine forall₂_congr fun f hf => ?_
  have hone : ∀ n, n ≤ 1 → (n = 1 ↔ 0 < n) := by omega
  rw [hone _ (hle f hf), countP_pos_iff]
  simp only [beq_iff_eq, eq_comm (a := f.key)]

/-- The counts see a document only through its own rows. -/
theorem hasFileSet_congr {t' : Serial FileRow}
    (h : ∀ k x, x.tenantId = tenantId → x.documentId = d → (t'.get? k = some x ↔ t.get? k = some x)) :
    hasFileSet mode tenantId files t' d = hasFileSet mode tenantId files t d := by
  have hperm : (docRows tenantId d t').Perm (docRows tenantId d t) := by
    rw [perm_ext_iff_of_nodup nodup_docRows nodup_docRows]
    rintro ⟨k, x⟩
    rw [mem_docRows, mem_docRows]
    exact and_congr_left fun hown => h k x hown.1 hown.2
  unfold hasFileSet joinCount sizeCount
  rw [(hperm.map _).sum_eq]
  cases mode with
  | finalize => simp only [hperm.countP_eq]
  | stage => simp only [hperm.length_eq]

variable {files' : List FileRecord}

/-- The counts see the upload only through its pairs, in any order. -/
theorem hasFileSet_perm (h : (files.map FileRecord.key).Perm (files'.map FileRecord.key)) :
    hasFileSet mode tenantId files t d = hasFileSet mode tenantId files' t d := by
  have hlen : files.length = files'.length := by simpa using h.length_eq
  have hcount : ∀ y, files.countP (fun f => f.key == y) = files'.countP (fun f => f.key == y) := by
    intro y
    have := h.countP_eq (fun k => k == y)
    simpa [countP_map, Function.comp_def] using this
  unfold hasFileSet joinCount
  simp only [hlen, hcount]

section

variable (hne : files ≠ [])

include hne

theorem exists_row_of_hasFileSet (h : hasFileSet mode tenantId files t d = true) : ∃ r, r ∈ docRows tenantId d t := by
  refine exists_mem_of_ne_nil _ fun hrows => hne ?_
  simp only [hasFileSet, joinCount, hrows, Bool.and_eq_true, beq_iff_eq] at h
  exact length_eq_zero_iff.1 h.1.symm

/-- The lookup returns the smallest qualifying document. -/
theorem mem_candidates : d ∈ ((t.rows.filter fun r => r.2.tenantId == tenantId).map
    fun r => r.2.documentId).filter (hasFileSet mode tenantId files t) ↔
      hasFileSet mode tenantId files t d = true := by
  rw [mem_filter]
  refine ⟨And.right, fun h => ⟨?_, h⟩⟩
  obtain ⟨⟨k, x⟩, hr⟩ := exists_row_of_hasFileSet hne h
  rw [mem_docRows] at hr
  refine mem_map.2 ⟨(k, x), ?_, hr.2.2⟩
  simpa [hr.2.1] using (t.get?_eq_some_iff k x).1 hr.1

theorem lookupFileSet_eq_some_iff :
    lookupFileSet mode tenantId files t = some d ↔ hasFileSet mode tenantId files t d = true ∧
      ∀ d' < d, hasFileSet mode tenantId files t d' = false := by
  rw [lookupFileSet, min?_eq_some_iff]
  simp only [mem_candidates hne]
  refine and_congr_right fun _ => forall_congr' fun d' => ?_
  rw [← not_lt, imp_not_comm, Bool.not_eq_true]

theorem lookupFileSet_eq_none_iff :
    lookupFileSet mode tenantId files t = none ↔ ∀ d', hasFileSet mode tenantId files t d' = false := by
  rw [lookupFileSet, min?_eq_none_iff, eq_nil_iff_forall_not_mem]
  simp only [mem_candidates hne, Bool.not_eq_true]

end

/-! ## A stored upload -/

/-- Document `d` holds the upload: one live row per pair, no other row that the lookup would count,
    and no smaller document qualifies. -/
structure Stored (mode : Mode) (tenantId : Int) (files : List FileRecord) (t : Serial FileRow) (d : ℕ) :
    Prop where
  present : ∀ f ∈ files, ∃ r ∈ docRows tenantId d t, rowKey r.2 = f.key ∧ r.2.supersededAt = none
  only : ∀ r ∈ docRows tenantId d t, (mode = .finalize → r.2.supersededAt = none) →
    ∃ f ∈ files, rowKey r.2 = f.key
  first : ∀ d' < d, hasFileSet mode tenantId files t d' = false

/-- The rows the lookup counts. -/
def counted (mode : Mode) (r : ℕ × FileRow) : Bool :=
  match mode with
  | .finalize => r.2.supersededAt.isNone
  | .stage => true

theorem sizeCount_eq : sizeCount mode tenantId t d = ((docRows tenantId d t).filter (counted mode)).length := by
  cases mode with
  | finalize => exact countP_eq_length_filter
  | stage =>
    have : (docRows tenantId d t).filter (counted .stage) = docRows tenantId d t := filter_eq_self.2 fun _ _ => rfl
    rw [this]
    rfl

/-- If the counted rows are all the upload's, their hashes, which are distinct, are among the upload's. -/
theorem subperm_of_only (hu : UniqueFiles t)
    (honly : ∀ r ∈ docRows tenantId d t, counted mode r = true → ∃ f ∈ files, rowKey r.2 = f.key) :
    (((docRows tenantId d t).filter (counted mode)).map fun r => r.2.sha256).Subperm
      (files.map FileRecord.sha256) := by
  refine subperm_of_subset (nodup_sha_docRows hu _) fun sha hsha => ?_
  obtain ⟨r, hr, rfl⟩ := mem_map.1 hsha
  obtain ⟨hr, hc⟩ := mem_filter.1 hr
  obtain ⟨f, hf, hkey⟩ := honly r hr hc
  exact mem_map.2 ⟨f, hf, (congrArg Prod.fst hkey).symm⟩

section

variable (hu : UniqueFiles t) (hnd : (files.map FileRecord.sha256).Nodup)

include hu hnd

/-- If the counted rows cover the upload, the lookup takes the document exactly if they are all the
    upload's. -/
theorem hasFileSet_iff_of_present
    (hpresent : ∀ f ∈ files, ∃ r ∈ docRows tenantId d t, counted mode r = true ∧ rowKey r.2 = f.key) :
    hasFileSet mode tenantId files t d = true ↔
      ∀ r ∈ docRows tenantId d t, counted mode r = true → ∃ f ∈ files, rowKey r.2 = f.key := by
  have hjoin : joinCount tenantId files t d = files.length :=
    (joinCount_eq_iff hu).2 fun f hf => (hpresent f hf).imp fun _ => And.imp_right And.right
  have hsub : (files.map FileRecord.sha256).Subperm
      (((docRows tenantId d t).filter (counted mode)).map fun r => r.2.sha256) := by
    refine subperm_of_subset hnd fun sha hsha => ?_
    obtain ⟨f, hf, rfl⟩ := mem_map.1 hsha
    obtain ⟨r, hr, hc, hkey⟩ := hpresent f hf
    exact mem_map.2 ⟨r, mem_filter.2 ⟨hr, hc⟩, congrArg Prod.fst hkey⟩
  simp only [hasFileSet, hjoin, BEq.rfl, Bool.true_and, beq_iff_eq, sizeCount_eq]
  constructor
  · -- the files' hashes are among the rows', and there are as many
    intro hsize r hr hc
    have hperm := hsub.perm_of_length_le (by simp [hsize])
    obtain ⟨f, hf, hfr⟩ := mem_map.1
      (hperm.mem_iff.2 (mem_map.2 ⟨r, mem_filter.2 ⟨hr, hc⟩, rfl⟩))
    obtain ⟨r', hr', -, hkey⟩ := hpresent f hf
    obtain rfl : r' = r := eq_of_docRows hu hr' hr ((congrArg Prod.fst hkey).trans hfr)
    exact ⟨f, hf, hkey⟩
  · intro honly
    simpa using le_antisymm (subperm_of_only hu honly).length_le hsub.length_le

theorem Stored.hasFileSet_eq (h : Stored mode tenantId files t d) : hasFileSet mode tenantId files t d = true := by
  refine (hasFileSet_iff_of_present hu hnd fun f hf => ?_).2 fun r hr hc => ?_
  · obtain ⟨r, hr, hkey, hlive⟩ := h.present f hf
    exact ⟨r, hr, by cases mode <;> simp [counted, hlive], hkey⟩
  · exact h.only r hr fun hm => by subst hm; simpa [counted] using hc

theorem Stored.lookup_eq (hne : files ≠ []) (h : Stored mode tenantId files t d) :
    lookupFileSet mode tenantId files t = some d :=
  (lookupFileSet_eq_some_iff hne).2 ⟨h.hasFileSet_eq hu hnd, h.first⟩

end

theorem Stored.perm (hp : (files.map FileRecord.key).Perm (files'.map FileRecord.key))
    (h : Stored mode tenantId files t d) : Stored mode tenantId files' t d := by
  have hmem : ∀ y, (∃ f ∈ files, f.key = y) ↔ ∃ f ∈ files', f.key = y := by
    intro y
    have := hp.mem_iff (a := y)
    simpa [mem_map] using this
  refine ⟨?_, ?_, fun d' hd' => (hasFileSet_perm hp).symm.trans (h.first d' hd')⟩
  · intro f' hf'
    obtain ⟨f, hf, hkey⟩ := (hmem f'.key).2 ⟨f', hf', rfl⟩
    rw [← hkey]
    exact h.present f hf
  · intro r hr hlive
    obtain ⟨f, hf, hkey⟩ := h.only r hr hlive
    obtain ⟨f', hf', hkey'⟩ := (hmem f.key).1 ⟨f, hf, rfl⟩
    exact ⟨f', hf', hkey.trans hkey'.symm⟩

/-- When staging reuses a document, every row of it is one of the upload's. -/
theorem only_of_hasFileSet_stage (hu : UniqueFiles t) (hnd : (files.map FileRecord.sha256).Nodup)
    (h : hasFileSet .stage tenantId files t d = true) :
    ∀ r ∈ docRows tenantId d t, ∃ f ∈ files, rowKey r.2 = f.key := by
  have hjoin : joinCount tenantId files t d = files.length := by
    simp only [hasFileSet, Bool.and_eq_true, beq_iff_eq] at h
    exact h.1
  have hpresent : ∀ f ∈ files, ∃ r ∈ docRows tenantId d t, counted .stage r = true ∧ rowKey r.2 = f.key := by
    intro f hf
    obtain ⟨r, hr, hkey⟩ := (joinCount_eq_iff hu).1 hjoin f hf
    exact ⟨r, hr, rfl, hkey⟩
  exact fun r hr => (hasFileSet_iff_of_present hu hnd hpresent).1 h r hr rfl

end Lookup

/-! ## One ingest -/

/-- The call `u` ingests the upload `files` of the tenant, in some order, as a new document
    (`doc.id = 0`); `transactional_ingest` also needs at least one tag to insert. -/
structure SameUpload (mode : Mode) (tenantId : Int) (files : List FileRecord) (u : Upload) : Prop where
  mode_eq : u.mode = mode
  fresh : u.doc.id = 0
  tenant : u.doc.tenantId = tenantId
  owned : ∀ f ∈ u.files, f.tenantId = tenantId
  pairs : (u.files.map FileRecord.key).Perm (files.map FileRecord.key)
  tagged : mode = .finalize → u.tagIds ≠ []

/-- What a successful ingest has done to the database. -/
structure Ran (mode : Mode) (tenantId : Int) (files : List FileRecord) (now : Time) (db : Db) (d : ℕ)
    (db' : Db) : Prop where
  files_eq : ∃ ids t, upsertFiles mode tenantId d files db.files = .ok (ids, t) ∧
    db'.files = match mode with
      | .finalize => supersedeOthers tenantId d ids now t
      | .stage => t
  target : (lookupFileSet mode tenantId files db.files = some d ∧
      db'.documents.next = db.documents.next ∧
      ∀ k row, db'.documents.get? k = some row → ∃ row₀, db.documents.get? k = some row₀) ∨
    (lookupFileSet mode tenantId files db.files = none ∧ d = db.documents.next ∧
      db'.documents.next = d + 1)
  kept : ∀ k row, db.documents.get? k = some row →
    ∃ row', db'.documents.get? k = some row' ∧ row'.tenantId = row.tenantId
  own : ∃ row, db'.documents.get? d = some row ∧ row.tenantId = tenantId
  positive : ∀ k row, db'.documents.get? k = some row → 0 < k

/-- The document a lookup returns exists, in the tenant. -/
theorem document_of_lookup {db : Db}
    (hc : Consistent db) (hne : files ≠ []) (h : lookupFileSet mode tenantId files db.files = some d) :
    ∃ row, db.documents.get? d = some row ∧ row.tenantId = tenantId := by
  obtain ⟨⟨k, x⟩, hr⟩ := exists_row_of_hasFileSet hne ((lookupFileSet_eq_some_iff hne).1 h).1
  rw [mem_docRows] at hr
  obtain ⟨row, hrow, htenant⟩ := hc.owner k x hr.1
  rw [hr.2.2] at hrow
  exact ⟨row, hrow, htenant.trans hr.2.1⟩

/-- Rewriting one document in place keeps all documents and their tenants. -/
theorem kept_updateWhere (t : Serial DocumentRow) (p : ℕ → DocumentRow → Bool) (g : DocumentRow → DocumentRow)
    (hg : ∀ i row, t.get? i = some row → p i row = true → (g row).tenantId = row.tenantId)
    (k : ℕ) (row : DocumentRow) (h : t.get? k = some row) :
    ∃ row', (t.updateWhere p g).get? k = some row' ∧ row'.tenantId = row.tenantId := by
  refine ⟨_, by rw [Serial.get?_updateWhere, h, Option.map_some], ?_⟩
  split
  next hp => exact hg k row h hp
  · rfl

theorem positive_insert {t : Serial DocumentRow} (r : DocumentRow) (hpos : 0 < t.next)
    (h : ∀ k row, t.get? k = some row → 0 < k) (k : ℕ) (row : DocumentRow)
    (hk : (t.insert r).get? k = some row) : 0 < k := by
  rw [Serial.get?_insert] at hk
  split at hk
  next heq => exact heq ▸ hpos
  · exact h k row hk

theorem SameUpload.ne_nil (h : SameUpload mode tenantId files u) (hne : files ≠ []) : u.files ≠ [] := by
  intro hnil
  have := h.pairs.length_eq
  rw [hnil] at this
  exact hne (length_eq_zero_iff.1 (by simpa using this.symm))

theorem kept_insert (t : Serial DocumentRow) (r : DocumentRow) (k : ℕ) (row : DocumentRow) (h : t.get? k = some row) :
    ∃ row', (t.insert r).get? k = some row' ∧ row'.tenantId = row.tenantId :=
  ⟨row, Serial.get?_insert_of_some h r, rfl⟩

/-- **An ingest of the upload returns**, and has done what `Ran` says. -/
theorem run_spec {db : Db} (hu : SameUpload mode tenantId files u) (hne : files ≠ []) (hc : Consistent db) :
    ∃ d db', u.run db = .ok (d, db') ∧ Ran mode tenantId u.files u.now db d db' := by
  have hne' := hu.ne_nil hne
  obtain ⟨m, doc, fs, tagIds, now⟩ := u
  obtain ⟨rfl, hid, rfl, howned, -, htags⟩ := hu
  simp only at hid howned htags hne' ⊢
  have hemp : fs.isEmpty = false := by simpa using hne'
  cases hl : lookupFileSet m doc.tenantId fs db.files with
  | some d =>
    -- the document is reused
    obtain ⟨row, hrow, htenant⟩ := document_of_lookup hc hne' hl
    have hpos := hc.positive d row hrow
    -- an update adds no document
    have hold : ∀ {p g k row'}, (db.documents.updateWhere p g).get? k = some row' →
        ∃ row₀, db.documents.get? k = some row₀ :=
      fun hk => (Serial.get?_of_updateWhere hk).imp fun _ => And.left
    obtain ⟨ids, t, hok⟩ := upsertFiles_ok m d howned db.files
    cases m with
    | finalize =>
      have htags' : tagIds.isEmpty = false := by simpa using htags rfl
      refine ⟨d, { db with
        documents := db.documents.modify d (readyRow doc)
        files := supersedeOthers doc.tenantId d ids now t }, ?_, ⟨ids, t, hok, rfl⟩,
        .inl ⟨hl, rfl, fun _ _ => hold⟩, ?_, ?_, ?_⟩
      · simp [Upload.run, transactionalIngest, resolveDocument, hid, hemp, hl, hpos, hrow, htenant, hok, htags']
      · refine kept_updateWhere _ _ _ fun i x hx hi => ?_
        obtain rfl : i = d := by simpa using hi
        cases hrow.symm.trans hx
        exact htenant.symm
      · exact ⟨_, by rw [Serial.get?_modify, hrow, Option.map_some, if_pos rfl], rfl⟩
      · exact fun k _ hk => (hold hk).elim (hc.positive k)
    | stage =>
      refine ⟨d, { db with
        documents := db.documents.updateWhere (fun i row => i == d && row.tenantId == doc.tenantId) (pendingRow doc)
        files := t }, ?_, ⟨ids, t, hok, rfl⟩, .inl ⟨hl, rfl, fun _ _ => hold⟩,
        kept_updateWhere _ _ _ fun i x hx hi => rfl, ?_,
        fun k _ hk => (hold hk).elim (hc.positive k)⟩
      · simp [Upload.run, createPendingIngest, hid, hemp, hl, hok, Except.map]
      · refine ⟨_, by rw [Serial.get?_updateWhere, hrow, Option.map_some], ?_⟩
        rw [if_pos (by simp [htenant])]
        exact htenant
  | none =>
    -- a new document is inserted
    obtain ⟨ids, t, hok⟩ := upsertFiles_ok m db.documents.next howned db.files
    cases m with
    | finalize =>
      have htags' : tagIds.isEmpty = false := by simpa using htags rfl
      refine ⟨db.documents.next, { db with
        documents := db.documents.insert (newReadyRow doc)
        files := supersedeOthers doc.tenantId db.documents.next ids now t }, ?_,
        ⟨ids, t, hok, rfl⟩, .inr ⟨hl, rfl, rfl⟩, kept_insert _ _,
        ⟨_, Serial.get?_insert_next _ _, rfl⟩, positive_insert _ hc.next_pos hc.positive⟩
      simp [Upload.run, transactionalIngest, resolveDocument, hid, hemp, hl, hok, htags']
    | stage =>
      refine ⟨db.documents.next, { db with
        documents := db.documents.insert (newPendingRow doc)
        files := t }, ?_, ⟨ids, t, hok, rfl⟩, .inr ⟨hl, rfl, rfl⟩, kept_insert _ _,
        ⟨_, Serial.get?_insert_next _ _, rfl⟩, positive_insert _ hc.next_pos hc.positive⟩
      simp [Upload.run, createPendingIngest, hid, hemp, hl, hok, Except.map]

/-! ## The file rows after an ingest -/

/-- What happens to a row the loop did not write: `transactional_ingest` tombstones it if it is a live
    row of the document. -/
def tombstone (mode : Mode) (tenantId : Int) (d : ℕ) (now : Time) (r : FileRow) : FileRow :=
  if mode = .finalize ∧ r.tenantId = tenantId ∧ r.documentId = d ∧ r.supersededAt = none then
    { r with supersededAt := some now }
  else r

theorem tombstone_key (mode : Mode) (tenantId : Int) (d : ℕ) (now : Time) (r : FileRow) :
    (tombstone mode tenantId d now r).tenantId = r.tenantId ∧
      (tombstone mode tenantId d now r).documentId = r.documentId ∧
      (tombstone mode tenantId d now r).sha256 = r.sha256 := by
  unfold tombstone
  split <;> exact ⟨rfl, rfl, rfl⟩

variable {now : Time} {t t' : Serial FileRow}

/-- A tombstoned row is dead; a row that stays live is the same row. -/
theorem tombstone_live
    (h : (tombstone mode tenantId d now r).supersededAt = none) : tombstone mode tenantId d now r = r ∧
      ¬ (mode = .finalize ∧ r.tenantId = tenantId ∧ r.documentId = d) := by
  unfold tombstone at h ⊢
  split at h
  · cases h
  next hnot => exact ⟨if_neg hnot, fun hcon => hnot ⟨hcon.1, hcon.2.1, hcon.2.2, h⟩⟩

theorem uniqueFiles_map (h : UniqueFiles t)
    (hmap : ∀ k x', t'.get? k = some x' → ∃ x, t.get? k = some x ∧ x'.tenantId = x.tenantId ∧
      x'.documentId = x.documentId ∧ x'.sha256 = x.sha256) : UniqueFiles t' := by
  intro i j x' y' hi hj hc
  obtain ⟨x, hx, hx₁, hx₂, hx₃⟩ := hmap i x' hi
  obtain ⟨y, hy, hy₁, hy₂, hy₃⟩ := hmap j y' hj
  refine h i j x y hx hy ?_
  rw [conflicts_iff] at hc ⊢
  rw [← hx₁, ← hx₂, ← hx₃, ← hy₁, ← hy₂, ← hy₃]
  exact hc

variable {db db' : Db}

theorem Ran.exists_written (h : Ran mode tenantId files now db d db') :
    ∃ ids, Written mode tenantId d files (tombstone mode tenantId d now) db.files ids db'.files := by
  obtain ⟨ids, t, hok, hfiles⟩ := h.files_eq
  have hup := (upsertFiles_spec hok).1
  refine ⟨ids, ?_⟩
  cases mode with
  | stage =>
    obtain rfl : db'.files = t := hfiles
    have hid : tombstone .stage tenantId d now = id := by
      funext r
      exact if_neg (by simp)
    rwa [hid]
  | finalize =>
    obtain hfiles : db'.files = supersedeOthers tenantId d ids now t := hfiles
    -- the tombstones spare the rows just written
    have hget : ∀ k, db'.files.get? k =
        (t.get? k).map fun r => if k ∈ ids then r else tombstone .finalize tenantId d now r := by
      intro k
      rw [hfiles, supersedeOthers, Serial.get?_updateWhere]
      congr 1
      funext r
      by_cases hk : k ∈ ids
      · simp [hk]
      · simp [hk, tombstone, and_assoc]
    have hids : ∀ k ∈ ids, db'.files.get? k = t.get? k := by
      intro k hk
      rw [hget]
      simp [hk]
    refine ⟨fun hu => ?_, fun k hk => ?_, ?_, hup.old, ?_, hup.inPlace⟩
    · refine uniqueFiles_map (hup.unique hu) fun k x' hx' => ?_
      rw [hget] at hx'
      obtain ⟨x, hx, rfl⟩ := Option.map_eq_some_iff.1 hx'
      refine ⟨x, hx, ?_⟩
      split
      · exact ⟨rfl, rfl, rfl⟩
      · exact tombstone_key ..
    · rw [hget, hup.rest k hk]
      simp [hk]
    · intro k hk
      rw [hids k hk]
      exact hup.written k hk
    · intro hnd f hf
      obtain ⟨k, hk, hrow⟩ := hup.all hnd f hf
      exact ⟨k, hk, by rw [hids k hk, hrow]⟩

section Ran

theorem Ran.consistent (h : Ran mode tenantId files now db d db') (hc : Consistent db)
    (howned : ∀ f ∈ files, f.tenantId = tenantId) : Consistent db' := by
  obtain ⟨ids, hw⟩ := h.exists_written
  refine ⟨hw.unique hc.unique, ?_, h.positive, ?_⟩
  · intro k x hx
    by_cases hk : k ∈ ids
    · obtain ⟨f, hf, hrow⟩ := hw.written k hk
      cases hx.symm.trans hrow
      obtain ⟨row, hdoc, htenant⟩ := h.own
      exact ⟨row, hdoc, htenant.trans (howned f hf).symm⟩
    · rw [hw.rest k hk] at hx
      obtain ⟨y, hy, rfl⟩ := Option.map_eq_some_iff.1 hx
      obtain ⟨ht, hd, -⟩ := tombstone_key mode tenantId d now y
      obtain ⟨row, hrow, hten⟩ := hc.owner k y hy
      obtain ⟨row', hrow', hten'⟩ := h.kept _ row hrow
      exact ⟨row', by rw [hd]; exact hrow', by rw [ht, hten', hten]⟩
  · have := hc.next_pos
    rcases h.target with ⟨-, hn, -⟩ | ⟨-, -, hn⟩ <;> omega

theorem Ran.other_docs (h : Ran mode tenantId files now db d db') (howned : ∀ f ∈ files, f.tenantId = tenantId)
    (hx : ¬ (x.tenantId = tenantId ∧ x.documentId = d)) : db'.files.get? k = some x ↔ db.files.get? k = some x := by
  obtain ⟨ids, hw⟩ := h.exists_written
  by_cases hk : k ∈ ids
  · obtain ⟨f, hf, hrow⟩ := hw.written k hk
    constructor
    · intro hget
      cases hget.symm.trans hrow
      exact absurd ⟨howned f hf, rfl⟩ hx
    · intro hget
      rcases hw.old k hk with hn | ⟨y, hy, h₁, h₂, -⟩
      · cases hget.symm.trans hn
      · cases hget.symm.trans hy
        exact absurd ⟨h₁, h₂⟩ hx
  · rw [hw.rest k hk]
    constructor
    · intro hget
      obtain ⟨y, hy, rfl⟩ := Option.map_eq_some_iff.1 hget
      obtain ⟨ht, hd, -⟩ := tombstone_key mode tenantId d now y
      rw [ht, hd] at hx
      rw [hy, tombstone, if_neg fun hcon => hx ⟨hcon.2.1, hcon.2.2.1⟩]
    · intro hget
      rw [hget, Option.map_some, tombstone, if_neg fun hcon => hx ⟨hcon.2.1, hcon.2.2.1⟩]

section

variable (h : Ran mode tenantId files now db d db') (hc : Consistent db) (hne : files ≠ [])
  (hnd : (files.map FileRecord.sha256).Nodup) (howned : ∀ f ∈ files, f.tenantId = tenantId)

include h hc hne hnd howned

/-- **After an ingest the upload is stored**, in the document it returned. -/
theorem Ran.stored :
    Stored mode tenantId files db'.files d := by
  obtain ⟨ids, hw⟩ := h.exists_written
  refine ⟨?_, ?_, ?_⟩
  · intro f hf
    obtain ⟨k, hk, hrow⟩ := hw.all hnd f hf
    exact ⟨(k, fileRow mode d f), (mem_docRows _ _).2 ⟨hrow, howned f hf, rfl⟩, rfl, rfl⟩
  · rintro ⟨k, x⟩ hr hlive
    rw [mem_docRows] at hr
    obtain ⟨hx, hxt, hxd⟩ := hr
    by_cases hk : k ∈ ids
    · obtain ⟨f, hf, hrow⟩ := hw.written k hk
      cases hx.symm.trans hrow
      exact ⟨f, hf, rfl⟩
    · -- a row of the document that was not written
      rw [hw.rest k hk] at hx
      obtain ⟨y, hy, rfl⟩ := Option.map_eq_some_iff.1 hx
      obtain ⟨ht, hd, -⟩ := tombstone_key mode tenantId d now y
      rw [ht] at hxt
      rw [hd] at hxd
      cases mode with
      | finalize => exact absurd ⟨rfl, hxt, hxd⟩ (tombstone_live (hlive rfl)).2
      | stage =>
        have hid : tombstone .stage tenantId d now y = y := if_neg (by simp)
        rw [hid]
        rcases h.target with ⟨hl, -⟩ | ⟨-, rfl, -⟩
        · have hset := ((lookupFileSet_eq_some_iff hne).1 hl).1
          exact only_of_hasFileSet_stage hc.unique hnd hset (k, y) ((mem_docRows _ _).2 ⟨hy, hxt, hxd⟩)
        · -- no row can belong to a document that did not exist
          obtain ⟨row, hrow, -⟩ := hc.owner k y hy
          rw [hxd, Serial.get?_next] at hrow
          cases hrow
  · intro d' hd'
    have hsame : hasFileSet mode tenantId files db'.files d' =
        hasFileSet mode tenantId files db.files d' :=
      hasFileSet_congr fun k x _ hxd => h.other_docs howned fun hcon => by omega
    rw [hsame]
    rcases h.target with ⟨hl, -⟩ | ⟨hl, -, -⟩
    · exact ((lookupFileSet_eq_some_iff hne).1 hl).2 d' hd'
    · exact (lookupFileSet_eq_none_iff hne).1 hl d'

/-- **Ingesting a stored upload changes nothing that counts**: the same document, no new document, no
    new live file row. -/
theorem Ran.again {d₀ : ℕ} (hs : Stored mode tenantId files db.files d₀) :
    d = d₀ ∧
      (∀ k row, db'.documents.get? k = some row → ∃ row₀, db.documents.get? k = some row₀) ∧
      ∀ k x, db'.files.get? k = some x → x.supersededAt = none →
        ∃ y, db.files.get? k = some y ∧ y.supersededAt = none := by
  have hlookup := hs.lookup_eq hc.unique hnd hne
  obtain ⟨rfl, hdocs⟩ : d = d₀ ∧
      ∀ k row, db'.documents.get? k = some row → ∃ row₀, db.documents.get? k = some row₀ := by
    rcases h.target with ⟨hl, -, hold⟩ | ⟨hl, -, -⟩
    · exact ⟨Option.some.inj (hl.symm.trans hlookup), hold⟩
    · cases hlookup.symm.trans hl
  refine ⟨rfl, hdocs, fun k x hx hlive => ?_⟩
  obtain ⟨ids, hw⟩ := h.exists_written
  by_cases hk : k ∈ ids
  · -- the row written for a file is the live row it already had
    have hall : ∀ f ∈ files, ∃ k x, db.files.get? k = some x ∧
        conflicts (fileRow mode d f) x = true := by
      intro f hf
      obtain ⟨⟨i, y⟩, hr, hkey, -⟩ := hs.present f hf
      rw [mem_docRows] at hr
      refine ⟨i, y, hr.1, ?_⟩
      rw [conflicts_iff]
      exact ⟨hr.2.1.trans (howned f hf).symm, congrArg Prod.fst hkey, hr.2.2⟩
    obtain ⟨y, hy⟩ := hw.inPlace hall k hk
    rcases hw.old k hk with hn | ⟨y', hy', h₁, h₂, h₃⟩
    · cases hy.symm.trans hn
    · obtain ⟨f, hf, hsha⟩ := mem_map.1 h₃
      obtain ⟨r, hr, hkey, hrl⟩ := hs.present f hf
      have heq : r = (k, y') := eq_of_docRows hc.unique hr ((mem_docRows _ _).2 ⟨hy', h₁, h₂⟩)
        ((congrArg Prod.fst hkey).trans hsha)
      exact ⟨y', hy', by rw [heq] at hrl; exact hrl⟩
  · rw [hw.rest k hk] at hx
    obtain ⟨y, hy, rfl⟩ := Option.map_eq_some_iff.1 hx
    exact ⟨y, hy, by rw [← (tombstone_live hlive).1]; exact hlive⟩

end

end Ran

/-! ## What a successful ingest has done -/

/-- The document an ingest updates: the given one, or the one the lookup finds; 0 asks for a new one. -/
def ingestTarget (doc : Document) (files : List FileRecord) (db : Db) : ℕ :=
  if 0 < doc.id then doc.id.toNat
  else if files.isEmpty then 0
  else (lookupFileSet .finalize doc.tenantId files db.files).getD 0

variable {doc : Document} {tagIds : List ℕ}

theorem ingestTarget_of_pos (hid : doc.id = d) (hd : 0 < d) (files : List FileRecord) (db : Db) :
    ingestTarget doc files db = d := by
  simp [ingestTarget, hid, hd]

/-- The target document has been updated, or a new one inserted. -/
theorem resolveDocument_ok {target d : ℕ} {documents documents' : Serial DocumentRow}
    (h : resolveDocument doc target documents = .ok (d, documents')) :
    (0 < target ∧ d = target ∧ (∃ row, documents.get? d = some row ∧ row.tenantId = doc.tenantId) ∧
      documents' = documents.modify d (readyRow doc)) ∨
    (target = 0 ∧ d = documents.next ∧ documents' = documents.insert (newReadyRow doc)) := by
  revert h
  fun_cases resolveDocument doc target documents <;> rintro ⟨⟩
  next hpos row hrow htenant => exact .inl ⟨hpos, rfl, ⟨row, hrow, htenant⟩, rfl⟩
  next hzero => exact .inr ⟨Nat.eq_zero_of_not_pos hzero, rfl, rfl⟩

theorem transactionalIngest_ok (h : transactionalIngest doc files tagIds now db = .ok (d, db')) :
    db'.jobs = db.jobs ∧ resolveDocument doc (ingestTarget doc files db) db.documents = .ok (d, db'.documents) ∧
    ∃ ids t, upsertFiles .finalize doc.tenantId d files db.files = .ok (ids, t) ∧
      db'.files = supersedeOthers doc.tenantId d ids now t := by
  revert h
  fun_cases transactionalIngest doc files tagIds now db <;> rintro ⟨⟩
  next ids t _ hdoc hup => exact ⟨rfl, hdoc, ids, t, hup, rfl⟩

/-- What `transactional_ingest` does when it is given the document. -/
theorem transactionalIngest_into
    {d d' : ℕ} (hid : doc.id = d) (htenant : doc.tenantId = tenantId) (hd : 0 < d)
    (h : transactionalIngest doc files tagIds now db = .ok (d', db')) :
    (∃ ids t, upsertFiles .finalize tenantId d files db.files = .ok (ids, t) ∧
      db'.files = supersedeOthers tenantId d ids now t) ∧
    ∃ row, getDocument tenantId d db' = some row := by
  subst htenant
  obtain ⟨-, hdoc, hfiles⟩ := transactionalIngest_ok h
  rw [ingestTarget_of_pos hid hd] at hdoc
  obtain ⟨-, rfl, ⟨row, hrow, -⟩, hdocuments⟩ | ⟨hzero, -⟩ := resolveDocument_ok hdoc
  · exact ⟨hfiles, readyRow doc row, by simp [getDocument, hdocuments, hrow, readyRow]⟩
  · omega

variable {ids : List ℕ}

theorem createPendingIngest_ok {reused : Bool} (h : createPendingIngest doc files db = .ok ((d, ids, reused), db')) :
    files ≠ [] ∧ db'.jobs = db.jobs ∧ upsertFiles .stage doc.tenantId d files db.files = .ok (ids, db'.files) ∧
    ((lookupFileSet .stage doc.tenantId files db.files = some d ∧ db'.documents = db.documents.updateWhere
        (fun i row => i == d && row.tenantId == doc.tenantId) (pendingRow doc)) ∨
      (d = db.documents.next ∧ db'.documents = db.documents.insert (newPendingRow doc))) := by
  simp only [createPendingIngest] at h
  split at h
  · cases h
  next hne =>
    split at h
    · cases h
    · refine ⟨by simpa using hne, ?_⟩
      cases hlookup : lookupFileSet .stage doc.tenantId files db.files with
      | none =>
        simp only [hlookup] at h
        split at h <;> cases h
        next hup => exact ⟨rfl, hup, .inr ⟨rfl, rfl⟩⟩
      | some id =>
        simp only [hlookup] at h
        split at h <;> cases h
        next hup => exact ⟨rfl, hup, .inl ⟨rfl, rfl⟩⟩

/-- An upsert loop leaves old rows, and rows of its document, its tenant and its files. -/
theorem row_of_upsertFiles (h : upsertFiles mode tenantId d fs t = .ok (ids, t')) (hx : t'.get? k = some x) :
    t.get? k = some x ∨ x.documentId = d ∧ x.tenantId = tenantId ∧ x.blobKey ∈ fs.map FileRecord.blobKey := by
  obtain ⟨hup, htenants⟩ := upsertFiles_spec h
  by_cases hk : k ∈ ids
  · obtain ⟨f, hf, hrow⟩ := hup.written k hk
    cases hx.symm.trans hrow
    exact .inr ⟨rfl, htenants f hf, mem_map_of_mem hf⟩
  · exact .inl (by rwa [hup.rest k hk, Option.map_id_apply] at hx)

/-- The tombstones change no row of another document, and no row's document or tenant. -/
theorem row_of_supersedeOthers {x' : FileRow} (hx : (supersedeOthers tenantId d ids now t).get? k = some x') :
    ∃ x, t.get? k = some x ∧ x'.documentId = x.documentId ∧ x'.tenantId = x.tenantId ∧
      (x.documentId ≠ d → x' = x) := by
  obtain ⟨x, hget, rfl⟩ := Serial.get?_of_updateWhere hx
  refine ⟨x, hget, ?_⟩
  split_ifs with hp
  · refine ⟨rfl, rfl, fun hne => absurd ?_ hne⟩
    simp only [Bool.and_eq_true, beq_iff_eq] at hp
    exact hp.1.1.2
  · exact ⟨rfl, rfl, fun _ => rfl⟩

end Tagsmaxxing.Store
