import Mathlib.Algebra.Order.Ring.Unbundled.Rat
import Mathlib.Data.List.Induction
import Mathlib.Data.Vector.Basic
import Tagsmaxxing.Lib.Keyed
import Tagsmaxxing.Lib.Ranking

/-! # Putting a search result together (`hybrid_search.rs`, `query.rs`)

A hybrid search runs a vector query and a keyword query. Of each one's ranked chunks only the best of each document is
kept, up to `top_k` documents. The two lists are fused by reciprocal rank, the fused chunks are looked up, rolled up
to documents and cut to `top_k`. So a document with many near-identical chunks does not crowd out the others: further
chunks of a document behind its best one change nothing (`dedupBestChunkPerDocument_flooded`).

Scores are rationals. The order in which a hash map is iterated does not matter, since what is collected from it is
sorted by a total order on distinct keys (`Ranking.sort_eq_of_perm`). What a query returns is an argument, and so is
`decrypt_column`. -/

namespace Tagsmaxxing.HybridSearch

open List

structure ChunkRow where
  chunkId : Int
  documentId : Int
  fileId : Int
  pageNo : Option Int32
  tsOffset : Option ℚ
  content : String
  contentEnc : Option (List UInt8)
  title : Option String
  kind : Option String
deriving DecidableEq

structure ChunkHit where
  chunkId : Int
  documentId : Int
  score : ℚ
  fileId : Int
  pageNo : Option Int32
  tsOffset : Option ℚ
  snippet : String
  title : Option String
  kind : Option String

structure Hit where
  documentId : Int
  score : ℚ
  title : Option String
  snippet : String
  fileId : Int
  pageNo : Option Int32
  tsOffset : Option ℚ
  kind : Option String
deriving DecidableEq

/-! ## One chunk per document -/

/-- The loop of `dedup_best_chunk_per_document`. -/
def dedupLoop (topK : ℕ) : List Int → List ChunkRow → List ChunkRow → List ChunkRow
  | _, out, [] => out
  | seen, out, row :: rows =>
      if row.documentId ∈ seen then dedupLoop topK seen out rows
      else if (out ++ [row]).length = topK then out ++ [row]
      else dedupLoop topK (row.documentId :: seen) (out ++ [row]) rows

def dedupBestChunkPerDocument (rows : List ChunkRow) (topK : ℕ) : List ChunkRow :=
  if topK = 0 then [] else dedupLoop topK [] [] rows

/-! ## Fusion and rollup -/

def rrfK : ℕ := 60

/-- `1.0 / (k + (rank as u32 + 1) as f32)`. -/
def rrfScore (k rank : ℕ) : ℚ := 1 / (k + ((rank % 2 ^ 32 + 1) % 2 ^ 32 : ℕ))

/-- The contribution of one list to `rrf_fuse`. -/
def addRanks (k : ℕ) (scores : Keyed Int ℚ) (ranked : List Int) : Keyed Int ℚ :=
  ranked.zipIdx.foldl
    (fun scores x => scores.upsert x.1 ((scores.get? x.1).getD 0 + rrfScore k x.2)) scores

def rrfFuse (vecRanked kwRanked : List Int) (k : ℕ) : List (Int × ℚ) :=
  Ranking.sort Prod.snd Prod.fst (addRanks k (addRanks k .empty vecRanked) kwRanked).rows

/-- One turn of the loop of `document_rollup`: a document keeps its best chunk, the first of equals. -/
def keepBest (best : Keyed Int ChunkHit) (ch : ChunkHit) : Keyed Int ChunkHit :=
  match best.get? ch.documentId with
  | none => best.upsert ch.documentId ch
  | some entry => if entry.score < ch.score then best.upsert ch.documentId ch else best

/-- The hit of a document, with the provenance of its best chunk. -/
def ChunkHit.toHit (ch : ChunkHit) : Hit :=
  ⟨ch.documentId, ch.score, ch.title, ch.snippet, ch.fileId, ch.pageNo, ch.tsOffset, ch.kind⟩

def documentRollup (chunkHits : List ChunkHit) : List Hit :=
  Ranking.sort Hit.score Hit.documentId ((chunkHits.foldl keepBest .empty).rows.map fun x => x.2.toHit)

/-! ## The search -/

/-- A tenant's key, and `decrypt_column` with what it returns for a text that does not decrypt. -/
structure Decryption where
  dek : Option (List.Vector UInt8 32)
  decryptColumn : List.Vector UInt8 32 → List UInt8 → Option String

def decryptSnippet (d : Decryption) (row : ChunkRow) : String :=
  match row.contentEnc, d.dek with
  | some enc, some dek => (d.decryptColumn dek enc).getD row.content
  | _, _ => row.content

def rankedRowsToChunkHits (d : Decryption) (ranked : List (Int × ℚ)) (chunkMap : Keyed Int ChunkRow) : List ChunkHit :=
  ranked.filterMap fun x => (chunkMap.get? x.1).map fun row =>
    ⟨row.chunkId, row.documentId, x.2, row.fileId, row.pageNo, row.tsOffset, decryptSnippet d row, row.title,
      row.kind⟩

/-- The map from chunk ids to rows; of two rows with one id the later one stays. -/
def chunkMapOf (rows : List ChunkRow) : Keyed Int ChunkRow :=
  rows.foldl (fun m c => m.upsert c.chunkId c) .empty

/-- What is fused: the ids of the best chunks of the documents in each arm. -/
def fusedChunks (topK : ℕ) (vecRows kwRows : List ChunkRow) : List (Int × ℚ) :=
  rrfFuse ((dedupBestChunkPerDocument vecRows topK).map ChunkRow.chunkId)
    ((dedupBestChunkPerDocument kwRows topK).map ChunkRow.chunkId) rrfK

/-- `run_hybrid_search` from the rows of its two queries on. -/
def assemble (d : Decryption) (topK : ℕ) (vecRows kwRows : List ChunkRow) : List Hit :=
  let vecChunks := dedupBestChunkPerDocument vecRows topK
  let kwChunks := dedupBestChunkPerDocument kwRows topK
  let chunkHits := rankedRowsToChunkHits d (fusedChunks topK vecRows kwRows) (chunkMapOf (vecChunks ++ kwChunks))
  (documentRollup chunkHits).take topK

/-- `tags` are the names asked for and `tagIds` those of them that exist. -/
def runHybridSearch (d : Decryption) (topK : ℕ) (tags : List String) (tagIds : List Int)
    (vecRows kwRows : List ChunkRow) : List Hit :=
  if topK = 0 then []
  else if !tags.isEmpty && tagIds.isEmpty then []
  else assemble d topK vecRows kwRows

/-- One arm, and a score made from the rank. -/
def runKeywordSearch (d : Decryption) (topK : ℕ) (tags : List String) (tagIds : List Int)
    (kwRows : List ChunkRow) : List Hit :=
  if topK = 0 then []
  else if !tags.isEmpty && tagIds.isEmpty then []
  else
    let kwChunks := dedupBestChunkPerDocument kwRows topK
    let ranked := kwChunks.zipIdx.map fun x => (x.1.chunkId, (1 / (x.2 + 1) : ℚ))
    (documentRollup (rankedRowsToChunkHits d ranked (chunkMapOf kwChunks))).take topK

/-! ## One chunk per document: what is kept -/

theorem dedupLoop_eq {topK : ℕ} (rows : List ChunkRow) (seen : List Int) (out : List ChunkRow) (h : out.length < topK) :
    dedupLoop topK seen out rows = out ++ (Ranking.firsts ChunkRow.documentId seen rows).take (topK - out.length) := by
  induction rows generalizing seen out with
  | nil => simp [dedupLoop, Ranking.firsts]
  | cons row rows ih =>
    rw [dedupLoop, Ranking.firsts]
    split
    · exact ih seen out h
    · -- the row is kept, and the loop may be full with it
      obtain ⟨n, hn⟩ : ∃ n, topK - out.length = n + 1 := ⟨topK - out.length - 1, by omega⟩
      rw [hn, take_succ_cons]
      split
      next hfull =>
        rw [length_append, length_singleton] at hfull
        have hzero : n = 0 := by omega
        rw [hzero, take_zero]
      next hfull =>
        rw [length_append, length_singleton] at hfull
        rw [ih _ _ (by rw [length_append, length_singleton]; omega)]
        have hrest : topK - (out ++ [row]).length = n := by
          rw [length_append, length_singleton]
          omega
        rw [hrest, append_assoc, singleton_append]

/-- The first chunk of each document, for the first `top_k` documents. -/
theorem dedupBestChunkPerDocument_eq (rows : List ChunkRow) (topK : ℕ) :
    dedupBestChunkPerDocument rows topK = (Ranking.firsts ChunkRow.documentId [] rows).take topK := by
  rw [dedupBestChunkPerDocument]
  split
  next h => rw [h, take_zero]
  · rw [dedupLoop_eq rows [] [] (by simpa using Nat.pos_of_ne_zero ‹_›)]
    simp

/-- `rows'` is `rows` with further chunks of documents put in, each behind a chunk of its document. -/
inductive Flooded (rows : List ChunkRow) : List ChunkRow → Prop
  | refl : Flooded rows rows
  | insert {l₁ l₂ : List ChunkRow} {x : ChunkRow} : Flooded rows (l₁ ++ l₂) →
      x.documentId ∈ l₁.map ChunkRow.documentId → Flooded rows (l₁ ++ x :: l₂)

theorem dedupBestChunkPerDocument_flooded {rows rows' : List ChunkRow} (h : Flooded rows rows') (topK : ℕ) :
    dedupBestChunkPerDocument rows' topK = dedupBestChunkPerDocument rows topK := by
  induction h with
  | refl => rfl
  | @insert l₁ l₂ x _ hx ih =>
    rw [← ih, dedupBestChunkPerDocument_eq, dedupBestChunkPerDocument_eq, Ranking.firsts_insert (.inr hx)]

/-- Each of the first `top_k` documents of an arm has its best chunk among those kept. -/
theorem exists_best_chunk {rows : List ChunkRow} {topK : ℕ} {document : Int}
    (h : document ∈ ((rows.map ChunkRow.documentId).eraseDups).take topK) :
    ∃ row ∈ dedupBestChunkPerDocument rows topK, rows.find? (fun r => r.documentId == document) = some row := by
  have hkeys : (Ranking.firsts ChunkRow.documentId [] rows).map ChunkRow.documentId =
      (rows.map ChunkRow.documentId).eraseDups := by
    rw [Ranking.map_firsts]
    simp
  rw [← hkeys, ← map_take] at h
  obtain ⟨row, hrow, rfl⟩ := mem_map.1 h
  refine ⟨row, dedupBestChunkPerDocument_eq rows topK ▸ hrow, ?_⟩
  exact (Ranking.find?_of_mem_firsts (mem_of_mem_take hrow)).2

/-! ## Fusion -/

theorem isSome_addRanks (k : ℕ) (scores : Keyed Int ℚ) (ranked : List Int) (id : Int) :
    ((addRanks k scores ranked).get? id).isSome = ((scores.get? id).isSome || decide (id ∈ ranked)) := by
  have hpairs : ∀ (pairs : List (Int × ℕ)) (scores : Keyed Int ℚ),
      ((pairs.foldl (fun scores x => scores.upsert x.1 ((scores.get? x.1).getD 0 + rrfScore k x.2))
        scores).get? id).isSome = ((scores.get? id).isSome || decide (id ∈ pairs.map Prod.fst)) := by
    intro pairs
    induction pairs with
    | nil => intro scores; simp
    | cons x pairs ih =>
      intro scores
      rw [foldl_cons, ih, Keyed.get?_upsert]
      by_cases hid : id = x.1
      · simp [hid]
      · simp only [hid, if_false, map_cons, mem_cons, false_or]
  rw [addRanks, hpairs, zipIdx_map_fst]

/-- The scores may be collected in any order. -/
theorem rrfFuse_of_perm {vecRanked kwRanked : List Int} {k : ℕ} {scores : List (Int × ℚ)}
    (h : (addRanks k (addRanks k .empty vecRanked) kwRanked).rows.Perm scores) :
    Ranking.sort Prod.snd Prod.fst scores = rrfFuse vecRanked kwRanked k :=
  (Ranking.sort_eq_of_perm h (Keyed.nodup _)).symm

theorem mem_rrfFuse (vecRanked kwRanked : List Int) (k : ℕ) (id : Int) :
    id ∈ (rrfFuse vecRanked kwRanked k).map Prod.fst ↔ id ∈ vecRanked ∨ id ∈ kwRanked := by
  have hrows : id ∈ (rrfFuse vecRanked kwRanked k).map Prod.fst ↔
      ((addRanks k (addRanks k .empty vecRanked) kwRanked).get? id).isSome = true := by
    rw [rrfFuse, ((Ranking.sort_perm Prod.snd Prod.fst _).map Prod.fst).mem_iff, Option.isSome_iff_exists]
    simp [Keyed.get?_eq_some_iff]
  rw [hrows, isSome_addRanks, isSome_addRanks]
  simp

/-! ## Rollup -/

/-- The first chunk of a document with the best score of the document. -/
def FirstBest (chunkHits : List ChunkHit) (documentId : Int) (ch : ChunkHit) : Prop :=
  ch.documentId = documentId ∧ ∃ before after, chunkHits = before ++ ch :: after ∧
    (∀ c ∈ before, c.documentId = documentId → c.score < ch.score) ∧
    ∀ c ∈ after, c.documentId = documentId → c.score ≤ ch.score

variable {chunkHits : List ChunkHit} {d : Int} {c ch : ChunkHit}

/-- A chunk that is no better changes nothing. -/
theorem FirstBest.concat (h : FirstBest chunkHits d ch) (hc : c.documentId = d → c.score ≤ ch.score) :
    FirstBest (chunkHits ++ [c]) d ch := by
  obtain ⟨hd, before, after, rfl, hbefore, hafter⟩ := h
  refine ⟨hd, before, after ++ [c], by simp, hbefore, ?_⟩
  exact forall_mem_append.2 ⟨hafter, forall_mem_singleton.2 hc⟩

/-- A chunk that is better than the best, or the first one of its document, is kept. -/
theorem FirstBest.new (h : ∀ c ∈ chunkHits, c.documentId = ch.documentId → c.score < ch.score) :
    FirstBest (chunkHits ++ [ch]) ch.documentId ch :=
  ⟨rfl, chunkHits, [], rfl, h, by simp⟩

theorem FirstBest.le (h : FirstBest chunkHits d ch) : ∀ c ∈ chunkHits, c.documentId = d → c.score ≤ ch.score := by
  obtain ⟨-, before, after, rfl, hbefore, hafter⟩ := h
  intro c hc hd
  rcases mem_append.1 hc with hc | hc
  · exact (hbefore c hc hd).le
  · rcases mem_cons.1 hc with rfl | hc
    · exact le_refl _
    · exact hafter c hc hd

variable {best : Keyed Int ChunkHit}

/-- A chunk that beats what is kept of its document, or is its first, takes its place. -/
theorem get?_keepBest_of_better (h : ∀ entry, best.get? c.documentId = some entry → entry.score < c.score) :
    (keepBest best c).get? c.documentId = some c := by
  rw [keepBest]
  split
  · rw [Keyed.get?_upsert, if_pos rfl]
  next entry hentry => rw [if_pos (h entry hentry), Keyed.get?_upsert, if_pos rfl]

/-- Another chunk, or one of another document, leaves it alone. -/
theorem get?_keepBest_of_not_better (h : c.documentId = d → ∃ entry, best.get? d = some entry ∧ c.score ≤ entry.score) :
    (keepBest best c).get? d = best.get? d := by
  have hother : c.documentId ≠ d → (best.upsert c.documentId c).get? d = best.get? d := by
    intro hne
    rw [Keyed.get?_upsert, if_neg (Ne.symm hne)]
  rw [keepBest]
  split
  next hnone =>
    refine hother fun hd => ?_
    obtain ⟨entry, hentry, -⟩ := h hd
    rw [hd, hentry] at hnone
    cases hnone
  next entry hentry =>
    split_ifs with hscore
    · refine hother fun hd => ?_
      obtain ⟨entry', hentry', hle⟩ := h hd
      cases hentry.symm.trans (hd ▸ hentry')
      exact absurd hscore (not_lt.2 hle)
    · rfl

variable (chunkHits : List ChunkHit)

/-- What the loop of `document_rollup` keeps of a document. -/
theorem get?_rollup (d : Int) : (∀ ch, (chunkHits.foldl keepBest .empty).get? d = some ch → FirstBest chunkHits d ch) ∧
      ((chunkHits.foldl keepBest .empty).get? d = none → ∀ c ∈ chunkHits, c.documentId ≠ d) := by
  induction chunkHits using reverseRecOn with
  | nil =>
    refine ⟨fun ch hch => ?_, fun _ c hc => ?_⟩
    · cases hch
    · cases hc
  | append_singleton chunkHits c ih =>
    rw [foldl_append, foldl_cons, foldl_nil]
    generalize chunkHits.foldl keepBest .empty = best at ih ⊢
    by_cases hkeep : c.documentId = d → ∃ entry, best.get? d = some entry ∧ c.score ≤ entry.score
    · rw [get?_keepBest_of_not_better hkeep]
      refine ⟨fun ch hch => (ih.1 ch hch).concat fun hcd => ?_, fun hnone => ?_⟩
      · obtain ⟨entry, hentry, hscore⟩ := hkeep hcd
        cases hch.symm.trans hentry
        exact hscore
      · refine forall_mem_append.2 ⟨ih.2 hnone, forall_mem_singleton.2 fun hcd => ?_⟩
        obtain ⟨entry, hentry, -⟩ := hkeep hcd
        cases hnone.symm.trans hentry
    · rw [Classical.not_imp] at hkeep
      obtain ⟨rfl, hbeats⟩ := hkeep
      have hbetter : ∀ entry, best.get? c.documentId = some entry → entry.score < c.score :=
        fun entry hentry => not_le.1 fun hle => hbeats ⟨entry, hentry, hle⟩
      rw [get?_keepBest_of_better hbetter]
      refine ⟨fun ch hch => ?_, fun hnone => ?_⟩
      · cases hch
        refine FirstBest.new fun x hx hxd => ?_
        cases hget : best.get? c.documentId with
        | none => exact absurd hxd (ih.2 hget x hx)
        | some entry => exact ((ih.1 entry hget).le x hx hxd).trans_lt (hbetter entry hget)
      · cases hnone

theorem nodup_rollup : (((chunkHits.foldl keepBest .empty).rows.map fun x => x.2.toHit).map Hit.documentId).Nodup := by
  have hkeys : ((chunkHits.foldl keepBest .empty).rows.map fun x => x.2.toHit).map Hit.documentId =
      (chunkHits.foldl keepBest .empty).rows.map Prod.fst := by
    rw [map_map]
    apply map_congr_left
    intro x hx
    exact ((get?_rollup chunkHits x.1).1 x.2 ((Keyed.get?_eq_some_iff _ _ _).2 hx)).1
  rw [hkeys]
  exact (chunkHits.foldl keepBest .empty).nodup

/-- The hits may be collected in any order. -/
theorem documentRollup_of_perm {hits : List Hit}
    (h : ((chunkHits.foldl keepBest .empty).rows.map fun x => x.2.toHit).Perm hits) :
    Ranking.sort Hit.score Hit.documentId hits = documentRollup chunkHits :=
  (Ranking.sort_eq_of_perm h (nodup_rollup chunkHits)).symm

theorem nodup_documentRollup : ((documentRollup chunkHits).map Hit.documentId).Nodup :=
  ((Ranking.sort_perm Hit.score Hit.documentId _).map Hit.documentId).nodup_iff.2 (nodup_rollup chunkHits)

/-- The first hits of a rollup: as many as asked for at most, one for a document, best first. -/
theorem take_documentRollup (topK : ℕ) : ((documentRollup chunkHits).take topK).length ≤ topK ∧
    (((documentRollup chunkHits).take topK).map Hit.documentId).Nodup ∧
    ((documentRollup chunkHits).take topK).Pairwise (Ranking.Before Hit.score Hit.documentId) := by
  refine ⟨length_take_le _ _, ?_, ?_⟩
  · rw [map_take]
    exact (take_sublist _ _).nodup (nodup_documentRollup chunkHits)
  · exact (Ranking.sort_pairwise Hit.score Hit.documentId _).sublist (take_sublist _ _)

/-! ## The whole assembly -/

/-- For every `top_k` and every pair of arms: at most `top_k` hits, at most one for a document, by decreasing
    score and then by document; the best chunk of each of the first `top_k` documents of an arm is fused; and
    further chunks of documents behind their best ones change nothing. -/
theorem search_assembly (d : Decryption) (topK : ℕ) (vecRows kwRows : List ChunkRow) :
    (assemble d topK vecRows kwRows).length ≤ topK ∧
    ((assemble d topK vecRows kwRows).map Hit.documentId).Nodup ∧
    (assemble d topK vecRows kwRows).Pairwise (fun a b =>
      b.score < a.score ∨ a.score = b.score ∧ a.documentId ≤ b.documentId) ∧
    (∀ arm ∈ [vecRows, kwRows], ∀ document ∈ ((arm.map ChunkRow.documentId).eraseDups).take topK,
      ∃ row, arm.find? (fun r => r.documentId == document) = some row ∧
        row.chunkId ∈ (fusedChunks topK vecRows kwRows).map Prod.fst) ∧
    (∀ vecRows' kwRows', Flooded vecRows vecRows' → Flooded kwRows kwRows' →
      assemble d topK vecRows' kwRows' = assemble d topK vecRows kwRows) := by
  obtain ⟨hlength, hnodup, hsorted⟩ := take_documentRollup
    (rankedRowsToChunkHits d (fusedChunks topK vecRows kwRows)
      (chunkMapOf (dedupBestChunkPerDocument vecRows topK ++ dedupBestChunkPerDocument kwRows topK))) topK
  refine ⟨hlength, hnodup, hsorted, ?_, ?_⟩
  · intro arm harm document hdocument
    obtain ⟨row, hrow, hfind⟩ := exists_best_chunk hdocument
    refine ⟨row, hfind, (mem_rrfFuse _ _ _ _).2 ?_⟩
    rw [mem_cons, mem_singleton] at harm
    rcases harm with rfl | rfl
    · exact .inl (mem_map.2 ⟨row, hrow, rfl⟩)
    · exact .inr (mem_map.2 ⟨row, hrow, rfl⟩)
  · intro vecRows' kwRows' hvec hkw
    simp only [assemble, fusedChunks, dedupBestChunkPerDocument_flooded hvec, dedupBestChunkPerDocument_flooded hkw]

/-- The keyword search alone has the same shape, and is as indifferent to further chunks. -/
theorem keyword_search_assembly (d : Decryption) (topK : ℕ) (tags : List String) (tagIds : List Int)
    (kwRows : List ChunkRow) :
    (runKeywordSearch d topK tags tagIds kwRows).length ≤ topK ∧
    ((runKeywordSearch d topK tags tagIds kwRows).map Hit.documentId).Nodup ∧
    (runKeywordSearch d topK tags tagIds kwRows).Pairwise (Ranking.Before Hit.score Hit.documentId) ∧
    ∀ kwRows', Flooded kwRows kwRows' →
      runKeywordSearch d topK tags tagIds kwRows' = runKeywordSearch d topK tags tagIds kwRows := by
  have hflooded : ∀ kwRows', Flooded kwRows kwRows' →
      runKeywordSearch d topK tags tagIds kwRows' = runKeywordSearch d topK tags tagIds kwRows := by
    intro kwRows' h
    simp only [runKeywordSearch, dedupBestChunkPerDocument_flooded h]
  rw [← and_assoc, ← and_assoc]
  refine ⟨?_, hflooded⟩
  rw [and_assoc]
  unfold runKeywordSearch
  split
  · simp
  · split
    · simp
    · exact take_documentRollup _ topK

/-- A chunk of a document. -/
def plainRow (chunkId documentId : Int) : ChunkRow :=
  ⟨chunkId, documentId, 1, none, none, "text", none, none, none⟩

/-- Document 7 puts two more chunks in front of document 8, and document 8 still gets its place. -/
theorem attractor_changes_nothing :
    assemble ⟨none, fun _ _ => none⟩ 2 [plainRow 1 7, plainRow 2 7, plainRow 3 7, plainRow 4 8] [] =
      assemble ⟨none, fun _ _ => none⟩ 2 [plainRow 1 7, plainRow 4 8] [] ∧
    (assemble ⟨none, fun _ _ => none⟩ 2 [plainRow 1 7, plainRow 4 8] []).map Hit.documentId = [7, 8] := by
  have hone : Flooded [plainRow 1 7, plainRow 4 8] ([plainRow 1 7] ++ plainRow 3 7 :: [plainRow 4 8]) :=
    .insert .refl (by decide)
  have htwo : Flooded [plainRow 1 7, plainRow 4 8] ([plainRow 1 7] ++ plainRow 2 7 :: [plainRow 3 7, plainRow 4 8]) :=
    .insert hone (by decide)
  obtain ⟨-, -, -, -, hsame⟩ := search_assembly ⟨none, fun _ _ => none⟩ 2 [plainRow 1 7, plainRow 4 8] []
  exact ⟨hsame _ _ htwo .refl, by decide +kernel⟩

end Tagsmaxxing.HybridSearch
