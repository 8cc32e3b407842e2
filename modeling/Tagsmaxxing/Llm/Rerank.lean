import Tagsmaxxing.Llm.Failover

/-! # Are rerank scores aligned with their documents? (`llm/src/client.rs`)

The backend answers with pairs of an index and a score, in any order. `rerank` checks how many there are, sorts them
by index and drops the indices: a score is at its document's place exactly if the indices are those of the
documents, each once (`rerank_aligned_iff`). -/

namespace Tagsmaxxing.Failover

open List

/-- `OpenAiRerankResult`; a score is an `f32`, and nothing is computed with it. -/
structure OpenAiRerankResult (σ : Type) where
  index : UInt32
  relevanceScore : σ

/-- `OpenAiUsage` and `Usage`, which have the same fields. -/
structure RerankUsage where
  promptTokens : UInt32
  completionTokens : UInt32

structure OpenAiRerankResp (σ : Type) where
  results : List (OpenAiRerankResult σ)
  usage : Option RerankUsage

variable {σ : Type}

/-- The pairs sorted by index; the sort is stable. -/
def sortedByIndex (results : List (OpenAiRerankResult σ)) : List (UInt32 × σ) :=
  (results.map fun r => (r.index, r.relevanceScore)).insertionSort fun a b => a.1 ≤ b.1

/-- `LlamaClient::rerank`, from what `call_with_failover` returns on. -/
def rerank (raw : Except LlmError (OpenAiRerankResp σ)) (documents : List String) :
    Except LlmError (List σ × Option RerankUsage) :=
  match raw with
  | .error e => .error e
  | .ok raw =>
      if raw.results.length ≠ documents.length then
        .error (.deserialize ("rerank response length mismatch: got " ++ toString raw.results.length ++
          " results, expected " ++ toString documents.length))
      else .ok ((sortedByIndex raw.results).map Prod.snd, raw.usage)

/-- The places that the response reports. -/
def indices (results : List (OpenAiRerankResult σ)) : List ℕ := results.map fun r => r.index.toNat

/-- One score for each document, every place reported once, and each score at its place. -/
structure Aligned (n : ℕ) (results : List (OpenAiRerankResult σ)) (scores : List σ) : Prop where
  length : scores.length = n
  once : ∀ i < n, (indices results).count i = 1
  score : ∀ r ∈ results, scores[r.index.toNat]? = some r.relevanceScore

variable {results : List (OpenAiRerankResult σ)} {n : ℕ}

theorem map_sortedByIndex (h : (indices results).Perm (range n)) :
    (sortedByIndex results).map (fun p => p.1.toNat) = range n := by
  have htotal : Std.Total fun a b : UInt32 × σ => a.1 ≤ b.1 := ⟨fun a b => UInt32.le_total a.1 b.1⟩
  have htrans : IsTrans (UInt32 × σ) fun a b => a.1 ≤ b.1 := ⟨fun _ _ _ => UInt32.le_trans⟩
  refine List.Perm.eq_of_pairwise (fun _ _ _ _ => Nat.le_antisymm) ?_ ?_ ?_
  · exact pairwise_map.2 ((pairwise_insertionSort _ _).imp fun {a b} hab => UInt32.le_iff_toNat_le.1 hab)
  · exact pairwise_lt_range.imp Nat.le_of_lt
  · refine ((perm_insertionSort _ _).map _).trans ?_
    rw [map_map]
    exact h

/-- **Scores are aligned exactly if the places reported are those of the documents.** -/
theorem rerank_aligned_iff {resp : OpenAiRerankResp σ} {documents : List String} {scores : List σ}
    {usage : Option RerankUsage} (h : rerank (.ok resp) documents = .ok (scores, usage)) :
    Aligned documents.length resp.results scores ↔
      (indices resp.results).Perm (List.range documents.length) := by
  simp only [rerank] at h
  split_ifs at h with hlen
  cases h
  constructor
  · intro haligned
    -- the places of the documents are among those reported, and there are no more of these
    refine (List.Subperm.perm_of_length_le ?_ ?_).symm
    · refine subperm_of_subset nodup_range fun i hi => count_pos_iff.1 ?_
      rw [haligned.once i (mem_range.1 hi)]
      exact Nat.one_pos
    · rw [indices, length_map, length_range]
      exact (not_not.1 hlen).le
  · intro hperm
    refine ⟨by simpa [sortedByIndex] using hlen, fun i hi => ?_, fun r hr => ?_⟩
    · rw [hperm.count_eq]
      exact count_eq_one_of_mem nodup_range (mem_range.2 hi)
    · have hmem : (r.index, r.relevanceScore) ∈ sortedByIndex resp.results :=
        (mem_insertionSort _).2 (mem_map_of_mem hr)
      obtain ⟨j, hj⟩ := mem_iff_getElem?.1 hmem
      have hplace := congrArg (·[j]?) (map_sortedByIndex hperm)
      simp only [getElem?_map, hj, Option.map_some] at hplace
      obtain ⟨_, hindex⟩ := List.getElem?_eq_some_iff.1 hplace.symm
      rw [getElem_range] at hindex
      rw [← hindex, getElem?_map, hj]
      rfl

/-- Two documents, whose scores come in the other order. -/
theorem swapped_scores_aligned : Aligned 2 [⟨1, false⟩, ⟨0, true⟩] [true, false] :=
  (@rerank_aligned_iff Bool ⟨[⟨1, false⟩, ⟨0, true⟩], none⟩ ["a", "b"] _ none rfl).2 (by decide)

/-- The first document is reported twice, the second never: its score is taken from the first. -/
theorem duplicate_index_accepted :
    rerank (.ok ⟨[⟨0, true⟩, ⟨0, false⟩], none⟩) ["a", "b"] = .ok ([true, false], none) ∧
      ¬ Aligned 2 [⟨0, true⟩, ⟨0, false⟩] [true, false] := by
  refine ⟨by rfl, fun h => ?_⟩
  exact absurd (h.once 1 (by decide)) (by decide)

end Tagsmaxxing.Failover
