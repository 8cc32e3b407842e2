import Mathlib.Algebra.Order.Field.Basic
import Mathlib.Data.Nat.Factorization.Basic
import Mathlib.Tactic.FieldSimp
import Mathlib.Tactic.Linarith
import Mathlib.Tactic.Ring
import Tagsmaxxing.Store.HybridSearch

/-! # What fusion and rollup compute (`query.rs`)

`rrf_fuse` gives an id the sum of `1 / (k + rank)` over the lists it is in, and sorts by that. The rank is counted
in a `u32`: `rank as u32 + 1` is the rank modulo `2 ^ 32`, so the fusion is what it is said to be exactly for
lists with fewer than `2 ^ 32` ids (`fuses_iff_short`). `document_rollup` keeps the first best chunk of each document,
for any chunks. -/

namespace Tagsmaxxing.HybridSearch

open List

open Ranking (Before)

/-! ## Scores -/

/-- The reciprocal rank of an id in a list, ranks from 1. -/
def reciprocalRank (k : ℕ) (ranked : List Int) (id : Int) : ℚ :=
  if id ∈ ranked then 1 / (k + (ranked.idxOf id + 1 : ℕ)) else 0

/-- What `rrf_fuse` is to give an id. -/
def fusedScore (k : ℕ) (vecRanked kwRanked : List Int) (id : Int) : ℚ :=
  reciprocalRank k vecRanked id + reciprocalRank k kwRanked id

/-- What one list adds to an id's score. -/
def contribution (k : ℕ) (ranked : List Int) (id : Int) : ℚ :=
  if id ∈ ranked then rrfScore k (ranked.idxOf id) else 0

variable {ranked : List Int} {vecRanked kwRanked : List Int} {chunkHits : List ChunkHit} {d : Int}

theorem get?_addRanks (k : ℕ) (scores : Keyed Int ℚ) (h : ranked.Nodup) (id : Int) :
    (addRanks k scores ranked).get? id =
      if id ∈ ranked then some ((scores.get? id).getD 0 + contribution k ranked id) else scores.get? id := by
  have hfrom : ∀ (n : ℕ) (scores : Keyed Int ℚ),
      ((ranked.zipIdx n).foldl
        (fun scores x => scores.upsert x.1 ((scores.get? x.1).getD 0 + rrfScore k x.2)) scores).get? id =
      if id ∈ ranked then some ((scores.get? id).getD 0 + rrfScore k (n + ranked.idxOf id))
      else scores.get? id := by
    induction ranked with
    | nil => intro n scores; rfl
    | cons a ranked ih =>
      intro n scores
      rw [nodup_cons] at h
      rw [zipIdx_cons, foldl_cons, ih h.2, Keyed.get?_upsert]
      by_cases ha : id = a
      · subst ha
        rw [if_neg h.1, if_pos rfl, if_pos mem_cons_self, idxOf_cons_self]
        rfl
      · rw [if_neg ha, idxOf_cons_ne _ (Ne.symm ha), Nat.succ_add_eq_add_succ]
        simp [ha]
  rw [addRanks, hfrom 0]
  split_ifs with hid
  · rw [contribution, if_pos hid, Nat.zero_add]
  · rfl

/-- The fused entries: the ids of both lists, each with what the lists contribute. -/
theorem mem_rrfFuse_iff (hvec : vecRanked.Nodup) (hkw : kwRanked.Nodup) (k : ℕ) (x : Int × ℚ) :
    x ∈ rrfFuse vecRanked kwRanked k ↔ (x.1 ∈ vecRanked ∨ x.1 ∈ kwRanked) ∧
      x.2 = contribution k vecRanked x.1 + contribution k kwRanked x.1 := by
  rw [rrfFuse, (Ranking.sort_perm Prod.snd Prod.fst _).mem_iff, ← Keyed.get?_eq_some_iff, get?_addRanks k _ hkw,
    get?_addRanks k _ hvec, Keyed.get?_empty]
  by_cases hv : x.1 ∈ vecRanked
  · by_cases hw : x.1 ∈ kwRanked
    · simp [hv, hw, eq_comm]
    · simp [hv, hw, contribution, eq_comm]
  · by_cases hw : x.1 ∈ kwRanked
    · simp [hv, hw, contribution, eq_comm]
    · simp [hv, hw]

section

variable (vecRanked kwRanked : List Int) (k : ℕ)

theorem nodup_rrfFuse : ((rrfFuse vecRanked kwRanked k).map Prod.fst).Nodup :=
  ((Ranking.sort_perm Prod.snd Prod.fst _).map Prod.fst).nodup_iff.2 (Keyed.nodup _)

theorem pairwise_rrfFuse :
    (rrfFuse vecRanked kwRanked k).Pairwise (Before Prod.snd Prod.fst) := Ranking.sort_pairwise _ _ _

end

theorem rrfFuse_comm (hvec : vecRanked.Nodup) (hkw : kwRanked.Nodup) (k : ℕ) :
    rrfFuse kwRanked vecRanked k = rrfFuse vecRanked kwRanked k := by
  have hperm : (rrfFuse kwRanked vecRanked k).Perm (rrfFuse vecRanked kwRanked k) := by
    refine (perm_ext_iff_of_nodup ((nodup_rrfFuse _ _ _).of_map _) ((nodup_rrfFuse _ _ _).of_map _)).2 ?_
    intro x
    rw [mem_rrfFuse_iff hkw hvec, mem_rrfFuse_iff hvec hkw, or_comm, add_comm]
  refine Ranking.sort_eq_of_perm ?_ (Keyed.nodup _)
  exact (Ranking.sort_perm _ _ _).symm.trans (hperm.trans (Ranking.sort_perm _ _ _))

/-! ## Lists within the range of a `u32` -/

theorem rrfScore_eq (k rank : ℕ) : rrfScore k rank = 1 / (k + ((rank + 1) % 2 ^ 32 : ℕ)) := by
  rw [rrfScore, Nat.mod_add_mod]

theorem contribution_eq (h : ranked.length < 2 ^ 32) (k : ℕ) (id : Int) :
    contribution k ranked id = reciprocalRank k ranked id := by
  rw [contribution, reciprocalRank]
  split_ifs with hid
  · have hrank : ranked.idxOf id + 1 < 2 ^ 32 := lt_of_le_of_lt (idxOf_lt_length_of_mem hid) h
    rw [rrfScore_eq, Nat.mod_eq_of_lt hrank]
  · rfl

theorem reciprocal_anti (k : ℕ) {r r' : ℕ} (h : r ≤ r') :
    (1 : ℚ) / (k + (r' + 1 : ℕ)) ≤ 1 / (k + (r + 1 : ℕ)) := by
  have hpos : (0 : ℚ) < k + (r + 1 : ℕ) := by positivity
  refine one_div_le_one_div_of_le hpos ?_
  have hcast : ((r + 1 : ℕ) : ℚ) ≤ (r' + 1 : ℕ) := Nat.cast_le.2 (Nat.succ_le_succ h)
  linarith

/-- Moving `x` in front of `a` takes nobody but `x` forward. -/
theorem idxOf_swap_le (pre post : List Int) (a x : Int) {id : Int} (h : id ≠ x) :
    (pre ++ a :: x :: post).idxOf id ≤ (pre ++ x :: a :: post).idxOf id := by
  by_cases hpre : id ∈ pre
  · rw [idxOf_append_of_mem hpre, idxOf_append_of_mem hpre]
  · rw [idxOf_append_of_notMem hpre, idxOf_append_of_notMem hpre]
    refine Nat.add_le_add_left ?_ pre.length
    by_cases ha : id = a
    · rw [idxOf_cons_eq _ ha.symm]
      exact Nat.zero_le _
    · rw [idxOf_cons_ne _ (Ne.symm ha), idxOf_cons_ne _ (Ne.symm h), idxOf_cons_ne _ (Ne.symm h),
        idxOf_cons_ne _ (Ne.symm ha)]

theorem reciprocalRank_swap_le (k : ℕ) (pre post : List Int) (a x : Int) {id : Int} (h : id ≠ x) :
    reciprocalRank k (pre ++ x :: a :: post) id ≤ reciprocalRank k (pre ++ a :: x :: post) id := by
  have hmem : id ∈ pre ++ x :: a :: post ↔ id ∈ pre ++ a :: x :: post :=
    ((List.Perm.swap a x post).append_left pre).mem_iff
  rw [reciprocalRank, reciprocalRank]
  by_cases hid : id ∈ pre ++ a :: x :: post
  · rw [if_pos (hmem.2 hid), if_pos hid]
    exact reciprocal_anti k (idxOf_swap_le pre post a x h)
  · rw [if_neg (hmem.not.2 hid), if_neg hid]

/-- One id moves up in one list. -/
inductive MovesUp (x : Int) : List Int × List Int → List Int × List Int → Prop
  | vec (pre post : List Int) (a : Int) (kwRanked : List Int) :
      MovesUp x (pre ++ a :: x :: post, kwRanked) (pre ++ x :: a :: post, kwRanked)
  | kw (pre post : List Int) (a : Int) (vecRanked : List Int) :
      MovesUp x (vecRanked, pre ++ a :: x :: post) (vecRanked, pre ++ x :: a :: post)

/-- The place of an id in the fused list. -/
def place (k : ℕ) (lists : List Int × List Int) (id : Int) : ℕ :=
  ((rrfFuse lists.1 lists.2 k).map Prod.fst).idxOf id

variable {l l' : List Int × List Int} {x : Int}

theorem MovesUp.perm (h : MovesUp x l l') : l.1.Perm l'.1 ∧ l.2.Perm l'.2 ∧ (x ∈ l.1 ∨ x ∈ l.2) := by
  cases h with
  | vec pre post a kw => exact ⟨(List.Perm.swap x a post).append_left pre, .refl _, .inl (by simp)⟩
  | kw pre post a vec => exact ⟨.refl _, (List.Perm.swap x a post).append_left pre, .inr (by simp)⟩

/-- The score of the id that moves does not fall, and no other rises. -/
theorem MovesUp.fusedScore_le (h : MovesUp x l l') (k : ℕ) (hvec : l.1.Nodup) (hkw : l.2.Nodup) :
    fusedScore k l.1 l.2 x ≤ fusedScore k l'.1 l'.2 x ∧
      ∀ y, y ≠ x → fusedScore k l'.1 l'.2 y ≤ fusedScore k l.1 l.2 y := by
  -- moving `x` before `a` moves `a` behind `x`
  have hself : ∀ pre post : List Int, ∀ a, (pre ++ a :: x :: post).Nodup →
      reciprocalRank k (pre ++ a :: x :: post) x ≤ reciprocalRank k (pre ++ x :: a :: post) x := by
    intro pre post a hnodup
    refine reciprocalRank_swap_le k pre post x a fun hxa => ?_
    subst hxa
    simp [nodup_append] at hnodup
  cases h with
  | vec pre post a kw =>
    exact ⟨add_le_add_left (hself pre post a hvec) _,
      fun y hy => add_le_add_left (reciprocalRank_swap_le k pre post a x hy) _⟩
  | kw pre post a vec =>
    exact ⟨add_le_add_right (hself pre post a hkw) _,
      fun y hy => add_le_add_right (reciprocalRank_swap_le k pre post a x hy) _⟩

/-- What fusing two lists without repetitions is to give. -/
structure Fuses (vecRanked kwRanked : List Int) (k : ℕ) : Prop where
  /-- every id of either list, once -/
  nodup : ((rrfFuse vecRanked kwRanked k).map Prod.fst).Nodup
  mem_iff : ∀ id, id ∈ (rrfFuse vecRanked kwRanked k).map Prod.fst ↔ id ∈ vecRanked ∨ id ∈ kwRanked
  /-- with its score -/
  score_eq : ∀ x ∈ rrfFuse vecRanked kwRanked k, x.2 = fusedScore k vecRanked kwRanked x.1
  /-- best first, ties by id -/
  sorted : (rrfFuse vecRanked kwRanked k).Pairwise (Before Prod.snd Prod.fst)
  exchange : rrfFuse kwRanked vecRanked k = rrfFuse vecRanked kwRanked k
  move_up : ∀ x lists, MovesUp x (vecRanked, kwRanked) lists →
    place k lists x ≤ place k (vecRanked, kwRanked) x

section

variable (hvec : vecRanked.Nodup) (hkw : kwRanked.Nodup) (k : ℕ)
  (hshort : vecRanked.length < 2 ^ 32 ∧ kwRanked.length < 2 ^ 32)

include hvec hkw k hshort

theorem score_eq_of_short :
    ∀ x ∈ rrfFuse vecRanked kwRanked k, x.2 = fusedScore k vecRanked kwRanked x.1 := by
  intro x hx
  rw [((mem_rrfFuse_iff hvec hkw k x).1 hx).2, contribution_eq hshort.1, contribution_eq hshort.2, fusedScore]

theorem fuses_of_short : Fuses vecRanked kwRanked k where
  nodup := nodup_rrfFuse _ _ _
  mem_iff := mem_rrfFuse _ _ _
  score_eq := score_eq_of_short hvec hkw k hshort
  sorted := pairwise_rrfFuse _ _ _
  exchange := rrfFuse_comm hvec hkw k
  move_up x lists h := by
    obtain ⟨hvec', hkw', hx⟩ := h.perm
    obtain ⟨hup, hdown⟩ := h.fusedScore_le k hvec hkw
    refine Ranking.idxOf_le_of_scores (pairwise_rrfFuse _ _ _) (pairwise_rrfFuse _ _ _) (nodup_rrfFuse _ _ _) ?_
      (score_eq_of_short hvec hkw k hshort) (score_eq_of_short (hvec'.nodup_iff.1 hvec) (hkw'.nodup_iff.1 hkw) k ?_)
      ((mem_rrfFuse _ _ _ _).2 hx) hup hdown
    · refine (perm_ext_iff_of_nodup (nodup_rrfFuse _ _ _) (nodup_rrfFuse _ _ _)).2 fun id => ?_
      rw [mem_rrfFuse, mem_rrfFuse, hvec'.mem_iff, hkw'.mem_iff]
    · rw [← hvec'.length_eq, ← hkw'.length_eq]
      exact hshort

end

/-! ## Longer lists -/

/-- A number and one that differs from it by a multiple of `2 ^ 32` have the same power of two in them. -/
theorem not_dvd_mul_add {w : ℕ} (hpos : 0 < w) (hlt : w < 2 ^ 32) (q : ℕ) : ¬ 2 ^ 64 ∣ w * (w + q * 2 ^ 32) := by
  obtain ⟨v, u, hodd, rfl⟩ := Nat.exists_eq_two_pow_mul_odd hpos.ne'
  have hv : v < 32 := by
    by_contra hge
    have hle : 2 ^ 32 ≤ 2 ^ v * u :=
      (Nat.pow_le_pow_right (by decide) (not_lt.1 hge)).trans (Nat.le_mul_of_pos_right _ hodd.pos)
    omega
  have hsplit : 2 ^ v * u * (2 ^ v * u + q * 2 ^ 32) = 2 ^ (2 * v) * (u * (u + q * 2 ^ (32 - v))) := by
    have h32 : 2 ^ 32 = 2 ^ v * 2 ^ (32 - v) := by rw [← pow_add, Nat.add_sub_cancel' hv.le]
    rw [h32, two_mul, pow_add]
    ring
  have heven : Even (q * 2 ^ (32 - v)) := (Nat.even_pow.2 ⟨even_two, by omega⟩).mul_left q
  have hfactor : Odd (u * (u + q * 2 ^ (32 - v))) := hodd.mul (hodd.add_even heven)
  rw [hsplit]
  intro hdvd
  have hcoprime : Nat.Coprime (2 ^ 64) (u * (u + q * 2 ^ (32 - v))) :=
    Nat.Coprime.pow_left 64 (Nat.coprime_two_left.2 hfactor)
  have hpow := (Nat.pow_dvd_pow_iff_le_right (by decide : 1 < 2)).1 (hcoprime.dvd_of_dvd_mul_right hdvd)
  omega

/-- So the wrapped rank and the rank `2 ^ 32` do not add up to what was lost. -/
theorem recip_ne {w : ℕ} (hpos : 0 < w) (hlt : w < 2 ^ 32) (q : ℕ) :
    (1 : ℚ) / w ≠ 1 / (2 ^ 32 : ℕ) + 1 / (w + q * 2 ^ 32 : ℕ) := by
  intro heq
  have hw : (w : ℚ) ≠ 0 := Nat.cast_ne_zero.2 hpos.ne'
  have hlong : ((w + q * 2 ^ 32 : ℕ) : ℚ) ≠ 0 := Nat.cast_ne_zero.2 (by omega)
  have hN : ((2 ^ 32 : ℕ) : ℚ) ≠ 0 := Nat.cast_ne_zero.2 (by decide)
  field_simp at heq
  have hcast : ((2 ^ 32 * (w + q * 2 ^ 32) : ℕ) : ℚ) = (w * (w + q * 2 ^ 32 + 2 ^ 32) : ℕ) := by
    push_cast at heq ⊢
    linarith
  have hnat : 2 ^ 32 * (w + q * 2 ^ 32) = w * (w + q * 2 ^ 32 + 2 ^ 32) := Nat.cast_injective hcast
  refine not_dvd_mul_add hpos hlt q ⟨q, ?_⟩
  nlinarith

/-- A rank that wraps only gets better. -/
theorem reciprocalRank_le_contribution {k : ℕ} (hk : 0 < k) (ranked : List Int) (id : Int) :
    reciprocalRank k ranked id ≤ contribution k ranked id := by
  have hkpos : (0 : ℚ) < k := Nat.cast_pos.2 hk
  rw [contribution, reciprocalRank]
  split_ifs with hmem
  · rw [rrfScore_eq]
    refine one_div_le_one_div_of_le (by positivity) ?_
    have hmod : (((ranked.idxOf id + 1) % 2 ^ 32 : ℕ) : ℚ) ≤ (ranked.idxOf id + 1 : ℕ) := Nat.cast_le.2 (Nat.mod_le _ _)
    linarith
  · exact le_refl 0

/-- With `k = 0` the wrapped rank is a division by zero, and what another list adds does not make up for it. -/
theorem contribution_zero_ne (other : List Int) (id : Int) :
    contribution 0 other id ≠ 1 / (2 ^ 32 : ℕ) + reciprocalRank 0 other id := by
  by_cases hother : id ∈ other
  · rw [contribution, reciprocalRank, if_pos hother, if_pos hother, rrfScore_eq, Nat.cast_zero, zero_add, zero_add]
    generalize other.idxOf id + 1 = r
    rcases Nat.eq_zero_or_pos (r % 2 ^ 32) with hzero | hpos
    · rw [hzero, Nat.cast_zero, div_zero]
      exact (add_pos_of_pos_of_nonneg (by norm_num) (by positivity)).ne
    · have hr : r = r % 2 ^ 32 + r / 2 ^ 32 * 2 ^ 32 := by omega
      have hne := recip_ne hpos (Nat.mod_lt r (by decide)) (r / 2 ^ 32)
      rwa [← hr] at hne
  · rw [contribution, reciprocalRank, if_neg hother, if_neg hother]
    norm_num

/-- The id at rank `2 ^ 32` of a list does not get the score it should, whatever the other list adds. -/
theorem contribution_add_ne (hnodup : ranked.Nodup) (hlong : 2 ^ 32 ≤ ranked.length) (k : ℕ)
    (other : List Int) : ∃ id ∈ ranked,
      contribution k ranked id + contribution k other id ≠ reciprocalRank k ranked id + reciprocalRank k other id := by
  have hlt : 2 ^ 32 - 1 < ranked.length := by omega
  refine ⟨ranked[2 ^ 32 - 1], getElem_mem hlt, ?_⟩
  generalize hid : ranked[2 ^ 32 - 1] = id
  have hmem : id ∈ ranked := hid ▸ getElem_mem hlt
  have hidx : ranked.idxOf id + 1 = 2 ^ 32 := by
    rw [← hid, hnodup.idxOf_getElem _ hlt]
    norm_num
  have hwrapped : contribution k ranked id = 1 / k := by
    rw [contribution, if_pos hmem, rrfScore_eq, hidx, Nat.mod_self, Nat.cast_zero, add_zero]
  have hrank : reciprocalRank k ranked id = 1 / (k + (2 ^ 32 : ℕ)) := by
    rw [reciprocalRank, if_pos hmem, hidx]
  rw [hwrapped, hrank]
  rcases Nat.eq_zero_or_pos k with rfl | hk
  · rw [Nat.cast_zero, div_zero, zero_add, zero_add]
    exact contribution_zero_ne other id
  · have hbetter := reciprocalRank_le_contribution hk other id
    have hfirst : (1 : ℚ) / (k + (2 ^ 32 : ℕ)) < 1 / k := by
      refine one_div_lt_one_div_of_lt (Nat.cast_pos.2 hk) ?_
      norm_num
    linarith

theorem not_fuses_of_long (hvec : vecRanked.Nodup) (hkw : kwRanked.Nodup) (k : ℕ)
    (hlong : 2 ^ 32 ≤ vecRanked.length ∨ 2 ^ 32 ≤ kwRanked.length) : ¬ Fuses vecRanked kwRanked k := by
  intro h
  -- an id of either list has its entry, with what the lists contribute
  have hscore : ∀ id, id ∈ vecRanked ∨ id ∈ kwRanked →
      contribution k vecRanked id + contribution k kwRanked id = fusedScore k vecRanked kwRanked id := by
    intro id hid
    exact h.score_eq (id, _) ((mem_rrfFuse_iff hvec hkw k _).2 ⟨hid, rfl⟩)
  rcases hlong with hlong | hlong
  · obtain ⟨id, hid, hne⟩ := contribution_add_ne hvec hlong k kwRanked
    exact hne (hscore id (.inl hid))
  · obtain ⟨id, hid, hne⟩ := contribution_add_ne hkw hlong k vecRanked
    rw [add_comm, add_comm (reciprocalRank k kwRanked id)] at hne
    exact hne (hscore id (.inr hid))

/-! ## Rollup -/

/-- What rolling chunks up to documents is to give. -/
structure RollsUp (chunkHits : List ChunkHit) : Prop where
  /-- one hit for each document -/
  nodup : ((documentRollup chunkHits).map Hit.documentId).Nodup
  mem_iff : ∀ d, d ∈ (documentRollup chunkHits).map Hit.documentId ↔ d ∈ chunkHits.map ChunkHit.documentId
  /-- with the score and the provenance of its first best chunk -/
  best : ∀ hit ∈ documentRollup chunkHits, ∃ ch, FirstBest chunkHits hit.documentId ch ∧ hit = ch.toHit
  /-- best first, ties by document -/
  sorted : (documentRollup chunkHits).Pairwise (Before Hit.score Hit.documentId)

theorem rollsUp (chunkHits : List ChunkHit) : RollsUp chunkHits := by
  have hbest : ∀ hit ∈ documentRollup chunkHits, ∃ ch, FirstBest chunkHits hit.documentId ch ∧ hit = ch.toHit := by
    intro hit hhit
    rw [documentRollup, (Ranking.sort_perm Hit.score Hit.documentId _).mem_iff] at hhit
    obtain ⟨x, hx, rfl⟩ := mem_map.1 hhit
    have hfirst := (get?_rollup chunkHits x.1).1 x.2 ((Keyed.get?_eq_some_iff _ _ _).2 hx)
    have hdoc : x.2.toHit.documentId = x.1 := hfirst.1
    exact ⟨x.2, hdoc.symm ▸ hfirst, rfl⟩
  refine ⟨nodup_documentRollup chunkHits, fun d => ⟨fun hd => ?_, fun hd => ?_⟩, hbest, Ranking.sort_pairwise _ _ _⟩
  · obtain ⟨hit, hhit, rfl⟩ := mem_map.1 hd
    obtain ⟨ch, ⟨hdoc, before, after, heq, -⟩, -⟩ := hbest hit hhit
    exact mem_map.2 ⟨ch, by simp [heq], hdoc⟩
  · obtain ⟨c, hc, rfl⟩ := mem_map.1 hd
    cases hget : (chunkHits.foldl keepBest .empty).get? c.documentId with
    | none => exact absurd rfl ((get?_rollup chunkHits c.documentId).2 hget c hc)
    | some ch =>
      have hdoc := ((get?_rollup chunkHits c.documentId).1 ch hget).1
      refine mem_map.2 ⟨ch.toHit, ?_, hdoc⟩
      rw [documentRollup, (Ranking.sort_perm Hit.score Hit.documentId _).mem_iff]
      exact mem_map.2 ⟨(c.documentId, ch), (Keyed.get?_eq_some_iff _ _ _).1 hget, rfl⟩

/-! ## Fusion and rollup -/

/-- Chunks are rolled up as they should be. Two lists are fused as they should be exactly if both have fewer than
    `2 ^ 32` ids. -/
theorem fuses_iff_short {vecRanked kwRanked : List Int} (hvec : vecRanked.Nodup) (hkw : kwRanked.Nodup) (k : ℕ)
    (chunkHits : List ChunkHit) :
    RollsUp chunkHits ∧
      (Fuses vecRanked kwRanked k ↔ vecRanked.length < 2 ^ 32 ∧ kwRanked.length < 2 ^ 32) := by
  refine ⟨rollsUp chunkHits, fun h => ?_, fuses_of_short hvec hkw k⟩
  by_contra hlong
  rw [not_and_or, not_lt, not_lt] at hlong
  exact not_fuses_of_long hvec hkw k hlong h

/-- Two lists that share an id. -/
theorem fuses_two_lists : Fuses [10, 20] [20, 30] 60 ∧ (rrfFuse [10, 20] [20, 30] 60).map Prod.fst = [20, 10, 30] :=
  ⟨(fuses_iff_short (by decide) (by decide) 60 []).2.2 (by decide), by decide +kernel⟩

/-- In a list of `2 ^ 32` ids the last one does not get the score of its rank. -/
theorem not_fuses_four_billion : ¬ Fuses ((List.range (2 ^ 32)).map Int.ofNat) [] 60 := by
  refine not_fuses_of_long (nodup_range.map fun a b hab => Int.ofNat.inj hab) nodup_nil 60 (.inl ?_)
  rw [length_map, length_range]

end Tagsmaxxing.HybridSearch
