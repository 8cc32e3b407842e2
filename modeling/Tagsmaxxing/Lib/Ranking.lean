import Mathlib.Data.List.Sort
import Mathlib.Data.Prod.Lex

/-! # Ranked lists

Two things that code does with ranked lists. It sorts by a score, best first, and breaks ties by a key; if keys
are distinct, the result does not depend on the order of the list it sorts (`sort_eq_of_perm`), so it does not
matter in which order a hash map is iterated; and a key whose score rises does not move down
(`idxOf_le_of_scores`). And it keeps, of each group, the first element (`firsts`); elements
put in behind one of their own group change nothing (`firsts_insert`). -/

namespace Ranking

open List

/-! ## Sorting by a score -/

section Scores

variable {α σ κ : Type} [LinearOrder σ] [LinearOrder κ] (score : α → σ) (key : α → κ) {l : List α}

/-- A higher score, or the same one and a smaller key. -/
def Before (a b : α) : Prop := score b < score a ∨ score a = score b ∧ key a ≤ key b

instance : DecidableRel (Before score key) := fun a b =>
  inferInstanceAs (Decidable (score b < score a ∨ score a = score b ∧ key a ≤ key b))

variable {score key} in
/-- The lexicographic order, with the scores turned around. -/
theorem before_iff {a b : α} : Before score key a b ↔
    toLex (OrderDual.toDual (score a), key a) ≤ toLex (OrderDual.toDual (score b), key b) := by
  simp [Before, Prod.Lex.toLex_le_toLex]

instance : Std.Total (Before score key) where
  total a b := by
    rw [before_iff, before_iff]
    exact le_total _ _

instance : IsTrans α (Before score key) where
  trans _ _ _ hab hbc := before_iff.2 ((before_iff.1 hab).trans (before_iff.1 hbc))

variable {score key} in
theorem Before.key_eq {a b : α} (hab : Before score key a b) (hba : Before score key b a) : key a = key b :=
  congrArg (fun x => (ofLex x).2) ((before_iff.1 hab).antisymm (before_iff.1 hba))

/-- Best first. -/
def sort (l : List α) : List α := l.insertionSort (Before score key)

theorem sort_perm (l : List α) : (sort score key l).Perm l := perm_insertionSort _ l

theorem sort_pairwise (l : List α) : (sort score key l).Pairwise (Before score key) := pairwise_insertionSort _ l

variable {score key} in
/-- With distinct keys, the order of the list makes no difference. -/
theorem sort_eq_of_perm {l' : List α} (hperm : l.Perm l') (hkeys : (l.map key).Nodup) :
    sort score key l = sort score key l' := by
  have hsorted : (sort score key l).Perm (sort score key l') :=
    (sort_perm score key l).trans (hperm.trans (sort_perm score key l').symm)
  refine List.Perm.eq_of_pairwise ?_ (sort_pairwise score key l) (sort_pairwise score key l') hsorted
  intro a b ha hb hab hba
  have ha' : a ∈ l := (sort_perm score key l).mem_iff.1 ha
  have hb' : b ∈ l := hperm.mem_iff.2 ((sort_perm score key l').mem_iff.1 hb)
  exact inj_on_of_nodup_map hkeys ha' hb' (hab.key_eq hba)

variable {score key} in
/-- In a sorted list with distinct keys, the place of an element is the number of others that come before it. -/
theorem idxOf_key_eq_countP (hsorted : l.Pairwise (Before score key)) (hkeys : (l.map key).Nodup) {a : α} (ha : a ∈ l) :
    (l.map key).idxOf (key a) = l.countP fun b => decide (key b ≠ key a) && decide (Before score key b a) := by
  induction l with
  | nil => cases ha
  | cons b l ih =>
    rw [pairwise_cons] at hsorted
    rw [map_cons, nodup_cons] at hkeys
    rw [map_cons, countP_cons]
    by_cases hb : key b = key a
    · -- the element itself: what follows comes behind it
      have hnone : l.countP (fun c => decide (key c ≠ key a) && decide (Before score key c a)) = 0 := by
        refine countP_eq_zero.2 fun c hc hcount => ?_
        simp only [Bool.and_eq_true, decide_eq_true_eq] at hcount
        rcases mem_cons.1 ha with rfl | ha
        · exact hcount.1 (hcount.2.key_eq (hsorted.1 c hc))
        · exact hkeys.1 (hb ▸ mem_map.2 ⟨a, ha, rfl⟩)
      rw [hnone, hb, idxOf_cons_self]
      simp
    · have ha' : a ∈ l := (mem_cons.1 ha).resolve_left fun hab => hb (hab ▸ rfl)
      rw [idxOf_cons_ne _ hb, ih hsorted.2 hkeys.2 ha', if_pos (by simp [hb, hsorted.1 a ha'])]

omit [LinearOrder σ] [LinearOrder κ] in
theorem countP_entries {l : List (κ × σ)} {f : κ → σ} (hf : ∀ e ∈ l, e.2 = f e.1) (p : κ × σ → Bool) :
    l.countP p = (l.map Prod.fst).countP fun k => p (k, f k) := by
  rw [countP_map]
  refine countP_congr fun e he => ?_
  have heq : e = (e.1, f e.1) := Prod.ext rfl (hf e he)
  rw [Function.comp_apply, ← heq]

/-- If the score of one key rises and no other does, the key does not move down. -/
theorem idxOf_le_of_scores {l l' : List (κ × σ)} {f f' : κ → σ}
    (hl : l.Pairwise (Before Prod.snd Prod.fst)) (hl' : l'.Pairwise (Before Prod.snd Prod.fst))
    (hnodup : (l.map Prod.fst).Nodup) (hperm : (l.map Prod.fst).Perm (l'.map Prod.fst))
    (hf : ∀ e ∈ l, e.2 = f e.1) (hf' : ∀ e ∈ l', e.2 = f' e.1) {x : κ} (hx : x ∈ l.map Prod.fst)
    (hup : f x ≤ f' x) (hdown : ∀ y, y ≠ x → f' y ≤ f y) :
    (l'.map Prod.fst).idxOf x ≤ (l.map Prod.fst).idxOf x := by
  obtain ⟨e, he, rfl⟩ := mem_map.1 hx
  obtain ⟨e', he', heq⟩ := mem_map.1 (hperm.mem_iff.1 hx)
  rw [idxOf_key_eq_countP hl hnodup he, ← heq, idxOf_key_eq_countP hl' (hperm.nodup_iff.1 hnodup) he',
    countP_entries hf, countP_entries hf', ← hperm.countP_eq]
  refine countP_mono_left fun y _ hy => ?_
  simp only [Bool.and_eq_true, decide_eq_true_eq] at hy ⊢
  obtain ⟨hne, hbefore⟩ := hy
  refine ⟨heq ▸ hne, ?_⟩
  -- what comes before the key afterwards came before it with its old score
  have hy : f' y ≤ f y := hdown y (heq ▸ hne)
  have hx : e.2 ≤ e'.2 := by
    rw [hf e he, hf' e' he', heq]
    exact hup
  rcases hbefore with hlt | ⟨hsame, hle⟩
  · exact .inl ((hx.trans_lt hlt).trans_le hy)
  · rcases (hx.trans (hsame.ge.trans hy)).lt_or_eq with hlt | hscore
    · exact .inl hlt
    · exact .inr ⟨hscore.symm, heq ▸ hle⟩

end Scores

/-! ## The first of each group -/

section Firsts

variable {α κ : Type} [DecidableEq κ] (key : α → κ)

/-- The elements whose key is neither in `seen` nor that of an earlier element. -/
def firsts (seen : List κ) : List α → List α
  | [] => []
  | a :: l => if key a ∈ seen then firsts seen l else a :: firsts (key a :: seen) l

variable {key} {seen : List κ}

/-- An element behind another one with its key makes no difference. -/
theorem firsts_insert {l₁ l₂ : List α} {x : α} (h : key x ∈ seen ∨ key x ∈ l₁.map key) :
    firsts key seen (l₁ ++ x :: l₂) = firsts key seen (l₁ ++ l₂) := by
  induction l₁ generalizing seen with
  | nil =>
    have hx : key x ∈ seen := by simpa using h
    rw [nil_append, nil_append, firsts, if_pos hx]
  | cons a l₁ ih =>
    rw [map_cons, mem_cons] at h
    simp only [cons_append, firsts]
    split
    next ha =>
      apply ih
      rcases h with h | h | h
      · exact .inl h
      · exact .inl (h ▸ ha)
      · exact .inr h
    · rw [ih]
      rcases h with h | h | h
      · exact .inl (mem_cons_of_mem _ h)
      · exact .inl (h ▸ mem_cons_self)
      · exact .inr h

/-- The keys are the distinct keys of the list, in the order of their first occurrences. -/
theorem map_firsts (seen : List κ) (l : List α) :
    (firsts key seen l).map key = ((l.map key).filter fun k => decide (k ∉ seen)).eraseDups := by
  induction l generalizing seen with
  | nil => simp [firsts]
  | cons a l ih =>
    rw [firsts, map_cons]
    split
    next ha => rw [ih, filter_cons_of_neg (by simpa using ha)]
    next ha =>
      rw [map_cons, ih, filter_cons_of_pos (by simpa using ha), eraseDups_cons, filter_filter]
      congr 2
      apply filter_congr
      intro k _
      by_cases hk : k = key a
      all_goals simp [hk]

theorem find?_of_mem_firsts {l : List α} {a : α} (h : a ∈ firsts key seen l) :
    key a ∉ seen ∧ l.find? (fun b => key b == key a) = some a := by
  induction l generalizing seen with
  | nil => cases h
  | cons b l ih =>
    rw [firsts] at h
    split at h
    next hb =>
      obtain ⟨hseen, hfind⟩ := ih h
      have hne : key b ≠ key a := by
        intro heq
        exact hseen (heq ▸ hb)
      exact ⟨hseen, by rw [find?_cons_of_neg (by simpa using hne)]; exact hfind⟩
    next hb =>
      rcases mem_cons.1 h with rfl | h
      · exact ⟨hb, by simp⟩
      · obtain ⟨hseen, hfind⟩ := ih h
        rw [mem_cons, not_or] at hseen
        exact ⟨hseen.2, by rw [find?_cons_of_neg (by simpa using Ne.symm hseen.1)]; exact hfind⟩

end Firsts

end Ranking
