import Mathlib.Algebra.Order.BigOperators.Group.List
import Mathlib.Algebra.Order.Ring.Nat

/-! # Taking from the front until enough is taken

Elements have sizes, and a loop takes them from the front of a list until the sizes taken reach what is needed or
nothing is left. `count` is how many it takes: a prefix that is enough, or the whole list, and no shorter prefix is
enough (`needed_le_total_take`, `total_take_lt`). Seen from what is left behind, it takes the shortest prefix after
which the rest has room beside what comes in (`fits_count`, `not_fits_of_lt`). -/

namespace Greedy

open List

variable {α : Type} (size : α → ℕ)

/-- The sizes of all elements. -/
def total : List α → ℕ
  | [] => 0
  | a :: l => size a + total l

theorem total_eq_sum (l : List α) : total size l = (l.map size).sum := by
  induction l with
  | nil => rfl
  | cons a l ih => rw [total, ih, map_cons, sum_cons]

theorem total_append (l l' : List α) : total size (l ++ l') = total size l + total size l' := by
  simp [total_eq_sum]

variable {l l' : List α}

theorem total_perm (h : l.Perm l') : total size l = total size l' := by
  rw [total_eq_sum, total_eq_sum, (h.map size).sum_eq]

theorem total_le_of_sublist (h : l.Sublist l') : total size l ≤ total size l' := by
  rw [total_eq_sum, total_eq_sum]
  exact (h.map size).sum_le_sum fun _ _ => Nat.zero_le _

theorem total_take_add_drop (l : List α) (k : ℕ) :
    total size (l.take k) + total size (l.drop k) = total size l := by
  rw [← total_append, take_append_drop]

/-- How many elements are taken. -/
def count : ℕ → List α → ℕ
  | _, [] => 0
  | needed, a :: l => if needed = 0 then 0 else count (needed - size a) l + 1

theorem count_le_length (needed : ℕ) (l : List α) : count size needed l ≤ l.length := by
  induction l generalizing needed with
  | nil => exact le_rfl
  | cons a l ih =>
    rw [count]
    split
    · exact Nat.zero_le _
    · exact Nat.succ_le_succ (ih _)

theorem needed_le_total_take (needed : ℕ) (l : List α) :
    needed ≤ total size (l.take (count size needed l)) ∨ count size needed l = l.length := by
  induction l generalizing needed with
  | nil => exact .inr rfl
  | cons a l ih =>
    rw [count]
    split
    · exact .inl (by omega)
    · rcases ih (needed - size a) with henough | hall
      · rw [take_succ_cons, total]
        exact .inl (by omega)
      · exact .inr (by rw [hall, length_cons])

variable {j needed : ℕ}

theorem total_take_lt (hj : j < count size needed l) : total size (l.take j) < needed := by
  induction l generalizing needed j with
  | nil => exact absurd hj (Nat.not_lt_zero j)
  | cons a l ih =>
    rw [count] at hj
    split at hj
    · exact absurd hj (Nat.not_lt_zero j)
    next hpos =>
      cases j with
      | zero => exact Nat.pos_of_ne_zero hpos
      | succ j =>
        have := ih (Nat.lt_of_succ_lt_succ hj)
        rw [take_succ_cons, total]
        omega

theorem total_eq_zero_iff (l : List α) : total size l = 0 ↔ ∀ a ∈ l, size a = 0 := by
  simp [total_eq_sum, sum_eq_zero_iff]

theorem total_take_mono (l : List α) {i : ℕ} (h : i ≤ j) : total size (l.take i) ≤ total size (l.take j) :=
  total_le_of_sublist size (take_prefix_take_left h).sublist

section Middle

variable {front mid : List α}

theorem total_take_middle (back : List α) :
    total size ((front ++ (mid ++ back)).take (front.length + mid.length)) = total size front + total size mid := by
  rw [← append_assoc, ← length_append, take_left, total_append]

/-- If the last element taken is one of the middle, the middle has a size. -/
theorem total_pos_of_count {back : List α} (hback : back ≠ [])
    (hlo : front.length < count size needed (front ++ (mid ++ back)))
    (hhi : count size needed (front ++ (mid ++ back)) ≤ front.length + mid.length) : 0 < total size mid := by
  have hshort := total_take_lt size hlo
  have hle := total_take_mono size (front ++ (mid ++ back)) hhi
  rw [take_left] at hshort
  rw [total_take_middle] at hle
  rcases needed_le_total_take size needed (front ++ (mid ++ back)) with henough | hall
  · omega
  · have := length_pos_iff.2 hback
    simp only [length_append] at hall
    omega

/-- If the middle has a size, some need is met by an element of it. -/
theorem exists_count (back : List α) (hpos : 0 < total size mid) :
    ∃ needed, front.length < count size needed (front ++ (mid ++ back)) ∧
      count size needed (front ++ (mid ++ back)) ≤ front.length + mid.length := by
  refine ⟨total size front + total size mid, ?_, ?_⟩
  · by_contra hle
    have hless := total_take_mono size (front ++ (mid ++ back)) (not_lt.1 hle)
    rw [take_left] at hless
    rcases needed_le_total_take size (total size front + total size mid) (front ++ (mid ++ back)) with henough | hall
    · omega
    · have hmid : mid ≠ [] := by
        rintro rfl
        exact absurd hpos (lt_irrefl 0)
      have := length_pos_iff.2 hmid
      simp only [length_append] at hall
      omega
  · by_contra hgt
    have hshort := total_take_lt size (not_le.1 hgt)
    rw [total_take_middle] at hshort
    exact lt_irrefl _ hshort

end Middle

/-! ## What is left behind -/

/-- What is left after `k` elements has room beside the incoming bytes, or nothing is left. -/
def Fits (max incoming : ℕ) (rest : List α) : Prop := total size rest + incoming ≤ max ∨ rest = []

variable {incoming max : ℕ}

theorem Fits.of_sublist (h : Fits size max incoming l') (hsub : l.Sublist l') : Fits size max incoming l := by
  rcases h with hroom | hnil
  · have := total_le_of_sublist size hsub
    exact .inl (by omega)
  · subst hnil
    exact .inr (eq_nil_of_sublist_nil hsub)

theorem fits_count (max incoming : ℕ) (l : List α) :
    Fits size max incoming (l.drop (count size (total size l + incoming - max) l)) := by
  rcases needed_le_total_take size (total size l + incoming - max) l with henough | hall
  · have := total_take_add_drop size l (count size (total size l + incoming - max) l)
    exact .inl (by omega)
  · rw [hall]
    exact .inr (drop_length ..)

theorem not_fits_of_lt (hj : j < count size (total size l + incoming - max) l) :
    ¬ Fits size max incoming (l.drop j) := by
  have hsplit := total_take_add_drop size l j
  have hshort := total_take_lt size hj
  rintro (hroom | hnil)
  · omega
  · have := drop_eq_nil_iff.1 hnil
    have := count_le_length size (total size l + incoming - max) l
    omega

end Greedy
