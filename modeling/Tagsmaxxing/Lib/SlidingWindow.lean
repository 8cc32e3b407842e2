import Mathlib.Algebra.Order.Group.Defs

/-! # Sliding windows

A log of times, and a rule that lets a new time in while fewer than `cap` entries of the log are less than
`w` old. A log made by that rule (`Admitted`) has at most `cap` entries in any window of length `w`, wherever
the window starts. Old entries may be dropped at any moment: what is recent later on is the same. -/

namespace SlidingWindow

open List

variable {α : Type} [AddCommGroup α] [LinearOrder α]

/-- The entries that are less than `w` old at `now`. -/
def recent (w now : α) (log : List α) : List α := log.filter fun t => decide (now - w < t)

variable {w now later : α} {log : List α} {cap : ℕ}

theorem mem_recent {t : α} : t ∈ recent w now log ↔ t ∈ log ∧ now - w < t := by simp [recent]

theorem recent_append (w now : α) (log log' : List α) :
    recent w now (log ++ log') = recent w now log ++ recent w now log' := filter_append ..

/-- A log in the order of time, in which every entry was let in while fewer than `cap` were recent. -/
inductive Admitted (cap : ℕ) (w : α) : List α → Prop
  | nil : Admitted cap w []
  | concat {log : List α} {t : α} : Admitted cap w log → (∀ s ∈ log, s ≤ t) →
      (recent w t log).length < cap → Admitted cap w (log ++ [t])

/-- At most `cap` entries are in a set of times that are all less than `w` apart. -/
theorem Admitted.countP_le (h : Admitted cap w log) {p : α → Bool}
    (hp : ∀ s t, p s = true → p t = true → s ≤ t → t - w < s) : log.countP p ≤ cap := by
  induction h with
  | nil => exact Nat.zero_le _
  | @concat log t h hle hlen ih =>
    rw [countP_append, countP_singleton]
    split_ifs with ht
    · -- the others were recent when the last one came
      have hrecent : log.countP p ≤ (recent w t log).length := by
        rw [recent, ← countP_eq_length_filter]
        exact countP_mono_left fun s hs hps => decide_eq_true (hp s t hps ht (hle s hs))
      omega
    · exact ih

variable [IsOrderedAddMonoid α]

theorem recent_recent (h : now ≤ later) (log : List α) :
    recent w later (recent w now log) = recent w later log := by
  rw [recent, recent, recent, filter_filter]
  refine filter_congr fun t _ => ?_
  by_cases ht : later - w < t
  · simp [ht, (sub_le_sub_right h w).trans_lt ht]
  · simp [ht]

theorem length_recent_lt {t : α} (h : now ≤ later) (ht : t ∈ recent w now log) (hold : t ≤ later - w) :
    (recent w later log).length < (recent w now log).length := by
  rw [← recent_recent h]
  refine lt_of_le_of_ne (length_filter_le _ _) fun heq => ?_
  have hall := filter_eq_self.1 (filter_sublist.eq_of_length heq) t ht
  exact absurd hold (not_le.2 (of_decide_eq_true hall))

variable (h : Admitted cap w log)

include h

theorem Admitted.countP_Ico_le (a : α) : (log.countP fun t => decide (a ≤ t) && decide (t < a + w)) ≤ cap := by
  refine h.countP_le fun s t hs ht _ => ?_
  simp only [Bool.and_eq_true, decide_eq_true_eq] at hs ht
  exact (sub_lt_iff_lt_add.2 ht.2).trans_le hs.1

theorem Admitted.countP_Ioc_le (a : α) : (log.countP fun t => decide (a < t) && decide (t ≤ a + w)) ≤ cap := by
  refine h.countP_le fun s t hs ht _ => ?_
  simp only [Bool.and_eq_true, decide_eq_true_eq] at hs ht
  exact (sub_le_iff_le_add.2 ht.2).trans_lt hs.1

theorem Admitted.length_recent_le (hnow : ∀ t ∈ log, t ≤ now) : (recent w now log).length ≤ cap := by
  have hwindow := h.countP_Ioc_le (now - w)
  rw [countP_eq_length_filter, sub_add_cancel] at hwindow
  refine le_of_eq_of_le (congrArg length (filter_congr fun t ht => ?_)) hwindow
  simp [hnow t ht]

end SlidingWindow
