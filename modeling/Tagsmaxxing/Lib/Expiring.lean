import Mathlib.Order.MinMax

/-! # Entries with a deadline

A store of entries that expire is, for the question which entries are alive, a function from keys to deadlines. An
entry is alive while its deadline lies ahead. For each operation one lemma says which keys are alive afterwards:

* `issue` — a new entry;
* `slide` — the deadline of a stored entry moves forward, never back;
* `drop` — entries are removed;
* the clock advances (`Live.of_le`). -/

namespace Expiring

variable {κ τ : Type} [LinearOrder τ]

/-- The key has an entry whose deadline lies ahead. -/
def Live (d : κ → Option τ) (now : τ) (k : κ) : Prop := ∃ t, d k = some t ∧ now < t

/-- The entries that meet `p` are removed. -/
def drop (p : κ → Bool) (d : κ → Option τ) : κ → Option τ := fun i => if p i then none else d i

section

variable [DecidableEq κ]

/-- A new entry. -/
def issue (k : κ) (t : τ) (d : κ → Option τ) : κ → Option τ := fun i => if i = k then some t else d i

/-- The deadline of a stored entry moves forward. -/
def slide (k : κ) (t : τ) (d : κ → Option τ) : κ → Option τ :=
  fun i => if i = k then (d i).map fun x => max x t else d i

end

variable {d : κ → Option τ} {now t : τ} {i k : κ}

theorem Live.of_le (h : Live d t k) (hle : now ≤ t) : Live d now k := by
  obtain ⟨x, hx, hlt⟩ := h
  exact ⟨x, hx, lt_of_le_of_lt hle hlt⟩

theorem live_congr {d' : κ → Option τ} (h : d' k = d k) : Live d' now k ↔ Live d now k := by
  rw [Live, Live, h]

theorem Live.of_drop {p : κ → Bool} (h : Live (drop p d) now k) : Live d now k := by
  obtain ⟨x, hx, hlt⟩ := h
  rw [drop] at hx
  split at hx
  · cases hx
  · exact ⟨x, hx, hlt⟩

variable [DecidableEq κ]

omit [LinearOrder τ] in
theorem issue_of_ne (h : i ≠ k) : issue k t d i = d i := if_neg h

/-- A slide makes a key live if its entry is still stored, whether or not it was alive. -/
theorem live_slide_iff :
    Live (slide k t d) now i ↔ Live d now i ∨ (i = k ∧ (d k).isSome ∧ now < t) := by
  by_cases hi : i = k
  · subst hi
    cases hd : d i with
    | none | some x => simp [Live, slide, hd]
  · simp [Live, slide, hi]

end Expiring
