import Mathlib.Data.Vector.Basic

/-! # Calls that return, fail or panic

`Exec α` is what a call comes to in a language where a function may return a value, return an error or
panic. Reading past the end of a slice, copying between slices of different lengths and viewing a slice
as an array of another length panic, so the operations on slices below are calls of this kind. -/

/-- The outcome of a call. -/
inductive Exec (α : Type)
  | ok (a : α)
  | error (msg : String)
  | panicked
deriving DecidableEq

namespace Exec

variable {α β : Type}

/-- What comes after a call happens only if it returns. -/
protected def bind : Exec α → (α → Exec β) → Exec β
  | ok a, f => f a
  | error msg, _ => error msg
  | panicked, _ => panicked

instance : Monad Exec where
  pure := ok
  bind := Exec.bind

/-- Give an error another message. -/
def context (msg : String) : Exec α → Exec α
  | error _ => error msg
  | x => x

/-- Fail unless a condition holds. -/
def ensure (c : Prop) [Decidable c] (msg : String) : Exec Unit := if c then ok () else error msg

/-- A value, or an error. -/
def ofOption (msg : String) : Option α → Exec α
  | some a => ok a
  | none => error msg

/-! ## Sequencing -/

@[simp] theorem ok_bind (a : α) (f : α → Exec β) : (ok a >>= f) = f a := rfl

@[simp] theorem error_bind (msg : String) (f : α → Exec β) : (error msg >>= f) = error msg := rfl

@[simp] theorem panicked_bind (f : α → Exec β) : (panicked >>= f) = panicked := rfl

variable {x : Exec α} {msg : String} {xs : List α} {n : ℕ} {f : α → Exec β}

theorem bind_eq_ok_iff {b : β} : x >>= f = ok b ↔ ∃ a, x = ok a ∧ f a = ok b := by
  cases x with
  | ok a | error msg | panicked => simp

theorem bind_ne_panicked (hx : x ≠ panicked) (hf : ∀ a, x = ok a → f a ≠ panicked) : x >>= f ≠ panicked := by
  cases x with
  | ok a => exact hf a rfl
  | error msg => simp
  | panicked => exact absurd rfl hx

@[simp] theorem pure_eq_ok (a : α) : (pure a : Exec α) = ok a := rfl

@[simp] theorem context_ok (msg : String) (a : α) : context msg (ok a) = ok a := rfl

theorem context_eq_ok_iff {a : α} : context msg x = ok a ↔ x = ok a := by
  cases x with
  | ok b => simp
  | error e | panicked => simp [context]

theorem context_ne_panicked (h : x ≠ panicked) : context msg x ≠ panicked := by
  cases x with
  | ok a => simp
  | error e => simp [context]
  | panicked => exact absurd rfl h

@[simp] theorem ensure_of_true {c : Prop} [Decidable c] (h : c) (msg : String) : ensure c msg = ok () := if_pos h

theorem ensure_eq_ok_iff {c : Prop} [Decidable c] {u : Unit} : ensure c msg = ok u ↔ c := by
  unfold ensure
  split <;> simp_all

theorem ensure_ne_panicked (c : Prop) [Decidable c] (msg : String) : ensure c msg ≠ panicked := by
  unfold ensure
  split <;> simp

@[simp] theorem ofOption_some (msg : String) (a : α) : ofOption msg (some a) = ok a := rfl

theorem ofOption_eq_ok_iff {x : Option α} {a : α} : ofOption msg x = ok a ↔ x = some a := by
  cases x with
  | none => simp [ofOption]
  | some b => simp

theorem ofOption_ne_panicked (msg : String) (x : Option α) : ofOption msg x ≠ panicked := by
  cases x with
  | none => simp [ofOption]
  | some a => simp

/-! ## Slices -/

/-- `xs[i..j]`. -/
def slice (xs : List α) (i j : ℕ) : Exec (List α) :=
  if i ≤ j ∧ j ≤ xs.length then ok ((xs.take j).drop i) else panicked

/-- `xs[i]`. -/
def index (xs : List α) (i : ℕ) : Exec α :=
  match xs[i]? with
  | some a => ok a
  | none => panicked

/-- A slice as an array. -/
def toArray (n : ℕ) (xs : List α) : Exec (List.Vector α n) :=
  if h : xs.length = n then ok ⟨xs, h⟩ else panicked

/-- Cutting a part out of a concatenation at its own offsets. -/
theorem slice_append (l ys r : List α) {i j : ℕ} (hi : l.length = i) (hj : i + ys.length = j) :
    slice (l ++ (ys ++ r)) i j = ok ys := by
  subst hi hj
  have hin : l.length ≤ l.length + ys.length ∧ l.length + ys.length ≤ (l ++ (ys ++ r)).length := by
    simp only [List.length_append]
    omega
  rw [slice, if_pos hin, List.take_length_add_append, List.take_left, List.drop_left]

theorem exists_vector_append (h : n ≤ xs.length) :
    ∃ (v : List.Vector α n) (r : List α), xs = v.toList ++ r := by
  have hlen : (xs.take n).length = n := by
    rw [List.length_take]
    omega
  exact ⟨⟨xs.take n, hlen⟩, xs.drop n, (List.take_append_drop n xs).symm⟩

theorem index_append (l : List α) (a : α) (r : List α) {i : ℕ} (h : l.length = i) :
    index (l ++ a :: r) i = ok a := by
  subst h
  simp [index]

@[simp] theorem toArray_toList (v : List.Vector α n) : toArray n v.toList = ok v := dif_pos v.toList_length

theorem toArray_ne_panicked (h : xs.length = n) : toArray n xs ≠ panicked := by
  rw [toArray, dif_pos h]
  simp

theorem toArray_eq_ok_iff {v : List.Vector α n} : toArray n xs = ok v ↔ xs = v.toList := by
  constructor
  · intro h
    unfold toArray at h
    split at h
    · cases h
      rfl
    · cases h
  · rintro rfl
    exact toArray_toList v

end Exec
