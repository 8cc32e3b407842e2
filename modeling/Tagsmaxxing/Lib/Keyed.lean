import Mathlib.Data.List.Nodup

/-! # Tables with a primary key

`Keyed κ ρ` is a table whose rows are found under a key chosen by the writer. The keys are distinct, as a field of the
table. A statement reads or changes it through

* `get?` — the row under a key, and `keysWhere`, the keys of the rows a query keeps;
* `upsert` — `INSERT … ON CONFLICT (key) DO UPDATE`, and `upsertAll` for a list of `VALUES`;
* `insertNew` — `INSERT … ON CONFLICT (key) DO NOTHING`;
* `updateWhere` — `UPDATE … SET f WHERE p`;
* `deleteWhere` — `DELETE … WHERE p`.

Each comes with its equation for `get?`. -/

/-- A table with a primary key. -/
structure Keyed (κ ρ : Type) where
  rows : List (κ × ρ)
  nodup : (rows.map Prod.fst).Nodup

namespace Keyed

open List

variable {κ ρ : Type} [DecidableEq κ]

def empty : Keyed κ ρ := ⟨[], List.nodup_nil⟩

/-- The row under a key. -/
def get? (t : Keyed κ ρ) (k : κ) : Option ρ := t.rows.lookup k

/-- `DELETE … WHERE p`. -/
def deleteWhere (t : Keyed κ ρ) (p : κ → ρ → Bool) : Keyed κ ρ where
  rows := t.rows.filter fun x => !p x.1 x.2
  nodup := (List.filter_sublist.map Prod.fst).nodup t.nodup

omit [DecidableEq κ] in
theorem map_fst_update (p : κ → ρ → Bool) (f : ρ → ρ) (l : List (κ × ρ)) :
    (l.map fun x => if p x.1 x.2 then (x.1, f x.2) else x).map Prod.fst = l.map Prod.fst := by
  induction l with
  | nil => rfl
  | cons x l ih =>
    rw [map_cons, map_cons, map_cons, ih]
    split <;> rfl

/-- `UPDATE … SET f WHERE p`. -/
def updateWhere (t : Keyed κ ρ) (p : κ → ρ → Bool) (f : ρ → ρ) : Keyed κ ρ where
  rows := t.rows.map fun x => if p x.1 x.2 then (x.1, f x.2) else x
  nodup := (map_fst_update p f t.rows).symm ▸ t.nodup

/-- `INSERT … ON CONFLICT (key) DO UPDATE`: the row replaces the one under its key. -/
def upsert (t : Keyed κ ρ) (k : κ) (r : ρ) : Keyed κ ρ where
  rows := (t.deleteWhere fun x _ => x == k).rows ++ [(k, r)]
  nodup := by
    rw [List.map_append, List.nodup_append]
    refine ⟨(t.deleteWhere _).nodup, List.nodup_singleton k, ?_⟩
    rintro a ha b hb rfl
    obtain ⟨x, hx, rfl⟩ := List.mem_map.1 ha
    have hne := (List.mem_filter.1 hx).2
    simp only [List.map_cons, List.map_nil, List.mem_singleton] at hb
    simp [hb] at hne

/-- One `INSERT … ON CONFLICT (key) DO UPDATE` of the same row under several keys. -/
def upsertAll (t : Keyed κ ρ) (ks : List κ) (r : ρ) : Keyed κ ρ := ks.foldl (fun t k => t.upsert k r) t

/-- `INSERT … ON CONFLICT (key) DO NOTHING`. -/
def insertNew (t : Keyed κ ρ) (k : κ) (r : ρ) : Keyed κ ρ :=
  if (t.get? k).isSome then t else t.upsert k r

/-- The keys of the rows with a property. -/
def keysWhere (t : Keyed κ ρ) (p : κ → ρ → Bool) : List κ :=
  (t.rows.filter fun x => p x.1 x.2).map Prod.fst

/-! ## Reading -/

theorem lookup_eq_some_iff {l : List (κ × ρ)} (h : (l.map Prod.fst).Nodup) (k : κ) (r : ρ) :
    l.lookup k = some r ↔ (k, r) ∈ l := by
  induction l with
  | nil => simp
  | cons x l ih =>
    obtain ⟨i, v⟩ := x
    rw [map_cons, nodup_cons] at h
    rw [lookup_cons]
    by_cases hk : k = i
    · subst hk
      -- the key of the head occurs nowhere else
      have hnot : (k, r) ∉ l := fun hmem => h.1 (mem_map.2 ⟨(k, r), hmem, rfl⟩)
      simp [hnot, eq_comm]
    · rw [beq_eq_false_iff_ne.2 hk]
      simp [hk, ih h.2]

variable (t : Keyed κ ρ)

theorem get?_eq_some_iff (k : κ) (r : ρ) : t.get? k = some r ↔ (k, r) ∈ t.rows :=
  lookup_eq_some_iff t.nodup k r

@[simp] theorem get?_empty (k : κ) : (empty : Keyed κ ρ).get? k = none := rfl

variable (p : κ → ρ → Bool) {k : κ}

theorem mem_keysWhere (k : κ) : k ∈ t.keysWhere p ↔ ∃ r, t.get? k = some r ∧ p k r = true := by
  simp only [keysWhere, mem_map, mem_filter, Prod.exists]
  constructor
  · rintro ⟨i, r, ⟨hmem, hp⟩, rfl⟩
    exact ⟨r, (t.get?_eq_some_iff i r).2 hmem, hp⟩
  · rintro ⟨r, hget, hp⟩
    exact ⟨k, r, ⟨(t.get?_eq_some_iff k r).1 hget, hp⟩, rfl⟩

/-! ## Writing -/

omit [DecidableEq κ] in
theorem ext_rows {t t' : Keyed κ ρ} (h : t.rows = t'.rows) : t = t' := by
  cases t
  cases t'
  cases h
  rfl

omit [DecidableEq κ] in
theorem deleteWhere_deleteWhere (t : Keyed κ ρ) (p q : κ → ρ → Bool) :
    (t.deleteWhere p).deleteWhere q = t.deleteWhere fun k r => p k r || q k r := by
  refine ext_rows ?_
  simp only [deleteWhere, filter_filter]
  refine filter_congr fun x _ => ?_
  rw [Bool.not_or, Bool.and_comm]

omit [DecidableEq κ] in
theorem deleteWhere_of_forall {t : Keyed κ ρ} {p : κ → ρ → Bool} (h : ∀ x ∈ t.rows, p x.1 x.2 = false) :
    t.deleteWhere p = t := by
  refine ext_rows (filter_eq_self.2 fun x hx => ?_)
  rw [h x hx, Bool.not_false]

theorem deleteWhere_key_of_none {t : Keyed κ ρ} (hk : t.get? k = none) : t.deleteWhere (fun i _ => i == k) = t := by
  refine deleteWhere_of_forall fun x hx => ?_
  rw [beq_eq_false_iff_ne]
  rintro rfl
  rw [(t.get?_eq_some_iff x.1 x.2).2 hx] at hk
  cases hk

@[simp] theorem get?_deleteWhere (k : κ) : (t.deleteWhere p).get? k = (t.get? k).filter fun r => !p k r := by
  apply Option.ext
  intro r
  rw [get?_eq_some_iff, Option.filter_eq_some_iff, get?_eq_some_iff]
  simp [deleteWhere]

theorem lookup_update (f : ρ → ρ) (k : κ) (l : List (κ × ρ)) :
    (l.map fun x => if p x.1 x.2 then (x.1, f x.2) else x).lookup k =
      (l.lookup k).map fun r => if p k r then f r else r := by
  induction l with
  | nil => rfl
  | cons x l ih =>
    obtain ⟨i, r⟩ := x
    rw [map_cons]
    by_cases hk : k = i
    · subst hk
      by_cases hp : p k r = true
      all_goals simp [hp]
    · have hne : (k == i) = false := beq_eq_false_iff_ne.2 hk
      by_cases hp : p i r = true
      all_goals simp [lookup_cons, hp, hne, ih]

@[simp] theorem get?_updateWhere (f : ρ → ρ) (k : κ) :
    (t.updateWhere p f).get? k = (t.get? k).map fun r => if p k r then f r else r :=
  lookup_update p f k t.rows

@[simp] theorem get?_upsert (k i : κ) (r : ρ) : (t.upsert k r).get? i = if i = k then some r else t.get? i := by
  apply Option.ext
  intro x
  rw [get?_eq_some_iff]
  by_cases hi : i = k
  · subst hi
    simp [upsert, deleteWhere, eq_comm]
  · rw [if_neg hi, get?_eq_some_iff]
    simp [upsert, deleteWhere, hi]

@[simp] theorem get?_upsertAll (ks : List κ) (r : ρ) (i : κ) :
    (t.upsertAll ks r).get? i = if i ∈ ks then some r else t.get? i := by
  unfold upsertAll
  induction ks generalizing t with
  | nil => simp
  | cons k ks ih =>
    rw [foldl_cons, ih, get?_upsert]
    by_cases hmem : i ∈ ks
    · simp [hmem]
    · by_cases hi : i = k
      · simp [hi]
      · simp [hmem, hi]

@[simp] theorem get?_insertNew (k i : κ) (r : ρ) :
    (t.insertNew k r).get? i = if i = k then some ((t.get? k).getD r) else t.get? i := by
  unfold insertNew
  cases hk : t.get? k with
  | none => simp
  | some x =>
    rw [Option.isSome_some, if_pos rfl, Option.getD_some]
    split
    next hi => rw [hi, hk]
    · rfl

theorem insertNew_of_some {t : Keyed κ ρ} {x : ρ} (hk : t.get? k = some x) (r : ρ) : t.insertNew k r = t := by
  simp [insertNew, hk]

theorem rows_insertNew_of_none {t : Keyed κ ρ} (hk : t.get? k = none) (r : ρ) :
    (t.insertNew k r).rows = t.rows ++ [(k, r)] := by
  simp only [insertNew, hk, Option.isSome_none, Bool.false_eq_true, if_false, upsert]
  rw [deleteWhere_key_of_none hk]

end Keyed
