import Mathlib.Algebra.Order.BigOperators.Group.List
import Mathlib.Algebra.Order.Ring.Nat
import Mathlib.Data.List.Sort
import Tagsmaxxing.Lib.Keyed

/-! # Relational tables with a serial primary key

`Serial ρ` is a table whose rows carry an id drawn from a sequence: ids are distinct, and all of them lie below the
next id. Both facts are fields, so no operation can build a table that violates its primary key. A statement reads
or changes a table through

* `get?` — the row with a given id;
* `insert` — append a row under the next id;
* `updateWhere` — `UPDATE … SET f WHERE p`;
* `erase` — drop the row with a given id.

Each operation comes with one equation for `get?` and one for membership in `rows`; proofs about statements use
those and never unfold the list. `orderLimitOne` is `… ORDER BY … LIMIT 1`; an `ORDER BY` of all rows is
`List.insertionSort`, which commutes with `WHERE`. -/

/-- A table with a serial primary key. -/
structure Serial (ρ : Type) where
  rows : List (ℕ × ρ)
  next : ℕ
  /-- The sequence is ahead of every id in the table. -/
  fresh : ∀ r ∈ rows, r.1 < next
  /-- The primary key. -/
  nodup : (rows.map Prod.fst).Nodup

variable {k : ℕ}

namespace Serial

open List

variable {ρ : Type}

/-- The table with no rows. -/
def empty : Serial ρ := ⟨[], 1, by simp, by simp⟩

/-- The row with id `k`. -/
def get? (t : Serial ρ) (k : ℕ) : Option ρ := t.rows.lookup k

theorem fresh_append (t : Serial ρ) (r : ρ) : ∀ x ∈ t.rows ++ [(t.next, r)], x.1 < t.next + 1 := by
  refine forall_mem_append.2 ⟨fun x hx => ?_, forall_mem_singleton.2 (Nat.lt_succ_self _)⟩
  exact Nat.lt_succ_of_lt (t.fresh x hx)

theorem nodup_append (t : Serial ρ) (r : ρ) : ((t.rows ++ [(t.next, r)]).map Prod.fst).Nodup := by
  rw [map_append, List.nodup_append]
  refine ⟨t.nodup, by simp, ?_⟩
  intro a ha b hb
  obtain ⟨x, hx, rfl⟩ := mem_map.1 ha
  have hlt := t.fresh x hx
  simp only [map_cons, map_nil, mem_singleton] at hb
  omega

/-- Append a row under the id `t.next`. -/
def insert (t : Serial ρ) (r : ρ) : Serial ρ where
  rows := t.rows ++ [(t.next, r)]
  next := t.next + 1
  fresh := t.fresh_append r
  nodup := t.nodup_append r

/-- `UPDATE … SET f WHERE p`. -/
def updateWhere (t : Serial ρ) (p : ℕ → ρ → Bool) (f : ρ → ρ) : Serial ρ where
  rows := t.rows.map fun r => if p r.1 r.2 then (r.1, f r.2) else r
  next := t.next
  fresh := by
    intro x hx
    obtain ⟨r, hr, rfl⟩ := List.mem_map.1 hx
    have := t.fresh r hr
    split <;> exact this
  nodup := (Keyed.map_fst_update p f t.rows).symm ▸ t.nodup

/-- Rewrite the row with id `k`. -/
def modify (t : Serial ρ) (k : ℕ) (f : ρ → ρ) : Serial ρ := t.updateWhere (fun i _ => i == k) f

/-- `DELETE … WHERE id = k`. -/
def erase (t : Serial ρ) (k : ℕ) : Serial ρ where
  rows := t.rows.filter fun r => r.1 != k
  next := t.next
  fresh := fun x hx => t.fresh x (List.mem_of_mem_filter hx)
  nodup := t.nodup.sublist (List.filter_sublist.map _)

/-! ## Reading a table -/

theorem get?_eq_some_iff (t : Serial ρ) (k : ℕ) (r : ρ) : t.get? k = some r ↔ (k, r) ∈ t.rows :=
  Keyed.lookup_eq_some_iff t.nodup k r

theorem get?_eq_none_iff (t : Serial ρ) (k : ℕ) : t.get? k = none ↔ ∀ r, (k, r) ∉ t.rows := by
  simp only [Option.eq_none_iff_forall_ne_some, ne_eq, get?_eq_some_iff]

variable {t : Serial ρ}

theorem lt_next_of_get? {r : ρ} (h : t.get? k = some r) : k < t.next :=
  t.fresh _ ((t.get?_eq_some_iff k r).1 h)

theorem get?_of_rows_nil (h : t.rows = []) (k : ℕ) : t.get? k = none := by
  rw [get?_eq_none_iff, h]
  simp

@[simp] theorem get?_empty (k : ℕ) : (empty : Serial ρ).get? k = none := rfl

@[simp] theorem rows_empty : (empty : Serial ρ).rows = [] := rfl

theorem get?_next (t : Serial ρ) : t.get? t.next = none := by
  rw [get?_eq_none_iff]
  intro r hm
  exact absurd (t.fresh _ hm) (Nat.lt_irrefl _)

/-! ## What each statement does to `get?` -/

section

variable (t : Serial ρ) (r : ρ) (p : ℕ → ρ → Bool) (f : ρ → ρ) (k i : ℕ)

theorem mem_insert (x : ℕ × ρ) : x ∈ (t.insert r).rows ↔ x ∈ t.rows ∨ x = (t.next, r) := by
  simp [insert]

theorem get?_insert : (t.insert r).get? k = if k = t.next then some r else t.get? k := by
  show (t.rows ++ [(t.next, r)]).lookup k = _
  rw [lookup_append, ← get?]
  by_cases hk : k = t.next
  · simp [hk, get?_next]
  · simp [hk, lookup_cons, beq_eq_false_iff_ne.2 hk]

@[simp] theorem get?_insert_next : (t.insert r).get? t.next = some r := by
  rw [get?_insert, if_pos rfl]

@[simp] theorem next_insert : (t.insert r).next = t.next + 1 := rfl

@[simp] theorem get?_updateWhere : (t.updateWhere p f).get? k = (t.get? k).map fun x => if p k x then f x else x :=
  Keyed.lookup_update p f k t.rows

@[simp] theorem get?_modify (k i : ℕ) (f : ρ → ρ) :
    (t.modify k f).get? i = (t.get? i).map fun x => if i = k then f x else x := by
  simp [modify]

/-- Two updates of the same rows, chosen by their ids, are one. -/
theorem updateWhere_updateWhere (p : ℕ → Bool) (f g : ρ → ρ) :
    (t.updateWhere (fun i _ => p i) f).updateWhere (fun i _ => p i) g =
      t.updateWhere (fun i _ => p i) fun r => g (f r) := by
  have hrows : ((t.rows.map fun r => if p r.1 then (r.1, f r.2) else r).map fun r =>
      if p r.1 then (r.1, g r.2) else r) = t.rows.map fun r => if p r.1 then (r.1, g (f r.2)) else r := by
    rw [map_map]
    refine map_congr_left fun r _ => ?_
    simp only [Function.comp_apply]
    by_cases hp : p r.1 = true
    · simp [hp]
    · simp [hp]
  unfold updateWhere
  simp only [hrows]

@[simp] theorem get?_erase : (t.erase k).get? i = if i = k then none else t.get? i := by
  refine Option.ext fun r => ?_
  rw [get?_eq_some_iff]
  by_cases hi : i = k
  · simp [erase, hi]
  · simp [erase, hi, get?_eq_some_iff]

end

theorem get?_insert_of_some {x : ρ} (h : t.get? k = some x) (r : ρ) : (t.insert r).get? k = some x := by
  rw [get?_insert, if_neg (Nat.ne_of_lt (lt_next_of_get? h)), h]

theorem get?_of_updateWhere {p : ℕ → ρ → Bool} {f : ρ → ρ} {r : ρ} (h : (t.updateWhere p f).get? k = some r) :
    ∃ x, t.get? k = some x ∧ (if p k x then f x else x) = r := by
  rw [get?_updateWhere] at h
  exact Option.map_eq_some_iff.1 h

theorem get?_of_modify {i : ℕ} {f : ρ → ρ} {r : ρ} (h : (t.modify k f).get? i = some r) :
    ∃ x, t.get? i = some x ∧ (if i = k then f x else x) = r := by
  rw [get?_modify] at h
  exact Option.map_eq_some_iff.1 h

theorem get?_of_erase {i : ℕ} {r : ρ} (h : (t.erase i).get? k = some r) : t.get? k = some r := by
  rw [get?_erase] at h
  split at h
  · cases h
  · exact h

end Serial

/-! ## `ORDER BY … LIMIT 1` -/

/-- The first row of `l` in the order `before`; among equals, the one listed first. -/
def orderLimitOne {α : Type} (before : α → α → Bool) (l : List α) : Option α :=
  l.foldl (fun best r => match best with
    | none => some r
    | some b => if before r b then some r else some b) none

section OrderLimitOne

open List

variable {α : Type} {before : α → α → Bool}

theorem orderLimitOne_cons_cons (b r : α) (l : List α) :
    orderLimitOne before (b :: r :: l) = orderLimitOne before ((if before r b then r else b) :: l) := by
  simp only [orderLimitOne, foldl_cons]
  split <;> rfl

theorem orderLimitOne_mem {l : List α} {x : α} (h : orderLimitOne before l = some x) : x ∈ l := by
  cases l with
  | nil => cases h
  | cons b l =>
    -- the best of the first two rows is one of them
    induction l generalizing b with
    | nil => exact mem_singleton.2 (Option.some.inj h).symm
    | cons r l ih =>
      rw [orderLimitOne_cons_cons] at h
      rcases mem_cons.1 (ih _ h) with rfl | hmem
      · split <;> simp
      · simp [hmem]

section

variable (hirrefl : ∀ a, before a a = false)
  (htrans : ∀ a b c, before a b = true → before b c = true → before a c = true)

include hirrefl htrans

/-- With a strict order there is a row to be found once one has been seen, and no row seen so far comes before
    the best of them. -/
theorem orderLimitOne_cons (b : α) (l seen : List α)
    (hbest : ∀ y ∈ seen, before y b = false) :
    ∃ x, orderLimitOne before (b :: l) = some x ∧ ∀ y ∈ seen ++ b :: l, before y x = false := by
  induction l generalizing seen b with
  | nil =>
    exact ⟨b, rfl, forall_mem_append.2 ⟨hbest, forall_mem_singleton.2 (hirrefl b)⟩⟩
  | cons r l ih =>
    rw [orderLimitOne_cons_cons]
    by_cases hr : before r b = true
    · -- what comes before `r` comes before `b`
      have hseen : ∀ y ∈ seen ++ [b], before y r = false := by
        intro y hy
        refine Bool.eq_false_iff.2 fun hyr => ?_
        have hyb := htrans y r b hyr hr
        rcases mem_append.1 hy with hy | hy
        · rw [hbest y hy] at hyb
          cases hyb
        · rw [mem_singleton.1 hy, hirrefl b] at hyb
          cases hyb
      rw [if_pos hr, append_cons]
      exact ih r (seen ++ [b]) hseen
    · have hseen : ∀ y ∈ seen ++ [r], before y b = false := by
        intro y hy
        rcases mem_append.1 hy with hy | hy
        · exact hbest y hy
        · rw [mem_singleton.1 hy]
          exact Bool.eq_false_iff.2 hr
      obtain ⟨x, hx, hall⟩ := ih b (seen ++ [r]) hseen
      rw [if_neg hr]
      refine ⟨x, hx, fun y hy => hall y ?_⟩
      simp only [mem_append, mem_cons] at hy ⊢
      tauto

/-- With a strict order, no row comes before the one that is found, and one is found if there is any. -/
theorem orderLimitOne_spec (l : List α) :
    l = [] ∧ orderLimitOne before l = none ∨
      ∃ x ∈ l, orderLimitOne before l = some x ∧ ∀ y ∈ l, before y x = false := by
  cases l with
  | nil => exact .inl ⟨rfl, rfl⟩
  | cons b l =>
    obtain ⟨x, hx, hbest⟩ := orderLimitOne_cons hirrefl htrans b l [] (by simp)
    exact .inr ⟨x, orderLimitOne_mem hx, hx, hbest⟩

end

end OrderLimitOne

/-! ## `WHERE` and `ORDER BY` -/

section OrderBy

open List

variable {α : Type} (r : α → α → Prop) [DecidableRel r] [IsTrans α r] (p : α → Bool)

theorem filter_orderedInsert (a : α) {l : List α} (hl : l.Pairwise r) :
    (l.orderedInsert r a).filter p = if p a then (l.filter p).orderedInsert r a else l.filter p := by
  induction l with
  | nil => by_cases ha : p a <;> simp [ha]
  | cons b l ih =>
    obtain ⟨hb, hl⟩ := pairwise_cons.1 hl
    by_cases hab : r a b
    · -- `a` comes before every row that the filter leaves
      have hle : ∀ c ∈ (b :: l).filter p, r a c := by
        intro c hc
        rcases mem_cons.1 (mem_of_mem_filter hc) with rfl | hc
        · exact hab
        · exact IsTrans.trans a b c hab (hb c hc)
      have hhead : ((b :: l).filter p).orderedInsert r a = a :: (b :: l).filter p := by
        cases hf : (b :: l).filter p with
        | nil => rfl
        | cons c rest => exact orderedInsert_cons_of_le r rest (hle c (hf ▸ mem_cons_self))
      rw [orderedInsert_cons_of_le r l hab, filter_cons, hhead]
    · rw [orderedInsert_of_not_le r l hab, filter_cons, ih hl, filter_cons]
      by_cases ha : p a <;> by_cases hpb : p b <;> simp [ha, hpb, hab]

theorem filter_insertionSort [Std.Total r] (l : List α) :
    (l.insertionSort r).filter p = (l.filter p).insertionSort r := by
  induction l with
  | nil => rfl
  | cons a l ih =>
    rw [insertionSort_cons, filter_orderedInsert r p a (pairwise_insertionSort r l), ih,
      filter_cons]
    split <;> rfl

end OrderBy

/-! ## A row that a unique column finds -/

/-- Where at most one row meets `p`, a query for `p` and `q` finds it and then tests `q`. -/
theorem find?_and_of_unique {α : Type} {l : List α} {p q : α → Bool}
    (h : ∀ x ∈ l, ∀ y ∈ l, p x = true → p y = true → x = y) :
    l.find? (fun x => p x && q x) = (l.find? p).filter q := by
  induction l with
  | nil => rfl
  | cons x l ih =>
    have hl : ∀ x ∈ l, ∀ y ∈ l, p x = true → p y = true → x = y :=
      fun y hy z hz => h y (List.mem_cons_of_mem _ hy) z (List.mem_cons_of_mem _ hz)
    cases hp : p x with
    | false => simp [hp, ih hl]
    | true =>
      cases hq : q x with
      | true => simp [hp, hq, Option.filter]
      | false =>
        -- every other row that meets `p` is this one
        have hnone : l.find? (fun y => p y && q y) = none := by
          rw [List.find?_eq_none]
          intro y hy hpq
          rw [Bool.and_eq_true] at hpq
          have heq := h x List.mem_cons_self y (List.mem_cons_of_mem _ hy) hp hpq.1
          rw [heq, hpq.2] at hq
          cases hq
        simp [hp, hq, hnone, Option.filter]

/-! ## Counting a join -/

/-- The size of a join, counted from either side. -/
theorem sum_countP_comm {α β : Type} (p : α → β → Bool) (l : List α) (m : List β) :
    (l.map fun a => m.countP (p a)).sum = (m.map fun b => l.countP fun a => p a b).sum := by
  induction l with
  | nil => simp
  | cons a l ih =>
    rw [List.map_cons, List.sum_cons, ih]
    clear ih
    induction m with
    | nil => rfl
    | cons b m ihm =>
      simp only [List.map_cons, List.sum_cons, List.countP_cons] at ihm ⊢
      omega

/-- At most one match each: the total is the number of rows exactly when every row has one. -/
theorem sum_eq_length_iff {α : Type} {l : List α} {g : α → ℕ} (h : ∀ a ∈ l, g a ≤ 1) :
    (l.map g).sum = l.length ↔ ∀ a ∈ l, g a = 1 := by
  induction l with
  | nil => simp
  | cons a l ih =>
    have ha := h a List.mem_cons_self
    have hl : ∀ b ∈ l, g b ≤ 1 := fun b hb => h b (List.mem_cons_of_mem _ hb)
    have hle : (l.map g).sum ≤ l.length := by
      simpa using List.sum_le_card_nsmul (l.map g) 1 (List.forall_mem_map.2 hl)
    rw [List.map_cons, List.sum_cons, List.length_cons, List.forall_mem_cons, ← ih hl]
    omega

/-- A duplicate-free list has at most one element with a property that determines it. -/
theorem countP_le_one {α : Type} {l : List α} {p : α → Bool} (hnd : l.Nodup)
    (h : ∀ a ∈ l, ∀ b ∈ l, p a = true → p b = true → a = b) : l.countP p ≤ 1 := by
  induction l with
  | nil => simp
  | cons a l ih =>
    rw [List.nodup_cons] at hnd
    rw [List.countP_cons]
    by_cases hp : p a = true
    · have hzero : l.countP p = 0 := by
        rw [List.countP_eq_zero]
        intro b hb hpb
        have := h a List.mem_cons_self b (List.mem_cons_of_mem _ hb) hp hpb
        exact hnd.1 (this ▸ hb)
      simp [hzero, hp]
    · have := ih hnd.2 fun b hb c hc => h b (List.mem_cons_of_mem _ hb) c (List.mem_cons_of_mem _ hc)
      simpa [hp] using this

theorem Serial.nodup_rows {ρ : Type} (t : Serial ρ) : t.rows.Nodup := t.nodup.of_map _

/-! ## Counting rows -/

section

open List

variable {ρ : Type} {l : List (ℕ × ρ)} (hnd : (l.map Prod.fst).Nodup) {r : ρ} (hmem : (k, r) ∈ l)

include hnd hmem

/-- A row of a list with distinct keys, and the rows before and after it, which have other keys. -/
theorem exists_split_of_mem :
    ∃ s t, l = s ++ (k, r) :: t ∧ (∀ x ∈ s, x.1 ≠ k) ∧ ∀ x ∈ t, x.1 ≠ k := by
  obtain ⟨s, t, rfl⟩ := append_of_mem hmem
  rw [map_append, map_cons, nodup_middle, ← map_append, nodup_cons] at hnd
  have hother : ∀ x ∈ s ++ t, x.1 ≠ k := fun x hx hk => hnd.1 (mem_map.2 ⟨x, hx, hk⟩)
  exact ⟨s, t, rfl, forall_mem_append.1 hother⟩

/-- Removing one row of a list with distinct keys takes that row off a count. -/
theorem countP_remove (p : ρ → Bool) :
    (l.filter fun x => x.1 != k).countP (fun x => p x.2) + (p r).toNat = l.countP fun x => p x.2 := by
  obtain ⟨s, t, rfl, hs, ht⟩ := exists_split_of_mem hnd hmem
  rw [filter_append, filter_cons_of_neg (by simp), filter_eq_self.2 fun x hx => bne_iff_ne.2 (hs x hx),
    filter_eq_self.2 fun x hx => bne_iff_ne.2 (ht x hx)]
  cases hr : p r <;> simp [hr]
  omega

/-- Rewriting one row of a list with distinct keys changes a count by that row. -/
theorem countP_rewrite (f : ρ → ρ) (p : ρ → Bool) :
    (l.map fun x => if x.1 == k then (x.1, f x.2) else x).countP (fun x => p x.2) + (p r).toNat =
      l.countP (fun x => p x.2) + (p (f r)).toNat := by
  obtain ⟨s, t, rfl, hs, ht⟩ := exists_split_of_mem hnd hmem
  have hsame : ∀ m : List (ℕ × ρ), (∀ x ∈ m, x.1 ≠ k) → (m.map fun x => if x.1 == k then (x.1, f x.2) else x) = m := by
    intro m hm
    conv_rhs => rw [← map_id m]
    exact map_congr_left fun x hx => if_neg fun hk => hm x hx (beq_iff_eq.1 hk)
  rw [map_append, map_cons, hsame s hs, hsame t ht, if_pos (beq_self_eq_true k)]
  cases hr : p r <;> cases hf : p (f r) <;> simp [hr, hf] <;> omega

end

namespace Serial

open List

variable {ρ : Type}

/-- How many rows satisfy `p`. -/
def count (t : Serial ρ) (p : ρ → Bool) : ℕ := t.rows.countP fun r => p r.2

theorem count_insert (t : Serial ρ) (r : ρ) (p : ρ → Bool) :
    (t.insert r).count p = t.count p + (p r).toNat := by
  show (t.rows ++ [(t.next, r)]).countP _ = _
  rw [countP_append, countP_singleton]
  cases p r <;> rfl

variable {t : Serial ρ}

theorem count_modify {r : ρ} (h : t.get? k = some r) (f : ρ → ρ) (p : ρ → Bool) :
    (t.modify k f).count p + (p r).toNat = t.count p + (p (f r)).toNat :=
  countP_rewrite t.nodup ((t.get?_eq_some_iff k r).1 h) f p

theorem count_erase {r : ρ} (h : t.get? k = some r) (p : ρ → Bool) : (t.erase k).count p + (p r).toNat = t.count p :=
  countP_remove t.nodup ((t.get?_eq_some_iff k r).1 h) p

variable {p q : ρ → Bool}

theorem count_pos (h : 0 < t.count p) : ∃ k r, t.get? k = some r ∧ p r = true := by
  obtain ⟨x, hx, hp⟩ := countP_pos_iff.1 h
  exact ⟨x.1, x.2, (t.get?_eq_some_iff x.1 x.2).2 hx, hp⟩

/-- What implies one of two properties is counted at most as often as these. -/
theorem count_le_add {v : ρ → Bool} (h : ∀ k r, t.get? k = some r → p r = true → q r = true ∨ v r = true) :
    t.count p ≤ t.count q + t.count v := by
  have hrows : ∀ x ∈ t.rows, p x.2 = true → q x.2 = true ∨ v x.2 = true := fun x hx =>
    h x.1 x.2 ((t.get?_eq_some_iff x.1 x.2).2 hx)
  unfold count
  generalize t.rows = l at hrows
  induction l with
  | nil => simp
  | cons x l ih =>
    have hl := ih fun y hy => hrows y (mem_cons_of_mem _ hy)
    have hx := hrows x mem_cons_self
    simp only [countP_cons]
    cases hp : p x.2 with
    | false =>
      simp only [Bool.false_eq_true, if_false]
      omega
    | true =>
      rcases hx hp with hq | hq
      all_goals
        simp only [hq, if_true]
        omega

theorem count_eq_zero (h : ∀ k r, t.get? k = some r → p r = false) : t.count p = 0 := by
  by_contra hne
  obtain ⟨k, r, hk, hp⟩ := count_pos (Nat.pos_of_ne_zero hne)
  rw [h k r hk] at hp
  cases hp

theorem count_le_count (h : ∀ k r, t.get? k = some r → p r = true → q r = true) : t.count p ≤ t.count q :=
  countP_mono_left fun x hx => h x.1 x.2 ((t.get?_eq_some_iff x.1 x.2).2 hx)

end Serial
