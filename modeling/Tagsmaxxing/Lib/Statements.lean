import Mathlib.Tactic.Common

/-! # Statements that are transactions of their own

Code that runs several database statements on a pool, without a transaction around them, and returns the first error.
A program is an `EStateM` computation over a connection: the database, and the point at which the connection breaks,
if it does (`Fault`). The failing statement may or may not have taken effect; nothing after it runs.

`stmt_ok` runs a statement that comes before the break, `stmt_cases` any statement; `bind_ok` and `bind_error` take
programs apart. `Keeps` is for what a program leaves alone however it ends. -/

namespace Statements

variable {δ α β : Type}

/-- The connection breaks at the statement after the next `after` ones; `applied` says whether that
    statement still took effect. -/
structure Fault where
  after : ℕ
  applied : Bool
deriving DecidableEq

/-- A database and what will go wrong. -/
structure Conn (δ : Type) where
  db : δ
  fault : Option Fault

/-- A program over the database, with error messages. -/
abbrev Prog (δ α : Type) := EStateM String (Conn δ) α

/-- One statement: what it returns and the database it leaves; `err` is the error it reports. -/
def stmt (err : String) (f : δ → α × δ) : Prog δ α := fun c =>
  match c.fault with
  | none => .ok (f c.db).1 ⟨(f c.db).2, none⟩
  | some ⟨n + 1, applied⟩ => .ok (f c.db).1 ⟨(f c.db).2, some ⟨n, applied⟩⟩
  | some ⟨0, applied⟩ => .error err ⟨if applied then (f c.db).2 else c.db, none⟩

/-- A statement that only reads. -/
def query (err : String) (f : δ → α) : Prog δ α := stmt err fun db => (f db, db)

/-- A statement that only writes. -/
def execute (err : String) (f : δ → δ) : Prog δ Unit := stmt err fun db => ((), f db)

/-- A transaction that only writes and may reject by itself; then it leaves the database as it was. -/
def transact (err : String) (f : δ → Except String δ) : Prog δ Unit := do
  let rejected ← stmt err fun db =>
    match f db with
    | .ok db' => (none, db')
    | .error e => (some e, db)
  match rejected with
  | none => pure ()
  | some e => throw e

/-- The next `n` statements succeed. -/
def Survives (n : ℕ) (c : Conn δ) : Prop := ∀ f ∈ c.fault, n ≤ f.after

/-- The database a program leaves, however it ends. -/
def finalDb : EStateM.Result String (Conn δ) α → δ
  | .ok _ c => c.db
  | .error _ c => c.db

/-- Whether the program returned without an error. -/
def returnsOk : EStateM.Result String (Conn δ) α → Bool
  | .ok _ _ => true
  | .error _ _ => false

variable {x : Prog δ α} {c' : Conn δ}

theorem bind_ok {f : α → Prog δ β} {c : Conn δ} {a : α} (h : x.run c = .ok a c') : (x >>= f).run c = (f a).run c' := by
  simp only [EStateM.run] at h
  simp only [EStateM.run, bind, EStateM.bind, h]

variable {err : String} {fault : Option Fault} {c : Conn δ} {n : ℕ}

theorem bind_error {f : α → Prog δ β} (h : x.run c = .error err c') :
    (x >>= f).run c = .error err c' := by
  simp only [EStateM.run] at h
  simp only [EStateM.run, bind, EStateM.bind, h]

/-- Whether the next statement succeeds. -/
def passes : Option Fault → Bool
  | some ⟨0, _⟩ => false
  | _ => true

/-- What is left of the fault after a statement that succeeded. -/
def rest : Option Fault → Option Fault
  | some ⟨n + 1, applied⟩ => some ⟨n, applied⟩
  | _ => none

/-- Whether the `n`-th statement from here takes effect, if it is reached. -/
def takes : Option Fault → ℕ → Bool
  | none, _ => true
  | some f, n => decide (n < f.after) || (decide (n = f.after) && f.applied)

theorem takes_zero_of_passes (h : passes fault = true) : takes fault 0 = true := by
  rcases fault with _ | ⟨_ | n, applied⟩
  · rfl
  · exact absurd h Bool.false_ne_true
  · simp [takes]

theorem takes_rest (h : passes fault = true) (n : ℕ) : takes (rest fault) n = takes fault (n + 1) := by
  rcases fault with _ | ⟨_ | m, applied⟩
  · rfl
  · exact absurd h Bool.false_ne_true
  · simp [takes, rest]

theorem takes_succ_of_not_passes (h : ¬ passes fault = true) (n : ℕ) : takes fault (n + 1) = false := by
  rcases fault with _ | ⟨_ | m, applied⟩
  · exact absurd rfl h
  · simp [takes]
  · exact absurd rfl h

/-- A program goes on after its first statement, unless that is where the connection breaks. -/
theorem run_stmt_bind (err : String) (f : δ → α × δ) (k : α → Prog δ β) (db : δ) (fault : Option Fault) :
    (stmt err f >>= k).run ⟨db, fault⟩ =
      if passes fault then (k (f db).1).run ⟨(f db).2, rest fault⟩
      else .error err ⟨if takes fault 0 then (f db).2 else db, none⟩ := by
  rcases fault with _ | ⟨_ | n, applied⟩
  · rfl
  · cases applied <;> rfl
  · rfl

variable {motive : EStateM.Result String (Conn δ) β → Prop} {k : α → Prog δ β} {db : δ}

/-- How a program can go on after its first statement: past it, or it ends there and the statement has taken
    effect or not. -/
theorem stmt_bind_elim {f : δ → α × δ} (passed : passes fault = true → motive ((k (f db).1).run ⟨(f db).2, rest fault⟩))
    (applied : takes fault 0 = true → (∀ n, takes fault (n + 1) = false) → motive (.error err ⟨(f db).2, none⟩))
    (lost : takes fault 0 = false → (∀ n, takes fault (n + 1) = false) → motive (.error err ⟨db, none⟩)) :
    motive ((stmt err f >>= k).run ⟨db, fault⟩) := by
  rw [run_stmt_bind]
  by_cases hpasses : passes fault = true
  · rw [if_pos hpasses]
    exact passed hpasses
  · rw [if_neg hpasses]
    by_cases htakes : takes fault 0 = true
    · rw [if_pos htakes]
      exact applied htakes (takes_succ_of_not_passes hpasses)
    · rw [if_neg htakes]
      exact lost (eq_false_of_ne_true htakes) (takes_succ_of_not_passes hpasses)

theorem finalDb_stmt_bind (err : String) (f : δ → α × δ) (k : α → Prog δ β) (db : δ) (fault : Option Fault) :
    finalDb ((stmt err f >>= k).run ⟨db, fault⟩) =
      if passes fault then finalDb ((k (f db).1).run ⟨(f db).2, rest fault⟩)
      else if takes fault 0 then (f db).2 else db := by
  rw [run_stmt_bind]
  split <;> rfl

variable {f : δ → Except String δ}

/-- The same for a transaction, which can also be refused. -/
theorem transact_bind_elim {k : Unit → Prog δ β}
    (passed : ∀ db', f db = .ok db' → passes fault = true → motive ((k ()).run ⟨db', rest fault⟩))
    (applied : ∀ db', f db = .ok db' → takes fault 0 = true → (∀ n, takes fault (n + 1) = false) →
      motive (.error err ⟨db', none⟩))
    (lost : takes fault 0 = false → (∀ n, takes fault (n + 1) = false) → motive (.error err ⟨db, none⟩))
    (refused : ∀ e msg fault', f db = .error e → motive (.error msg ⟨db, fault'⟩)) :
    motive ((transact err f >>= k).run ⟨db, fault⟩) := by
  rw [transact, bind_assoc]
  refine stmt_bind_elim (fun hpasses => ?_) (fun htakes hnone => ?_) lost
  · cases hf : f db with
    | ok db' => exact passed db' hf hpasses
    | error e => exact refused e e _ hf
  · cases hf : f db with
    | ok db' => exact applied db' hf htakes hnone
    | error e => exact refused e err _ hf

theorem stmt_ok (err : String) (f : δ → α × δ) (h : Survives (n + 1) c) :
    ∃ c', (stmt err f).run c = .ok (f c.db).1 c' ∧ c'.db = (f c.db).2 ∧ Survives n c' := by
  obtain ⟨db, fault⟩ := c
  cases fault with
  | none => exact ⟨⟨(f db).2, none⟩, rfl, rfl, fun b hb => absurd hb (by simp)⟩
  | some b =>
    obtain ⟨after, applied⟩ := b
    have hn : n + 1 ≤ after := h ⟨after, applied⟩ rfl
    cases after with
    | zero => omega
    | succ m =>
      refine ⟨⟨(f db).2, some ⟨m, applied⟩⟩, rfl, rfl, fun b hb => ?_⟩
      cases hb
      exact Nat.le_of_succ_le_succ hn

theorem query_ok (err : String) (f : δ → α) (h : Survives (n + 1) c) :
    ∃ c', (query err f).run c = .ok (f c.db) c' ∧ c'.db = c.db ∧ Survives n c' :=
  stmt_ok err _ h

theorem execute_ok (err : String) (f : δ → δ) (h : Survives (n + 1) c) :
    ∃ c', (execute err f).run c = .ok () c' ∧ c'.db = f c.db ∧ Survives n c' :=
  stmt_ok err _ h

section

variable (err : String) (f : δ → α × δ) (c : Conn δ)

theorem stmt_cases : (∃ c', (stmt err f).run c = .ok (f c.db).1 c' ∧ c'.db = (f c.db).2) ∨
    ∃ c', (stmt err f).run c = .error err c' ∧ (c'.db = c.db ∨ c'.db = (f c.db).2) := by
  obtain ⟨db, fault⟩ := c
  rcases fault with _ | ⟨_ | n, applied⟩
  · exact .inl ⟨_, rfl, rfl⟩
  · refine .inr ⟨_, rfl, ?_⟩
    cases applied
    · exact .inl rfl
    · exact .inr rfl
  · exact .inl ⟨_, rfl, rfl⟩

/-- However a statement ends, it was applied or it was not. -/
theorem finalDb_stmt : finalDb ((stmt err f).run c) = c.db ∨ finalDb ((stmt err f).run c) = (f c.db).2 := by
  rcases stmt_cases err f c with ⟨c', h, hdb⟩ | ⟨c', h, hdb⟩
  · rw [h]
    exact .inr hdb
  · rw [h]
    exact hdb

end

/-- A write that leaves `g` of the database alone, whether it fails or not. -/
theorem finalDb_execute {γ : Type} (g : δ → γ) {f : δ → δ} (hg : g (f c.db) = g c.db) (err : String) :
    g (finalDb ((execute err f).run c)) = g c.db := by
  rcases finalDb_stmt err (fun db => ((), f db)) c with h | h
  · rw [execute, h]
  · rw [execute, h, hg]

/-! ## What a whole program leaves alone -/

/-- However the program ends, `R` relates the database it started on to the one it leaves. -/
def Keeps (R : δ → δ → Prop) (x : Prog δ α) : Prop := ∀ conn, R conn.db (finalDb (x.run conn))

section Keeps

variable {R : δ → δ → Prop} [IsPreorder δ R]

theorem Keeps.pure (a : α) : Keeps R (pure a : Prog δ α) := fun conn => refl_of R conn.db

theorem Keeps.throw (err : String) : Keeps R (throw err : Prog δ α) := fun conn => refl_of R conn.db

theorem Keeps.bind (hx : Keeps R x) (hk : ∀ a, Keeps R (k a)) : Keeps R (x >>= k) := by
  intro conn
  have hfirst := hx conn
  cases hrun : x.run conn with
  | ok a conn' =>
    rw [hrun] at hfirst
    rw [bind_ok hrun]
    exact trans_of R hfirst (hk a conn')
  | error err conn' =>
    rw [hrun] at hfirst
    rw [bind_error hrun]
    exact hfirst

theorem Keeps.stmt {f : δ → α × δ} (hf : ∀ db, R db (f db).2) (err : String) : Keeps R (stmt err f) := by
  intro conn
  rcases finalDb_stmt err f conn with h | h
  · rw [h]
    exact refl_of R conn.db
  · rw [h]
    exact hf conn.db

theorem Keeps.query (err : String) (f : δ → α) : Keeps R (query err f) := .stmt (fun db => refl_of R db) err

theorem Keeps.execute {f : δ → δ} (hf : ∀ db, R db (f db)) (err : String) : Keeps R (execute err f) := .stmt hf err

theorem Keeps.transact (hf : ∀ db db', f db = .ok db' → R db db') (err : String) : Keeps R (transact err f) := by
  refine .bind (.stmt (fun db => ?_) err) fun rejected => ?_
  · cases hdb : f db with
    | ok db' => exact hf db db' hdb
    | error e => exact refl_of R db
  · cases rejected with
    | none => exact .pure ()
    | some e => exact .throw e

end Keeps

end Statements
