import Mathlib.Data.List.Induction

/-! # Runs of a labelled transition system

A system is a step relation `σ → α → σ → Prop` (or a partial step function, read as the relation `f s a = some t`). A
`Run` keeps every edge it went through, so a statement about a whole history ("between two claims there is a
requeue") is a statement about the edge list. The three rules everything else uses:

* `Run.invariant` — what holds initially and is kept by each step holds at the end;
* `Run.edges_where` — the same, read at *every* edge, when only the steps meeting a condition keep the invariant;
* `Run.append_iff` — a run can be cut anywhere. -/

namespace Transition

open List

variable {σ α : Type}

/-- One step of a run: the state before it, its label, and the state after it. -/
structure Edge (σ α : Type) where
  src : σ
  label : α
  dst : σ

/-- `Run step s es u`: from `s`, the edges `es` lead to `u`. -/
inductive Run (step : σ → α → σ → Prop) (s : σ) : List (Edge σ α) → σ → Prop
  | nil : Run step s [] s
  | snoc {t u : σ} {a : α} {es : List (Edge σ α)} :
      Run step s es t → step t a u → Run step s (es ++ [⟨t, a, u⟩]) u

/-- The relation of a partial step function. -/
def Fires (f : σ → α → Option σ) : σ → α → σ → Prop := fun s a t => f s a = some t

variable {step : σ → α → σ → Prop} {s u : σ} {es : List (Edge σ α)}

/-! ## Invariants along a run -/

variable {I : σ → Prop} {fs : List (Edge σ α)} {f : σ → α → Option σ} {as : List α} {C : Edge σ α → Prop}

/-- An invariant that the steps meeting `C` keep, read at both ends of every edge of a run whose
    edges all meet `C`. -/
theorem Run.edges_where (h0 : I s) (hstep : ∀ e : Edge σ α, step e.src e.label e.dst → C e → I e.src → I e.dst)
    (r : Run step s es u) (hC : ∀ e ∈ es, C e) : I u ∧ ∀ e ∈ es, step e.src e.label e.dst ∧ I e.src ∧ I e.dst := by
  induction r with
  | nil => exact ⟨h0, by simp⟩
  | @snoc t u a es r hs ih =>
    have hC' : ∀ e ∈ es, C e := fun e he => hC e (mem_append_left _ he)
    have hlast : C ⟨t, a, u⟩ := hC _ (by simp)
    obtain ⟨ht, hes⟩ := ih hC'
    have hu : I u := hstep ⟨t, a, u⟩ hs hlast ht
    exact ⟨hu, forall_mem_append.2 ⟨hes, forall_mem_singleton.2 ⟨hs, ht, hu⟩⟩⟩

section

variable (h0 : I s) (hstep : ∀ t a v, step t a v → I t → I v) (r : Run step s es u)

include h0 hstep r

/-- An invariant kept by every step holds at the end of every run. -/
theorem Run.invariant : I u :=
  (r.edges_where (C := fun _ => True) h0 (fun e he _ hI => hstep e.src e.label e.dst he hI) (fun _ _ => trivial)).1

/-- Every edge of a run is a step, taken from a state where the invariant holds. -/
theorem Run.edge_invariant : ∀ e ∈ es, step e.src e.label e.dst ∧ I e.src ∧ I e.dst :=
  (r.edges_where (C := fun _ => True) h0 (fun e he _ hI => hstep e.src e.label e.dst he hI) (fun _ _ => trivial)).2

end

/-- An invariant relating the state to the history that led to it. -/
theorem Run.history_invariant {I : List (Edge σ α) → σ → Prop} (h0 : I [] s)
    (hstep : ∀ es t a v, step t a v → I es t → I (es ++ [⟨t, a, v⟩]) v)
    (r : Run step s es u) : I es u := by
  induction r with
  | nil => exact h0
  | snoc r hs ih => exact hstep _ _ _ _ hs ih

/-- A run whose edges all meet `C` is a run of the steps that meet `C`. -/
theorem Run.restrict (r : Run step s es u) (hC : ∀ e ∈ es, C e) :
    Run (fun s a t => step s a t ∧ C ⟨s, a, t⟩) s es u := by
  induction r with
  | nil => exact Run.nil
  | snoc r hs ih =>
    have hC' := fun e he => hC e (mem_append_left _ he)
    exact Run.snoc (ih hC') ⟨hs, hC _ (by simp)⟩

/-! ## Cutting a run -/

theorem Run.eq_of_nil (r : Run step s [] u) : s = u := by
  generalize hes : ([] : List (Edge σ α)) = es at r
  cases r with
  | nil => rfl
  | snoc r hs => simp at hes

theorem Run.append {t : σ} (r : Run step s es t) (q : Run step t fs u) : Run step s (es ++ fs) u := by
  induction q with
  | nil => simpa using r
  | snoc q hs ih =>
    rw [← append_assoc]
    exact Run.snoc ih hs

theorem Run.append_iff : Run step s (es ++ fs) u ↔ ∃ t, Run step s es t ∧ Run step t fs u := by
  constructor
  · intro r
    induction fs using reverseRecOn generalizing u with
    | nil => exact ⟨u, by simpa using r, Run.nil⟩
    | append_singleton fs e ih =>
      rw [← append_assoc] at r
      generalize hgs : (es ++ fs) ++ [e] = gs at r
      cases r with
      | nil => simp at hgs
      | @snoc v _ a gs' r hs =>
        obtain ⟨hg, he⟩ := append_inj' hgs rfl
        subst hg
        rw [cons.injEq] at he
        obtain ⟨t, hr, hq⟩ := ih r
        exact ⟨t, hr, he.1 ▸ Run.snoc hq hs⟩
  · rintro ⟨t, r, q⟩
    exact r.append q

variable {e : Edge σ α}

/-- A run that starts with the edge `e` takes that step first. -/
theorem Run.cons_iff : Run step s (e :: fs) u ↔ e.src = s ∧ step s e.label e.dst ∧ Run step e.dst fs u := by
  constructor
  · intro r
    have r' : Run step s ([e] ++ fs) u := r
    obtain ⟨t, r1, r2⟩ := Run.append_iff.1 r'
    generalize hgs : [e] = gs at r1
    cases r1 with
    | nil => simp at hgs
    | @snoc v _ a gs' r0 hs =>
      cases gs' with
      | nil =>
        obtain rfl := r0.eq_of_nil
        rw [nil_append, cons.injEq] at hgs
        obtain ⟨rfl, -⟩ := hgs
        exact ⟨rfl, hs, r2⟩
      | cons x xs => simp at hgs
  · rintro ⟨rfl, hs, r⟩
    exact (Run.snoc Run.nil hs).append r

theorem Run.prefix_of_mem (r : Run step s es u) (he : e ∈ es) :
    ∃ pre, pre ++ [e] <+: es ∧ Run step s pre e.src ∧ Run step s (pre ++ [e]) e.dst := by
  obtain ⟨pre, post, rfl⟩ := append_of_mem he
  obtain ⟨t, hpre, hpost⟩ := Run.append_iff.1 r
  obtain ⟨rfl, hstep, -⟩ := Run.cons_iff.1 hpost
  exact ⟨pre, ⟨post, by simp⟩, hpre, hpre.snoc hstep⟩

/-- A prefix of a run is a run, which ends where it began or at the end of its last edge. -/
theorem Run.of_prefix {pre : List (Edge σ α)} (r : Run step s es u) (h : pre <+: es) :
    ∃ t, Run step s pre t ∧ (pre = [] ∨ ∃ e ∈ pre, e.dst = t) := by
  obtain ⟨post, rfl⟩ := h
  obtain ⟨t, hpre, -⟩ := Run.append_iff.1 r
  refine ⟨t, hpre, ?_⟩
  cases hpre with
  | nil => exact .inl rfl
  | snoc r hs => exact .inr ⟨_, mem_append_right _ (mem_singleton_self _), rfl⟩

/-! ## Running a step function on a list of labels -/

/-- The edges a partial step function takes along `as`, and the state it ends in. -/
def runEdges (f : σ → α → Option σ) : σ → List α → Option (List (Edge σ α) × σ)
  | s, [] => some ([], s)
  | s, a :: as =>
      match f s a with
      | none => none
      | some t => (runEdges f t as).map fun r => (⟨s, a, t⟩ :: r.1, r.2)

/-- Inversion at the first label. -/
theorem runEdges_cons {a : α} (h : runEdges f s (a :: as) = some (es, u)) :
    ∃ t fs, f s a = some t ∧ runEdges f t as = some (fs, u) ∧ es = ⟨s, a, t⟩ :: fs := by
  simp only [runEdges] at h
  split at h
  · cases h
  next t ht =>
    obtain ⟨⟨fs, v⟩, hr, ⟨⟩⟩ := Option.map_eq_some_iff.1 h
    exact ⟨t, fs, ht, hr, rfl⟩

/-- The edges so collected form a run of any relation that contains the steps taken. -/
theorem run_of_runEdges (hf : ∀ a ∈ as, ∀ s t, f s a = some t → step s a t) :
    ∀ {s u : σ} {es : List (Edge σ α)}, runEdges f s as = some (es, u) → Run step s es u := by
  induction as with
  | nil =>
    rintro s u es ⟨⟩
    exact Run.nil
  | cons a as ih =>
    intro s u es h
    obtain ⟨t, fs, ht, hr, rfl⟩ := runEdges_cons h
    have hrest : ∀ b ∈ as, ∀ s t, f s b = some t → step s b t := fun b hb => hf b (mem_cons_of_mem _ hb)
    exact Run.cons_iff.2 ⟨rfl, hf a mem_cons_self _ _ ht, ih hrest hr⟩

theorem labels_runEdges :
    ∀ {s u : σ} {es : List (Edge σ α)}, runEdges f s as = some (es, u) → es.map Edge.label = as := by
  induction as with
  | nil =>
    rintro s u es ⟨⟩
    rfl
  | cons a as ih =>
    intro s u es h
    obtain ⟨t, fs, -, hr, rfl⟩ := runEdges_cons h
    rw [map_cons, ih hr]

/-- What evaluation decides of the edges and the end, some run of the system has. -/
theorem exists_run_of_holds {P : List (Edge σ α) → σ → Prop} [∀ es u, Decidable (P es u)]
    (h : (runEdges f s as).any (fun r => P r.1 r.2) = true) :
    ∃ es u, Run (Fires f) s es u ∧ es.map Edge.label = as ∧ P es u := by
  obtain ⟨⟨es, u⟩, hedges, hP⟩ := (Option.any_eq_true _ _).1 h
  exact ⟨es, u, run_of_runEdges (fun _ _ _ _ h => h) hedges, labels_runEdges hedges, of_decide_eq_true hP⟩

/-- The same where the labels do not matter. -/
theorem exists_run_where {P : List (Edge σ α) → σ → Prop} [∀ es u, Decidable (P es u)] (as : List α)
    (h : (runEdges f s as).any (fun r => P r.1 r.2) = true) : ∃ es u, Run (Fires f) s es u ∧ P es u := by
  obtain ⟨es, u, hrun, -, hP⟩ := exists_run_of_holds h
  exact ⟨es, u, hrun, hP⟩

/-- The same for what follows from such a property. -/
theorem exists_run_of_imp {Q : List (Edge σ α) → σ → Prop} (P : List (Edge σ α) → σ → Prop)
    [∀ es u, Decidable (P es u)] (h : (runEdges f s as).any (fun r => P r.1 r.2) = true)
    (hQ : ∀ es u, Run (Fires f) s es u → P es u → Q es u) :
    ∃ es u, Run (Fires f) s es u ∧ es.map Edge.label = as ∧ Q es u := by
  obtain ⟨es, u, hrun, hlabels, hP⟩ := exists_run_of_holds h
  exact ⟨es, u, hrun, hlabels, hQ es u hrun hP⟩

/-- The same for a single fallible call that returns `x`. -/
theorem exists_ok_of_imp {ε ρ : Type*} [DecidableEq ρ] {r : Except ε (ρ × σ)} {x : ρ} {Q : σ → Prop} (P : σ → Prop)
    [DecidablePred P] (h : r.toOption.any (fun y => y.1 = x ∧ P y.2) = true)
    (hQ : ∀ s, r = .ok (x, s) → P s → Q s) : ∃ s, r = .ok (x, s) ∧ Q s := by
  cases r with
  | error e => cases h
  | ok y =>
    obtain ⟨rfl, hP⟩ := of_decide_eq_true h
    exact ⟨y.2, rfl, hQ _ rfl hP⟩

end Transition
