import Tagsmaxxing.Lib.Run

/-! # What one party of a shared system sees

A party of a shared system makes the events of a script; all other steps are invisible to it. If the
system's outputs to that party can be computed by a machine that is fed the script alone, they do not
depend on what the others do. -/

namespace Transition

variable {σ α ω ν δ : Type}

/-- A run in which the party's own steps are the events of the script `ws`, in order. The others' steps go
    unobserved, and an event that finds nothing to do is skipped. -/
inductive Follows (step : σ → α → σ → Prop) (observe : Edge σ α → Option ω) (idle : σ → ω → Prop) (s : σ) :
    List (Edge σ α) → σ → List ω → Prop
  | nil : Follows step observe idle s [] s []
  | silent {t u : σ} {a : α} {es : List (Edge σ α)} {ws : List ω} :
      Follows step observe idle s es t ws → step t a u → observe ⟨t, a, u⟩ = none →
        Follows step observe idle s (es ++ [⟨t, a, u⟩]) u ws
  | taken {t u : σ} {a : α} {es : List (Edge σ α)} {ws : List ω} {w : ω} :
      Follows step observe idle s es t ws → step t a u → observe ⟨t, a, u⟩ = some w →
        Follows step observe idle s (es ++ [⟨t, a, u⟩]) u (ws ++ [w])
  | skipped {t : σ} {es : List (Edge σ α)} {ws : List ω} {w : ω} :
      Follows step observe idle s es t ws → idle t w → Follows step observe idle s es t (ws ++ [w])

variable {step : σ → α → σ → Prop} {observe : Edge σ α → Option ω} {idle : σ → ω → Prop}
  {es : List (Edge σ α)} {s u : σ}

/-- Every run follows the script of what it observes. -/
theorem Run.follows (r : Run step s es u) : Follows step observe idle s es u (es.filterMap observe) := by
  induction r with
  | nil => exact .nil
  | @snoc t u a es r hs ih =>
    rw [List.filterMap_append]
    cases ho : observe ⟨t, a, u⟩ with
    | none =>
      rw [show [⟨t, a, u⟩].filterMap observe = [] from by simp [ho], List.append_nil]
      exact ih.silent hs ho
    | some w =>
      rw [show [⟨t, a, u⟩].filterMap observe = [w] from by simp [ho]]
      exact ih.taken hs ho

/-- A machine fed a script: its last state and its outputs. -/
def replay (next : ν → ω → ν × Option δ) (v : ν) : List ω → ν × List δ :=
  List.foldl (fun x w => ((next x.1 w).1, x.2 ++ (next x.1 w).2.toList)) (v, [])

theorem replay_concat (next : ν → ω → ν × Option δ) (v : ν) (ws : List ω) (w : ω) :
    replay next v (ws ++ [w]) = ((next (replay next v ws).1 w).1,
      (replay next v ws).2 ++ (next (replay next v ws).1 w).2.toList) := by
  simp only [replay, List.foldl_append, List.foldl_cons, List.foldl_nil]

theorem filterMap_concat (output : Edge σ α → Option δ) (es : List (Edge σ α)) (e : Edge σ α) :
    (es ++ [e]).filterMap output = es.filterMap output ++ (output e).toList := by
  rw [List.filterMap_append]
  cases ho : output e with
  | none | some y => simp [ho]

section
variable {next : ν → ω → ν × Option δ} {output : Edge σ α → Option δ} {R : σ → ν → Prop}
  (hsilent : ∀ t a u v, step t a u → observe ⟨t, a, u⟩ = none → R t v → R u v ∧ output ⟨t, a, u⟩ = none)
  (htaken : ∀ t a u v w, step t a u → observe ⟨t, a, u⟩ = some w → R t v →
    R u (next v w).1 ∧ output ⟨t, a, u⟩ = (next v w).2)
  (hskipped : ∀ t v w, idle t w → R t v → R t (next v w).1 ∧ (next v w).2 = none)
include hsilent htaken hskipped

variable {ws : List ω} {v : ν}

/-- If the machine fed the script alone keeps up with the shared system, its outputs are the system's. -/
theorem Follows.replay_eq (h0 : R s v) (h : Follows step observe idle s es u ws) :
    R u (replay next v ws).1 ∧ es.filterMap output = (replay next v ws).2 := by
  induction h with
  | nil => exact ⟨h0, rfl⟩
  | @silent t u a es ws _ hs ho ih =>
    obtain ⟨hR, hout⟩ := hsilent t a u _ hs ho ih.1
    rw [filterMap_concat, hout, ih.2, Option.toList_none, List.append_nil]
    exact ⟨hR, rfl⟩
  | @taken t u a es ws w _ hs ho ih =>
    obtain ⟨hR, hout⟩ := htaken t a u _ w hs ho ih.1
    rw [filterMap_concat, hout, ih.2, replay_concat]
    exact ⟨hR, rfl⟩
  | @skipped t es ws w _ hidle ih =>
    obtain ⟨hR, hout⟩ := hskipped t _ w hidle ih.1
    rw [ih.2, replay_concat, hout, Option.toList_none, List.append_nil]
    exact ⟨hR, rfl⟩

/-- Two runs that follow one script give the party the same outputs. -/
theorem Follows.outputs_eq {t s' t' : σ} {fs : List (Edge σ α)} (h0 : R s v) (h0' : R s' v)
    (h : Follows step observe idle s es t ws) (h' : Follows step observe idle s' fs t' ws) :
    es.filterMap output = fs.filterMap output := by
  rw [(h.replay_eq hsilent htaken hskipped h0).2, (h'.replay_eq hsilent htaken hskipped h0').2]

end

end Transition
