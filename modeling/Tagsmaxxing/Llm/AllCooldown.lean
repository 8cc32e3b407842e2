import Tagsmaxxing.Llm.Failover

/-! # What `AllCooldown` says of a role (`llm/src/client.rs`)

`call_with_failover` returns `AllCooldown` in two places. After a failed acquire it has looked at every
backend registered for the role. In its last attempt it has looked at the leased backend only, and the
others may well be out of cooldown: `all_cooldown_truthful_iff`. -/

namespace Tagsmaxxing.Failover

open Scheduler (Role)
open Transition

variable {ρ : Type} {c : Client} {s v : State ρ} {call call' : Call ρ}

/-- Every backend registered for the role is in cooldown. -/
def AllCooled (c : Client) (s : State ρ) (role : Role) : Prop :=
  ∀ b ∈ c.fleet.byRole role, c.inCooldown s.circuits s.pool.env.clock.now (c.fleet.backend b).id = true

instance (c : Client) (s : State ρ) (role : Role) : Decidable (AllCooled c s role) :=
  inferInstanceAs (Decidable (∀ b ∈ _, _))

/-- The call that a step runs. -/
def runs (e : Edge (State ρ) (Act ρ)) : Option (Call ρ) :=
  match e.label with
  | .run t => e.src.calls.get? t
  | _ => none

def Pc.isAllCooldown : Pc ρ → Bool
  | .returned (.error (.allCooldown _)) => true
  | _ => false

/-- The call that a step returns `AllCooldown` from. -/
def returnsAllCooldown (e : Edge (State ρ) (Act ρ)) : Option (Call ρ) :=
  match e.label with
  | .run t => if (e.dst.calls.get? t).any fun call => call.pc.isAllCooldown then e.src.calls.get? t else none
  | _ => none

/-- The last attempt of a call has leased a backend in cooldown. -/
def Client.skipsLast (c : Client) (call : Call ρ) : Bool :=
  match call.pc with
  | .skip _ => c.totalAttempts ≤ call.attempt + 1
  | _ => false

/-- The exit after a failed acquire looks at the whole role. -/
theorem allCooled_of_acquireFailed {e : Scheduler.AcquireError} {cooldown : Time}
    (h : c.acquireFailed s call e = .allCooldown cooldown) : AllCooled c s call.role := by
  unfold Client.acquireFailed at h
  split at h
  · dsimp only at h
    split_ifs at h with hall
    rw [Bool.and_eq_true, List.all_map, List.all_eq_true] at hall
    exact hall.2
  · cases h

variable {pool : Scheduler.State} {circuits : Keyed String CircuitState}

theorem isAllCooldown_next (h : c.next s call = some (pool, circuits, call'))
    (hret : call'.pc.isAllCooldown = true) :
    c.skipsLast call = true ∨ AllCooled c s call.role := by
  unfold Client.next at h
  split at h
  next =>
    obtain ⟨pool', -, ⟨⟩⟩ := Option.bind_eq_some_iff.1 h
    cases hret
  next p hpc =>
    split at h <;> cases h
    · cases hret
    next e _ =>
      dsimp only [Pc.isAllCooldown] at hret
      split at hret
      next cooldown herror =>
        injection herror with herror
        injection herror with herror
        exact .inr (allCooled_of_acquireFailed herror)
      next => cases hret
  next l hpc =>
    cases h
    dsimp only at hret
    split_ifs at hret <;> cases hret
  next l hpc =>
    dsimp only at h
    split_ifs at h with hlast
    · exact .inl (by simp [Client.skipsLast, hpc, hlast])
    · cases h
      cases hret
  next l error hpc =>
    cases h
    cases hret
  next l error hpc =>
    cases h
    cases hret
  next l error hpc =>
    cases h
    cases hret
  next l error hpc =>
    dsimp only at h
    split_ifs at h <;> cases h
    all_goals cases hret
  all_goals cases h

/-- The exit of the last attempt returns it whatever the other backends do. -/
theorem isAllCooldown_of_skipsLast (h : c.next s call = some (pool, circuits, call'))
    (hskips : c.skipsLast call = true) : call'.pc.isAllCooldown = true := by
  unfold Client.skipsLast at hskips
  split at hskips
  next lease hpc =>
    simp only [Client.next, hpc, if_pos (of_decide_eq_true hskips)] at h
    cases h
    rfl
  next => cases hskips

theorem returnsAllCooldown_cases {a : Act ρ} (h : step c s a = some v) :
    (call ∈ returnsAllCooldown ⟨s, a, v⟩ →
      (call ∈ runs ⟨s, a, v⟩ ∧ c.skipsLast call = true) ∨ AllCooled c s call.role) ∧
    (call ∈ runs ⟨s, a, v⟩ → c.skipsLast call = true → call ∈ returnsAllCooldown ⟨s, a, v⟩) := by
  cases a with
  | run t =>
    obtain ⟨call₀, hcall₀, h⟩ := Option.bind_eq_some_iff.1 h
    obtain ⟨⟨pool, circuits, call'⟩, hnext, ⟨⟩⟩ := Option.bind_eq_some_iff.1 h
    simp only [returnsAllCooldown, runs, Serial.get?_modify, if_true, hcall₀, Option.map_some, Option.any_some,
      Option.mem_def, Option.ite_none_right_eq_some, Option.some.injEq]
    constructor
    · rintro ⟨hret, rfl⟩
      exact (isAllCooldown_next hnext hret).imp_left fun hskips => ⟨rfl, hskips⟩
    · rintro rfl hskips
      exact ⟨isAllCooldown_of_skipsLast hnext hskips, rfl⟩
  | pool | call | answer | drop => simp [returnsAllCooldown, runs]

/-- In every run from any pool and any breakers, `AllCooldown` is returned only while every backend of the
    role is in cooldown exactly if that holds whenever a last attempt leases a backend in cooldown. -/
theorem all_cooldown_truthful_iff {es : List (Edge (State ρ) (Act ρ))} (hrun : Run (Fires (step c)) s es v) :
    (∀ e ∈ es, ∀ call ∈ returnsAllCooldown e, AllCooled c e.src call.role) ↔
      ∀ e ∈ es, ∀ call ∈ runs e, c.skipsLast call = true → AllCooled c e.src call.role := by
  have hfires : ∀ e ∈ es, step c e.src e.label = some e.dst := fun e he =>
    (hrun.edge_invariant (I := fun _ => True) trivial (fun _ _ _ _ _ => trivial) e he).1
  constructor
  · intro h e he call hcall hskips
    exact h e he call ((returnsAllCooldown_cases (hfires e he)).2 hcall hskips)
  · intro h e he call hcall
    rcases (returnsAllCooldown_cases (hfires e he)).1 hcall with ⟨hruns, hskips⟩ | hall
    · exact h e he call hruns hskips
    · exact hall

/-- Backends that serve every role, without a retry and with a threshold of one. -/
def oneStrike (backends : List ℕ) : Client where
  fleet := ⟨fun b => ⟨if b = 0 then "llm" else "spare", some "http", none, .local, 0⟩, fun _ => backends, 30⟩
  maxRetries := 0
  circuitThreshold := 1
  cooldown := 30
  maxRetries_lt := by decide
  circuitThreshold_lt := by decide

/-- Call `t` leases backend `b`, where it sees a free slot, in six steps of the pool. -/
def leases (t b : ℕ) : List (Act Unit) :=
  .call .text false 0 :: .run t :: List.replicate 6 (.pool (.run t fun r => if r = b then 1 else 0)) ++ [.run t, .run t]

def rejected (t : ℕ) : List (Act Unit) := [.answer t badRequest, .run t]

/-- Two calls are rejected by one backend each, and the third is told that both are in cooldown. -/
theorem both_backends_cooled :
    ∃ es s, Run (Fires (step (oneStrike [0, 1]))) newClient es s ∧
      es.map Edge.label = leases 1 0 ++ leases 2 1 ++ rejected 1 ++ rejected 2 ++ leases 3 0 ++ [.run 3] ∧
      (∃ e ∈ es, (returnsAllCooldown e).isSome = true) ∧
      ∀ e ∈ es, ∀ call ∈ returnsAllCooldown e, AllCooled (oneStrike [0, 1]) e.src call.role := by
  refine exists_run_of_imp (fun es _ => (∃ e ∈ es, (returnsAllCooldown e).isSome = true) ∧
    ∀ e ∈ es, ∀ call ∈ runs e, (oneStrike [0, 1]).skipsLast call = true →
      AllCooled (oneStrike [0, 1]) e.src call.role)
    (by decide +kernel) fun es s hrun ⟨hreturns, hskips⟩ => ?_
  exact ⟨hreturns, (all_cooldown_truthful_iff hrun).2 hskips⟩

/-- A rejected call puts one of two backends into cooldown, and the next call is told that all are. -/
theorem one_backend_cooled :
    ∃ es s, Run (Fires (step (oneStrike [0, 1]))) newClient es s ∧
      es.map Edge.label = leases 1 0 ++ rejected 1 ++ leases 2 0 ++ [.run 2] ∧
      ∃ e ∈ es, ∃ call ∈ returnsAllCooldown e, ¬ AllCooled (oneStrike [0, 1]) e.src call.role := by
  exact exists_run_of_holds (by decide +kernel)

end Tagsmaxxing.Failover
