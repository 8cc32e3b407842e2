import Tagsmaxxing.Lib.Exec
import Tagsmaxxing.Lib.Run

/-! # Programs that share a state

Several calls run at the same time over one shared state of type `δ` (a database, a service). A call is a `Thread`:
it returns, or it has a next statement, which is atomic: it reads and writes the shared state and decides how the
call goes on. A statement may also fail, after or before it took effect, and the call then goes on along its failure
branch.

`ThreadPool.step` lets one thread of a pool take its next statement. The rule about all interleavings is a
rely-guarantee rule: if every statement of every thread keeps to a relation `G`, and each thread `Ensures` its
postcondition when the others change the state only along `G`, then every thread that has returned a value satisfies its
postcondition in the current state. -/

/-- A call: its outcome, or its next statement. `write` is the effect of the statement, `next` the rest of
    the call as a function of the state the statement ran in, and `failed` the rest if it failed. -/
inductive Thread (δ α : Type)
  | ret (r : Exec α)
  | stmt (write : δ → δ) (next : δ → Thread δ α) (failed : Thread δ α)

namespace Thread

variable {δ α β : Type}

/-- What comes after a call happens only if it returns a value. -/
protected def bind (t : Thread δ α) (k : α → Thread δ β) : Thread δ β :=
  match t with
  | ret (.ok a) => k a
  | ret (.error msg) => ret (.error msg)
  | ret .panicked => ret .panicked
  | stmt write next failed => stmt write (fun d => (next d).bind k) (failed.bind k)

instance : Monad (Thread δ) where
  pure a := ret (.ok a)
  bind := Thread.bind

/-- Run a call and go on with its value or its error. -/
def attempt : Thread δ α → Thread δ (Except String α)
  | ret (.ok a) => ret (.ok (.ok a))
  | ret (.error msg) => ret (.ok (.error msg))
  | ret .panicked => ret .panicked
  | stmt write next failed => stmt write (fun d => (next d).attempt) failed.attempt

/-- A statement whose failure ends the call with the message `err`. -/
def run (err : String) (write : δ → δ) (read : δ → Exec α) : Thread δ α :=
  stmt write (fun d => ret (read d)) (ret (.error err))

/-- A statement that only reads. -/
def query (err : String) (read : δ → Exec α) : Thread δ α := run err id read

/-- A computation that takes no statement. -/
def lift (r : Exec α) : Thread δ α := ret r

/-- The outcome of a call that has ended. -/
def outcome? : Thread δ α → Option (Exec α)
  | ret r => some r
  | stmt _ _ _ => none

variable {t : Thread δ α} {r : Exec α}

theorem outcome?_eq_some_iff : t.outcome? = some r ↔ t = ret r := by
  cases t with
  | ret s | stmt write next failed => simp [outcome?]

/-- One statement of a thread: it is done, it failed after it took effect, or it failed before. -/
inductive Steps : Thread δ α → δ → Thread δ α → δ → Prop
  | done (write : δ → δ) (next : δ → Thread δ α) (failed : Thread δ α) (d : δ) :
      Steps (stmt write next failed) d (next d) (write d)
  | applied (write : δ → δ) (next : δ → Thread δ α) (failed : Thread δ α) (d : δ) :
      Steps (stmt write next failed) d failed (write d)
  | lost (write : δ → δ) (next : δ → Thread δ α) (failed : Thread δ α) (d : δ) :
      Steps (stmt write next failed) d failed d

/-! ## What a thread ensures

`Ensures G Q t d`: from the state `d`, and however the others move the state along `G` in between, every
statement of `t` moves it along `G`, and a value that `t` returns satisfies `Q` from then on. -/

def Ensures (G : δ → δ → Prop) (Q : δ → α → Prop) : Thread δ α → δ → Prop
  | ret (.ok a), d => ∀ d', G d d' → Q d' a
  | ret (.error _), _ => True
  | ret .panicked, _ => True
  | stmt write next failed, d => ∀ d', G d d' →
      G d' (write d') ∧ Ensures G Q (next d') (write d') ∧
        Ensures G Q failed d' ∧ Ensures G Q failed (write d')

variable {G : δ → δ → Prop} {Q : δ → α → Prop} {d : δ} {read : δ → Exec α} {err : String}

theorem Ensures.lift (hQ : ∀ d' a, G d d' → r = .ok a → Q d' a) : (Thread.lift r).Ensures G Q d := by
  cases r with
  | ok a => exact fun d' hd' => hQ d' a hd' rfl
  | error msg | panicked => trivial

/-- A statement that keeps to `G`: the value it reads satisfies the postcondition from then on. -/
theorem Ensures.run {write : δ → δ} (hG : ∀ d', G d d' → G d' (write d'))
    (hQ : ∀ d' e a, G d d' → G (write d') e → read d' = .ok a → Q e a) :
    (Thread.run err write read).Ensures G Q d := by
  intro d' hd'
  refine ⟨hG d' hd', ?_, trivial, trivial⟩
  exact Ensures.lift fun e a he hr => hQ d' e a hd' he hr

/-- The value of an attempted call satisfies what the call ensures; its error may be anything. -/
theorem Ensures.attempt (h : t.Ensures G Q d) : t.attempt.Ensures G (fun d' r => ∀ a, r = .ok a → Q d' a) d := by
  induction t generalizing d with
  | ret r =>
    cases r with
    | ok a =>
      rintro d' hd' b ⟨⟩
      exact h d' hd'
    | error msg => exact fun d' _ b hb => by cases hb
    | panicked => trivial
  | stmt write next failed ihnext ihfailed =>
    intro d' hd'
    obtain ⟨hG, hnext, hlost, happlied⟩ := h d' hd'
    exact ⟨hG, ihnext d' hnext, ihfailed hlost, ihfailed happlied⟩

variable [IsPreorder δ G]

/-- What a thread ensures, it still ensures after the others moved the state. -/
theorem Ensures.rely {d' : δ} (h : t.Ensures G Q d) (hG : G d d') : t.Ensures G Q d' := by
  cases t with
  | ret r =>
    cases r with
    | ok a => exact fun e he => h e (trans_of G hG he)
    | error msg | panicked => trivial
  | stmt write next failed => exact fun e he => h e (trans_of G hG he)

/-- A statement keeps to `G`, and what is left of the thread ensures what it ensured. -/
theorem Ensures.steps {t' : Thread δ α} {d' : δ} (h : t.Ensures G Q d) (hs : Steps t d t' d') :
    G d d' ∧ t'.Ensures G Q d' := by
  cases hs with
  | done write next failed =>
    obtain ⟨hG, hnext, -, -⟩ := h d (refl d)
    exact ⟨hG, hnext⟩
  | applied write next =>
    obtain ⟨hG, -, -, hfailed⟩ := h d (refl d)
    exact ⟨hG, hfailed⟩
  | lost write next =>
    obtain ⟨-, -, hfailed, -⟩ := h d (refl d)
    exact ⟨refl d, hfailed⟩

theorem Ensures.query (hQ : ∀ d' e a, G d d' → G d' e → read d' = .ok a → Q e a) :
    (Thread.query err read).Ensures G Q d :=
  Ensures.run (fun d' _ => refl d') hQ

/-- The rule of sequencing: what follows starts from a state in which the first value satisfies its
    postcondition. -/
theorem Ensures.bind {R : δ → β → Prop} {t : Thread δ β} {k : β → Thread δ α} (ht : t.Ensures G R d)
    (hk : ∀ d' b, G d d' → R d' b → (k b).Ensures G Q d') : (t >>= k).Ensures G Q d := by
  induction t generalizing d with
  | ret r =>
    cases r with
    | ok b => exact hk d b (refl d) (ht d (refl d))
    | error msg | panicked => trivial
  | stmt write next failed ihnext ihfailed =>
    intro d' hd'
    obtain ⟨hG, hnext, hlost, happlied⟩ := ht d' hd'
    have hwrite : G d (write d') := trans_of G hd' hG
    refine ⟨hG, ihnext d' hnext ?_, ihfailed hlost ?_, ihfailed happlied ?_⟩
    · exact fun e b he => hk e b (trans_of G hwrite he)
    · exact fun e b he => hk e b (trans_of G hd' he)
    · exact fun e b he => hk e b (trans_of G hwrite he)

end Thread

/-! ## Pools of threads -/

/-- The shared state and the threads over it. -/
structure ThreadPool (ι δ α : Type) where
  db : δ
  threads : ι → Thread δ α

namespace ThreadPool

open Transition

variable {ι δ α : Type}

/-- How a statement went. -/
inductive Outcome
  | done
  | failed (applied : Bool)

/-- Which thread takes its next statement, and how that goes. -/
structure Turn (ι : Type) where
  thread : ι
  outcome : Outcome

variable [DecidableEq ι]

/-- One turn; a thread that has ended takes none. -/
def step (s : ThreadPool ι δ α) (a : Turn ι) : Option (ThreadPool ι δ α) :=
  match s.threads a.thread with
  | .ret _ => none
  | .stmt write next failed =>
      match a.outcome with
      | .done => some ⟨write s.db, Function.update s.threads a.thread (next s.db)⟩
      | .failed true => some ⟨write s.db, Function.update s.threads a.thread failed⟩
      | .failed false => some ⟨s.db, Function.update s.threads a.thread failed⟩

variable {s : ThreadPool ι δ α}

/-- A turn is a statement of its thread; the others stay where they are. -/
theorem step_steps {s' : ThreadPool ι δ α} {a : Turn ι} (h : s.step a = some s') :
    ∃ t', (s.threads a.thread).Steps s.db t' s'.db ∧
      s'.threads = Function.update s.threads a.thread t' := by
  obtain ⟨i, o⟩ := a
  unfold step at h
  cases ht : s.threads i with
  | ret r =>
    rw [ht] at h
    cases h
  | stmt write next failed =>
    rw [ht] at h
    rcases o with _ | (_ | _)
    all_goals
      cases h
    · exact ⟨_, .done write next failed s.db, rfl⟩
    · exact ⟨_, .lost write next failed s.db, rfl⟩
    · exact ⟨_, .applied write next failed s.db, rfl⟩

variable {G : δ → δ → Prop} [IsPreorder δ G] {Q : ι → δ → α → Prop}
  {es : List (Edge (ThreadPool ι δ α) (Turn ι))} {u : ThreadPool ι δ α}

variable (h0 : ∀ i, (s.threads i).Ensures G (Q i) s.db)

include h0

/-- The rely-guarantee rule: along every interleaving, every turn keeps to `G` and every thread still
    ensures its postcondition. -/
theorem run_ensures (r : Run (Fires step) s es u) :
    (∀ i, (u.threads i).Ensures G (Q i) u.db) ∧ ∀ e ∈ es, G e.src.db e.dst.db := by
  have hstep : ∀ (s : ThreadPool ι δ α) (a : Turn ι) (s' : ThreadPool ι δ α), Fires step s a s' →
      (∀ i, (s.threads i).Ensures G (Q i) s.db) →
        G s.db s'.db ∧ ∀ i, (s'.threads i).Ensures G (Q i) s'.db := by
    intro s a s' hs hI
    obtain ⟨t', ht', hthreads⟩ := step_steps hs
    obtain ⟨hG, hrest⟩ := (hI a.thread).steps ht'
    refine ⟨hG, fun i => ?_⟩
    rw [hthreads]
    by_cases hi : i = a.thread
    · subst hi
      rw [Function.update_self]
      exact hrest
    · rw [Function.update_of_ne hi]
      exact (hI i).rely hG
  refine ⟨r.invariant h0 fun s a s' hs hI => (hstep s a s' hs hI).2, fun e he => ?_⟩
  obtain ⟨hs, hI, -⟩ := r.edge_invariant h0 (fun s a s' hs hI => (hstep s a s' hs hI).2) e he
  exact (hstep _ _ _ hs hI).1

/-- What a thread has returned satisfies its postcondition in the state the run has reached. -/
theorem run_returned (r : Run (Fires step) s es u) {i : ι} {a : α} (hret : (u.threads i).outcome? = some (.ok a)) :
    Q i u.db a := by
  have hi := (run_ensures h0 r).1 i
  rw [Thread.outcome?_eq_some_iff.1 hret] at hi
  exact hi u.db (refl u.db)

end ThreadPool
