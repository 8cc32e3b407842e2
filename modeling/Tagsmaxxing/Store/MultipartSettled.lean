import Tagsmaxxing.Lib.Run
import Tagsmaxxing.Store.MultipartStream

/-! # Is every multipart session settled? (`multipart_stream.rs`)

A session that is gone should have completed the upload or aborted it, or else its parts stay on the server. A part
that is not taken aborts the upload, and so does dropping a session that is not finished. But `finish` sets the flag
before it calls `complete` and does not abort when that fails: then nobody does (`settled_iff`). -/

namespace Tagsmaxxing.MultipartStream

/-- Exactly one of the two happened: `complete` succeeded, or `abort` was called. -/
def Server.Settled (s : Server) : Prop := Xor (s.completed = true) (0 < s.aborts)

namespace StreamingMultipartUpload

open Transition

/-- `abort`; `answer` is what the backend says to it. -/
def abort (answer : Exec Unit) (u : StreamingMultipartUpload) : Exec Unit × StreamingMultipartUpload :=
  if u.finished then (.ok (), u)
  else
    match u.ops with
    | none => (.ok (), { u with finished := true })
    | some server => (answer, u.aborted server)

/-- What is left of the upload, with the abort that is spawned. -/
def drop (u : StreamingMultipartUpload) : Option Server :=
  if u.finished then u.ops else u.ops.map fun server => { server with aborts := server.aborts + 1 }

inductive Call
  | feed (chunk : List UInt8)
  | finish
  | abort (answer : Exec Unit)

/-- A call that returns. Once the session is finished there is only `abort`; the others would panic. -/
def step (b : Backend) (u : StreamingMultipartUpload) : Call → Option StreamingMultipartUpload
  | .feed chunk => if u.finished then none else (u.feed b chunk).map Prod.snd
  | .finish => if u.finished then none else some (u.finish b).2
  | .abort answer => some (u.abort answer).2

/-- `finish` gets as far as `complete`. -/
def Flushes (b : Backend) (u : StreamingMultipartUpload) : Prop :=
  u.buf = [] ∨ ∃ server ∈ u.ops, Accepts b u.config server.parts.length

/-- If the call gets as far as `complete`, that succeeds. -/
def Completes (b : Backend) (e : Edge StreamingMultipartUpload Call) : Prop :=
  e.label = .finish → Flushes b e.src → b.complete = none

/-- The session goes on, and nothing is settled yet. -/
structure Running (u : StreamingMultipartUpload) (server : Server) : Prop where
  ops : u.ops = some server
  finished : u.finished = false
  completed : server.completed = false
  aborts : server.aborts = 0

/-- The session is finished, and settled or not. -/
def Ended (u : StreamingMultipartUpload) (settled : Prop) : Prop :=
  u.finished = true ∧ ∃ server, u.ops = some server ∧ (server.Settled ↔ settled)

variable {b : Backend} {u u' : StreamingMultipartUpload} {server : Server} {call : Call}

theorem ended_aborted (u : StreamingMultipartUpload) (h : server.completed = false) :
    (u.aborted server).Ended True :=
  ⟨rfl, _, rfl, by simp [Server.Settled, Xor, h]⟩

theorem feedLoop_cases {fuel : ℕ} {r : Exec Unit} (hfeed : feedLoop b fuel u = some (r, u')) (h : u.Running server) :
    (∃ server', u'.Running server') ∨ u'.Ended True := by
  induction fuel generalizing u server with
  | zero => cases hfeed
  | succ fuel ih =>
    rw [feedLoop] at hfeed
    split at hfeed
    · have hops : { u with buf := u.buf.drop u.config.partSizeBytes }.ops = some server := h.ops
      rcases uploadOnePart_spec b (u.buf.take u.config.partSizeBytes) hops with ⟨-, hok⟩ | ⟨-, e, herr⟩
      · simp only [hok] at hfeed
        exact ih hfeed ⟨rfl, h.finished, h.completed, h.aborts⟩
      · simp only [herr] at hfeed
        cases hfeed
        exact .inr (ended_aborted _ h.completed)
    · cases hfeed
      exact .inl ⟨server, h⟩

/-- The end of `finish` settles the upload exactly if `complete` succeeds. -/
theorem completeUpload_ended (hfinished : u.finished = true) (hops : u.ops = some server)
    (hcompleted : server.completed = false) (haborts : server.aborts = 0) :
    (completeUpload b u).2.Ended (b.complete = none) := by
  unfold completeUpload
  simp only [hops]
  cases hc : b.complete with
  | none => exact ⟨hfinished, _, rfl, by simp [Server.Settled, Xor, haborts]⟩
  | some e => exact ⟨hfinished, server, hops, by simp [Server.Settled, Xor, haborts, hcompleted]⟩

theorem finish_ended (h : u.Running server) : (u.finish b).2.Ended (Flushes b u → b.complete = none) := by
  rw [finish, if_neg (by simp [h.finished])]
  by_cases hbuf : u.buf = []
  · have hflush : Flushes b u := .inl hbuf
    simp only [hbuf, if_true, hflush, true_imp_iff]
    exact completeUpload_ended rfl h.ops h.completed h.aborts
  · have hops : { u with finished := true, buf := [] }.ops = some server := h.ops
    simp only [hbuf, if_false]
    rcases uploadOnePart_spec b u.buf hops with ⟨htaken, hok⟩ | ⟨hnot, e, herr⟩
    · have hflush : Flushes b u := .inr ⟨server, h.ops, htaken⟩
      simp only [hok, hflush, true_imp_iff]
      exact completeUpload_ended rfl rfl h.completed h.aborts
    · have hflush : ¬ Flushes b u := by
        rintro (hnil | ⟨server', hserver, htaken⟩)
        · exact hbuf hnil
        · cases h.ops.symm.trans hserver
          exact hnot htaken
      simp only [herr, hflush, false_imp_iff]
      exact ended_aborted _ h.completed

theorem step_cases (h : u.Running server) (hs : step b u call = some u') :
    ((∃ server', u'.Running server') ∧ call ≠ .finish) ∨ u'.Ended (Completes b ⟨u, call, u'⟩) := by
  cases call with
  | feed chunk =>
    simp only [step, h.finished, Bool.false_eq_true, if_false, Option.map_eq_some_iff, Prod.exists] at hs
    obtain ⟨r, u'', hfeed, rfl⟩ := hs
    simp only [Completes, reduceCtorEq, false_imp_iff, ne_eq, not_false_eq_true, and_true]
    rw [feed, if_neg (by simp [h.finished])] at hfeed
    split_ifs at hfeed
    · cases hfeed
      exact .inl ⟨server, h⟩
    · exact feedLoop_cases hfeed ⟨h.ops, h.finished, h.completed, h.aborts⟩
  | finish =>
    simp only [step, h.finished, Bool.false_eq_true, if_false] at hs
    cases hs
    simp only [Completes, true_imp_iff]
    exact .inr (finish_ended h)
  | abort answer =>
    simp only [step, abort, h.finished, Bool.false_eq_true, if_false, h.ops] at hs
    cases hs
    simp only [Completes, reduceCtorEq, false_imp_iff]
    exact .inr (ended_aborted u h.completed)

/-- What the calls so far say about the session. -/
def Session (b : Backend) (es : List (Edge StreamingMultipartUpload Call)) (u : StreamingMultipartUpload) : Prop :=
  ((∃ server, u.Running server) ∧ ∀ e ∈ es, Completes b e) ∨ u.Ended (∀ e ∈ es, Completes b e)

theorem session_step {es : List (Edge StreamingMultipartUpload Call)} (h : Session b es u)
    (hs : step b u call = some u') : Session b (es ++ [⟨u, call, u'⟩]) u' := by
  simp only [Session, List.forall_mem_append, List.forall_mem_singleton]
  rcases h with ⟨⟨server, hrunning⟩, hes⟩ | ⟨hfinished, hended⟩
  · rw [and_iff_right hes]
    rcases step_cases hrunning hs with ⟨hnext, hcall⟩ | hended
    · exact .inl ⟨hnext, fun hfinish => absurd hfinish hcall⟩
    · exact .inr hended
  · -- only an abort is left, which does nothing
    cases call with
    | feed chunk | finish => simp [step, hfinished] at hs
    | abort answer =>
      simp only [step, abort, hfinished, if_true] at hs
      cases hs
      simp only [Completes, reduceCtorEq, false_imp_iff, and_true]
      exact .inr ⟨hfinished, hended⟩

/-- **A session that is dropped is settled exactly if `complete` does not fail on it.** -/
theorem settled_iff {config : MultipartUploadConfig} {total : UInt64} {progressTx : Bool}
    {es : List (Edge StreamingMultipartUpload Call)} (r : Run (Fires (step b)) (new config total progressTx) es u) :
    (∃ server, u.drop = some server ∧ server.Settled) ↔ ∀ e ∈ es, Completes b e := by
  have hsession : Session b es u :=
    r.history_invariant (.inl ⟨⟨_, rfl, rfl, rfl, rfl⟩, by simp⟩) fun _ _ _ _ hs h => session_step h hs
  rcases hsession with ⟨⟨server, h⟩, hes⟩ | ⟨hfinished, server, hops, hsettled⟩
  · refine iff_of_true ⟨_, by rw [drop, h.finished, h.ops]; rfl, ?_⟩ hes
    simp [Server.Settled, Xor, h.completed]
  · rw [← hsettled, drop, if_pos hfinished, hops]
    simp

/-- A part that is taken on its second attempt, and one that is not taken at all. -/
theorem settled_after_refused_parts :
    (∃ es u, Run (Fires (step ⟨fun part attempt => if part = 1 ∧ attempt = 0 then some "busy" else none, none⟩))
        (new ⟨2, 1⟩ 3 false) es u ∧ es.map Edge.label = [.feed [1, 2, 3], .finish] ∧
      ∃ server, u.drop = some server ∧ server.Settled) ∧
    ∃ es u, Run (Fires (step ⟨fun part _ => if part = 1 then some "busy" else none, none⟩)) (new ⟨2, 1⟩ 5 false) es u ∧
      es.map Edge.label = [.feed [1, 2, 3], .feed [4, 5], .abort (.ok ())] ∧
      ∃ server, u.drop = some server ∧ server.Settled := by
  constructor
  · exact exists_run_of_imp (fun _ _ => True) (by decide +kernel) fun _ _ r _ => (settled_iff r).2 fun _ _ _ _ => rfl
  · exact exists_run_of_imp (fun _ _ => True) (by decide +kernel) fun _ _ r _ => (settled_iff r).2 fun _ _ _ _ => rfl

/-- `complete` fails: `finish` returns its error, and nobody aborts. -/
theorem failed_complete_leaves_parts :
    (uploadAll ⟨fun _ _ => none, some "timeout"⟩ [[1, 2, 3]] (new ⟨2, 0⟩ 3 false)).map (fun r => (r.1, r.2.drop)) =
      some (.error "timeout", some ⟨[[1, 2], [3]], false, 0⟩) := rfl

end StreamingMultipartUpload

end Tagsmaxxing.MultipartStream
