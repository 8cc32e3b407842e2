import Mathlib.Data.List.Perm.Basic
import Tagsmaxxing.Lib.Run

/-! # The buffered usage recorder (`buffered_recorder.rs`)

`record_usage` tries to put its event into a bounded channel and never waits: an event that is refused is counted and
gone. A background task, which is neither aborted nor panics, takes the events out one by one and hands each to the
inner recorder.

A call that was refused and has not added to the counter yet is under way. What was recorded, accepted, handed on and
lost is read off the steps of a run (`usage_accounted`). Metrics and log lines are left out. -/

namespace Tagsmaxxing.BufferedRecorder

open List Transition

/-- Where the drain task is. -/
inductive Drain
  /-- at `rx.recv()` -/
  | receiving
  /-- in `inner.record_usage` -/
  | recording
  | finished
deriving DecidableEq

inductive TrySendError
  | full
  | closed

variable {ε : Type}

structure State (ε : Type) where
  buffer : List ε
  /-- events of refused calls under way -/
  refused : List ε
  dropped : UInt64
  /-- the references to the recorder: its sender is gone with the last one -/
  handles : ℕ
  drain : Drain

/-- `BufferedUsageRecorder::start`. -/
def start : State ε := ⟨[], [], 0, 1, .receiving⟩

/-- `tx.try_send`, on a channel made with `capacity.max(1)`. -/
def trySend (capacity : ℕ) (e : ε) (s : State ε) : Except TrySendError (List ε) :=
  if s.drain = .finished then .error .closed
  else if s.buffer.length < max capacity 1 then .ok (s.buffer ++ [e])
  else .error .full

inductive Act (ε : Type)
  /-- `record_usage`, up to its `try_send` -/
  | record (e : ε)
  /-- the `i`-th of the refused calls adds one to the counter and returns -/
  | count (i : ℕ)
  /-- the drain task receives an event and calls the inner recorder with it -/
  | receive
  /-- the inner recorder returns; an error is logged and the task goes on -/
  | recorded (ok : Bool)
  /-- a reference to the recorder is cloned -/
  | share
  /-- a reference is dropped, not the last one as long as a call is under way -/
  | release
  /-- the drain task finds the channel empty and its sender gone -/
  | finish

def step (capacity : ℕ) (s : State ε) : Act ε → Option (State ε)
  | .record e =>
      if s.handles = 0 then none
      else
        match trySend capacity e s with
        | .ok buffer => some { s with buffer := buffer }
        | .error _ => some { s with refused := s.refused ++ [e] }
  | .count i =>
      if i < s.refused.length then some { s with refused := s.refused.eraseIdx i, dropped := s.dropped + 1 } else none
  | .receive =>
      match s.drain, s.buffer with
      | .receiving, _ :: buffer => some { s with buffer := buffer, drain := .recording }
      | _, _ => none
  | .recorded _ => if s.drain = .recording then some { s with drain := .receiving } else none
  | .share => if s.handles = 0 then none else some { s with handles := s.handles + 1 }
  | .release =>
      if s.handles = 0 ∨ s.handles = 1 ∧ s.refused.length ≠ 0 then none
      else some { s with handles := s.handles - 1 }
  | .finish =>
      match s.drain, s.buffer, s.handles with
      | .receiving, [], 0 => some { s with drain := .finished }
      | _, _, _ => none

/-! ## What the steps of a run account for -/

/-- The events passed to `record_usage`. -/
def recorded (es : List (Edge (State ε) (Act ε))) : List ε :=
  es.filterMap fun x => match x.label with
    | .record e => some e
    | _ => none

/-- Those the channel accepted. -/
def accepted (capacity : ℕ) (es : List (Edge (State ε) (Act ε))) : List ε :=
  es.filterMap fun x => match x.label with
    | .record e => (trySend capacity e x.src).toOption.map fun _ => e
    | _ => none

/-- Those handed to the inner recorder. -/
def handed (es : List (Edge (State ε) (Act ε))) : List ε :=
  es.filterMap fun x => match x.label with
    | .receive => x.src.buffer.head?
    | _ => none

/-- Those counted as dropped. -/
def lost (es : List (Edge (State ε) (Act ε))) : List ε :=
  es.filterMap fun x => match x.label with
    | .count i => x.src.refused[i]?
    | _ => none

/-- Once the drain task has finished, nothing is left and nothing can come. -/
def State.Drained (s : State ε) : Prop := s.drain = .finished → s.buffer = [] ∧ s.handles = 0

variable {capacity : ℕ} {es : List (Edge (State ε) (Act ε))} {s t : State ε} {a : Act ε}

/-- What one step adds to the account. -/
structure Change (capacity : ℕ) (x : Edge (State ε) (Act ε)) : Prop where
  channel : handed [x] ++ x.dst.buffer = x.src.buffer ++ accepted capacity [x]
  order : (accepted capacity [x]).Sublist (recorded [x])
  partition : (recorded [x] ++ x.src.refused).Perm (accepted capacity [x] ++ (lost [x] ++ x.dst.refused))
  dropped : x.dst.dropped = x.src.dropped + UInt64.ofNat (lost [x]).length
  bound : x.src.buffer.length ≤ max capacity 1 → x.dst.buffer.length ≤ max capacity 1
  drained : x.src.Drained → x.dst.Drained

theorem trySend_eq_ok_iff {e : ε} {buffer : List ε} :
    trySend capacity e s = .ok buffer ↔
      s.drain ≠ .finished ∧ s.buffer.length < max capacity 1 ∧ s.buffer ++ [e] = buffer := by
  unfold trySend
  split_ifs with hdrain hroom
  · simp [hdrain]
  · simp [hdrain, hroom]
  · simp [hroom]

theorem change_record {e : ε} (h : step capacity s (.record e) = some t) : Change capacity ⟨s, .record e, t⟩ := by
  simp only [step] at h
  split at h
  · cases h
  · cases htry : trySend capacity e s with
    | ok buffer =>
      obtain ⟨hdrain, hroom, rfl⟩ := trySend_eq_ok_iff.1 htry
      simp only [htry, Option.some.injEq] at h
      subst h
      have haccepted : ∀ x, accepted capacity [⟨s, .record e, x⟩] = [e] := by simp [accepted, htry, Except.toOption]
      refine ⟨?_, ?_, ?_, by simp [lost], fun _ => ?_, fun _ hfinished => absurd hfinished hdrain⟩
      · rw [haccepted]
        rfl
      · rw [haccepted]
        exact .refl _
      · rw [haccepted]
        exact .refl _
      · rw [length_append, length_singleton]
        omega
    | error err =>
      simp only [htry, Option.some.injEq] at h
      subst h
      have haccepted : ∀ x, accepted capacity [⟨s, .record e, x⟩] = [] := by simp [accepted, htry, Except.toOption]
      refine ⟨?_, ?_, ?_, by simp [lost], id, id⟩
      · rw [haccepted, append_nil]
        rfl
      · rw [haccepted]
        exact nil_sublist _
      · rw [haccepted]
        exact (perm_append_singleton e s.refused).symm

theorem change_count {i : ℕ} (h : step capacity s (.count i) = some t) : Change capacity ⟨s, .count i, t⟩ := by
  simp only [step] at h
  split at h <;> cases h
  rename_i hi
  have hlost : ∀ x, lost [⟨s, .count i, x⟩] = [s.refused[i]] := by simp [lost, hi]
  refine ⟨(append_nil _).symm, .slnil, ?_, ?_, id, id⟩
  · rw [hlost]
    exact (getElem_cons_eraseIdx_perm hi).symm
  · rw [hlost]
    rfl

theorem change_receive (h : step capacity s .receive = some t) : Change capacity ⟨s, .receive, t⟩ := by
  simp only [step] at h
  split at h <;> cases h
  rename_i e buffer hdrain hbuffer
  refine ⟨by simp [handed, accepted, hbuffer], .slnil, .refl _, by simp [lost], fun hbound => ?_, ?_⟩
  · rw [hbuffer, length_cons] at hbound
    exact Nat.le_of_succ_le hbound
  · rintro - ⟨⟩

/-- A step that touches neither the events nor the counter. -/
theorem Change.quiet (ha : ∀ x : State ε, recorded [⟨s, a, x⟩] = [] ∧ accepted capacity [⟨s, a, x⟩] = [] ∧
      handed [⟨s, a, x⟩] = [] ∧ lost [⟨s, a, x⟩] = [])
    (hbuffer : t.buffer = s.buffer) (hrefused : t.refused = s.refused) (hdropped : t.dropped = s.dropped)
    (hdrained : s.Drained → t.Drained) : Change capacity ⟨s, a, t⟩ := by
  obtain ⟨hrecorded, haccepted, hhanded, hlost⟩ := ha t
  refine ⟨?_, ?_, ?_, ?_, ?_, hdrained⟩ <;>
    simp [hrecorded, haccepted, hhanded, hlost, hbuffer, hrefused, hdropped]

theorem change_step (h : step capacity s a = some t) : Change capacity ⟨s, a, t⟩ := by
  cases a with
  | record e => exact change_record h
  | count i => exact change_count h
  | receive => exact change_receive h
  | recorded ok =>
    simp only [step, Option.ite_none_right_eq_some, Option.some.injEq] at h
    obtain ⟨-, rfl⟩ := h
    refine .quiet (fun _ => ⟨rfl, rfl, rfl, rfl⟩) rfl rfl rfl ?_
    rintro - ⟨⟩
  | share =>
    simp only [step, Option.ite_none_left_eq_some, Option.some.injEq] at h
    obtain ⟨hhandles, rfl⟩ := h
    refine .quiet (fun _ => ⟨rfl, rfl, rfl, rfl⟩) rfl rfl rfl ?_
    exact fun hs hfinished => absurd (hs hfinished).2 hhandles
  | release =>
    simp only [step, Option.ite_none_left_eq_some, Option.some.injEq] at h
    obtain ⟨-, rfl⟩ := h
    refine .quiet (fun _ => ⟨rfl, rfl, rfl, rfl⟩) rfl rfl rfl ?_
    exact fun hs hfinished => ⟨(hs hfinished).1, by simp [(hs hfinished).2]⟩
  | finish =>
    simp only [step] at h
    split at h <;> cases h
    rename_i hdrain hbuffer hhandles
    exact .quiet (fun _ => ⟨rfl, rfl, rfl, rfl⟩) rfl rfl rfl fun _ _ => ⟨hbuffer, hhandles⟩

/-! ## Whole runs -/

/-- The account of a run that led to a state. -/
structure Accounted (capacity : ℕ) (es : List (Edge (State ε) (Act ε))) (s : State ε) : Prop where
  channel : handed es ++ s.buffer = accepted capacity es
  order : (accepted capacity es).Sublist (recorded es)
  partition : (recorded es).Perm (accepted capacity es ++ (lost es ++ s.refused))
  dropped : s.dropped = UInt64.ofNat (lost es).length
  bound : s.buffer.length ≤ max capacity 1
  drained : s.Drained

theorem Accounted.snoc (h : Accounted capacity es s) (hx : Change capacity ⟨s, a, t⟩) :
    Accounted capacity (es ++ [⟨s, a, t⟩]) t := by
  have hrecorded : recorded (es ++ [⟨s, a, t⟩]) = recorded es ++ recorded [⟨s, a, t⟩] := filterMap_append
  have haccepted : accepted capacity (es ++ [⟨s, a, t⟩]) = accepted capacity es ++ accepted capacity [⟨s, a, t⟩] :=
    filterMap_append
  have hhanded : handed (es ++ [⟨s, a, t⟩]) = handed es ++ handed [⟨s, a, t⟩] := filterMap_append
  have hlost : lost (es ++ [⟨s, a, t⟩]) = lost es ++ lost [⟨s, a, t⟩] := filterMap_append
  refine ⟨?_, ?_, ?_, ?_, hx.bound h.bound, hx.drained h.drained⟩
  · rw [hhanded, haccepted, append_assoc, hx.channel, ← append_assoc, h.channel]
  · rw [haccepted, hrecorded]
    exact h.order.append hx.order
  · -- both partitions, event by event
    classical
    rw [perm_iff_count]
    intro e
    have hes := h.partition.count_eq e
    have hlast := hx.partition.count_eq e
    simp only [hrecorded, haccepted, hlost, count_append] at hes hlast ⊢
    omega
  · rw [hx.dropped, h.dropped, hlost, length_append, UInt64.ofNat_add]

/-- At every point of every run: the events recorded are those handed on, those in the buffer, those counted and those
    of calls under way that were refused, each once; the buffer is within its bound; the counter is the number of those
    counted, as a `u64`; what was handed on and the buffer are what was accepted, in that order, and in the order it
    was recorded; and when the sender is gone and the drain task has finished, the buffer is empty. -/
theorem usage_accounted (h : Run (Fires (step capacity)) start es s) :
    (recorded es).Perm (handed es ++ s.buffer ++ (lost es ++ s.refused)) ∧
    s.buffer.length ≤ max capacity 1 ∧ s.dropped = UInt64.ofNat (lost es).length ∧
    handed es ++ s.buffer = accepted capacity es ∧ (accepted capacity es).Sublist (recorded es) ∧
    ((recorded es).Nodup → (handed es).Nodup) ∧
    (s.handles = 0 → s.drain = .finished → s.buffer = []) := by
  have hstart : Accounted capacity [] (start : State ε) := ⟨rfl, .slnil, .nil, rfl, by simp [start], by rintro ⟨⟩⟩
  have hes := h.history_invariant hstart fun es s a t hs => (·.snoc (change_step hs))
  have honce : (recorded es).Nodup → (handed es).Nodup := by
    intro hnodup
    have hsub := hes.channel ▸ hes.order
    exact ((sublist_append_left ..).trans hsub).nodup hnodup
  exact ⟨hes.channel ▸ hes.partition, hes.bound, hes.dropped, hes.channel, hes.order, honce,
    fun _ hfinished => (hes.drained hfinished).1⟩

/-- With room for one event, the second of two is dropped and the first handed on before the task ends. -/
theorem usage_accounted_two :
    ∃ es s, Run (Fires (step 0)) start es s ∧
      es.map Edge.label = [.record 1, .record 2, .count 0, .receive, .recorded false, .release, .finish] ∧
      handed es = [1] ∧ s.dropped = 1 ∧ s.buffer = [] := by
  refine exists_run_of_imp (fun es s => handed es = [1] ∧ lost es = [2] ∧ s.handles = 0 ∧ s.drain = .finished)
    (by decide) ?_
  rintro es s hrun ⟨hhanded, hlost, hhandles, hdrain⟩
  obtain ⟨-, -, hdropped, -, -, -, hempty⟩ := usage_accounted hrun
  exact ⟨hhanded, by rw [hdropped, hlost]; rfl, hempty hhandles hdrain⟩

end Tagsmaxxing.BufferedRecorder
