import Mathlib.Tactic.Common

/-! # A fair counting semaphore

The semaphore of an asynchronous runtime. A permit is taken either at once (`tryAcquire`) or by a
future that is polled: its first poll takes a free permit or queues the future, and a released permit
goes to the first future of the queue before it becomes free. A future that was handed a permit holds
it from then on, although only its next poll will report it (`granted`); dropped before that poll, it
passes the permit on (`cancel`).

`ι` identifies futures. -/

/-- Free permits, queued futures (first in, first out) and futures handed a permit they have not
    reported yet. -/
structure Semaphore (ι : Type) where
  permits : ℕ
  waiters : List ι
  granted : List ι

namespace Semaphore

open List

variable {ι : Type}

/-- A semaphore with `n` permits. -/
def new (n : ℕ) : Semaphore ι := ⟨n, [], []⟩

/-- Take a free permit. -/
def tryAcquire (s : Semaphore ι) : Option (Semaphore ι) :=
  if s.permits = 0 then none else some { s with permits := s.permits - 1 }

/-- Return a permit: to the first queued future, if there is one. -/
def release (s : Semaphore ι) : Semaphore ι :=
  match s.waiters with
  | [] => { s with permits := s.permits + 1 }
  | w :: ws => { s with waiters := ws, granted := w :: s.granted }

section Futures

variable [DecidableEq ι]

/-- Poll the future `w`: whether it now holds a permit. -/
def poll (w : ι) (s : Semaphore ι) : Bool × Semaphore ι :=
  if w ∈ s.granted then (true, { s with granted := s.granted.erase w })
  else if w ∈ s.waiters then (false, s)
  else
    match s.tryAcquire with
    | some s' => (true, s')
    | none => (false, { s with waiters := s.waiters ++ [w] })

/-- Drop the future `w` before it reports a permit. -/
def cancel (w : ι) (s : Semaphore ι) : Semaphore ι :=
  if w ∈ s.granted then release { s with granted := s.granted.erase w }
  else { s with waiters := s.waiters.erase w }

end Futures

/-! ## Free permits -/

variable {s s' : Semaphore ι}

theorem eq_of_tryAcquire (h : s.tryAcquire = some s') : s = { s' with permits := s'.permits + 1 } := by
  unfold tryAcquire at h
  split at h <;> cases h
  next hpos => rw [Nat.sub_add_cancel (Nat.pos_of_ne_zero hpos)]

theorem permits_tryAcquire (h : s.tryAcquire = some s') : s.permits = s'.permits + 1 := by
  rw [eq_of_tryAcquire h]

theorem permits_release (s : Semaphore ι) :
    s.release.permits = if s.waiters = [] then s.permits + 1 else s.permits := by
  unfold release
  split <;> simp_all

/-! ## Conservation

A permit is free, held by a future that was handed it, or in the hands of whoever acquired it.
`total` counts the first two, so each operation changes it by the permits that change hands. -/

/-- The permits nobody has in hand. -/
def total (s : Semaphore ι) : ℕ := s.permits + s.granted.length

@[simp] theorem total_new (n : ℕ) : (new n : Semaphore ι).total = n := rfl

theorem total_tryAcquire (h : s.tryAcquire = some s') : s.total = s'.total + 1 := by
  rw [eq_of_tryAcquire h]
  exact Nat.add_right_comm s'.permits 1 s'.granted.length

theorem total_release (s : Semaphore ι) : s.release.total = s.total + 1 := by
  unfold release total
  split
  · show s.permits + 1 + s.granted.length = _
    omega
  · show s.permits + (s.granted.length + 1) = _
    omega

/-! ## Whose futures a semaphore knows -/

/-- The futures a semaphore keeps: those queued and those handed a permit. -/
def futures (s : Semaphore ι) : List ι := s.waiters ++ s.granted

@[simp] theorem futures_new (n : ℕ) : (new n : Semaphore ι).futures = [] := rfl

theorem futures_tryAcquire (h : s.tryAcquire = some s') : s'.futures = s.futures := by
  rw [eq_of_tryAcquire h]
  rfl

/-- A release moves a future from the queue to those that hold a permit, at most. -/
theorem futures_release_perm (s : Semaphore ι) : s.release.futures.Perm s.futures := by
  unfold release futures
  split
  next h => simp [h]
  next w ws h =>
    rw [h]
    exact perm_middle

/-! ## Futures -/

variable [DecidableEq ι]

theorem permits_poll_le (w : ι) (s : Semaphore ι) : (s.poll w).2.permits ≤ s.permits := by
  unfold poll
  split
  · exact Nat.le_refl _
  · split
    · exact Nat.le_refl _
    · split
      next s' h => exact (permits_tryAcquire h).symm ▸ Nat.le_succ _
      next => exact Nat.le_refl _

/-- Whether dropping the future `w` makes a permit free. -/
def cancelFrees (w : ι) (s : Semaphore ι) : Bool := decide (w ∈ s.granted) && s.waiters.isEmpty

theorem permits_cancel (w : ι) (s : Semaphore ι) :
    (s.cancel w).permits = if s.cancelFrees w then s.permits + 1 else s.permits := by
  unfold cancel cancelFrees
  split
  next h => simp [permits_release, h]
  next h => simp [h]

theorem total_erase {w : ι} (h : w ∈ s.granted) : total { s with granted := s.granted.erase w } + 1 = s.total := by
  have hlen := length_erase_of_mem h
  have hpos := length_pos_of_mem h
  simp only [total]
  omega

theorem total_poll (w : ι) (s : Semaphore ι) :
    (s.poll w).2.total + (s.poll w).1.toNat = s.total := by
  unfold poll
  split
  next h => exact total_erase h
  next =>
    split
    · rfl
    · split
      next s' h => exact (total_tryAcquire h).symm
      next => rfl

theorem total_cancel (w : ι) (s : Semaphore ι) : (s.cancel w).total = s.total := by
  unfold cancel
  split
  next h => rw [total_release, total_erase h]
  next => rfl

variable {v w : ι}

/-- A poll keeps no future beyond those it kept and the one polled. -/
theorem mem_futures_poll (h : v ∈ (s.poll w).2.futures) : v ∈ s.futures ∨ v = w := by
  unfold poll at h
  split at h
  · rcases mem_append.1 h with h | h
    · exact .inl (mem_append_left _ h)
    · exact .inl (mem_append_right _ (mem_of_mem_erase h))
  · split at h
    · exact .inl h
    · split at h
      next s' hs => exact .inl (futures_tryAcquire hs ▸ h)
      next =>
        simp only [futures, mem_append, mem_singleton] at h ⊢
        tauto

theorem nodup_futures_poll (h : s.futures.Nodup) : (s.poll w).2.futures.Nodup := by
  unfold poll
  split
  · exact h.sublist (List.Sublist.append_left erase_sublist _)
  next hg =>
    split
    · exact h
    next hw =>
      split
      next s' hs => exact futures_tryAcquire hs ▸ h
      next =>
        have hperm : (s.waiters ++ [w] ++ s.granted).Perm (w :: (s.waiters ++ s.granted)) := by
          rw [append_assoc, singleton_append]
          exact perm_middle
        refine hperm.nodup_iff.2 (nodup_cons.2 ⟨?_, h⟩)
        rw [mem_append]
        exact fun hmem => hmem.elim hw hg

theorem mem_futures_cancel (hnd : s.futures.Nodup) (h : v ∈ (s.cancel w).futures) : v ∈ s.futures ∧ v ≠ w := by
  have hdisj := nodup_append.1 hnd
  unfold cancel at h
  split at h
  next hg =>
    have hmem := (futures_release_perm { s with granted := s.granted.erase w }).mem_iff.1 h
    rcases mem_append.1 hmem with hv | hv
    · exact ⟨mem_append_left _ hv, hdisj.2.2 v hv w hg⟩
    · refine ⟨mem_append_right _ (mem_of_mem_erase hv), ?_⟩
      rintro rfl
      exact hdisj.2.1.not_mem_erase hv
  next hg =>
    rcases mem_append.1 h with hv | hv
    · refine ⟨mem_append_left _ (mem_of_mem_erase hv), ?_⟩
      rintro rfl
      exact hdisj.1.not_mem_erase hv
    · refine ⟨mem_append_right _ hv, ?_⟩
      rintro rfl
      exact hg hv

theorem nodup_futures_cancel (h : s.futures.Nodup) : (s.cancel w).futures.Nodup := by
  unfold cancel
  split
  · refine (futures_release_perm _).nodup_iff.2 ?_
    exact h.sublist (List.Sublist.append_left erase_sublist _)
  · exact h.sublist (List.Sublist.append_right erase_sublist _)

end Semaphore
