import Tagsmaxxing.Core.Types
import Tagsmaxxing.Lib.Semaphore

/-! # Capacity guards (`capacity.rs`)

`TokenBucket` and the three kinds of `Capacity`. The floating-point balances are rationals, and the
injected clock is the argument `now`. `Capacity::acquire` is asynchronous: it appears as its two
parts, `poll` on the semaphore and, once a permit is held, `charge`. -/

namespace Tagsmaxxing.Scheduler

/-! ## Token buckets -/

/-- `TokenBucketInner`. -/
structure TokenBucket where
  rate : ℚ
  maxTokens : ℚ
  tokens : ℚ
  lastRefill : Time

namespace TokenBucket

def new (rate maxTokens : ℚ) (now : Time) : TokenBucket := ⟨rate, maxTokens, maxTokens, now⟩

/-- `TokenBucketInner::refill`; `duration_since` is zero for a clock that went back. -/
def refill (now : Time) (b : TokenBucket) : TokenBucket :=
  let elapsed := max (now - b.lastRefill) 0
  { b with
    tokens :=
      if 0 < elapsed ∧ b.tokens < b.maxTokens then min (b.tokens + elapsed * b.rate) b.maxTokens
      else b.tokens
    lastRefill := now }

def tryConsume (n : ℚ) (now : Time) (b : TokenBucket) : Bool × TokenBucket :=
  let b := b.refill now
  if n ≤ b.tokens then (true, { b with tokens := b.tokens - n }) else (false, b)

def refund (n : ℚ) (b : TokenBucket) : TokenBucket :=
  { b with tokens := min (b.tokens + n) b.maxTokens }

def available (now : Time) (b : TokenBucket) : ℚ × TokenBucket :=
  let b := b.refill now
  (b.tokens, b)

end TokenBucket

/-! ## Capacity -/

/-- A future of `Capacity::acquire`: the call that awaits it, and its place among that call's
    futures. -/
abbrev FutureId := ℕ × ℕ

inductive Capacity
  | slots (sem : Semaphore FutureId)
  | concurrency (sem : Semaphore FutureId)
  | rated (sem : Semaphore FutureId) (rpm tpm : TokenBucket)

namespace Capacity

def newSlots (n : ℕ) : Capacity := .slots (.new n)

def newConcurrency (n : ℕ) : Capacity := .concurrency (.new n)

def newRated (conc : ℕ) (rpmRate tpmRate : ℚ) (now : Time) : Capacity :=
  .rated (.new conc) (.new (rpmRate / 60) rpmRate now) (.new (tpmRate / 60) tpmRate now)

/-- The semaphore of any variant. -/
def sem : Capacity → Semaphore FutureId
  | .slots sem | .concurrency sem | .rated sem _ _ => sem

/-- Replace the semaphore. -/
def setSem (sem : Semaphore FutureId) : Capacity → Capacity
  | .slots _ => .slots sem
  | .concurrency _ => .concurrency sem
  | .rated _ rpm tpm => .rated sem rpm tpm

/-- Whether a permit was taken. -/
def tryAcquire (now : Time) (c : Capacity) : Bool × Capacity :=
  match c with
  | .slots sem =>
      match sem.tryAcquire with
      | some sem' => (true, .slots sem')
      | none => (false, c)
  | .concurrency sem =>
      match sem.tryAcquire with
      | some sem' => (true, .concurrency sem')
      | none => (false, c)
  | .rated sem rpm tpm =>
      match rpm.tryConsume 1 now with
      | (false, rpm) => (false, .rated sem rpm tpm)
      | (true, rpm) =>
          -- the TPM bucket is only a placeholder: nothing is consumed and the answer is ignored
          let tpm := (tpm.tryConsume 0 now).2
          match sem.tryAcquire with
          | some sem' => (true, .rated sem' rpm tpm)
          | none => (false, .rated sem (rpm.refund 1) tpm)

/-- The semaphore part of `Capacity::acquire`: poll the future `w`. -/
def poll (w : FutureId) (c : Capacity) : Bool × Capacity :=
  ((c.sem.poll w).1, c.setSem (c.sem.poll w).2)

/-- The rest of `Capacity::acquire`, with a permit in hand: whether the call succeeds. -/
def charge (now : Time) (c : Capacity) : Bool × Capacity :=
  match c with
  | .slots _ | .concurrency _ => (true, c)
  | .rated sem rpm tpm =>
      match rpm.tryConsume 1 now with
      | (false, rpm) => (false, .rated sem rpm tpm)
      | (true, rpm) => (true, .rated sem rpm (tpm.tryConsume 0 now).2)

/-- Drop the future `w` of `Capacity::acquire` before it is done. -/
def cancel (w : FutureId) (c : Capacity) : Capacity := c.setSem (c.sem.cancel w)

/-- Drop an `OwnedSemaphorePermit`. -/
def releasePermit (c : Capacity) : Capacity := c.setSem c.sem.release

/-- `CapacityPermit::drop`, then the drop of its semaphore permit. -/
def dropPermit (c : Capacity) : Capacity :=
  match c with
  | .slots _ | .concurrency _ => c.releasePermit
  | .rated sem rpm tpm => (Capacity.rated sem (rpm.refund 1) tpm).releasePermit

def free (c : Capacity) : ℕ := c.sem.permits

/-- `Capacity::is_usable`; reading a bucket refills it. -/
def isUsable (now : Time) (c : Capacity) : Bool × Capacity :=
  match c with
  | .slots _ | .concurrency _ => (true, c)
  | .rated sem rpm tpm => (decide (1 ≤ (rpm.available now).1), .rated sem (rpm.available now).2 tpm)

/-! ## What each operation does to the semaphore -/

@[simp] theorem sem_setSem (sem : Semaphore FutureId) (c : Capacity) : (c.setSem sem).sem = sem := by
  cases c <;> rfl

@[simp] theorem sem_isUsable (now : Time) (c : Capacity) : (c.isUsable now).2.sem = c.sem := by
  cases c <;> rfl

@[simp] theorem sem_charge (now : Time) (c : Capacity) : (c.charge now).2.sem = c.sem := by
  cases c with
  | slots sem | concurrency sem => rfl
  | rated sem rpm tpm =>
    unfold charge
    dsimp only
    split <;> rfl

@[simp] theorem sem_dropPermit (c : Capacity) : c.dropPermit.sem = c.sem.release := by
  cases c <;> rfl

@[simp] theorem sem_releasePermit (c : Capacity) : c.releasePermit.sem = c.sem.release := by
  simp [releasePermit]

@[simp] theorem sem_cancel (w : FutureId) (c : Capacity) : (c.cancel w).sem = c.sem.cancel w := by
  simp [cancel]

@[simp] theorem sem_poll (w : FutureId) (c : Capacity) : (c.poll w).2.sem = (c.sem.poll w).2 := by
  simp [poll]

/-- `try_acquire` takes a permit or leaves the semaphore alone. -/
theorem tryAcquire_cases (now : Time) (c : Capacity) :
    ((c.tryAcquire now).1 = true ∧ c.sem.tryAcquire = some (c.tryAcquire now).2.sem) ∨
    ((c.tryAcquire now).1 = false ∧ (c.tryAcquire now).2.sem = c.sem) := by
  cases c with
  | slots sem | concurrency sem =>
    unfold tryAcquire
    dsimp only
    split
    next sem' h => exact .inl ⟨rfl, h⟩
    next => exact .inr ⟨rfl, rfl⟩
  | rated sem rpm tpm =>
    unfold tryAcquire
    dsimp only
    split
    next => exact .inr ⟨rfl, rfl⟩
    next =>
      split
      next sem' h => exact .inl ⟨rfl, h⟩
      next => exact .inr ⟨rfl, rfl⟩

end Capacity

end Tagsmaxxing.Scheduler
