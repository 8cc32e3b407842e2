import Tagsmaxxing.Lib.Exec
import Tagsmaxxing.Lib.Run
import Tagsmaxxing.Lib.Semaphore
import Tagsmaxxing.Lib.Table

/-! # The in-flight limiter (`backpressure.rs`)

A request needs a permit of its tenant's semaphore and one of the global semaphore. `try_acquire` takes them in this
order, each by an atomic operation of its own; the `Permit` it returns releases them when it is dropped, field by
field in the same order. So between the two releases a tenant's permit is free again while the global one is taken.

The system lets any number of requests take these operations in any order. Permits are conserved (`sound_step`),
so no more than `max` global permits are out and a refused request has none. A tenant can have more than
`per_tenant_max` of them, though: one for each `Permit` that is half dropped when the tenant's next request comes.
`inflight_fair` has the bound for the runs where that does not happen. -/

namespace Tagsmaxxing.Backpressure

open Option Transition

/-- `Semaphore::MAX_PERMITS`: `usize::MAX >> 3`. `Semaphore::new` panics above it. -/
def maxPermits : ℕ := 2 ^ 61 - 1

def unlimitedPermits : ℕ := maxPermits / 2

def defaultPerTenantMax (globalMax : ℕ) : ℕ := max (globalMax / 4) 1

/-- `InflightLimiter`. Only `try_acquire_owned` is used, so nobody waits on these semaphores. -/
structure InflightLimiter where
  global : Semaphore Empty
  tenants : Keyed Int (Semaphore Empty)
  max : ℕ
  perTenantMax : ℕ

namespace InflightLimiter

def withPerTenant (max perTenantMax : ℕ) : Exec InflightLimiter :=
  if max = 0 then .ok ⟨.new unlimitedPermits, .empty, 0, 0⟩
  else if maxPermits < max then .panicked
  else
    let effectivePerTenant :=
      if perTenantMax = 0 then defaultPerTenantMax max else Nat.min (Nat.max perTenantMax 1) max
    .ok ⟨.new max, .empty, max, effectivePerTenant⟩

def new (max : ℕ) : Exec InflightLimiter := withPerTenant max 0

/-- The tenant has a semaphore afterwards. No entry is ever removed, so
    a handle to it and its place in the map are the same. -/
def tenantSemaphore (l : InflightLimiter) (tenantId : Int) : InflightLimiter :=
  { l with tenants := l.tenants.insertNew tenantId (.new l.perTenantMax) }

def inFlight (l : InflightLimiter) : ℕ := if l.max = 0 then 0 else l.max - l.global.permits

end InflightLimiter

/-- Which semaphore an owned permit belongs to. -/
inductive Owner
  | global
  | tenant (tenantId : Int)
deriving DecidableEq

namespace InflightLimiter

/-- `Arc<Semaphore>::try_acquire_owned`. -/
def tryAcquireOwned (l : InflightLimiter) : Owner → Option InflightLimiter
  | .global => l.global.tryAcquire.map fun s => { l with global := s }
  | .tenant t =>
      match l.tenants.get? t with
      | none => none
      | some s => s.tryAcquire.map fun s' => { l with tenants := l.tenants.upsert t s' }

/-- `OwnedSemaphorePermit::drop`. -/
def release (l : InflightLimiter) : Owner → InflightLimiter
  | .global => { l with global := l.global.release }
  | .tenant t =>
      match l.tenants.get? t with
      | none => l
      | some s => { l with tenants := l.tenants.upsert t s.release }

end InflightLimiter

structure Permit where
  tenant : Owner
  global : Owner
deriving DecidableEq

/-- Where a request stands in `try_acquire` and in the drop of its permit. -/
inductive Pc
  | start
  /-- About to take the first permit. -/
  | first (w : Owner)
  /-- Has the first permit, about to take the global one. -/
  | second (w : Owner)
  /-- There was no global permit; `?` is about to drop the first one. -/
  | backOut (w : Owner)
  /-- `try_acquire` has returned `None`. -/
  | refused
  /-- `try_acquire` has returned a permit, and the request holds it. -/
  | holding (p : Permit)
  /-- The field `_tenant` of the permit is released, `_global` is not. -/
  | halfDropped (p : Permit)
  | finished
deriving DecidableEq

/-- A request of a tenant. -/
structure Request where
  tenantId : Int
  pc : Pc
deriving DecidableEq

/-- The next operation of a request: of `InflightLimiter::try_acquire`, and then of `Permit`'s drop. -/
def Request.advance (l : InflightLimiter) (r : Request) : Option (InflightLimiter × Pc) :=
  match r.pc with
  | .start =>
      if l.max = 0 then some (l, .first .global)
      else some (l.tenantSemaphore r.tenantId, .first (.tenant r.tenantId))
  | .first w =>
      match l.tryAcquireOwned w with
      | some l' => some (l', .second w)
      | none => some (l, .refused)
  | .second w =>
      match l.tryAcquireOwned .global with
      | some l' => some (l', .holding ⟨w, .global⟩)
      | none => some (l, .backOut w)
  | .backOut w => some (l.release w, .refused)
  | .holding p => some (l.release p.tenant, .halfDropped p)
  | .halfDropped p => some (l.release p.global, .finished)
  | .refused | .finished => none

/-- The limiter and the requests made so far. -/
structure State where
  limiter : InflightLimiter
  requests : Serial Request

inductive Act
  /-- A new request of a tenant calls `try_acquire`. -/
  | call (tenantId : Int)
  /-- A request takes its next operation. -/
  | turn (k : ℕ)

/-- One operation. -/
def step (s : State) : Act → Option State
  | .call tenantId => some { s with requests := s.requests.insert ⟨tenantId, .start⟩ }
  | .turn k => do
      let r ← s.requests.get? k
      let (l, pc) ← r.advance s.limiter
      return ⟨l, s.requests.modify k fun r => { r with pc := pc }⟩

/-! ## The semaphores -/

namespace InflightLimiter

variable {l l' : InflightLimiter} {w : Owner}

/-- The free permits of a semaphore. One that does not exist yet will be made with all of them. -/
def free (l : InflightLimiter) : Owner → ℕ
  | .global => l.global.permits
  | .tenant t =>
      match l.tenants.get? t with
      | none => l.perTenantMax
      | some s => s.permits

/-- The semaphore exists. -/
def Knows (l : InflightLimiter) : Owner → Prop
  | .global => True
  | .tenant t => (l.tenants.get? t).isSome = true

/-- The ceilings are what they were, and no semaphore is gone. -/
structure Keeps (l l' : InflightLimiter) : Prop where
  max_eq : l'.max = l.max
  perTenantMax_eq : l'.perTenantMax = l.perTenantMax
  knows : ∀ w, l.Knows w → l'.Knows w

section

variable (l : InflightLimiter)

theorem Keeps.refl : l.Keeps l := ⟨rfl, rfl, fun _ h => h⟩

theorem permits_release_empty (s : Semaphore Empty) : s.release.permits = s.permits + 1 := by
  have hnobody : s.waiters = [] := List.eq_nil_iff_forall_not_mem.2 fun x => x.elim
  rw [Semaphore.permits_release, if_pos hnobody]

theorem free_upsert (t : Int) (s : Semaphore Empty) (v : Owner) :
    free { l with tenants := l.tenants.upsert t s } v = if v = .tenant t then s.permits else l.free v := by
  cases v with
  | global => rfl
  | tenant t' =>
    by_cases ht : t' = t
    all_goals simp [free, ht]

theorem keeps_upsert (t : Int) (s : Semaphore Empty) : l.Keeps { l with tenants := l.tenants.upsert t s } := by
  refine ⟨rfl, rfl, fun v hv => ?_⟩
  cases v with
  | global => trivial
  | tenant t' =>
    show ((l.tenants.upsert t s).get? t').isSome = true
    rw [Keyed.get?_upsert]
    split
    · rfl
    · exact hv

theorem keeps_tenantSemaphore (t : Int) : l.Keeps (l.tenantSemaphore t) := by
  unfold tenantSemaphore Keyed.insertNew
  split
  · exact Keeps.refl l
  · exact l.keeps_upsert t _

theorem knows_tenantSemaphore (t : Int) : (l.tenantSemaphore t).Knows (.tenant t) := by
  show ((l.tenants.insertNew t _).get? t).isSome = true
  rw [Keyed.get?_insertNew, if_pos rfl]
  rfl

@[simp] theorem free_tenantSemaphore (t : Int) (v : Owner) : (l.tenantSemaphore t).free v = l.free v := by
  unfold tenantSemaphore Keyed.insertNew
  split
  · rfl
  next hnew =>
    have hnone : l.tenants.get? t = none := by simpa using hnew
    rw [free_upsert]
    split
    · next hv => simp [hv, free, hnone, Semaphore.new]
    · rfl

end

/-- A permit that is taken is one of the free ones of its semaphore. -/
theorem tryAcquireOwned_spec (h : l.tryAcquireOwned w = some l') :
    l.Keeps l' ∧ ∀ v, l.free v = l'.free v + if v = w then 1 else 0 := by
  cases w with
  | global =>
    obtain ⟨s, hs, rfl⟩ := map_eq_some_iff.1 h
    refine ⟨⟨rfl, rfl, fun _ hv => hv⟩, fun v => ?_⟩
    cases v with
    | global => simpa [free] using Semaphore.permits_tryAcquire hs
    | tenant t => simp [free]
  | tenant t =>
    rw [tryAcquireOwned] at h
    cases hs : l.tenants.get? t with
    | none =>
      rw [hs] at h
      cases h
    | some s =>
      rw [hs] at h
      obtain ⟨s', hs', rfl⟩ := map_eq_some_iff.1 h
      refine ⟨l.keeps_upsert t s', fun v => ?_⟩
      rw [free_upsert]
      split
      next hv =>
        subst hv
        simpa [free, hs] using Semaphore.permits_tryAcquire hs'
      · rfl

theorem free_of_refused (hw : l.Knows w) (h : l.tryAcquireOwned w = none) : l.free w = 0 := by
  have hempty : ∀ s : Semaphore Empty, s.tryAcquire = none → s.permits = 0 := by
    intro s hs
    unfold Semaphore.tryAcquire at hs
    split at hs
    · assumption
    · cases hs
  cases w with
  | global => exact hempty _ (map_eq_none_iff.1 h)
  | tenant t =>
    obtain ⟨s, hs⟩ := isSome_iff_exists.1 hw
    rw [tryAcquireOwned, hs] at h
    rw [free, hs]
    exact hempty s (map_eq_none_iff.1 h)

theorem release_spec (hw : l.Knows w) :
    l.Keeps (l.release w) ∧ ∀ v, (l.release w).free v = l.free v + if v = w then 1 else 0 := by
  cases w with
  | global =>
    refine ⟨⟨rfl, rfl, fun _ hv => hv⟩, fun v => ?_⟩
    cases v with
    | global => exact permits_release_empty l.global
    | tenant t => rfl
  | tenant t =>
    obtain ⟨s, hs⟩ := isSome_iff_exists.1 hw
    rw [release, hs]
    refine ⟨l.keeps_upsert t _, fun v => ?_⟩
    rw [free_upsert]
    split
    next hv =>
      subst hv
      simp [free, hs, permits_release_empty]
    · rfl

end InflightLimiter

/-! ## One operation of a request -/

/-- The permit a request of a tenant gets from a limiter that is not disabled. -/
def permitOf (t : Int) : Permit := ⟨.tenant t, .global⟩

/-- The semaphore of the field `_tenant`, while that permit is taken. -/
def Pc.tenantPermit : Pc → Option Owner
  | .second w | .backOut w => some w
  | .holding p => some p.tenant
  | _ => none

/-- The semaphore of the field `_global`, while that permit is taken. -/
def Pc.globalPermit : Pc → Option Owner
  | .holding p | .halfDropped p => some p.global
  | _ => none

/-- The permits of a semaphore that a request has taken and not released. -/
def Pc.held (pc : Pc) (w : Owner) : ℕ :=
  (decide (pc.tenantPermit = some w)).toNat + (decide (pc.globalPermit = some w)).toNat

/-- A request of tenant `t` uses the semaphore of `t`, which exists, and the global one. -/
def Pc.Fits (l : InflightLimiter) (t : Int) : Pc → Prop
  | .start | .refused | .finished => True
  | .first w | .second w | .backOut w => w = .tenant t ∧ l.Knows w
  | .holding p | .halfDropped p => p = permitOf t ∧ l.Knows p.tenant

theorem Pc.Fits.keeps {l l' : InflightLimiter} {t : Int} {pc : Pc} (h : pc.Fits l t) (hk : l.Keeps l') :
    pc.Fits l' t := by
  cases pc with
  | start | refused | finished => trivial
  | first w | second w | backOut w | holding p | halfDropped p => exact ⟨h.1, hk.knows _ h.2⟩

/-- What one operation of a request of tenant `t` can do, in a limiter that is not disabled. -/
inductive Advances (l : InflightLimiter) (t : Int) : Pc → InflightLimiter → Pc → Prop
  | start : Advances l t .start (l.tenantSemaphore t) (.first (.tenant t))
  | first {l' : InflightLimiter} : l.tryAcquireOwned (.tenant t) = some l' →
      Advances l t (.first (.tenant t)) l' (.second (.tenant t))
  | firstRefused : l.tryAcquireOwned (.tenant t) = none → Advances l t (.first (.tenant t)) l .refused
  | second {l' : InflightLimiter} : l.tryAcquireOwned .global = some l' →
      Advances l t (.second (.tenant t)) l' (.holding (permitOf t))
  | secondRefused : l.tryAcquireOwned .global = none →
      Advances l t (.second (.tenant t)) l (.backOut (.tenant t))
  | backOut : Advances l t (.backOut (.tenant t)) (l.release (.tenant t)) .refused
  | dropTenant : Advances l t (.holding (permitOf t)) (l.release (.tenant t)) (.halfDropped (permitOf t))
  | dropGlobal : Advances l t (.halfDropped (permitOf t)) (l.release .global) .finished

section Advance

attribute [local simp] Pc.held Pc.tenantPermit Pc.globalPermit permitOf

variable {l l' : InflightLimiter} {r : Request} {pc pc' : Pc} {t : Int}

theorem advances_of_advance (hmax : l.max ≠ 0) (hfits : r.pc.Fits l r.tenantId)
    (h : r.advance l = some (l', pc')) : Advances l r.tenantId r.pc l' pc' := by
  obtain ⟨t, pc⟩ := r
  cases pc with
  | start =>
    simp only [Request.advance, if_neg hmax, Option.some.injEq, Prod.mk.injEq] at h
    obtain ⟨rfl, rfl⟩ := h
    exact .start
  | first w =>
    obtain ⟨rfl, -⟩ : w = .tenant t ∧ _ := hfits
    simp only [Request.advance] at h
    split at h <;> cases h
    · exact .first ‹_›
    · exact .firstRefused ‹_›
  | second w =>
    obtain ⟨rfl, -⟩ : w = .tenant t ∧ _ := hfits
    simp only [Request.advance] at h
    split at h <;> cases h
    · exact .second ‹_›
    · exact .secondRefused ‹_›
  | backOut w =>
    obtain ⟨rfl, -⟩ : w = .tenant t ∧ _ := hfits
    cases h
    exact .backOut
  | holding p =>
    obtain ⟨rfl, -⟩ : p = permitOf t ∧ _ := hfits
    cases h
    exact .dropTenant
  | halfDropped p =>
    obtain ⟨rfl, -⟩ : p = permitOf t ∧ _ := hfits
    cases h
    exact .dropGlobal
  | refused | finished => exact absurd h (by simp [Request.advance])

/-- An operation moves a permit between its semaphore and the request, and leaves the request fit. -/
theorem Advances.spec (h : Advances l t pc l' pc') (hfits : pc.Fits l t) :
    l.Keeps l' ∧ pc'.Fits l' t ∧ ∀ w, l'.free w + pc'.held w = l.free w + pc.held w := by
  cases h with
  | start =>
    exact ⟨l.keeps_tenantSemaphore t, ⟨rfl, l.knows_tenantSemaphore t⟩, fun w => by
      rw [InflightLimiter.free_tenantSemaphore]; rfl⟩
  | first hs =>
    obtain ⟨hk, hfree⟩ := InflightLimiter.tryAcquireOwned_spec hs
    refine ⟨hk, ⟨rfl, hk.knows _ hfits.2⟩, fun w => ?_⟩
    rw [hfree w]
    by_cases hw : w = .tenant t
    · simp [hw]
    · simp [hw, eq_comm]
  | firstRefused => exact ⟨.refl l, trivial, fun w => rfl⟩
  | second hs =>
    obtain ⟨hk, hfree⟩ := InflightLimiter.tryAcquireOwned_spec hs
    refine ⟨hk, ⟨rfl, hk.knows _ hfits.2⟩, fun w => ?_⟩
    rw [hfree w]
    cases w with
    | global | tenant t' => simp
  | secondRefused => exact ⟨.refl l, hfits, fun w => rfl⟩
  | backOut =>
    obtain ⟨hk, hfree⟩ := InflightLimiter.release_spec hfits.2
    refine ⟨hk, trivial, fun w => ?_⟩
    rw [hfree w]
    by_cases hw : w = .tenant t
    · simp [hw]
    · simp [hw, eq_comm]
  | dropTenant =>
    obtain ⟨hk, hfree⟩ := InflightLimiter.release_spec hfits.2
    refine ⟨hk, ⟨rfl, hk.knows _ hfits.2⟩, fun w => ?_⟩
    show (l.release (permitOf t).tenant).free w + _ = _
    rw [hfree w]
    cases w with
    | global => simp
    | tenant t' =>
      by_cases ht : t = t'
      · simp [ht]
      · simp [ht, Ne.symm ht]
  | dropGlobal =>
    obtain ⟨hk, hfree⟩ := InflightLimiter.release_spec (l := l) (w := .global) trivial
    refine ⟨hk, trivial, fun w => ?_⟩
    rw [hfree w]
    cases w with
    | global | tenant t' => simp

end Advance

/-! ## Permits are conserved -/

namespace State

/-- The global permits taken and not released. -/
def globalHeld (s : State) : ℕ := s.requests.count fun r => decide (r.pc.globalPermit = some .global)

/-- The permits of a semaphore that requests have taken and not released. -/
def held (s : State) (w : Owner) : ℕ :=
  s.requests.count (fun r => decide (r.pc.tenantPermit = some w)) +
    s.requests.count (fun r => decide (r.pc.globalPermit = some w))

/-- The global permits taken for the requests of one tenant and not released. -/
def globalHeldFor (s : State) (t : Int) : ℕ :=
  s.requests.count fun r => decide (r.tenantId = t) && decide (r.pc.globalPermit = some .global)

/-- The permits of one tenant that are between the releases of their two fields. -/
def halfDropped (s : State) (t : Int) : ℕ :=
  s.requests.count fun r => decide (r.tenantId = t) && decide (r.pc = .halfDropped (permitOf t))

end State

/-- How many permits a semaphore has when nobody has taken any. -/
def capacity (max perTenantMax : ℕ) : Owner → ℕ
  | .global => max
  | .tenant _ => perTenantMax

/-- The invariant of a limiter with the ceilings `max` and `c`: requests fit, and a permit is free or taken. -/
structure Sound (max c : ℕ) (s : State) : Prop where
  max_eq : s.limiter.max = max
  perTenantMax_eq : s.limiter.perTenantMax = c
  fits : ∀ k r, s.requests.get? k = some r → r.pc.Fits s.limiter r.tenantId
  conserved : ∀ w, s.limiter.free w + s.held w = capacity max c w

variable {max c : ℕ} {s s' : State} {a : Act}

/-- What a step does: a request is made, or one takes its next operation. -/
theorem step_cases (hmax : max ≠ 0) (hs : Sound max c s) (h : step s a = some s') :
    (∃ t, a = .call t ∧ s' = { s with requests := s.requests.insert ⟨t, .start⟩ }) ∨
    (∃ k r l pc, a = .turn k ∧ s.requests.get? k = some r ∧ Advances s.limiter r.tenantId r.pc l pc ∧
      s' = ⟨l, s.requests.modify k fun r => { r with pc := pc }⟩) := by
  cases a with
  | call t => exact .inl ⟨t, rfl, (Option.some.inj h).symm⟩
  | turn k =>
    obtain ⟨r, hr, h⟩ := bind_eq_some_iff.1 h
    obtain ⟨⟨l, pc⟩, hadv, h⟩ := bind_eq_some_iff.1 h
    have hmax' : s.limiter.max ≠ 0 := hs.max_eq ▸ hmax
    exact .inr ⟨k, r, l, pc, rfl, hr, advances_of_advance hmax' (hs.fits k r hr) hadv, (Option.some.inj h).symm⟩

/-- A permit is taken, given back or kept, never lost or made. -/
theorem sound_step (hmax : max ≠ 0) (hs : Sound max c s) (h : step s a = some s') : Sound max c s' := by
  obtain ⟨t, -, rfl⟩ | ⟨k, r, l, pc, -, hr, hadv, rfl⟩ := step_cases hmax hs h
  · refine ⟨hs.max_eq, hs.perTenantMax_eq, fun k r hr => ?_, fun w => ?_⟩
    · rw [Serial.get?_insert] at hr
      split at hr
      · cases hr
        trivial
      · exact hs.fits k r hr
    · have hsum := hs.conserved w
      simpa [State.held, Serial.count_insert, Pc.tenantPermit, Pc.globalPermit] using hsum
  · obtain ⟨hkeeps, hfits, hfree⟩ := hadv.spec (hs.fits k r hr)
    refine ⟨hkeeps.max_eq.trans hs.max_eq, hkeeps.perTenantMax_eq.trans hs.perTenantMax_eq,
      fun i q hq => ?_, fun w => ?_⟩
    · rw [Serial.get?_modify] at hq
      split at hq
      next hi =>
        subst hi
        rw [hr, map_some, Option.some.injEq] at hq
        subst hq
        exact hfits
      · rw [map_id'] at hq
        exact (hs.fits i q hq).keeps hkeeps
    · have hsum := hs.conserved w
      have hmoved := hfree w
      have htenant := Serial.count_modify hr (fun r => { r with pc := pc }) fun r => decide (r.pc.tenantPermit = some w)
      have hglobal := Serial.count_modify hr (fun r => { r with pc := pc }) fun r => decide (r.pc.globalPermit = some w)
      simp only [State.held, Pc.held] at hsum hmoved htenant hglobal ⊢
      omega

/-! ## The share of one tenant -/

section Share

variable {l : InflightLimiter} {pc : Pc} {t : Int} {w : Owner}

/-- A request of another tenant, or one that holds no tenant permit, has none of `t`'s permits. -/
theorem Pc.Fits.tenantPermit (h : pc.Fits l t) (hw : pc.tenantPermit = some w) : w = .tenant t := by
  cases pc with
  | second v | backOut v => exact (Option.some.inj hw).symm.trans h.1
  | holding p =>
    have hp : p.tenant = w := Option.some.inj hw
    rw [← hp, h.1]
    rfl
  | start | first v | refused | halfDropped p | finished => cases hw

theorem Pc.Fits.globalPermit (h : pc.Fits l t) (hw : pc.globalPermit = some w) :
    w = .global ∧ (pc.tenantPermit = some (.tenant t) ∨ pc = .halfDropped (permitOf t)) := by
  cases pc with
  | holding p =>
    obtain ⟨rfl, -⟩ := h
    exact ⟨(Option.some.inj hw).symm, .inl rfl⟩
  | halfDropped p =>
    obtain ⟨rfl, -⟩ := h
    exact ⟨(Option.some.inj hw).symm, .inr rfl⟩
  | start | first v | second v | backOut v | refused | finished => cases hw

/-- A global permit taken for a tenant comes with a tenant permit, unless it is half dropped. -/
theorem Sound.globalHeldFor_le (hs : Sound max c s) (t : Int) :
    s.globalHeldFor t + s.limiter.free (.tenant t) ≤ c + s.halfDropped t := by
  have hcount : s.globalHeldFor t ≤
      s.requests.count (fun r => decide (r.pc.tenantPermit = some (.tenant t))) + s.halfDropped t := by
    apply Serial.count_le_add
    intro k r hr hp
    simp only [Bool.and_eq_true, decide_eq_true_eq] at hp ⊢
    obtain ⟨rfl, hglobal⟩ := hp
    exact ((hs.fits k r hr).globalPermit hglobal).2.imp_right fun h => ⟨rfl, h⟩
  have hsum := hs.conserved (.tenant t)
  simp only [State.held, capacity] at hsum
  omega

/-- No operation but the taking of a permit of `t` leaves fewer permits of `t` free, less those that are
    half dropped. -/
theorem Advances.halfDropped_le {l' : InflightLimiter} {t' : Int} {pc' : Pc} (h : Advances l t' pc l' pc')
    (hfits : pc.Fits l t') (hne : ¬(t' = t ∧ pc = .first (.tenant t))) :
    l.free (.tenant t) + (decide (t' = t) && decide (pc' = .halfDropped (permitOf t))).toNat ≤
      l'.free (.tenant t) + (decide (t' = t) && decide (pc = .halfDropped (permitOf t))).toNat := by
  have hmoved := (h.spec hfits).2.2 (.tenant t)
  cases h with
  | first hs =>
    have ht : t' ≠ t := by
      rintro rfl
      exact hne ⟨rfl, rfl⟩
    simp [Pc.held, Pc.tenantPermit, Pc.globalPermit, ht] at hmoved ⊢
    omega
  | start | firstRefused | second | secondRefused | backOut | dropTenant | dropGlobal =>
    by_cases ht : t' = t
    all_goals simp [Pc.held, Pc.tenantPermit, Pc.globalPermit, permitOf, ht] at hmoved ⊢ <;> omega

/-- A request of `t` comes to take a permit of `t`. -/
def triesTenant (t : Int) (s : State) : Act → Bool
  | .call _ => false
  | .turn k => (s.requests.get? k).any fun r => decide (r.tenantId = t) && decide (r.pc = .first (.tenant t))

/-- While a permit of `t` is half dropped, no request of `t` comes to take a permit of `t`. -/
def Undisturbed (t : Int) (e : Edge State Act) : Prop :=
  triesTenant t e.src e.label = true → e.src.halfDropped t = 0

instance (t : Int) (e : Edge State Act) : Decidable (Undisturbed t e) := inferInstanceAs (Decidable (_ → _))

/-- The tenant `t` has at most its share: what is half dropped is made up for by free permits of `t`. -/
structure InShare (max c : ℕ) (t : Int) (s : State) : Prop where
  sound : Sound max c s
  halfDropped_le : s.halfDropped t ≤ s.limiter.free (.tenant t)

theorem InShare.globalHeldFor_le (h : InShare max c t s) : s.globalHeldFor t ≤ c := by
  have hle := h.sound.globalHeldFor_le t
  have hhalf := h.halfDropped_le
  omega

theorem InShare.step (hI : InShare max c t s) (hmax : max ≠ 0) (h : step s a = some s')
    (hu : Undisturbed t ⟨s, a, s'⟩) : InShare max c t s' := by
  obtain ⟨hs, hle⟩ := hI
  refine ⟨sound_step hmax hs h, ?_⟩
  obtain ⟨t', -, rfl⟩ | ⟨k, r, l, pc, rfl, hr, hadv, rfl⟩ := step_cases hmax hs h
  · simpa [State.halfDropped, Serial.count_insert] using hle
  · have hcount := Serial.count_modify hr (fun r => { r with pc := pc })
      fun r => decide (r.tenantId = t) && decide (r.pc = .halfDropped (permitOf t))
    simp only [State.halfDropped] at hle ⊢
    dsimp only at hcount
    by_cases htake : r.tenantId = t ∧ r.pc = .first (.tenant t)
    · -- then nothing of `t` is half dropped, before or after
      have htries : triesTenant t s (.turn k) = true := by simp [triesTenant, hr, htake.1, htake.2]
      have hzero : s.requests.count _ = 0 := hu htries
      have hpc : pc ≠ .halfDropped (permitOf t) := by
        rintro rfl
        rw [htake.2] at hadv
        cases hadv
      simp only [hpc, decide_false, Bool.and_false, Bool.toNat_false, hzero] at hcount
      omega
    · have hmoved := hadv.halfDropped_le (hs.fits k r hr) htake
      omega

end Share

/-! ## A request of another tenant -/

/-- All requests but `k` are of tenant `t`, and `k` is not. -/
structure Lone (t : Int) (k : ℕ) (s : State) : Prop where
  others : ∀ j r, s.requests.get? j = some r → j ≠ k → r.tenantId = t
  lone : ∀ r, s.requests.get? k = some r → r.tenantId ≠ t

/-- `try_acquire` has returned `None` or is about to. -/
def Pc.failing : Pc → Bool
  | .refused | .backOut _ => true
  | _ => false

section Other

variable {t : Int} {k : ℕ} {r : Request}

theorem tenantId_step (h : step s a = some s') {j : ℕ} (hr : s.requests.get? j = some r) :
    ∃ r', s'.requests.get? j = some r' ∧ r'.tenantId = r.tenantId := by
  cases a with
  | call t =>
    cases h
    exact ⟨r, Serial.get?_insert_of_some hr _, rfl⟩
  | turn i =>
    obtain ⟨q, -, h⟩ := bind_eq_some_iff.1 h
    obtain ⟨⟨l, pc⟩, -, ⟨⟩⟩ := bind_eq_some_iff.1 h
    refine ⟨if j = i then { r with pc := pc } else r, ?_, ?_⟩
    · rw [Serial.get?_modify, hr, map_some]
    · split <;> rfl

theorem Lone.before (hl : Lone t k s') (h : step s a = some s') : Lone t k s := by
  constructor
  · intro j r hr hj
    obtain ⟨r', hr', htenant⟩ := tenantId_step h hr
    exact htenant ▸ hl.others j r' hr' hj
  · intro r hr
    obtain ⟨r', hr', htenant⟩ := tenantId_step h hr
    exact htenant ▸ hl.lone r' hr'

theorem Lone.free_tenant (hl : Lone t k s) (hs : Sound max c s) (hr : s.requests.get? k = some r)
    (hnone : r.pc.tenantPermit = none) : s.limiter.free (.tenant r.tenantId) = c := by
  have htenant : s.requests.count (fun q => decide (q.pc.tenantPermit = some (.tenant r.tenantId))) = 0 := by
    apply Serial.count_eq_zero
    intro j q hq
    rw [decide_eq_false_iff_not]
    intro hpermit
    by_cases hj : j = k
    · subst hj
      rw [hr, Option.some.injEq] at hq
      rw [← hq, hnone] at hpermit
      cases hpermit
    · have hown := Owner.tenant.inj ((hs.fits j q hq).tenantPermit hpermit)
      exact hl.lone r hr (hown.trans (hl.others j q hq hj))
  have hglobal : s.requests.count (fun q => decide (q.pc.globalPermit = some (.tenant r.tenantId))) = 0 := by
    apply Serial.count_eq_zero
    intro j q hq
    rw [decide_eq_false_iff_not]
    intro hpermit
    cases ((hs.fits j q hq).globalPermit hpermit).1
  have hsum := hs.conserved (.tenant r.tenantId)
  simp only [State.held, htenant, hglobal, capacity] at hsum
  omega

theorem Lone.free_global (hl : Lone t k s) (hs : Sound max c s) (hr : s.requests.get? k = some r)
    (hnone : r.pc.globalPermit = none) : max ≤ s.limiter.free .global + s.globalHeldFor t := by
  have htenant : s.requests.count (fun q => decide (q.pc.tenantPermit = some .global)) = 0 := by
    apply Serial.count_eq_zero
    intro j q hq
    rw [decide_eq_false_iff_not]
    intro hpermit
    cases (hs.fits j q hq).tenantPermit hpermit
  have hglobal : s.requests.count (fun q => decide (q.pc.globalPermit = some .global)) ≤ s.globalHeldFor t := by
    apply Serial.count_le_count
    intro j q hq hpermit
    rw [Bool.and_eq_true]
    refine ⟨decide_eq_true ?_, hpermit⟩
    apply hl.others j q hq
    rintro rfl
    rw [hr, Option.some.injEq] at hq
    rw [← hq, hnone] at hpermit
    cases hpermit
  have hsum := hs.conserved .global
  simp only [State.held, htenant, capacity] at hsum
  omega

/-- The lone request is not refused while the tenant of the others has fewer than all global permits. -/
theorem Lone.step (hl : Lone t k s') (hmax : max ≠ 0) (hc : 1 ≤ c) (hs : Sound max c s)
    (h : step s a = some s') (hshare : s.globalHeldFor t < max)
    (hok : ∀ r, s.requests.get? k = some r → r.pc.failing = false) :
    ∀ r, s'.requests.get? k = some r → r.pc.failing = false := by
  have hl' := hl.before h
  obtain ⟨t', -, rfl⟩ | ⟨j, q, l, pc, -, hq, hadv, rfl⟩ := step_cases hmax hs h
  · intro r hr
    rw [Serial.get?_insert] at hr
    split at hr
    · cases hr
      rfl
    · exact hok r hr
  · intro r hr
    obtain ⟨r₀, hr₀, rfl⟩ := Serial.get?_of_modify hr
    by_cases hj : k = j
    · subst hj
      cases hq.symm.trans hr₀
      rw [if_pos rfl]
      have hfits := hs.fits k q hq
      have hwas := hok q hq
      generalize hpc : q.pc = pc₀ at hadv hfits hwas
      cases hadv with
      | firstRefused hnone =>
        have hfree := hl'.free_tenant hs hq (by rw [hpc]; rfl)
        have hzero := InflightLimiter.free_of_refused hfits.2 hnone
        omega
      | secondRefused hnone =>
        have hfree := hl'.free_global hs hq (by rw [hpc]; rfl)
        have hzero := InflightLimiter.free_of_refused (l := s.limiter) (w := .global) trivial hnone
        omega
      | backOut => exact absurd hwas (by simp [Pc.failing])
      | start | first | second | dropTenant | dropGlobal => rfl
    · rw [if_neg hj]
      exact hok r₀ hr₀

end Other

/-! ## Whole runs -/

section Runs

variable {max p : ℕ} {l : InflightLimiter}

/-- A limiter that is not disabled starts with all permits free; a tenant gets at least one. -/
theorem withPerTenant_spec (hmax : 1 ≤ max) (hl : InflightLimiter.withPerTenant max p = .ok l) :
    Sound max l.perTenantMax ⟨l, .empty⟩ ∧ 1 ≤ l.perTenantMax := by
  have hmax0 : max ≠ 0 := by omega
  rw [InflightLimiter.withPerTenant, if_neg hmax0] at hl
  split at hl
  · cases hl
  · cases hl
    refine ⟨⟨rfl, rfl, fun k r hr => ?_, fun w => ?_⟩, ?_⟩
    · cases hr
    · cases w with
      | global | tenant t => rfl
    · show 1 ≤ if p = 0 then defaultPerTenantMax max else Nat.min (Nat.max p 1) max
      split
      · exact Nat.le_max_right _ _
      · exact Nat.le_min.2 ⟨Nat.le_max_right _ _, hmax⟩

variable {es : List (Edge State Act)} {u : State}

section

variable (hmax : 1 ≤ max) (hl : InflightLimiter.withPerTenant max p = .ok l) (r : Run (Fires step) ⟨l, .empty⟩ es u)

include hmax hl r

theorem sound_run : Sound max l.perTenantMax u :=
  r.invariant (withPerTenant_spec hmax hl).1 fun _ _ _ h hs => sound_step (by omega) hs h

/-- Along an undisturbed run a tenant stays within its share, and a lone request of another tenant does not
    fail while the share is less than all permits. -/
theorem share_run {t : Int} (hu : ∀ e ∈ es, Undisturbed t e) (k : ℕ) : InShare max l.perTenantMax t u ∧
      (l.perTenantMax < max → Lone t k u → ∀ q, u.requests.get? k = some q → q.pc.failing = false) := by
  have hnew : ∀ q, (Serial.empty : Serial Request).get? k = some q → q.pc.failing = false :=
    fun q hq => absurd hq (by simp)
  obtain ⟨hsound, hc⟩ := withPerTenant_spec hmax hl
  refine (r.edges_where (C := Undisturbed t)
    (I := fun s => InShare max l.perTenantMax t s ∧
      (l.perTenantMax < max → Lone t k s → ∀ q, s.requests.get? k = some q → q.pc.failing = false))
    ⟨⟨hsound, Nat.zero_le _⟩, fun _ _ => hnew⟩ ?_ hu).1
  rintro e hstep hundisturbed ⟨hshare, hok⟩
  refine ⟨hshare.step (by omega) hstep hundisturbed, fun hlt hlone => ?_⟩
  have hless : e.src.globalHeldFor t < max := hshare.globalHeldFor_le.trans_lt hlt
  exact hlone.step (by omega) hc hshare.sound hstep hless (hok hlt (hlone.before hstep))

end

/-- The limiter along every run: at most `max` global permits are taken, and every permit that is not free is
    one that a request has taken and not released, so that all are free when every request was refused or has
    dropped its permit. In a run that does not disturb the drops of a tenant's permits, the tenant has at most
    its share of the global permits; if that is less than all of them, its requests alone cannot make the first
    request of another tenant fail. -/
theorem inflight_fair (hmax : 1 ≤ max) (hl : InflightLimiter.withPerTenant max p = .ok l)
    (r : Run (Fires step) ⟨l, .empty⟩ es u) :
    u.globalHeld ≤ max ∧
    (∀ w, u.limiter.free w + u.held w = capacity max l.perTenantMax w) ∧
    ((∀ k q, u.requests.get? k = some q → q.pc = .refused ∨ q.pc = .finished) →
      ∀ w, u.limiter.free w = capacity max l.perTenantMax w) ∧
    ∀ t, (∀ e ∈ es, Undisturbed t e) →
      u.globalHeldFor t ≤ l.perTenantMax ∧
      (l.perTenantMax < max → ∀ k, Lone t k u → ∀ q, u.requests.get? k = some q → q.pc ≠ .refused) := by
  have hsound := sound_run hmax hl r
  refine ⟨?_, hsound.conserved, ?_, ?_⟩
  · have hsum := hsound.conserved .global
    simp only [State.held, capacity] at hsum
    unfold State.globalHeld
    omega
  · intro hdone w
    have hsum := hsound.conserved w
    have htenant : u.requests.count (fun q => decide (q.pc.tenantPermit = some w)) = 0 :=
      Serial.count_eq_zero fun k q hq => by rcases hdone k q hq with h | h <;> simp [h, Pc.tenantPermit]
    have hglobal : u.requests.count (fun q => decide (q.pc.globalPermit = some w)) = 0 :=
      Serial.count_eq_zero fun k q hq => by rcases hdone k q hq with h | h <;> simp [h, Pc.globalPermit]
    rwa [State.held, htenant, hglobal] at hsum
  · intro t hu
    refine ⟨(share_run hmax hl r hu 0).1.globalHeldFor_le, fun hlt k hlone q hq hrefused => ?_⟩
    have hok := (share_run hmax hl r hu k).2 hlt hlone q hq
    rw [hrefused] at hok
    cases hok

end Runs

/-- Two global permits, one for each tenant. -/
def smallLimiter : InflightLimiter := ⟨.new 2, .empty, 2, 1⟩

/-- Tenant 1 gets a permit; then tenant 2 asks for one. -/
def undisturbedActs : List Act :=
  [.call 1, .turn 1, .turn 1, .turn 1, .call 2, .turn 2, .turn 2, .turn 2]

theorem second_tenant_served :
    ∃ es u q, Run (Fires step) ⟨smallLimiter, .empty⟩ es u ∧ u.globalHeldFor 1 ≤ 1 ∧
      u.requests.get? 2 = some q ∧ q.pc ≠ .refused := by
  obtain ⟨es, u, hrun, hundisturbed, hrows⟩ : ∃ es u, Run (Fires step) ⟨smallLimiter, .empty⟩ es u ∧
      (∀ e ∈ es, Undisturbed 1 e) ∧
      u.requests.rows = [(1, ⟨1, .holding (permitOf 1)⟩), (2, ⟨2, .holding (permitOf 2)⟩)] :=
    exists_run_where undisturbedActs (by decide +kernel)
  have hget : u.requests.get? 2 = some ⟨2, .holding (permitOf 2)⟩ := by
    rw [Serial.get?, hrows]
    rfl
  have hlone : Lone 1 2 u := by
    constructor
    · intro j r hr hj
      rw [Serial.get?_eq_some_iff, hrows] at hr
      simp only [List.mem_cons, Prod.mk.injEq, List.not_mem_nil, or_false] at hr
      obtain ⟨-, rfl⟩ | ⟨h, -⟩ := hr
      · rfl
      · exact absurd h hj
    · intro r hr
      rw [hget, Option.some.injEq] at hr
      rw [← hr]
      decide
  have hlimiter : InflightLimiter.withPerTenant 2 1 = .ok smallLimiter := rfl
  obtain ⟨-, -, -, hfair⟩ := inflight_fair (by decide) hlimiter hrun
  obtain ⟨hshare, hserved⟩ := hfair 1 hundisturbed
  exact ⟨es, u, _, hrun, hshare, hget, hserved (by decide) 2 hlone _ hget⟩

/-- Tenant 1's second request takes its tenant permit while the first one's `Permit` is half dropped. -/
def disturbedActs : List Act :=
  [.call 1, .turn 1, .turn 1, .turn 1, .call 1, .turn 2, .turn 1, .turn 2, .turn 2,
    .call 2, .turn 3, .turn 3, .turn 3, .turn 3]

/-- Then tenant 1 has both global permits, and the first request of tenant 2 is refused. -/
theorem half_dropped_permit_starves :
    InflightLimiter.withPerTenant 2 1 = .ok smallLimiter ∧
    ∃ es u, Run (Fires step) ⟨smallLimiter, .empty⟩ es u ∧
      smallLimiter.perTenantMax < u.globalHeldFor 1 ∧
      u.requests.rows = [(1, ⟨1, .halfDropped (permitOf 1)⟩), (2, ⟨1, .holding (permitOf 1)⟩), (3, ⟨2, .refused⟩)] := by
  exact ⟨rfl, exists_run_where disturbedActs (by decide +kernel)⟩

end Tagsmaxxing.Backpressure
