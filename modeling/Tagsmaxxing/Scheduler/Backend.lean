import Mathlib.Data.Finset.Insert
import Mathlib.Data.Fintype.Defs
import Mathlib.Data.List.Rotate
import Tagsmaxxing.Scheduler.Capacity

/-! # Backends and routing (`backend.rs`, `time_window.rs`, `bandwidth.rs`, `routing.rs`)

A backend has a part that never changes once it is built (`Backend`, shared by `Arc`) and a part that
the health loop, the client and the administrator change under the readers (`Live`). The pool holds
references to backends, so that two versions of one configured backend are two references.

`ready` is the eligibility test both acquire paths make before the residency filter, and
`orderByStrategy` orders a tier's candidates. -/

namespace Tagsmaxxing.Scheduler

open List

/-! ## Enumerations -/

inductive Role
  | text | vision | code | embed | rerank
deriving DecidableEq

instance : Fintype Role := ⟨{.text, .vision, .code, .embed, .rerank}, fun r => by cases r <;> decide⟩

inductive DataClass
  | local | remote
deriving DecidableEq

inductive RoutingStrategy
  | leastLoaded | roundRobin | costAsc | priority
deriving DecidableEq

/-! ## Backends -/

structure Pricing where
  inputPerMtok : ℚ
  outputPerMtok : ℚ

/-- The immutable fields of `Backend` that acquiring reads. -/
structure Backend where
  id : String
  endpoint : Option String
  pricing : Option Pricing
  dataClass : DataClass
  priority : UInt8

structure TimeWindow where
  hourRanges : List (UInt8 × UInt8)
  daysOfWeek : List UInt8

/-- A reading of the clocks: monotonic seconds, and the local hour and weekday (0 is Monday). -/
structure Clock where
  now : Time
  hour : UInt8
  weekday : UInt8

def TimeWindow.isActive (w : TimeWindow) (clock : Clock) : Bool :=
  (w.daysOfWeek.isEmpty || w.daysOfWeek.contains clock.weekday) &&
    (w.hourRanges.isEmpty || w.hourRanges.any fun r => r.1 ≤ clock.hour && clock.hour < r.2)

/-- The fields of `Backend` that change in place; the bandwidth limiter is its bucket of bytes. -/
structure Live where
  healthy : Bool
  cooldownUntil : Option Time
  timeWindow : Option TimeWindow
  bandwidthLimiter : Option TokenBucket

/-- `Backend::cooldown_active`. -/
def Live.cooldownActive (l : Live) (clock : Clock) : Bool :=
  l.cooldownUntil.any fun t => clock.now < t

/-- `Backend::is_in_time_window`. -/
def Live.isInTimeWindow (l : Live) (clock : Clock) : Bool :=
  l.timeWindow.all fun w => w.isActive clock

/-- `Backend::bandwidth_available`: at least `MIN_BYTES_THRESHOLD` in the bucket. -/
def Live.bandwidthAvailable (l : Live) (clock : Clock) : Bool :=
  l.bandwidthLimiter.all fun bucket => decide (1000000 ≤ (bucket.available clock.now).1)

/-- The filters before residency, in the order of the source; the capacity comes back because
    `is_usable` refills its bucket. -/
def ready (clock : Clock) (b : Backend) (live : Live) (cap : Capacity) : Bool × Capacity :=
  if live.healthy && !live.cooldownActive clock then
    let usable := cap.isUsable clock.now
    (usable.1 && b.endpoint.isSome && live.isInTimeWindow clock && live.bandwidthAvailable clock,
      usable.2)
  else (false, cap)

@[simp] theorem sem_ready (clock : Clock) (b : Backend) (live : Live) (cap : Capacity) :
    (ready clock b live cap).2.sem = cap.sem := by
  unfold ready
  split <;> simp

/-- The residency filter of the legacy path. -/
def legacyResident (localOnly : Bool) (b : Backend) : Bool := !localOnly || b.dataClass == .local

/-- The residency filter of the tiered path. -/
def tieredResident (localOnly : Bool) (b : Backend) : Bool := !(localOnly && b.dataClass == .remote)

/-! ## The routing table -/

/-- What acquiring reads of a `RoutingEntry`: the strategy and `model.id`. -/
structure RoutingEntry where
  strategy : RoutingStrategy
  modelId : Int

/-- The tiers of each tenant and role. -/
structure RoutingTable where
  entries : List ((Option Int × Role) × List (List RoutingEntry))

def RoutingTable.tiersFor (t : RoutingTable) (tenantId : Option Int) (role : Role) : List (List RoutingEntry) :=
  match t.entries.lookup (tenantId, role) with
  | some tiers => tiers
  | none => (t.entries.lookup (none, role)).getD []

def dbBackendKey (modelId : Int) : String := "db:" ++ toString modelId

/-! ## Ordering candidates -/

/-- A shared backend. -/
abbrev Ref := ℕ

/-- The conversion `as u64` of a non-negative price; a negative one saturates at zero. -/
def orderedCost (p : Pricing) : ℕ :=
  min (⌊(p.inputPerMtok + p.outputPerMtok) * 1000000⌋.toNat) (2 ^ 64 - 1)

def roleToRrKey : Role → ℕ
  | .text => 0b00001
  | .vision => 0b00010
  | .code => 0b00100
  | .embed => 0b01000
  | .rerank => 0b10000

/-- `slice::sort_by_key`, a stable sort. -/
def sortByKey (key : Ref → ℕ) (refs : List Ref) : List Ref :=
  refs.insertionSort fun a b => key a ≤ key b

/-- The ordered candidates and the round-robin counter it leaves. The sort reads
    `free` of each candidate while other calls run, so the counts it sees are an argument. -/
def orderByStrategy (backend : Ref → Backend) (strategy : RoutingStrategy) (free : Ref → ℕ)
    (counter : ℕ) (refs : List Ref) : List Ref × ℕ :=
  match strategy with
  | .leastLoaded => (refs.insertionSort fun a b => free b ≤ free a, counter)
  | .roundRobin =>
      if 1 < refs.length then (refs.rotate (counter % refs.length), (counter + 1) % 2 ^ 64)
      else (refs, counter)
  | .costAsc => (sortByKey (fun b => ((backend b).pricing.map orderedCost).getD 0) refs, counter)
  | .priority => (refs, counter)

/-- The sort of `acquire_legacy`: by priority, then by most free slots. -/
def orderByPriority (backend : Ref → Backend) (free : Ref → ℕ) (refs : List Ref) : List Ref :=
  refs.insertionSort fun a b =>
    (backend a).priority < (backend b).priority ∨
      (backend a).priority = (backend b).priority ∧ free b ≤ free a

variable (backend : Ref → Backend)

theorem orderByStrategy_perm (strategy : RoutingStrategy) (free : Ref → ℕ) (counter : ℕ) (refs : List Ref) :
    (orderByStrategy backend strategy free counter refs).1.Perm refs := by
  cases strategy with
  | leastLoaded | costAsc => exact perm_insertionSort _ refs
  | roundRobin =>
    show (if 1 < refs.length then _ else _ : List Ref × ℕ).1.Perm refs
    split
    · exact rotate_perm refs _
    · exact .refl refs
  | priority => exact .refl refs

theorem orderByPriority_perm (free : Ref → ℕ) (refs : List Ref) : (orderByPriority backend free refs).Perm refs :=
  perm_insertionSort _ refs

/-! ## Calls that share the counters -/

/-- A call of `order_by_strategy`. -/
structure OrderCall where
  role : Role
  tierIndex : ℕ
  strategy : RoutingStrategy
  free : Ref → ℕ
  refs : List Ref

/-- A key of `rr_counters`. -/
def OrderCall.key (call : OrderCall) : ℕ × ℕ := (roleToRrKey call.role, call.tierIndex)

/-- The candidate that each call for one role and tier puts first, with calls for others in between. -/
def firsts (backend : Ref → Backend) (role : Role) (tierIndex : ℕ) (counters : ℕ × ℕ → ℕ) :
    List OrderCall → List (Option Ref)
  | [] => []
  | call :: calls =>
      let ordered := orderByStrategy backend call.strategy call.free (counters call.key) call.refs
      let rest := firsts backend role tierIndex (Function.update counters call.key ordered.2) calls
      if call.role = role ∧ call.tierIndex = tierIndex then ordered.1.head? :: rest else rest

/-- A permutation in the order of `le` that keeps whatever is in this order already. -/
def StablySorted (le : Ref → Ref → Prop) (refs sorted : List Ref) : Prop :=
  sorted.Perm refs ∧ sorted.Pairwise le ∧ ∀ c : List Ref, c.Sublist refs → c.Pairwise le → c.Sublist sorted

theorem stablySorted_insertionSort (le : Ref → Ref → Prop) [DecidableRel le] [Std.Total le] [IsTrans Ref le]
    (refs : List Ref) : StablySorted le refs (refs.insertionSort le) :=
  ⟨perm_insertionSort _ refs, pairwise_insertionSort _ refs, fun _ hsub hle =>
    sublist_insertionSort hle hsub⟩

theorem roleToRrKey_injective : Function.Injective roleToRrKey := by
  intro a b h
  cases a <;> cases b <;> first | rfl | cases h

theorem firsts_eq {role : Role} {tierIndex : ℕ} {refs : List Ref} (hk : 1 < refs.length)
    {calls : List OrderCall} (hsame : ∀ call ∈ calls, call.role = role ∧ call.tierIndex = tierIndex →
      call.strategy = .roundRobin ∧ call.refs = refs) {counters : ℕ × ℕ → ℕ} {n : ℕ}
    (hn : calls.countP (fun call => call.role = role ∧ call.tierIndex = tierIndex) = n)
    (hwrap : counters (roleToRrKey role, tierIndex) + n < 2 ^ 64) :
    firsts backend role tierIndex counters calls =
      (range n).map fun i => refs[(counters (roleToRrKey role, tierIndex) + i) % refs.length]? := by
  induction calls generalizing counters n with
  | nil =>
    subst hn
    rfl
  | cons call calls ih =>
    obtain ⟨hcall, hcalls⟩ := forall_mem_cons.1 hsame
    rw [firsts]
    by_cases hkey : call.role = role ∧ call.tierIndex = tierIndex
    · obtain ⟨hstrategy, hrefs⟩ := hcall hkey
      have hcount : call.key = (roleToRrKey role, tierIndex) := by rw [OrderCall.key, hkey.1, hkey.2]
      rw [countP_cons_of_pos (by simpa using hkey)] at hn
      subst hn
      have hordered : orderByStrategy backend call.strategy call.free (counters call.key) call.refs =
          (refs.rotate (counters call.key % refs.length), counters call.key + 1) := by
        have hlt : counters call.key + 1 < 2 ^ 64 := by
          rw [hcount]
          omega
        rw [hstrategy, hrefs, orderByStrategy, if_pos hk, Nat.mod_eq_of_lt hlt]
      rw [if_pos hkey, hordered, hcount, ih hcalls rfl (by rw [Function.update_self]; omega), Function.update_self,
        range_succ_eq_map, map_cons, map_map, head?_rotate (Nat.mod_lt _ (by omega))]
      simp only [Function.comp_def, Nat.add_zero, Nat.succ_eq_add_one, Nat.add_assoc, Nat.add_comm 1]
    · have hne : (roleToRrKey role, tierIndex) ≠ call.key := by
        rintro h
        rw [OrderCall.key, Prod.mk.injEq] at h
        exact hkey ⟨(roleToRrKey_injective h.1).symm, h.2.symm⟩
      rw [countP_cons_of_neg (by simpa using hkey)] at hn
      rw [if_neg hkey, ih hcalls hn (by rwa [Function.update_of_ne hne]), Function.update_of_ne hne]

/-- **Candidate ordering.** Each strategy permutes its candidates: by most free slots or by cost as a stable sort, by
    priority as they come, and in turn as a rotation, where `k` calls of one role and tier over the same `k` candidates
    put each of them first once, whatever calls for others come between. -/
theorem orderByStrategy_spec (backend : Ref → Backend) (free : Ref → ℕ) (counter : ℕ) (refs : List Ref) :
    (∀ strategy, (orderByStrategy backend strategy free counter refs).1.Perm refs) ∧
    StablySorted (fun a b => free b ≤ free a) refs (orderByStrategy backend .leastLoaded free counter refs).1 ∧
    StablySorted (fun a b =>
        ((backend a).pricing.map orderedCost).getD 0 ≤ ((backend b).pricing.map orderedCost).getD 0)
      refs (orderByStrategy backend .costAsc free counter refs).1 ∧
    (orderByStrategy backend .priority free counter refs).1 = refs ∧
    (∃ n, (orderByStrategy backend .roundRobin free counter refs).1 = refs.rotate n) ∧
    ∀ role tierIndex (counters : ℕ × ℕ → ℕ) (calls : List OrderCall), 2 ≤ refs.length →
      (∀ call ∈ calls, call.role = role ∧ call.tierIndex = tierIndex →
        call.strategy = .roundRobin ∧ call.refs = refs) →
      calls.countP (fun call => call.role = role ∧ call.tierIndex = tierIndex) = refs.length →
      counters (roleToRrKey role, tierIndex) + refs.length < 2 ^ 64 →
      (firsts backend role tierIndex counters calls).Perm (refs.map some) := by
  refine ⟨fun strategy => orderByStrategy_perm backend strategy free counter refs, stablySorted_insertionSort _ refs,
    stablySorted_insertionSort _ refs, rfl, ?_, ?_⟩
  · rw [orderByStrategy]
    split
    · exact ⟨_, rfl⟩
    · exact ⟨0, refs.rotate_zero.symm⟩
  · intro role tierIndex counters calls hk hsame hcount hwrap
    have hfirsts := firsts_eq backend hk hsame hcount hwrap
    have hrotate : firsts backend role tierIndex counters calls =
        (refs.rotate (counters (roleToRrKey role, tierIndex))).map some := by
      rw [hfirsts]
      refine ext_getElem (by simp) fun i hi _ => ?_
      simp [getElem_rotate, Nat.add_comm i, getElem?_eq_getElem (Nat.mod_lt _ (Nat.zero_lt_of_lt hk))]
    rw [hrotate]
    exact (refs.rotate_perm _).map some

/-- A call for another role comes between two calls over the same candidates. -/
example : firsts (fun _ => ⟨"llm", none, none, .local, 0⟩) .text 0 (fun _ => 1)
    [⟨.text, 0, .roundRobin, fun _ => 1, [5, 6]⟩, ⟨.embed, 0, .roundRobin, fun _ => 1, [7, 8]⟩,
      ⟨.text, 0, .roundRobin, fun _ => 1, [5, 6]⟩] = [some 6, some 5] := by
  decide +kernel

end Tagsmaxxing.Scheduler
