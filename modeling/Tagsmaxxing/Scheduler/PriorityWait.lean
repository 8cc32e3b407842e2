import Tagsmaxxing.Scheduler.Backend

/-! # The priority waiter queue (`priority_wait.rs`)

Waiters of a role wait in buckets, one per priority, first in first out within a bucket. `notify` fires
the first waiter of the highest bucket whose receiver is still there, and drops the stale entries it
meets on the way.

`σ` is the type of senders; whether a sender's receiver is alive is asked of `alive`. -/

namespace Tagsmaxxing.Scheduler

open List

variable {σ : Type}

/-- `RoleWaiters`, a `BTreeMap` listed from its highest key down; a waiter is its ticket id and its
    sender. -/
structure RoleWaiters (σ : Type) where
  buckets : List (Int × List (ℕ × σ))
  descending : (buckets.map Prod.fst).Pairwise (· > ·)

namespace RoleWaiters

/-- `entry(priority).or_default().push(waiter)`. -/
def pushAt (priority : Int) (w : ℕ × σ) : List (Int × List (ℕ × σ)) → List (Int × List (ℕ × σ))
  | [] => [(priority, [w])]
  | (p, ws) :: m =>
      if p < priority then (priority, [w]) :: (p, ws) :: m
      else if p = priority then (p, ws ++ [w]) :: m
      else (p, ws) :: pushAt priority w m

section

variable (priority : Int) (w : ℕ × σ) (m : List (Int × List (ℕ × σ)))

theorem mem_keys_pushAt (p : Int) : p ∈ (pushAt priority w m).map Prod.fst ↔ p = priority ∨ p ∈ m.map Prod.fst := by
  induction m with
  | nil => simp [pushAt]
  | cons b m ih =>
    obtain ⟨k, ws⟩ := b
    simp only [pushAt]
    split
    · simp
    · split
      next h => simp [h]
      next =>
        rw [map_cons, mem_cons, ih, map_cons, mem_cons]
        exact or_left_comm

theorem pairwise_pushAt (h : (m.map Prod.fst).Pairwise (· > ·)) :
    ((pushAt priority w m).map Prod.fst).Pairwise (· > ·) := by
  induction m with
  | nil => simp [pushAt]
  | cons b m ih =>
    obtain ⟨k, ws⟩ := b
    rw [map_cons, pairwise_cons] at h
    simp only [pushAt]
    split
    next hlt =>
      rw [map_cons, pairwise_cons, map_cons, pairwise_cons]
      refine ⟨fun p hp => ?_, h⟩
      rcases mem_cons.1 hp with rfl | hp
      · exact hlt
      · exact (h.1 p hp).trans hlt
    next hge =>
      split
      · exact pairwise_cons.2 h
      next hne =>
        rw [map_cons, pairwise_cons]
        refine ⟨fun p hp => ?_, ih h.2⟩
        rcases (mem_keys_pushAt priority w m p).1 hp with rfl | hp
        · show p < k
          omega
        · exact h.1 p hp

end

/-- Append a waiter to the bucket of its priority. -/
def push (priority : Int) (w : ℕ × σ) (m : RoleWaiters σ) : RoleWaiters σ :=
  ⟨pushAt priority w m.buckets, pairwise_pushAt priority w m.buckets m.descending⟩

/-- One bucket: drop the stale waiters at its front and fire the first live one. -/
def fire (alive : σ → Bool) : List (ℕ × σ) → Option (σ × List (ℕ × σ))
  | [] => none
  | (_, tx) :: ws => if alive tx then some (tx, ws) else fire alive ws

/-- The loop of `notify`: the sender fired, if any, and the buckets left. -/
def notifyLoop (alive : σ → Bool) : List (Int × List (ℕ × σ)) → Option σ × List (Int × List (ℕ × σ))
  | [] => (none, [])
  | (p, ws) :: m =>
      match fire alive ws with
      | some (tx, ws') => (some tx, if ws'.isEmpty then m else (p, ws') :: m)
      | none => notifyLoop alive m

theorem sublist_keys_notifyLoop (alive : σ → Bool) (m : List (Int × List (ℕ × σ))) :
    ((notifyLoop alive m).2.map Prod.fst).Sublist (m.map Prod.fst) := by
  induction m with
  | nil => exact .refl _
  | cons b m ih =>
    simp only [notifyLoop]
    split
    · split
      · exact sublist_cons_self _ _
      · exact .refl _
    · exact ih.cons _

/-- `notify`, on the waiters of its role. -/
def notify (alive : σ → Bool) (m : RoleWaiters σ) : Option σ × RoleWaiters σ :=
  ((notifyLoop alive m.buckets).1,
    ⟨(notifyLoop alive m.buckets).2, m.descending.sublist (sublist_keys_notifyLoop alive m.buckets)⟩)

/-! ## Who is registered -/

/-- All senders of a list of buckets. -/
def sendersOf (m : List (Int × List (ℕ × σ))) : List σ := m.flatMap fun b => b.2.map Prod.snd

/-- All senders. -/
def senders (m : RoleWaiters σ) : List σ := sendersOf m.buckets

/-- The waiters of a list of buckets, each with its priority, in the order `notify` meets them. -/
def entriesOf (m : List (Int × List (ℕ × σ))) : List (Int × σ) := m.flatMap fun b => b.2.map fun w => (b.1, w.2)

def entries (m : RoleWaiters σ) : List (Int × σ) := entriesOf m.buckets

theorem entriesOf_cons (p : Int) (ws : List (ℕ × σ)) (m : List (Int × List (ℕ × σ))) :
    entriesOf ((p, ws) :: m) = (ws.map fun w => (p, w.2)) ++ entriesOf m := rfl

variable {m : List (Int × List (ℕ × σ))} {alive : σ → Bool} {ws : List (ℕ × σ)}

theorem key_mem_of_mem_entriesOf {e : Int × σ} (h : e ∈ entriesOf m) : e.1 ∈ m.map Prod.fst := by
  obtain ⟨b, hb, he⟩ := mem_flatMap.1 h
  obtain ⟨w, -, rfl⟩ := mem_map.1 he
  exact mem_map.2 ⟨b, hb, rfl⟩

/-- A new waiter goes behind those of its priority or a higher one, and before the others. -/
theorem entriesOf_pushAt (p : Int) (w : ℕ × σ) (h : (m.map Prod.fst).Pairwise (· > ·)) :
    ∃ before after, entriesOf m = before ++ after ∧ entriesOf (pushAt p w m) = before ++ (p, w.2) :: after ∧
      (∀ e ∈ before, p ≤ e.1) ∧ ∀ e ∈ after, e.1 < p := by
  induction m with
  | nil => exact ⟨[], [], rfl, rfl, by simp, by simp⟩
  | cons b m ih =>
    obtain ⟨k, ws⟩ := b
    rw [map_cons, pairwise_cons] at h
    have hbucket : ∀ e ∈ ws.map fun w => (k, w.2), e.1 = k := by
      intro e he
      obtain ⟨x, -, rfl⟩ := mem_map.1 he
      rfl
    have hbelow : ∀ e ∈ entriesOf m, e.1 < k := fun e he => h.1 e.1 (key_mem_of_mem_entriesOf he)
    rw [pushAt]
    split_ifs with hlt heq
    · -- a bucket of its own, above all that are left
      refine ⟨[], entriesOf ((k, ws) :: m), rfl, rfl, by simp, fun e he => ?_⟩
      rw [entriesOf_cons, mem_append] at he
      rcases he with he | he
      · exact (hbucket e he).trans_lt hlt
      · exact (hbelow e he).trans hlt
    · subst heq
      refine ⟨ws.map fun w => (k, w.2), entriesOf m, rfl, ?_, fun e he => (hbucket e he).ge, hbelow⟩
      rw [entriesOf_cons, map_append, append_assoc]
      rfl
    · obtain ⟨before, after, hm, hpush, hbefore, hafter⟩ := ih h.2
      refine ⟨(ws.map fun w => (k, w.2)) ++ before, after, ?_, ?_, fun e he => ?_, hafter⟩
      · rw [entriesOf_cons, hm, append_assoc]
      · rw [entriesOf_cons, hpush, append_assoc]
      · rcases mem_append.1 he with he | he
        · rw [hbucket e he]
          omega
        · exact hbefore e he

/-- `Cuts alive ws fired rest`: of the waiters `ws` in their order, those before the first live one are removed,
    that one is fired, and `rest` is left; without a live one all are removed. -/
inductive Cuts (alive : σ → Bool) : List (Int × σ) → Option σ → List (Int × σ) → Prop
  | fired {dead rest : List (Int × σ)} {p : Int} {tx : σ} : (∀ e ∈ dead, alive e.2 = false) →
      alive tx = true → Cuts alive (dead ++ (p, tx) :: rest) (some tx) rest
  | nobody {dead : List (Int × σ)} : (∀ e ∈ dead, alive e.2 = false) → Cuts alive dead none []

theorem Cuts.dead_append {dead ws rest : List (Int × σ)} {fired : Option σ}
    (h : Cuts alive ws fired rest) (hdead : ∀ e ∈ dead, alive e.2 = false) :
    Cuts alive (dead ++ ws) fired rest := by
  cases h with
  | fired hd hlive =>
    rw [← append_assoc]
    exact .fired (forall_mem_append.2 ⟨hdead, hd⟩) hlive
  | nobody hd => exact .nobody (forall_mem_append.2 ⟨hdead, hd⟩)

theorem Cuts.append {ws rest : List (Int × σ)} {tx : σ} (h : Cuts alive ws (some tx) rest)
    (ws' : List (Int × σ)) : Cuts alive (ws ++ ws') (some tx) (rest ++ ws') := by
  cases h with
  | fired hd hlive =>
    rw [append_assoc]
    exact .fired hd hlive

/-- One bucket is cut after its first live waiter. -/
theorem cuts_of_fire (p : Int) {ws' : List (ℕ × σ)} {tx : σ} (h : fire alive ws = some (tx, ws')) :
    Cuts alive (ws.map fun w => (p, w.2)) (some tx) (ws'.map fun w => (p, w.2)) := by
  induction ws with
  | nil => cases h
  | cons w ws ih =>
    rw [fire] at h
    split_ifs at h with hw
    · obtain ⟨rfl, rfl⟩ := Prod.mk.inj (Option.some.inj h)
      have hfirst : Cuts alive ([] ++ (p, w.2) :: ws.map fun w => (p, w.2)) (some w.2)
          (ws.map fun w => (p, w.2)) := .fired (forall_mem_nil _) hw
      exact hfirst
    · have hstale : ∀ e ∈ [(p, w.2)], alive e.2 = false := by simpa using hw
      exact (ih h).dead_append hstale

theorem dead_of_fire (p : Int) (h : fire alive ws = none) : ∀ e ∈ ws.map fun w => (p, w.2), alive e.2 = false := by
  induction ws with
  | nil => simp
  | cons w ws ih =>
    rw [fire] at h
    split_ifs at h with hw
    exact forall_mem_cons.2 ⟨Bool.eq_false_iff.2 hw, ih h⟩

theorem entriesOf_notifyLoop (alive : σ → Bool) (m : List (Int × List (ℕ × σ))) :
    Cuts alive (entriesOf m) (notifyLoop alive m).1 (entriesOf (notifyLoop alive m).2) := by
  induction m with
  | nil => exact .nobody (by simp [entriesOf])
  | cons b m ih =>
    obtain ⟨p, ws⟩ := b
    rw [notifyLoop, entriesOf_cons]
    split
    next tx ws' hfire =>
      have hrest : entriesOf (if ws'.isEmpty then m else (p, ws') :: m) =
          (ws'.map fun w => (p, w.2)) ++ entriesOf m := by
        split_ifs with hempty
        · rw [List.isEmpty_iff.1 hempty]
          rfl
        · rfl
      rw [hrest]
      exact (cuts_of_fire p hfire).append _
    next hfire => exact ih.dead_append (dead_of_fire p hfire)

theorem sendersOf_eq (m : List (Int × List (ℕ × σ))) : sendersOf m = (entriesOf m).map Prod.snd := by
  simp [sendersOf, entriesOf, map_flatMap, Function.comp_def]

theorem mem_senders_push (priority : Int) (id : ℕ) (tx : σ) (m : RoleWaiters σ) (x : σ) :
    x ∈ (m.push priority (id, tx)).senders ↔ x = tx ∨ x ∈ m.senders := by
  obtain ⟨before, after, hm, hpush, -⟩ := entriesOf_pushAt priority (id, tx) m.descending
  show x ∈ sendersOf (pushAt priority (id, tx) m.buckets) ↔ x = tx ∨ x ∈ sendersOf m.buckets
  rw [sendersOf_eq, sendersOf_eq, hm, hpush]
  simp [or_left_comm]

/-- `notify` on the senders: it fires a live one, and drops only the one it fires and dead ones. -/
theorem Cuts.senders {ws rest : List (Int × σ)} {fired : Option σ} (h : Cuts alive ws fired rest) :
    (∀ tx, fired = some tx → alive tx = true ∧ tx ∈ ws.map Prod.snd) ∧
      (fired = none → ∀ x ∈ ws.map Prod.snd, alive x = false) ∧
      (∀ x ∈ rest.map Prod.snd, x ∈ ws.map Prod.snd) ∧
      ∀ x ∈ ws.map Prod.snd, alive x = true → fired = some x ∨ x ∈ rest.map Prod.snd := by
  cases h with
  | @fired dead rest p tx hdead hlive =>
    have hdead : ∀ x ∈ dead.map Prod.snd, alive x = false := forall_mem_map.2 hdead
    simp only [map_append, map_cons, mem_append, mem_cons]
    refine ⟨?_, by simp, fun x hx => .inr (.inr hx), fun x hx halive => ?_⟩
    · rintro _ ⟨⟩
      exact ⟨hlive, .inr (.inl rfl)⟩
    · rcases hx with hx | rfl | hx
      · exact absurd halive (by simp [hdead x hx])
      · exact .inl rfl
      · exact .inr hx
  | nobody hdead =>
    have hdead : ∀ x ∈ ws.map Prod.snd, alive x = false := forall_mem_map.2 hdead
    exact ⟨by simp, fun _ => hdead, by simp, fun x hx halive => absurd halive (by simp [hdead x hx])⟩

end RoleWaiters

/-! ## All roles -/

/-- `Inner` of `PriorityWaiterQueue`. -/
structure WaiterQueue (σ : Type) where
  nextId : ℕ
  byRole : Role → RoleWaiters σ

namespace WaiterQueue

/-- `PriorityWaiterQueue::new`. -/
def new : WaiterQueue σ := ⟨0, fun _ => ⟨[], .nil⟩⟩

/-- `PriorityWaiterQueue::register`, for a sender made beforehand. -/
def register (role : Role) (priority : Int) (tx : σ) (q : WaiterQueue σ) : WaiterQueue σ where
  nextId := (q.nextId + 1) % 2 ^ 64
  byRole := Function.update q.byRole role ((q.byRole role).push priority (q.nextId, tx))

/-- `PriorityWaiterQueue::notify`: the sender fired, if any. -/
def notify (alive : σ → Bool) (role : Role) (q : WaiterQueue σ) : Option σ × WaiterQueue σ :=
  (((q.byRole role).notify alive).1,
    { q with byRole := Function.update q.byRole role ((q.byRole role).notify alive).2 })

/-- The senders registered for a role. -/
def senders (q : WaiterQueue σ) (role : Role) : List σ := (q.byRole role).senders

theorem mem_senders_register (role r : Role) (priority : Int) (tx x : σ) (q : WaiterQueue σ) :
    x ∈ (q.register role priority tx).senders r ↔ r = role ∧ x = tx ∨ x ∈ q.senders r := by
  unfold senders register
  by_cases h : r = role
  · subst h
    simp [RoleWaiters.mem_senders_push]
  · simp [h]

variable {r role : Role} (alive : σ → Bool)

theorem senders_notify_of_ne (h : r ≠ role) (q : WaiterQueue σ) : (q.notify alive role).2.senders r = q.senders r := by
  simp [senders, notify, h]

/-- What `notify` does to the waiters of its role. -/
theorem cuts_notify (role : Role) (q : WaiterQueue σ) :
    RoleWaiters.Cuts alive (q.byRole role).entries (q.notify alive role).1
      ((q.notify alive role).2.byRole role).entries := by
  have hcut := RoleWaiters.entriesOf_notifyLoop alive (q.byRole role).buckets
  simpa [notify, RoleWaiters.entries, RoleWaiters.notify] using hcut

theorem senders_eq (q : WaiterQueue σ) (role : Role) : q.senders role = (q.byRole role).entries.map Prod.snd :=
  RoleWaiters.sendersOf_eq _

theorem mem_of_mem_notify (role r : Role) (q : WaiterQueue σ) (x : σ) (hx : x ∈ (q.notify alive role).2.senders r) :
    x ∈ q.senders r := by
  by_cases h : r = role
  · subst h
    rw [senders_eq] at hx ⊢
    exact (cuts_notify alive r q).senders.2.2.1 x hx
  · rwa [senders_notify_of_ne alive h] at hx

variable {q : WaiterQueue σ} {alive : σ → Bool}

theorem fired_spec {tx : σ} (h : (q.notify alive role).1 = some tx) : alive tx = true ∧ tx ∈ q.senders role := by
  rw [senders_eq]
  exact (cuts_notify alive role q).senders.1 tx h

/-- A live registered waiter of any role is fired or stays registered. -/
theorem fired_or_kept (role : Role) {x : σ} (hx : x ∈ q.senders r) (halive : alive x = true) :
    (q.notify alive role).1 = some x ∨ x ∈ (q.notify alive role).2.senders r := by
  by_cases hr : r = role
  · subst hr
    rw [senders_eq] at hx ⊢
    exact (cuts_notify alive r q).senders.2.2.2 x hx halive
  · exact .inr (by rwa [senders_notify_of_ne alive hr])

/-- Nobody is fired only if nobody live is registered for the role. -/
theorem not_alive_of_notify (h : (q.notify alive role).1 = none) : ∀ x ∈ q.senders role, alive x = false := by
  rw [senders_eq]
  exact (cuts_notify alive role q).senders.2.1 h

end WaiterQueue

end Tagsmaxxing.Scheduler
