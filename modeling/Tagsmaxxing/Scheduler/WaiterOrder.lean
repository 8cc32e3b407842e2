import Tagsmaxxing.Lib.Run
import Tagsmaxxing.Scheduler.PriorityWait

/-! # Who is woken (`priority_wait.rs`)

`PriorityWait` has the queue and what one call does to the set of its senders. Here the queue runs: callers
register, drop their tickets and are notified, in any order. A ticket is numbered by its registration, and
its number is its sender. Read from the highest bucket down and each bucket from its front, the waiters of a
role are in the order of priority and then of registration (`Inv.ordered`); `notify` cuts this list after the
first waiter that is still there (`entriesOf_notifyLoop`). -/

namespace Tagsmaxxing.Scheduler

open List Transition

/-! ## Runs of the queue -/

namespace WaiterOrder

/-- The queue, the role and the priority of every ticket handed out, and the tickets that were dropped. -/
structure State where
  queue : WaiterQueue ℕ
  tickets : List (Role × Int)
  dropped : List ℕ

inductive Op
  | register (role : Role) (priority : Int)
  | dropTicket (ticket : ℕ)
  | notify (role : Role)

def start : State := ⟨.new, [], []⟩

/-- Whether the receiver of a ticket is still there. -/
def State.alive (s : State) (ticket : ℕ) : Bool := !s.dropped.contains ticket

/-- A call of `notify` from this state. -/
def State.notify (s : State) (role : Role) : Option ℕ × WaiterQueue ℕ := s.queue.notify s.alive role

def step (s : State) : Op → State
  | .register role priority =>
      { s with
        queue := s.queue.register role priority s.tickets.length
        tickets := s.tickets ++ [(role, priority)] }
  | .dropTicket ticket => { s with dropped := ticket :: s.dropped }
  | .notify role => { s with queue := (s.notify role).2 }

def Steps (s : State) (op : Op) (t : State) : Prop := step s op = t

/-- The ticket a step wakes. -/
def wakes (e : Edge State Op) : Option ℕ :=
  match e.label with
  | .notify role => (e.src.notify role).1
  | .register _ _ | .dropTicket _ => none

/-- The tickets woken over a history. -/
def woken (es : List (Edge State Op)) : List ℕ := es.filterMap wakes

/-- The waiters of a role with their priorities, as `notify` goes through them. -/
def State.waiters (s : State) (role : Role) : List (Int × ℕ) := (s.queue.byRole role).entries

/-- A ticket of the role that is neither dropped nor woken. -/
structure Live (es : List (Edge State Op)) (s : State) (role : Role) (priority : Int) (ticket : ℕ) : Prop where
  registered : s.tickets[ticket]? = some (role, priority)
  alive : s.alive ticket = true
  waiting : ticket ∉ woken es

/-! ## What one call does -/

variable {es : List (Edge State Op)} {s : State} {role r : Role}

theorem waiters_register_of_ne (h : r ≠ role) (s : State) (priority : Int) :
    (step s (.register role priority)).waiters r = s.waiters r := by
  simp [State.waiters, step, WaiterQueue.register, h]

theorem waiters_register_self (s : State) (role : Role) (priority : Int) :
    ∃ before after, s.waiters role = before ++ after ∧
      (step s (.register role priority)).waiters role = before ++ (priority, s.tickets.length) :: after ∧
      (∀ e ∈ before, priority ≤ e.1) ∧ ∀ e ∈ after, e.1 < priority := by
  obtain ⟨before, after, hm, hpush, hbefore, hafter⟩ :=
    RoleWaiters.entriesOf_pushAt priority (s.queue.nextId, s.tickets.length) (s.queue.byRole role).descending
  refine ⟨before, after, hm, ?_, hbefore, hafter⟩
  rw [← hpush]
  simp [State.waiters, step, WaiterQueue.register, RoleWaiters.entries, RoleWaiters.push]

theorem waiters_notify_of_ne (h : r ≠ role) (s : State) : (step s (.notify role)).waiters r = s.waiters r := by
  simp [State.waiters, step, State.notify, WaiterQueue.notify, h]

theorem cuts_notify (s : State) (role : Role) :
    RoleWaiters.Cuts s.alive (s.waiters role) (s.notify role).1 ((step s (.notify role)).waiters role) :=
  s.queue.cuts_notify s.alive role

theorem woken_concat (es : List (Edge State Op)) (e : Edge State Op) :
    woken (es ++ [e]) = woken es ++ (wakes e).toList := by
  rw [woken, filterMap_append]
  cases h : wakes e with
  | none | some i => simp [woken, h]

/-- Higher priorities first, and earlier tickets within one. -/
def Before (a b : Int × ℕ) : Prop := b.1 < a.1 ∨ a.1 = b.1 ∧ a.2 < b.2

/-- What holds after every history. -/
structure Inv (es : List (Edge State Op)) (s : State) : Prop where
  ordered : ∀ role, (s.waiters role).Pairwise Before
  registered : ∀ role e, e ∈ s.waiters role → s.tickets[e.2]? = some (role, e.1) ∧ e.2 ∉ woken es
  kept : ∀ role p i, Live es s role p i → (p, i) ∈ s.waiters role
  woken_nodup : (woken es).Nodup
  woken_lt : ∀ i ∈ woken es, i < s.tickets.length

variable {e : Int × ℕ}

theorem Inv.lt (h : Inv es s) (he : e ∈ s.waiters role) : e.2 < s.tickets.length := by
  obtain ⟨hlt, -⟩ := List.getElem?_eq_some_iff.1 (h.registered role e he).1
  exact hlt

theorem inv_start : Inv [] start where
  ordered _ := List.Pairwise.nil
  registered _ _ he := absurd he not_mem_nil
  kept _ _ i h := absurd h.registered (by simp [start])
  woken_nodup := nodup_nil
  woken_lt _ hi := absurd hi not_mem_nil

theorem Inv.dropTicket (h : Inv es s) (ticket : ℕ) :
    Inv (es ++ [⟨s, .dropTicket ticket, step s (.dropTicket ticket)⟩]) (step s (.dropTicket ticket)) := by
  have hwoken : woken (es ++ [⟨s, .dropTicket ticket, step s (.dropTicket ticket)⟩]) = woken es := by
    rw [woken_concat]
    exact append_nil _
  refine ⟨h.ordered, fun role e he => ?_, fun role p i hlive => ?_, hwoken ▸ h.woken_nodup, ?_⟩
  · rw [hwoken]
    exact h.registered role e he
  · have hnot : i ∉ ticket :: s.dropped := by simpa [State.alive, step] using hlive.alive
    have halive : s.alive i = true := by
      simpa [State.alive] using fun hmem => hnot (mem_cons_of_mem ticket hmem)
    exact h.kept role p i ⟨hlive.registered, halive, hwoken ▸ hlive.waiting⟩
  · rw [hwoken]
    exact h.woken_lt

variable {p : Int}

/-- A new waiter in its place keeps the order: its ticket is the latest. -/
theorem pairwise_insert {before after : List (Int × ℕ)} {n : ℕ} (h : (before ++ after).Pairwise Before)
    (hbefore : ∀ e ∈ before, p ≤ e.1 ∧ e.2 < n) (hafter : ∀ e ∈ after, e.1 < p) :
    (before ++ (p, n) :: after).Pairwise Before := by
  rw [pairwise_append] at h ⊢
  obtain ⟨hleft, hright, hcross⟩ := h
  refine ⟨hleft, pairwise_cons.2 ⟨fun e he => .inl (hafter e he), hright⟩, fun a ha e he => ?_⟩
  rcases mem_cons.1 he with rfl | he
  · obtain ⟨hle, hlt⟩ := hbefore a ha
    exact hle.lt_or_eq.imp_right fun heq => ⟨heq.symm, hlt⟩
  · exact hcross a ha e he

section

variable (s : State) (role : Role) (priority : Int)

theorem mem_waiters_register : e ∈ (step s (.register role priority)).waiters r ↔
      r = role ∧ e = (priority, s.tickets.length) ∨ e ∈ s.waiters r := by
  by_cases hr : r = role
  · subst hr
    obtain ⟨before, after, hold, hnew, -, -⟩ := waiters_register_self s r priority
    rw [hnew, hold]
    simp only [mem_append, mem_cons, true_and]
    exact or_left_comm
  · rw [waiters_register_of_ne hr]
    simp [hr]

theorem getElem?_tickets_register {i : ℕ} : (step s (.register role priority)).tickets[i]? = some (r, p) ↔
      s.tickets[i]? = some (r, p) ∨ i = s.tickets.length ∧ r = role ∧ p = priority := by
  have htickets : (step s (.register role priority)).tickets = s.tickets ++ [(role, priority)] := rfl
  rw [htickets, getElem?_append]
  split
  next hlt => simp [hlt.ne]
  next hle =>
    rw [getElem?_eq_none (not_lt.1 hle), getElem?_singleton]
    grind

end

theorem Inv.register (h : Inv es s) (role : Role) (priority : Int) :
    Inv (es ++ [⟨s, .register role priority, step s (.register role priority)⟩])
      (step s (.register role priority)) := by
  have hwoken : woken (es ++ [⟨s, .register role priority, step s (.register role priority)⟩]) = woken es := by
    rw [woken_concat]
    exact append_nil _
  refine ⟨fun r => ?_, fun r e he => ?_, fun r p i hlive => ?_, hwoken ▸ h.woken_nodup, fun i hi => ?_⟩
  · by_cases hr : r = role
    · subst hr
      obtain ⟨before, after, hold, hnew, hbefore, hafter⟩ := waiters_register_self s r priority
      have hlt : ∀ e ∈ before, e.2 < s.tickets.length := fun e he =>
        h.lt (hold ▸ mem_append_left after he)
      rw [hnew]
      exact pairwise_insert (hold ▸ h.ordered r) (fun e he => ⟨hbefore e he, hlt e he⟩) hafter
    · rw [waiters_register_of_ne hr]
      exact h.ordered r
  · rw [hwoken, getElem?_tickets_register]
    rcases (mem_waiters_register s role priority).1 he with ⟨rfl, rfl⟩ | he
    · -- the new ticket has not been woken, since it is not one of the old ones
      exact ⟨.inr ⟨rfl, rfl, rfl⟩, fun hin => lt_irrefl _ (h.woken_lt _ hin)⟩
    · exact (h.registered r e he).imp_left .inl
  · rw [mem_waiters_register]
    rcases (getElem?_tickets_register s role priority).1 hlive.registered with hregistered | ⟨rfl, rfl, rfl⟩
    · exact .inr (h.kept r p i ⟨hregistered, hlive.alive, hwoken ▸ hlive.waiting⟩)
    · exact .inl ⟨rfl, rfl⟩
  · rw [hwoken] at hi
    have hlength : (step s (.register role priority)).tickets.length = s.tickets.length + 1 := length_append
    rw [hlength]
    exact Nat.lt_add_right 1 (h.woken_lt i hi)

/-- Waiters may go if they are dead or the one that is fired. -/
theorem Inv.shrink {es' : List (Edge State Op)} {s' : State} {fired : Option ℕ} (h : Inv es s)
    (htickets : s'.tickets = s.tickets) (hdropped : s'.dropped = s.dropped)
    (hwoken : woken es' = woken es ++ fired.toList)
    (hsub : ∀ r, (s'.waiters r).Sublist (s.waiters r))
    (hfired : ∀ i, fired = some i →
      i < s.tickets.length ∧ i ∉ woken es ∧ ∀ r e, e ∈ s'.waiters r → e.2 ≠ i)
    (hgone : ∀ r e, e ∈ s.waiters r → e ∈ s'.waiters r ∨ s.alive e.2 = false ∨ fired = some e.2) :
    Inv es' s' := by
  have hmem : ∀ i, i ∈ woken es' ↔ i ∈ woken es ∨ fired = some i := by
    intro i
    rw [hwoken, mem_append, Option.mem_toList]
  refine ⟨fun r => (h.ordered r).sublist (hsub r), fun r e he => ?_, fun r p i hlive => ?_, ?_, fun i hi => ?_⟩
  · obtain ⟨hticket, hnot⟩ := h.registered r e ((hsub r).subset he)
    rw [htickets, hmem]
    refine ⟨hticket, fun hin => ?_⟩
    rcases hin with hin | hin
    · exact hnot hin
    · exact (hfired e.2 hin).2.2 r e he rfl
  · have hwaiting := hlive.waiting
    rw [hmem, not_or] at hwaiting
    have halive : s.alive i = true := by
      rw [State.alive, ← hdropped]
      exact hlive.alive
    rcases hgone r (p, i) (h.kept r p i ⟨htickets ▸ hlive.registered, halive, hwaiting.1⟩) with hin | hdead | hin
    · exact hin
    · exact absurd halive (Bool.eq_false_iff.1 hdead)
    · exact absurd hin hwaiting.2
  · rw [hwoken, nodup_append]
    refine ⟨h.woken_nodup, by cases fired <;> simp, ?_⟩
    rintro i hi j hj rfl
    exact (hfired i (Option.mem_toList.1 hj)).2.1 hi
  · rw [htickets]
    rcases (hmem i).1 hi with hi | hi
    · exact h.woken_lt i hi
    · exact (hfired i hi).1

/-- The fired ticket is at no other place of the queue. -/
theorem Inv.ticket_unique (h : Inv es s) {dead rest : List (Int × ℕ)} {i : ℕ}
    (hws : s.waiters role = dead ++ (p, i) :: rest) :
    (∀ e ∈ rest, e.2 ≠ i) ∧ ∀ r, r ≠ role → ∀ e ∈ s.waiters r, e.2 ≠ i := by
  have hi := (h.registered role (p, i) (by simp [hws])).1
  constructor
  · rintro e he rfl
    have hordered := h.ordered role
    rw [hws, pairwise_append, pairwise_cons] at hordered
    have he' := (h.registered role e (by simp [hws, he])).1
    obtain ⟨-, hprio⟩ := Prod.mk.inj (Option.some.inj (hi.symm.trans he'))
    rcases hordered.2.1.1 e he with hlt | ⟨-, hlt⟩
    · exact absurd hprio hlt.ne'
    · exact absurd hlt (lt_irrefl _)
  · rintro r hr e he rfl
    obtain ⟨hrole, -⟩ := Prod.mk.inj (Option.some.inj (hi.symm.trans (h.registered r e he).1))
    exact hr hrole.symm

theorem Inv.notify (h : Inv es s) (role : Role) :
    Inv (es ++ [⟨s, .notify role, step s (.notify role)⟩]) (step s (.notify role)) := by
  have hother : ∀ r, r ≠ role → (step s (.notify role)).waiters r = s.waiters r := fun r hr => waiters_notify_of_ne hr s
  have hcuts := cuts_notify s role
  generalize hrest : (step s (.notify role)).waiters role = rest at hcuts
  generalize hfired : (s.notify role).1 = fired at hcuts
  generalize hws : s.waiters role = ws at hcuts
  have hwoken : woken (es ++ [⟨s, .notify role, step s (.notify role)⟩]) = woken es ++ fired.toList := by
    rw [woken_concat, ← hfired]
    rfl
  refine h.shrink rfl rfl hwoken (fun r => ?_) (fun i hi => ?_) (fun r e he => ?_)
  · by_cases hr : r = role
    · subst hr
      rw [hrest, hws]
      cases hcuts with
      | fired _ _ => exact (sublist_cons_self _ _).trans (sublist_append_right _ _)
      | nobody _ => exact nil_sublist _
    · rw [hother r hr]
  · subst hi
    cases hcuts with
    | @fired dead rest p i hdead hlive =>
      have hmem : (p, i) ∈ s.waiters role := by simp [hws]
      obtain ⟨hbehind, helsewhere⟩ := h.ticket_unique hws
      refine ⟨h.lt hmem, (h.registered role _ hmem).2, fun r e he => ?_⟩
      by_cases hr : r = role
      · subst hr
        exact hbehind e (hrest ▸ he)
      · exact helsewhere r hr e (hother r hr ▸ he)
  · by_cases hr : r = role
    · subst hr
      rw [hws] at he
      rw [hrest]
      cases hcuts with
      | fired hdead _ =>
        rcases mem_append.1 he with he | he
        · exact .inr (.inl (hdead e he))
        · rcases mem_cons.1 he with rfl | he
          · exact .inr (.inr rfl)
          · exact .inl he
      | nobody hdead => exact .inr (.inl (hdead e he))
    · rw [hother r hr]
      exact .inl he

theorem inv_step {op : Op} {t : State} (hs : Steps s op t) (h : Inv es s) : Inv (es ++ [⟨s, op, t⟩]) t := by
  obtain rfl := hs
  cases op with
  | register role priority => exact h.register role priority
  | dropTicket ticket => exact h.dropTicket ticket
  | notify role => exact h.notify role

/-! ## Who is woken -/

/-- After any calls, `notify` wakes the live waiter of the role with the highest priority, among these the one
    that registered first, and nobody if there is none. It removes that waiter and dead ones before it, no
    others, and nothing of other roles. No ticket is woken twice. -/
theorem notify_wakes_first {es : List (Edge State Op)} {s : State} (run : Run Steps start es s) (role : Role) :
    (∃ dead : List (Int × ℕ), (∀ e ∈ dead, s.alive e.2 = false) ∧
      ((∃ p i, (s.notify role).1 = some i ∧ Live es s role p i ∧
          (∀ q j, Live es s role q j → q < p ∨ q = p ∧ i ≤ j) ∧
          s.waiters role = dead ++ (p, i) :: (step s (.notify role)).waiters role) ∨
        (s.notify role).1 = none ∧ (∀ q j, ¬ Live es s role q j) ∧
          s.waiters role = dead ∧ (step s (.notify role)).waiters role = [])) ∧
    (∀ r, r ≠ role → (step s (.notify role)).queue.byRole r = s.queue.byRole r) ∧
    (woken es).Nodup := by
  have h : Inv es s := run.history_invariant inv_start fun _ _ _ _ hs hI => inv_step hs hI
  refine ⟨?_, fun r hr => by simp [step, State.notify, WaiterQueue.notify, hr], h.woken_nodup⟩
  have hcuts := cuts_notify s role
  have hordered := h.ordered role
  have hregistered := h.registered role
  have hkept := h.kept role
  generalize (step s (.notify role)).waiters role = rest at hcuts ⊢
  generalize (s.notify role).1 = fired at hcuts ⊢
  generalize s.waiters role = ws at hcuts hordered hregistered hkept ⊢
  cases hcuts with
  | @fired dead rest p i hdead hlive =>
    obtain ⟨hticket, hnot⟩ := hregistered (p, i) (by simp)
    refine ⟨dead, hdead, .inl ⟨p, i, rfl, ⟨hticket, hlive, hnot⟩, fun q j hj => ?_, rfl⟩⟩
    rw [pairwise_append, pairwise_cons] at hordered
    rcases mem_append.1 (hkept q j hj) with hmem | hmem
    · exact absurd hj.alive (Bool.eq_false_iff.1 (hdead _ hmem))
    · rcases mem_cons.1 hmem with heq | hmem
      · cases heq
        exact .inr ⟨rfl, le_refl _⟩
      · exact (hordered.2.1.1 _ hmem).imp_right fun hsame => ⟨hsame.1.symm, hsame.2.le⟩
  | nobody hdead =>
    refine ⟨ws, hdead, .inr ⟨rfl, fun q j hj => ?_, rfl, rfl⟩⟩
    exact absurd hj.alive (Bool.eq_false_iff.1 (hdead _ (hkept q j hj)))

/-- Three waiters, of which the first has the lowest priority and the second has gone: the third is woken. -/
theorem notify_wakes_third :
    ∃ es s, Run Steps start es s ∧ (s.notify .text).1 = some 2 ∧
      ∀ q j, Live es s .text q j → q < 5 ∨ q = 5 ∧ 2 ≤ j := by
  have none : Run Steps start [] start := .nil
  have one := none.snoc (show Steps start (.register .text 1) _ from rfl)
  have two := one.snoc (show Steps _ (.register .text 5) _ from rfl)
  have three := two.snoc (show Steps _ (.register .text 5) _ from rfl)
  have run := three.snoc (show Steps _ (.dropTicket 1) _ from rfl)
  refine ⟨_, _, run, rfl, ?_⟩
  obtain ⟨⟨dead, -, ⟨p, i, hi, hlive, hfirst, -⟩ | ⟨hnone, -⟩⟩, -⟩ := notify_wakes_first run .text
  · cases hi
    obtain rfl : 5 = p := (Prod.mk.inj (Option.some.inj hlive.registered)).2
    exact hfirst
  · exact absurd hnone (by decide)

end WaiterOrder

end Tagsmaxxing.Scheduler
