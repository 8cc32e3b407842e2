import Tagsmaxxing.Lib.Replay
import Tagsmaxxing.Api.Idempotency

/-! # No replay across users

All users share one `IdempotencyStore`. What `run_maybe_idempotent` decides for one of them is what it
would decide if the others did not exist: a scoped key belongs to one user, and pruning takes only
what no later look-up would find. -/

namespace Tagsmaxxing.Idempotency

open Option Transition

/-! ## What a user does and sees -/

/-- What becomes of a request at its look-up. -/
inductive Decision
  | executed
  | cached (response : Response)
deriving DecidableEq

def Pc.decision : Pc → Decision
  | .returned response => .cached response
  | _ => .executed

def Call.isOf (u : AuthUser) (call : Call) : Bool := call.request.user == some u

/-- The step is one of the user's requests, or is about one. -/
def Act.isOf (u : AuthUser) (s : State) : Act → Bool
  | .request _ r => r.user == some u
  | .handled id _ => (s.calls.get? id).any (Call.isOf u)
  | .buffered id => (s.calls.get? id).any (Call.isOf u)
  | .drop id => (s.calls.get? id).any (Call.isOf u)
  | .prune => false
  | .tick _ => false

/-- The user's steps, with their times. -/
def observe (u : AuthUser) (e : Edge State Act) : Option (Time × Act) :=
  if e.label.isOf u e.src then some (e.src.clock, e.label) else none

/-- The decision on a request of the user. -/
def decision (u : AuthUser) (e : Edge State Act) : Option Decision :=
  match e.label with
  | .request id request => if request.user = some u then (e.dst.pc id).map Pc.decision else none
  | _ => none

/-- No call of the user waits for the event: the handler of a request that was answered from the store
    does not return. -/
def Idle (u : AuthUser) (s : State) (w : Time × Act) : Prop :=
  match w.2 with
  | .request _ _ => False
  | a => a.isOf u s = true → step s a = none

/-- A server that has this user only. -/
def alone (u : AuthUser) (v : State) (w : Time × Act) : State × Option Decision :=
  if w.2.isOf u v then
    match step { v with clock := w.1 } w.2 with
    | some t => (t, decision u ⟨{ v with clock := w.1 }, w.2, t⟩)
    | none => (v, none)
  else (v, none)

/-! ## Look-ups -/

/-- Pruning takes nothing that a later look-up would find. -/
theorem get_prune (store : IdempotencyStore) {now later : Time} (hle : now ≤ later) (key : String) :
    ((store.prune now).get later key).1 = (store.get later key).1 := by
  simp only [IdempotencyStore.get, get?_prune]
  rw [show (store.prune now).ttl = store.ttl from rfl, filter_filter]
  congr 1
  funext c
  rw [Bool.and_eq_right_iff_imp]
  intro hlive
  rw [decide_eq_true_eq] at hlive ⊢
  exact lt_of_le_of_lt hle hlive

theorem get_store_of_ne (store : IdempotencyStore) (now later : Time) {key other : String} (hne : key ≠ other)
    (status : ℕ) (contentType : Option String) (body : List UInt8) :
    ((store.store now other status contentType body).get later key).1 = (store.get later key).1 := by
  simp only [IdempotencyStore.get, get?_prune, IdempotencyStore.store, Keyed.get?_upsert, if_neg hne]

/-- What was stored last under a key decides what is found. -/
theorem get_store_self (store store' : IdempotencyStore) (httl : store.ttl = store'.ttl) (now later : Time)
    (key : String) (status : ℕ) (contentType : Option String) (body : List UInt8) :
    ((store.store now key status contentType body).get later key).1 =
      ((store'.store now key status contentType body).get later key).1 := by
  simp only [IdempotencyStore.get, get?_prune, IdempotencyStore.store, Keyed.get?_upsert, if_true, httl]

variable {request : Request} {K : String} {id : ℕ}

theorem user_of_scopedKey (h : request.scopedKey = some K) :
    ∃ u key, request.user = some u ∧ K = idempotencyKeyForUser u key := by
  rw [Request.scopedKey] at h
  split at h
  · cases h
  · obtain ⟨key, -, hmap⟩ := bind_eq_some_iff.1 h
    obtain ⟨u, hu, rfl⟩ := map_eq_some_iff.1 hmap
    exact ⟨u, key, hu, rfl⟩

/-! ## Calls under way -/

theorem get_enter (s : State) (request : Request) {later : Time} (hle : s.clock ≤ later) (key : String) :
    ((enter s request).2.get later key).1 = (s.store.get later key).1 := by
  rcases enter_store s request with h | h <;> rw [h]
  exact get_prune s.store hle key

theorem ttl_enter (s : State) (request : Request) : (enter s request).2.ttl = s.store.ttl := by
  rcases enter_store s request with h | h <;> rw [h]
  rfl

/-! ## The shared server and the user's own -/

/-- From here on the two servers cannot be told apart by the user. -/
structure SameFor (u : AuthUser) (s v : State) : Prop where
  calls : ∀ id, v.calls.get? id = (s.calls.get? id).filter (Call.isOf u)
  gets : ∀ key now, s.clock ≤ now → (s.store.get now (idempotencyKeyForUser u key)).1 =
    (v.store.get now (idempotencyKeyForUser u key)).1
  keys : ∀ id call, s.calls.get? id = some call → ∀ K, call.pc.key = some K → call.request.scopedKey = some K
  ttl : s.store.ttl = v.store.ttl

namespace SameFor

variable {u : AuthUser} {s v : State}

theorem initial (clock clock' : Time) : SameFor u (.initial clock) (.initial clock') where
  calls _ := rfl
  gets _ _ _ := rfl
  keys id call h := by cases h
  ttl := rfl

variable {call : Call} {id : ℕ}

section

variable (h : SameFor u s v) {store : IdempotencyStore}

include h

section

variable (hscoped : ∀ K, call.pc.key = some K → call.request.scopedKey = some K)

include hscoped

theorem keys_upsert (i : ℕ) (c : Call) (hc : (s.calls.upsert id call).get? i = some c) :
    ∀ K, c.pc.key = some K → c.request.scopedKey = some K := by
  rw [Keyed.get?_upsert] at hc
  split at hc
  · cases hc
    exact hscoped
  · exact h.keys i c hc

theorem other (hold : (s.calls.get? id).any (Call.isOf u) = false) (hnew : call.isOf u = false)
    (hgets : ∀ key now, s.clock ≤ now → (store.get now (idempotencyKeyForUser u key)).1 =
      (s.store.get now (idempotencyKeyForUser u key)).1)
    (httl : store.ttl = s.store.ttl) :
    SameFor u { s with store := store, calls := s.calls.upsert id call } v where
  calls i := by
    rw [Keyed.get?_upsert]
    split
    next hi =>
      subst hi
      rw [h.calls i, filter_eq_none_iff.2, filter_some, hnew]
      · rfl
      · intro c hc
        rw [mem_def.1 hc] at hold
        exact Bool.eq_false_iff.1 hold
    · exact h.calls i
  gets key now hnow := (hgets key now hnow).trans (h.gets key now hnow)
  keys := h.keys_upsert hscoped
  ttl := httl.trans h.ttl

theorem own {store' : IdempotencyStore} {clock : Time} (hnew : call.isOf u = true)
    (hgets : ∀ key now, s.clock ≤ now → (store.get now (idempotencyKeyForUser u key)).1 =
      (store'.get now (idempotencyKeyForUser u key)).1)
    (httl : store.ttl = store'.ttl) :
    SameFor u { s with store := store, calls := s.calls.upsert id call }
      ⟨clock, store', v.calls.upsert id call⟩ where
  calls i := by
    rw [Keyed.get?_upsert, Keyed.get?_upsert]
    split
    · rw [filter_some, hnew]
      rfl
    · exact h.calls i
  gets := hgets
  keys := h.keys_upsert hscoped
  ttl := httl

end

theorem call_iff :
    v.calls.get? id = some call ↔ s.calls.get? id = some call ∧ call.isOf u = true := by
  rw [h.calls id, filter_eq_some_iff]

theorem any_isOf (id : ℕ) :
    (v.calls.get? id).any (Call.isOf u) = (s.calls.get? id).any (Call.isOf u) := by
  rw [h.calls id]
  cases hcall : s.calls.get? id with
  | none => rfl
  | some call =>
    rw [filter_some]
    split
    · rfl
    next hnot => rw [any_none, any_some, Bool.eq_false_iff.2 hnot]

theorem isOf_eq (a : Act) : a.isOf u v = a.isOf u s := by
  cases a with
  | request id request => rfl
  | handled id response | buffered id | drop id => exact h.any_isOf id
  | prune | tick elapsed => rfl

theorem enter_eq (huser : request.user = some u) :
    (enter s request).1 = (enter { v with clock := s.clock } request).1 := by
  cases hkey : request.scopedKey with
  | none => simp only [enter, hkey]
  | some K =>
    obtain ⟨w, key, hw, rfl⟩ := user_of_scopedKey hkey
    cases huser.symm.trans hw
    simp only [enter, hkey, h.gets key s.clock le_rfl]
    split <;> rfl

end

end SameFor

variable {u : AuthUser} (s : State) (a : Act) (t v : State)

/-- The others' steps, pruning and the passing of time make no difference to the user. -/
theorem same_silent (hstep : step s a = some t) (hnone : observe u ⟨s, a, t⟩ = none) (h : SameFor u s v) :
    SameFor u t v ∧ decision u ⟨s, a, t⟩ = none := by
  have hother : a.isOf u s = false := by
    rw [observe] at hnone
    split at hnone
    · cases hnone
    next hnot => exact Bool.eq_false_iff.2 hnot
  clear hnone
  cases a with
  | request id request =>
    have huser : request.user ≠ some u := by
      intro heq
      rw [Act.isOf, heq, beq_self_eq_true] at hother
      cases hother
    refine ⟨?_, if_neg huser⟩
    simp only [step] at hstep
    split at hstep <;> cases hstep
    rename_i hnone
    exact h.other (fun K => key_enter) (by rw [hnone]; rfl) hother
      (fun key now hnow => get_enter s request hnow _) (ttl_enter s request)
  | handled id response =>
    refine ⟨?_, rfl⟩
    obtain ⟨call, hcall, hmap⟩ := bind_eq_some_iff.1 hstep
    obtain ⟨q, hq, rfl⟩ := map_eq_some_iff.1 hmap
    simp only [Act.isOf] at hother
    refine h.other ?_ hother (by rwa [hcall] at hother) (fun _ _ _ => rfl) rfl
    exact fun K hK => h.keys id call hcall K (key_handled hq hK)
  | buffered id =>
    refine ⟨?_, rfl⟩
    obtain ⟨call, hcall, hmatch⟩ := bind_eq_some_iff.1 hstep
    simp only [Act.isOf] at hother
    have hcallOther : call.isOf u = false := by rwa [hcall] at hother
    split at hmatch <;> cases hmatch
    rename_i scopedKey response hpc
    refine h.other (fun K hK => by cases hK) hother hcallOther ?_ rfl
    -- the response is stored under a key of its own user
    intro key now _
    obtain ⟨w, rawKey, huser, rfl⟩ := user_of_scopedKey (h.keys id call hcall scopedKey (by rw [hpc]; rfl))
    refine get_store_of_ne s.store s.clock now (fun heq => ?_) _ _ _
    obtain ⟨rfl, -⟩ := idempotencyKeyForUser_inj heq
    rw [Call.isOf, huser, beq_self_eq_true] at hcallOther
    cases hcallOther
  | drop id =>
    refine ⟨?_, rfl⟩
    obtain ⟨call, hcall, hmatch⟩ := bind_eq_some_iff.1 hstep
    simp only [Act.isOf] at hother
    split at hmatch <;> cases hmatch
    exact h.other (fun K hK => by cases hK) hother (by rwa [hcall] at hother) (fun _ _ _ => rfl) rfl
  | prune =>
    cases hstep
    refine ⟨⟨h.calls, fun key now hnow => ?_, h.keys, h.ttl⟩, rfl⟩
    exact (get_prune s.store hnow _).trans (h.gets key now hnow)
  | tick elapsed =>
    simp only [step] at hstep
    split at hstep <;> cases hstep
    rename_i helapsed
    refine ⟨⟨h.calls, fun key now hnow => ?_, h.keys, h.ttl⟩, rfl⟩
    exact h.gets key now ((le_add_of_nonneg_right helapsed).trans hnow)

theorem decision_request {s t : State} {p : Pc} (huser : request.user = some u)
    (hp : t.pc id = some p) : decision u ⟨s, .request id request, t⟩ = some p.decision := by
  simp only [decision, if_pos huser, hp, map_some]

theorem alone_of_step {v t : State} {a : Act} (now : Time) (hof : a.isOf u v = true)
    (hstep : step { v with clock := now } a = some t) :
    alone u v (now, a) = (t, decision u ⟨{ v with clock := now }, a, t⟩) := by
  rw [alone, if_pos hof]
  simp only [hstep]

/-- The user's own steps go the same way on both servers. -/
theorem same_taken (w : Time × Act)
    (hstep : step s a = some t) (hown : observe u ⟨s, a, t⟩ = some w) (h : SameFor u s v) :
    SameFor u t (alone u v w).1 ∧ decision u ⟨s, a, t⟩ = (alone u v w).2 := by
  rw [observe] at hown
  split at hown
  swap
  · cases hown
  next hof =>
  obtain rfl := Option.some.inj hown
  have hof' : a.isOf u v = true := (h.isOf_eq a).trans hof
  cases a with
  | request id request =>
    have huser : request.user = some u := by simpa [Act.isOf] using hof
    simp only [step] at hstep
    split at hstep <;> cases hstep
    rename_i hnone
    have hnone' : v.calls.get? id = none := by rw [h.calls id, hnone, filter_none]
    have halone := alone_of_step s.clock hof' (by simp only [step, hnone']; rfl)
    rw [halone]
    refine ⟨?_, ?_⟩
    · rw [← h.enter_eq huser]
      refine h.own (fun K => key_enter) hof (fun key now hnow => ?_) ?_
      · rw [get_enter s request hnow, get_enter _ request (by exact hnow)]
        exact h.gets key now hnow
      · rw [ttl_enter, ttl_enter]
        exact h.ttl
    · rw [decision_request huser ((s.pc_upsert _ id _ id).trans (if_pos rfl)), h.enter_eq huser]
      exact (decision_request huser (({ v with clock := s.clock } : State).pc_upsert _ id _ id |>.trans
        (if_pos rfl))).symm
  | handled id response =>
    obtain ⟨call, hcall, hmap⟩ := bind_eq_some_iff.1 hstep
    obtain ⟨q, hq, rfl⟩ := map_eq_some_iff.1 hmap
    have hcallOf : call.isOf u = true := by simpa [Act.isOf, hcall] using hof
    have halone := alone_of_step s.clock hof'
      (by simp only [step, h.call_iff.2 ⟨hcall, hcallOf⟩, bind_some, hq, map_some]; rfl)
    rw [halone]
    refine ⟨h.own (fun K hK => ?_) hcallOf (fun key now hnow => h.gets key now hnow) h.ttl, rfl⟩
    exact h.keys id call hcall K (key_handled hq hK)
  | buffered id =>
    obtain ⟨call, hcall, hmatch⟩ := bind_eq_some_iff.1 hstep
    have hcallOf : call.isOf u = true := by simpa [Act.isOf, hcall] using hof
    split at hmatch <;> cases hmatch
    rename_i scopedKey response hpc
    have halone := alone_of_step s.clock hof'
      (by simp only [step, h.call_iff.2 ⟨hcall, hcallOf⟩, bind_some, hpc]; rfl)
    rw [halone]
    refine ⟨h.own (fun K hK => by cases hK) hcallOf (fun key now hnow => ?_) h.ttl, rfl⟩
    by_cases hkey : idempotencyKeyForUser u key = scopedKey
    · subst hkey
      exact get_store_self _ _ h.ttl _ _ _ _ _ _
    · rw [get_store_of_ne _ _ _ hkey, get_store_of_ne _ _ _ hkey]
      exact h.gets key now hnow
  | drop id =>
    obtain ⟨call, hcall, hmatch⟩ := bind_eq_some_iff.1 hstep
    have hcallOf : call.isOf u = true := by simpa [Act.isOf, hcall] using hof
    split at hmatch <;> cases hmatch
    rename_i hpc
    have halone := alone_of_step s.clock hof'
      (by simp only [step, h.call_iff.2 ⟨hcall, hcallOf⟩, bind_some]; rfl)
    rw [halone]
    refine ⟨?_, rfl⟩
    exact h.own (fun K hK => by cases hK) hcallOf (fun key now hnow => h.gets key now hnow) h.ttl
  | prune | tick elapsed => cases hof

/-- Whether a call can take its next step is a matter of the call. -/
theorem step_eq_none_of_call {s v : State} (hcalls : v.calls.get? id = s.calls.get? id) (now : Time) {a : Act}
    (ha : (∃ response, a = .handled id response) ∨ a = .buffered id ∨ a = .drop id) (h : step s a = none) :
    step { v with clock := now } a = none := by
  rcases ha with ⟨response, rfl⟩ | rfl | rfl
  all_goals
    simp only [step, hcalls, bind_eq_none_iff, map_eq_none_iff] at h ⊢
    intro call hcall
    have hmatch := h call hcall
    cases hpc : call.pc <;> simp_all

theorem SameFor.get?_eq {s v : State} (h : SameFor u s v)
    (hof : (v.calls.get? id).any (Call.isOf u) = true) : v.calls.get? id = s.calls.get? id := by
  obtain ⟨call, hcall, -⟩ := (any_eq_true _ _).1 hof
  rw [hcall, (h.call_iff.1 hcall).1]

/-- An event that finds nothing to do on the shared server finds nothing on the user's own. -/
theorem same_skipped (s v : State) (w : Time × Act) (hidle : Idle u s w) (h : SameFor u s v) :
    SameFor u s (alone u v w).1 ∧ (alone u v w).2 = none := by
  suffices halone : alone u v w = (v, none) by
    rw [halone]
    exact ⟨h, rfl⟩
  obtain ⟨now, a⟩ := w
  rw [alone]
  split
  swap
  · rfl
  next hof =>
  have hof' : a.isOf u s = true := (h.isOf_eq a).symm.trans hof
  suffices hnone : step { v with clock := now } a = none by rw [hnone]
  cases a with
  | request id request => exact hidle.elim
  | handled id response =>
    exact step_eq_none_of_call (h.get?_eq hof) now (.inl ⟨response, rfl⟩) (hidle hof')
  | buffered id => exact step_eq_none_of_call (h.get?_eq hof) now (.inr (.inl rfl)) (hidle hof')
  | drop id => exact step_eq_none_of_call (h.get?_eq hof) now (.inr (.inr rfl)) (hidle hof')
  | prune | tick elapsed => cases hof

/-! ## Noninterference -/

/-- Two runs, each from the start of a server, in which the user does the same at the same times: whatever
    the other users do, the requests of this one are executed or answered from the store alike, and with
    the same responses. -/
theorem decisions_independent_of_others (u : AuthUser) {clock clock' : Time} {s s' : State}
    {es fs : List (Edge State Act)} {script : List (Time × Act)}
    (h : Follows (Fires step) (observe u) (Idle u) (.initial clock) es s script)
    (h' : Follows (Fires step) (observe u) (Idle u) (.initial clock') fs s' script) :
    es.filterMap (decision u) = fs.filterMap (decision u) :=
  Follows.outputs_eq same_silent same_taken same_skipped (SameFor.initial clock clock)
    (SameFor.initial clock' clock) h h'

/-- `POST /api/ingest` with the bytes of a key. -/
private def ingest (user : AuthUser) (key : HeaderValue) : Request := ⟨"POST", "/api/ingest", some key, some user⟩

private def accepted (n : UInt8) : Response := ⟨202, none, some [n]⟩

/-- What user 3 of tenant 1 does: an ingest under the key `4:k`, and the same once more. -/
private def retried : List Act :=
  [.request 1 (ingest ⟨1, 3⟩ [52, 58, 107]), .handled 1 (accepted 1), .buffered 1,
    .request 2 (ingest ⟨1, 3⟩ [52, 58, 107])]

/-- The same between the steps of user 34 of tenant 1 with the key `:k`, and those of user 3 of tenant 13. -/
private def retriedAmongOthers : List Act :=
  [.request 7 (ingest ⟨1, 34⟩ [58, 107]), .request 1 (ingest ⟨1, 3⟩ [52, 58, 107]), .handled 7 (accepted 7),
    .buffered 7, .prune, .handled 1 (accepted 1), .request 8 (ingest ⟨13, 3⟩ [52, 58, 107]), .buffered 1,
    .handled 8 (accepted 8), .buffered 8, .request 2 (ingest ⟨1, 3⟩ [52, 58, 107])]

theorem decisions_independent_of_similar_keys : ∃ es fs s s',
    Run (Fires step) (.initial 0) es s ∧ Run (Fires step) (.initial 0) fs s' ∧
      es.map Edge.label = retried ∧ fs.map Edge.label = retriedAmongOthers ∧
      es.filterMap (decision ⟨1, 3⟩) = [.executed, .cached (accepted 1)] ∧
      es.filterMap (decision ⟨1, 3⟩) = fs.filterMap (decision ⟨1, 3⟩) := by
  obtain ⟨es, s, r, hlabels, hscript, hdecisions⟩ : ∃ es s, Run (Fires step) (.initial 0) es s ∧
      es.map Edge.label = retried ∧ es.filterMap (observe ⟨1, 3⟩) = retried.map (fun a => (0, a)) ∧
      es.filterMap (decision ⟨1, 3⟩) = [.executed, .cached (accepted 1)] := exists_run_of_holds (by decide +kernel)
  obtain ⟨fs, s', r', hlabels', hscript'⟩ : ∃ fs s', Run (Fires step) (.initial 0) fs s' ∧
      fs.map Edge.label = retriedAmongOthers ∧ fs.filterMap (observe ⟨1, 3⟩) = retried.map fun a => (0, a) :=
    exists_run_of_holds (by decide +kernel)
  have h : Follows (Fires step) (observe ⟨1, 3⟩) (Idle ⟨1, 3⟩) (.initial 0) es s _ := r.follows
  have h' : Follows (Fires step) (observe ⟨1, 3⟩) (Idle ⟨1, 3⟩) (.initial 0) fs s' _ := r'.follows
  rw [hscript] at h
  rw [hscript'] at h'
  exact ⟨es, fs, s, s', r, r', hlabels, hlabels', hdecisions, decisions_independent_of_others ⟨1, 3⟩ h h'⟩

end Tagsmaxxing.Idempotency
