import Mathlib
import Tagsmaxxing.Core.Types
import Tagsmaxxing.Lib.Run
import Tagsmaxxing.Lib.Utf8

/-! # Idempotency keys (`middleware.rs`)

`run_maybe_idempotent` wraps `POST /api/ingest`: a request with a key that was answered before gets the
stored response, any other runs the handler, whose successful response is buffered and stored. Between
the look-up, the end of the handler and the end of the buffering other requests run, the store is pruned
and clients go away. -/

namespace Tagsmaxxing.Idempotency

open Option List Transition

/-! ## Headers and bodies -/

/-- Raw bytes. -/
abbrev HeaderValue := List UInt8

def isVisibleAscii (b : UInt8) : Bool := (32 ≤ b && b < 127) || b == 9

/-- `HeaderValue::to_str`: refused unless every byte is visible ASCII. -/
def toStr (v : HeaderValue) : Option String :=
  if v.all isVisibleAscii then some (String.ofList (v.map Utf8.asciiChar)) else none

/-- `HeaderValue::from_str`: refused if a byte is a control character. -/
def fromStr (s : String) : Option HeaderValue :=
  let bytes := s.toUTF8.data.toList
  if bytes.all fun b => (32 ≤ b && b != 127) || b == 9 then some bytes else none

/-- A response body: its bytes, or a stream that fails. -/
abbrev Body := Option (List UInt8)

/-- Refused above the limit. -/
def toBytes (body : Body) (limit : ℕ) : Option (List UInt8) := body.filter fun bytes => bytes.length ≤ limit

/-- A response, without its other headers. -/
structure Response where
  status : ℕ
  contentType : Option HeaderValue
  body : Body
deriving DecidableEq

/-- `StatusCode::is_success`. -/
def Response.isSuccess (r : Response) : Bool := 200 ≤ r.status && r.status < 300

/-! ## `IdempotencyStore` -/

structure CachedIdempotentResponse where
  status : ℕ
  contentType : Option String
  body : List UInt8
  createdAt : Time
deriving DecidableEq

structure IdempotencyStore where
  inner : Keyed String CachedIdempotentResponse
  ttl : Time

namespace IdempotencyStore

def new (ttl : Time) : IdempotencyStore := ⟨.empty, ttl⟩

/-- Drop the expired entries. -/
def prune (s : IdempotencyStore) (now : Time) : IdempotencyStore :=
  let cutoff := now - s.ttl
  { s with inner := s.inner.deleteWhere fun _ v => !decide (v.createdAt > cutoff) }

/-- Prunes before the lookup. -/
def get (s : IdempotencyStore) (now : Time) (key : String) : Option CachedIdempotentResponse × IdempotencyStore :=
  ((s.prune now).inner.get? key, s.prune now)

def store (s : IdempotencyStore) (now : Time) (key : String) (status : ℕ) (contentType : Option String)
    (body : List UInt8) : IdempotencyStore :=
  { s with inner := s.inner.upsert key ⟨status, contentType, body, now⟩ }

end IdempotencyStore

def idempotencyTtl : Time := 86400

/-- The response built from a stored one. -/
def CachedIdempotentResponse.response (cached : CachedIdempotentResponse) : Response :=
  ⟨cached.status, cached.contentType.bind fromStr, some cached.body⟩

/-! ## `run_maybe_idempotent` -/

/-- The fields of `AuthUser` that scope a key. -/
structure AuthUser where
  tenantId : Int
  userId : Int
deriving DecidableEq

structure Request where
  method : String
  path : String
  /-- the header `Idempotency-Key` -/
  idempotencyKey : Option HeaderValue
  user : Option AuthUser
deriving DecidableEq

/-- Absent, unreadable and empty headers alike are no key. -/
def extractIdempotencyKey (header : Option HeaderValue) : Option String :=
  (header.bind toStr).filter fun s => !s.isEmpty

def idempotencyKeyForUser (user : AuthUser) (rawKey : String) : String :=
  toString user.tenantId ++ ":" ++ toString user.userId ++ ":" ++ rawKey

/-- The key a request is looked up under; `none` if it passes through. -/
def Request.scopedKey (r : Request) : Option String :=
  if r.method ≠ "POST" ∨ r.path ≠ "/api/ingest" then none
  else
    (extractIdempotencyKey r.idempotencyKey).bind fun key => r.user.map fun u => idempotencyKeyForUser u key

/-- Where a request is. -/
inductive Pc
  /-- in the handler, without a key -/
  | passing
  /-- in the handler, after a miss -/
  | running (scopedKey : String)
  /-- reading the body of a successful response -/
  | buffering (scopedKey : String) (response : Response)
  | returned (response : Response)
  /-- dropped with its connection -/
  | dropped
deriving DecidableEq

/-- A request under way. -/
structure Call where
  request : Request
  pc : Pc

structure State where
  clock : Time
  store : IdempotencyStore
  calls : Keyed ℕ Call

/-- A server that has just started. -/
def State.initial (clock : Time) : State := ⟨clock, .new idempotencyTtl, .empty⟩

/-- From the start of the middleware to its first `await`. -/
def enter (s : State) (request : Request) : Pc × IdempotencyStore :=
  match request.scopedKey with
  | none => (.passing, s.store)
  | some scopedKey =>
      let got := s.store.get s.clock scopedKey
      match got.1 with
      | some cached => (.returned cached.response, got.2)
      | none => (.running scopedKey, got.2)

/-- The handler returns `response`. -/
def handled (response : Response) : Pc → Option Pc
  | .passing => some (.returned response)
  | .running scopedKey =>
      if !response.isSuccess then some (.returned response) else some (.buffering scopedKey response)
  | _ => none

/-- The limit of the buffered body. -/
def bodyLimit : ℕ := 1024 * 1024

/-- The bytes that are stored and sent on: none, if the body is too long or fails. -/
def Response.bodyBytes (r : Response) : List UInt8 := (toBytes r.body bodyLimit).getD []

/-- The content type that is stored. -/
def Response.cachedContentType (r : Response) : Option String := r.contentType.bind toStr

inductive Act
  /-- a request arrives, under a number of its own -/
  | request (id : ℕ) (request : Request)
  /-- its handler is done -/
  | handled (id : ℕ) (response : Response)
  /-- its response is buffered -/
  | buffered (id : ℕ)
  /-- its client goes away -/
  | drop (id : ℕ)
  /-- the periodic clean-up -/
  | prune
  | tick (elapsed : Time)
deriving DecidableEq

/-- Move a call on. -/
def State.setPc (s : State) (id : ℕ) (call : Call) (pc : Pc) : State :=
  { s with calls := s.calls.upsert id { call with pc := pc } }

def step (s : State) : Act → Option State
  | .request id request =>
      match s.calls.get? id with
      | some _ => none
      | none =>
          let entered := enter s request
          some { s with store := entered.2, calls := s.calls.upsert id ⟨request, entered.1⟩ }
  | .handled id response =>
      (s.calls.get? id).bind fun call => (handled response call.pc).map fun pc => s.setPc id call pc
  | .buffered id =>
      (s.calls.get? id).bind fun call =>
        match call.pc with
        | .buffering scopedKey response =>
            some { s.setPc id call (.returned { response with body := some response.bodyBytes }) with
              store := s.store.store s.clock scopedKey response.status response.cachedContentType
                response.bodyBytes }
        | _ => none
  | .drop id =>
      (s.calls.get? id).bind fun call =>
        match call.pc with
        | .returned _ => none
        | _ => some (s.setPc id call .dropped)
  | .prune => some { s with store := s.store.prune s.clock }
  | .tick elapsed => if 0 ≤ elapsed then some { s with clock := s.clock + elapsed } else none

/-! ## Keys and content types survive -/

/-- A separator that occurs in neither of the two parts before it separates them. -/
theorem eq_of_append_cons {x : Char} {a b c d : List Char} (ha : x ∉ a) (hc : x ∉ c)
    (h : a ++ x :: b = c ++ x :: d) : a = c ∧ b = d := by
  have hfirst : ∀ {l m : List Char}, x ∉ l → (l ++ x :: m).takeWhile (· != x) = l := by
    intro l m hl
    rw [takeWhile_append_of_pos fun y hy => bne_iff_ne.2 (ne_of_mem_of_not_mem hy hl)]
    simp
  obtain rfl : a = c := by rw [← hfirst ha, h, hfirst hc]
  exact ⟨rfl, (cons.inj (append_cancel_left h)).2⟩

theorem colon_notMem_repr (n : Int) : ':' ∉ (toString n).toList := by
  have hdigits : ∀ m : ℕ, ':' ∉ m.repr.toList := by
    intro m hmem
    rw [Nat.repr, String.toList_ofList] at hmem
    have hdigit := Nat.isDigit_of_mem_toDigits (by decide) (by decide) hmem
    exact absurd hdigit (by decide)
  rw [Int.toString_eq_repr]
  cases n with
  | ofNat m => exact hdigits m
  | negSucc m =>
    have hneg : (Int.negSucc m).repr = "-" ++ (m + 1).repr := rfl
    rw [hneg, String.toList_append, mem_append]
    rintro (hmem | hmem)
    · exact absurd hmem (by decide)
    · exact hdigits _ hmem

/-- Whatever stands in a key: it is scoped to one user, and to one key of that user. -/
theorem idempotencyKeyForUser_inj {u v : AuthUser} {k l : String}
    (h : idempotencyKeyForUser u k = idempotencyKeyForUser v l) : u = v ∧ k = l := by
  have hlist := congrArg String.toList h
  simp only [idempotencyKeyForUser, String.toList_append, append_assoc] at hlist
  -- no number contains a colon, so the two first colons separate the parts
  obtain ⟨htenant, hrest⟩ := eq_of_append_cons (colon_notMem_repr _) (colon_notMem_repr _) hlist
  obtain ⟨huser, hkey⟩ := eq_of_append_cons (colon_notMem_repr _) (colon_notMem_repr _) hrest
  obtain ⟨ut, uu⟩ := u
  obtain ⟨vt, vu⟩ := v
  have ht : ut = vt := Int.repr_injective (String.toList_injective htenant)
  have hu : uu = vu := Int.repr_injective (String.toList_injective huser)
  exact ⟨by rw [ht, hu], String.toList_injective hkey⟩

/-- A content type that can be read is sent again as it was. -/
theorem fromStr_of_toStr {v : HeaderValue} {str : String} (h : toStr v = some str) : fromStr str = some v := by
  rw [toStr] at h
  split at h <;> cases h
  rename_i hall
  have hvisible : ∀ b ∈ v, 32 ≤ b ∧ b < 127 ∨ b = 9 := by simpa [isVisibleAscii] using hall
  have hascii : ∀ b ∈ v, b < 128 := by
    intro b hb
    rcases hvisible b hb with ⟨-, hlt⟩ | rfl
    · exact UInt8.lt_trans hlt (by decide)
    · decide
  rw [fromStr, Utf8.toUTF8_ofList_asciiChar hascii]
  refine if_pos (all_eq_true.2 fun b hb => ?_)
  rcases hvisible b hb with ⟨hge, hlt⟩ | rfl
  · simp [hge, UInt8.ne_of_lt hlt]
  · decide

/-! ## Requests under one key -/

/-- The scoped key of a call whose handler was started for it, until it has its response. -/
def Pc.key : Pc → Option String
  | .running scopedKey => some scopedKey
  | .buffering scopedKey _ => some scopedKey
  | _ => none

def Pc.response : Pc → Option Response
  | .returned response => some response
  | _ => none

def State.pc (s : State) (id : ℕ) : Option Pc := (s.calls.get? id).map Call.pc

def State.key (s : State) (id : ℕ) : Option String := (s.pc id).bind Pc.key

/-- The response a step gives to a request under the key `K`. -/
def answer (K : String) (e : Edge State Act) : Option Response :=
  match e.label with
  | .request id request => if request.scopedKey = some K then (e.dst.pc id).bind Pc.response else none
  | .handled id _ => if e.src.key id = some K then (e.dst.pc id).bind Pc.response else none
  | .buffered id => if e.src.key id = some K then (e.dst.pc id).bind Pc.response else none
  | _ => none

/-- The handler completes a request under the key with a 2xx. -/
def completes (K : String) (e : Edge State Act) : Bool :=
  match e.label with
  | .handled id response => response.isSuccess && e.src.key id == some K
  | _ => false

/-- A response is stored under the key. -/
def stores (K : String) (e : Edge State Act) : Bool :=
  match e.label with
  | .buffered id => e.src.key id == some K
  | _ => false

/-- No request under the key looks it up while another one is between its own look-up and its response;
    none is dropped while its successful response is being buffered; and the content type of a successful
    response can be read. -/
def Undisturbed (K : String) (e : Edge State Act) : Prop :=
  match e.label with
  | .request _ request => request.scopedKey = some K → ∀ id, e.src.key id ≠ some K
  | .handled id response => e.src.key id = some K → response.isSuccess = true →
      ∀ v, response.contentType = some v → (toStr v).isSome
  | .drop id => ∀ response, e.src.pc id ≠ some (.buffering K response)
  | _ => True

theorem key_ne_iff (s : State) (K : String) :
    (∀ row ∈ s.calls.rows, row.2.pc.key ≠ some K) ↔ ∀ id, s.key id ≠ some K := by
  simp only [State.key, State.pc, bind_map, ne_eq, bind_eq_some_iff, not_exists, not_and,
    Keyed.get?_eq_some_iff]
  constructor
  · intro h id call hmem
    exact h (id, call) hmem
  · intro h row hmem
    exact h row.1 row.2 hmem

theorem not_buffering_iff (K : String) (p : Option Pc) :
    (∀ q ∈ p, q.key = some K → q = .running K) ↔ ∀ response, p ≠ some (.buffering K response) := by
  constructor
  · rintro h response rfl
    exact Pc.noConfusion (h _ rfl rfl)
  · rintro h q hq hkey
    obtain rfl := mem_def.1 hq
    cases q with
    | running k => rw [Option.some.inj hkey]
    | buffering k response => exact absurd (congrArg some (by rw [Option.some.inj hkey])) (h response)
    | passing | returned response | dropped => cases hkey

instance (K : String) (e : Edge State Act) : Decidable (Undisturbed K e) :=
  match e with
  | ⟨s, .request _ request, _⟩ =>
      decidable_of_iff (request.scopedKey = some K → ∀ row ∈ s.calls.rows, row.2.pc.key ≠ some K)
        (imp_congr_right fun _ => key_ne_iff s K)
  | ⟨s, .handled id response, _⟩ =>
      inferInstanceAs (Decidable (s.key id = some K → response.isSuccess = true →
        ∀ v, response.contentType = some v → (toStr v).isSome))
  | ⟨s, .drop id, _⟩ =>
      decidable_of_iff (∀ q ∈ s.pc id, q.key = some K → q = .running K) (not_buffering_iff K (s.pc id))
  | ⟨_, .buffered _, _⟩ => isTrue trivial
  | ⟨_, .prune, _⟩ => isTrue trivial
  | ⟨_, .tick _, _⟩ => isTrue trivial

/-- Every look-up of the key comes within the TTL of a response stored before. -/
def WithinTtl (K : String) (es : List (Edge State Act)) : Prop :=
  ∀ before e after, es = before ++ e :: after →
    (∃ id request, e.label = .request id request ∧ request.scopedKey = some K) →
    ∀ f ∈ before, stores K f = true → e.src.clock < f.src.clock + idempotencyTtl

/-! ### What a step does -/

theorem State.pc_upsert (s : State) (store : IdempotencyStore) (id : ℕ) (call : Call) (i : ℕ) :
    State.pc { s with store := store, calls := s.calls.upsert id call } i =
      if i = id then some call.pc else s.pc i := by
  simp only [State.pc, Keyed.get?_upsert]
  split <;> rfl

theorem get?_prune (s : IdempotencyStore) (now : Time) (key : String) :
    (s.prune now).inner.get? key = (s.inner.get? key).filter fun c => decide (now < c.createdAt + s.ttl) := by
  simp only [IdempotencyStore.prune, Keyed.get?_deleteWhere, Bool.not_not]
  congr 1
  funext c
  rw [decide_eq_decide]
  exact sub_lt_iff_lt_add

/-- A look-up prunes the store; without a key there is none. -/
theorem enter_store (s : State) (request : Request) :
    (enter s request).2 = s.store ∨ (enter s request).2 = s.store.prune s.clock := by
  rw [enter]
  split
  · exact .inl rfl
  · dsimp only
    split
    all_goals exact .inr rfl

variable {request : Request}

theorem key_enter {s : State} {K : String} (h : (enter s request).1.key = some K) : request.scopedKey = some K := by
  rw [enter] at h
  split at h
  · cases h
  next scopedKey hkey =>
    dsimp only at h
    split at h
    · cases h
    · rw [hkey]
      exact h

theorem key_handled {response : Response} {p q : Pc} {K : String} (hq : handled response p = some q)
    (h : q.key = some K) : p.key = some K := by
  cases p with
  | passing =>
    cases hq
    cases h
  | running scopedKey =>
    rw [handled] at hq
    split at hq <;> cases hq
    · cases h
    · exact h
  | buffering _ _ | returned _ | dropped => cases hq

/-- Everything a step does to the program counters, the store and the clock. -/
inductive Effect (s t : State) : Act → Prop
  | request {id : ℕ} {request : Request} (hnew : s.pc id = none)
      (hpc : ∀ i, t.pc i = if i = id then some (enter s request).1 else s.pc i)
      (hstore : t.store = (enter s request).2) (hclock : t.clock = s.clock) : Effect s t (.request id request)
  | handled {id : ℕ} {response : Response} {p q : Pc} (hp : s.pc id = some p)
      (hq : handled response p = some q) (hpc : ∀ i, t.pc i = if i = id then some q else s.pc i)
      (hstore : t.store = s.store) (hclock : t.clock = s.clock) : Effect s t (.handled id response)
  | buffered {id : ℕ} {k : String} {response : Response} (hp : s.pc id = some (.buffering k response))
      (hpc : ∀ i, t.pc i = if i = id then some (.returned { response with body := some response.bodyBytes })
        else s.pc i)
      (hstore : t.store = s.store.store s.clock k response.status response.cachedContentType
        response.bodyBytes) (hclock : t.clock = s.clock) : Effect s t (.buffered id)
  | drop {id : ℕ} (hpc : ∀ i, t.pc i = if i = id then some .dropped else s.pc i) (hstore : t.store = s.store)
      (hclock : t.clock = s.clock) : Effect s t (.drop id)
  | prune (hpc : ∀ i, t.pc i = s.pc i) (hstore : t.store = s.store.prune s.clock)
      (hclock : t.clock = s.clock) : Effect s t .prune
  | tick {elapsed : Time} (hpc : ∀ i, t.pc i = s.pc i) (hstore : t.store = s.store)
      (hclock : s.clock ≤ t.clock) : Effect s t (.tick elapsed)

variable {s t : State} {a : Act} {id : ℕ}

theorem key_eq {p : Pc} (h : s.pc id = some p) : s.key id = p.key := by rw [State.key, h, bind_some]

theorem effect_step (h : step s a = some t) : Effect s t a := by
  cases a with
  | request id request =>
    simp only [step] at h
    split at h <;> cases h
    next hnone => exact .request (by simp [State.pc, hnone]) (s.pc_upsert _ id _) rfl rfl
  | handled id response =>
    obtain ⟨call, hcall, hmap⟩ := bind_eq_some_iff.1 h
    obtain ⟨q, hq, rfl⟩ := map_eq_some_iff.1 hmap
    exact .handled (by simp [State.pc, hcall]) hq (s.pc_upsert _ id _) rfl rfl
  | buffered id =>
    obtain ⟨call, hcall, hmatch⟩ := bind_eq_some_iff.1 h
    split at hmatch <;> cases hmatch
    next k response hpc => exact .buffered (by simp [State.pc, hcall, hpc]) (s.pc_upsert _ id _) rfl rfl
  | drop id =>
    obtain ⟨call, hcall, hmatch⟩ := bind_eq_some_iff.1 h
    split at hmatch <;> cases hmatch
    exact .drop (s.pc_upsert _ id _) rfl rfl
  | prune =>
    cases h
    exact .prune (fun _ => rfl) rfl rfl
  | tick elapsed =>
    simp only [step] at h
    split at h <;> cases h
    next helapsed => exact .tick (fun _ => rfl) rfl (le_add_of_nonneg_right helapsed)

theorem ttl_step (h : step s a = some t) (httl : s.store.ttl = idempotencyTtl) :
    t.store.ttl = idempotencyTtl := by
  cases effect_step h with
  | request hnew hpc hstore hclock =>
    rcases enter_store s _ with h | h
    all_goals
      rw [hstore, h]
      exact httl
  | handled _ _ _ hstore | drop _ hstore | tick _ hstore => rw [hstore, httl]
  | buffered _ _ hstore | prune _ hstore => rw [hstore]; exact httl

/-! ### The three phases of a key

Nothing is stored until the handler has completed one request; while its response is buffered that request
is the only one under way; from then on the stored response is the answer. -/

/-- Where the requests under a key stand after the steps `es`. -/
inductive Phase (K : String) (es : List (Edge State Act)) (s : State) : Prop
  /-- no success yet -/
  | fresh (hentry : s.store.inner.get? K = none) (hrunning : ∀ i r, s.pc i ≠ some (.buffering K r))
      (hone : ∀ i j, s.key i = some K → s.key j = some K → i = j) (hcount : es.countP (completes K) = 0)
      (hanswers : ∀ r ∈ es.filterMap (answer K), r.isSuccess = false)
  /-- the response `r` of the request `id` is being buffered -/
  | buffering (id : ℕ) (r : Response) (hentry : s.store.inner.get? K = none)
      (hid : s.pc id = some (.buffering K r)) (hone : ∀ i, s.key i = some K → i = id)
      (hreadable : ∀ v, r.contentType = some v → (toStr v).isSome) (hcount : es.countP (completes K) = 1)
      (hanswers : ∀ r ∈ es.filterMap (answer K), r.isSuccess = false)
  /-- the response `c` has been stored -/
  | stored (c : CachedIdempotentResponse)
      (hentry : s.store.inner.get? K = some c ∨ c.createdAt + idempotencyTtl ≤ s.clock)
      (hnone : ∀ i, s.key i ≠ some K) (hcount : es.countP (completes K) = 1)
      (hanswers : ∃ errors replays, es.filterMap (answer K) = errors ++ replays ∧
        (∀ r ∈ errors, r.isSuccess = false) ∧ ∀ r ∈ replays, r = c.response)
      (hstored : ∃ f ∈ es, stores K f = true ∧ f.src.clock = c.createdAt)

/-- A step that is none of a request under the key. -/
structure Quiet (K : String) (e : Edge State Act) : Prop where
  key : ∀ i, e.dst.key i = some K → e.dst.pc i = e.src.pc i
  buffering : ∀ i r, e.src.pc i = some (.buffering K r) → e.dst.pc i = e.src.pc i
  entry : e.dst.store.inner.get? K = e.src.store.inner.get? K ∨
    e.dst.store.inner.get? K = (e.src.store.inner.get? K).filter fun c =>
      decide (e.dst.clock < c.createdAt + idempotencyTtl)
  clock : e.src.clock ≤ e.dst.clock
  answer : answer K e = none
  completes : completes K e = false

variable {K : String} {es : List (Edge State Act)} {e : Edge State Act}

section

variable (es : List (Edge State Act))

theorem countP_snoc_of_false (h : completes K e = false) :
    (es ++ [e]).countP (completes K) = es.countP (completes K) := by
  simp [countP_append, h]

theorem filterMap_snoc_of_none (h : answer K e = none) :
    (es ++ [e]).filterMap (answer K) = es.filterMap (answer K) := by
  simp [filterMap_append, h]

theorem filterMap_snoc_of_some {r : Response} (h : answer K e = some r) :
    (es ++ [e]).filterMap (answer K) = es.filterMap (answer K) ++ [r] := by
  simp [filterMap_append, h]

end

theorem Quiet.entry_none (hq : Quiet K e) (h : e.src.store.inner.get? K = none) :
    e.dst.store.inner.get? K = none := by
  rcases hq.entry with heq | heq <;> rw [heq, h]
  rfl

theorem Phase.quiet (h : Phase K es e.src) (hq : Quiet K e) : Phase K (es ++ [e]) e.dst := by
  have hkey : ∀ i, e.dst.key i = some K → e.src.key i = some K := by
    intro i hi
    rw [State.key, ← hq.key i hi]
    exact hi
  have hcount := countP_snoc_of_false es hq.completes
  have hanswer := filterMap_snoc_of_none es hq.answer
  cases h with
  | fresh hentry hrunning hone hc ha =>
    refine .fresh (hq.entry_none hentry) ?_ (fun i j hi hj => hone i j (hkey i hi) (hkey j hj)) (hcount.trans hc)
      (hanswer ▸ ha)
    intro i r hi
    exact hrunning i r (hq.key i (key_eq hi) ▸ hi)
  | buffering id r hentry hid hone hreadable hc ha =>
    exact .buffering id r (hq.entry_none hentry) (hq.buffering id r hid ▸ hid) (fun i hi => hone i (hkey i hi))
      hreadable (hcount.trans hc) (hanswer ▸ ha)
  | stored c hentry hnone hc ha hs =>
    refine .stored c ?_ (fun i hi => hnone i (hkey i hi)) (hcount.trans hc) (hanswer ▸ ha) ?_
    · rcases hentry with hentry | hexpired
      · rcases hq.entry with heq | heq
        · exact .inl (heq.trans hentry)
        · by_cases hlt : e.dst.clock < c.createdAt + idempotencyTtl
          · exact .inl (by rw [heq, hentry]; simp [Option.filter, hlt])
          · exact .inr (not_lt.1 hlt)
      · exact .inr (hexpired.trans hq.clock)
    · obtain ⟨f, hf, hf'⟩ := hs
      exact ⟨f, mem_append_left _ hf, hf'⟩

/-! ### One step under the key -/

section

variable {q : Pc} (hpc : ∀ i, t.pc i = if i = id then some q else s.pc i)

include hpc

theorem key_of_ne {i : ℕ} (hid : i ≠ id) :
    t.key i = s.key i := by
  rw [State.key, hpc, if_neg hid, State.key]

/-- A program counter that changes only at `id`, where it leaves the key alone. -/
theorem key_of_pc (hq : q.key ≠ some K)
    {i : ℕ} (hi : t.key i = some K) : i ≠ id ∧ s.key i = some K := by
  have hid : i ≠ id := by
    rintro rfl
    rw [State.key, hpc, if_pos rfl] at hi
    exact hq hi
  exact ⟨hid, key_of_ne hpc hid ▸ hi⟩

theorem Quiet.of_pc (hq : q.key ≠ some K)
    (hold : ∀ r, s.pc id ≠ some (.buffering K r)) (hentry : t.store.inner.get? K = s.store.inner.get? K ∨
      t.store.inner.get? K = (s.store.inner.get? K).filter fun c => decide (t.clock < c.createdAt + idempotencyTtl))
    (hclock : t.clock = s.clock) (hanswer : Idempotency.answer K ⟨s, a, t⟩ = none)
    (hcompletes : Idempotency.completes K ⟨s, a, t⟩ = false) : Quiet K ⟨s, a, t⟩ where
  key i hi := (hpc i).trans (if_neg (key_of_pc hpc hq hi).1)
  buffering i r hi := by
    refine (hpc i).trans (if_neg ?_)
    rintro rfl
    exact hold r hi
  entry := hentry
  clock := hclock.ge
  answer := hanswer
  completes := hcompletes

end

theorem quiet_request (httl : s.store.ttl = idempotencyTtl)
    (hne : request.scopedKey ≠ some K) (h : Effect s t (.request id request)) :
    Quiet K ⟨s, .request id request, t⟩ := by
  cases h with
  | request hnew hpc hstore hclock =>
    refine .of_pc hpc (fun hq => hne (key_enter hq)) (fun r hr => nomatch hnew.symm.trans hr) ?_ hclock (if_neg hne) rfl
    -- a look-up of another key prunes this one's entry, if it has expired
    rw [hstore, hclock, ← httl, ← get?_prune]
    rcases enter_store s request with h | h
    · exact .inl (by rw [h])
    · exact .inr (by rw [h])

/-- A request under the key that finds the stored response, or nothing. -/
theorem phase_lookup (httl : s.store.ttl = idempotencyTtl)
    (hK : request.scopedKey = some K) (h : Effect s t (.request id request)) (hphase : Phase K es s)
    (hidle : ∀ i, s.key i ≠ some K)
    (hwithin : ∀ f ∈ es, stores K f = true → s.clock < f.src.clock + idempotencyTtl) :
    Phase K (es ++ [⟨s, .request id request, t⟩]) t := by
  cases h with
  | request hnew hpc hstore hclock =>
    have hcompletes : completes K ⟨s, .request id request, t⟩ = false := rfl
    have hanswer : answer K ⟨s, .request id request, t⟩ = (t.pc id).bind Pc.response := if_pos hK
    have hcount := countP_snoc_of_false es hcompletes
    have hself : t.pc id = some (enter s request).1 := by rw [hpc, if_pos rfl]
    have hget : (s.store.get s.clock K).1 =
        (s.store.inner.get? K).filter fun c => decide (s.clock < c.createdAt + idempotencyTtl) := by
      rw [← httl, ← get?_prune]
      rfl
    have hentry : t.store.inner.get? K = (s.store.get s.clock K).1 := by
      rw [hstore, enter, hK]
      dsimp only
      split <;> rfl
    cases hphase with
    | fresh hnone hrunning hone hc ha =>
      have hmiss : (s.store.get s.clock K).1 = none := by rw [hget, hnone]; rfl
      have henter : (enter s request).1 = .running K := by simp [enter, hK, hmiss]
      rw [henter] at hself hpc
      have hnoanswer : answer K ⟨s, .request id request, t⟩ = none := by rw [hanswer, hself]; rfl
      refine .fresh (hentry.trans hmiss) ?_ ?_ (hcount.trans hc) (filterMap_snoc_of_none es hnoanswer ▸ ha)
      · intro i r hi
        rw [hpc] at hi
        split at hi
        · cases hi
        · exact hrunning i r hi
      · -- the new request is the only one
        have honly : ∀ i, t.key i = some K → i = id := by
          intro i hi
          by_contra hne
          exact hidle i (key_of_ne hpc hne ▸ hi)
        intro i j hi hj
        rw [honly i hi, honly j hj]
    | buffering id' r hnone hid' hone hreadable hc ha =>
      exact absurd (key_eq hid') (hidle id')
    | stored c hstored hnone hc ha hs =>
      obtain ⟨f, hf, hfstores, hfclock⟩ := hs
      have hlt : s.clock < c.createdAt + idempotencyTtl := hfclock ▸ hwithin f hf hfstores
      have hfound : s.store.inner.get? K = some c := hstored.resolve_right (not_le.2 hlt)
      have hhit : (s.store.get s.clock K).1 = some c := by
        rw [hget, hfound]
        simp [Option.filter, hlt]
      have henter : (enter s request).1 = .returned c.response := by simp [enter, hK, hhit]
      rw [henter] at hself hpc
      have hgiven : answer K ⟨s, .request id request, t⟩ = some c.response := by
        rw [hanswer, hself]
        rfl
      refine .stored c (.inl (hentry.trans hhit)) ?_ (hcount.trans hc) ?_
        ⟨f, mem_append_left _ hf, hfstores, hfclock⟩
      · intro i hi
        exact hidle i (key_of_pc hpc (by simp [Pc.key]) hi).2
      · obtain ⟨errors, replays, heq, herrors, hreplays⟩ := ha
        refine ⟨errors, replays ++ [c.response], ?_, herrors, ?_⟩
        · rw [filterMap_snoc_of_some es hgiven, heq, append_assoc]
        · exact forall_mem_append.2 ⟨hreplays, fun r => mem_singleton.1⟩

theorem quiet_handled {response : Response} (hne : s.key id ≠ some K) (h : Effect s t (.handled id response)) :
    Quiet K ⟨s, .handled id response, t⟩ := by
  cases h with
  | @handled _ _ p q hp hq hpc hstore hclock =>
    have hqkey : q.key ≠ some K := fun h => hne ((key_eq hp).trans (key_handled hq h))
    exact .of_pc hpc hqkey (fun r hr => hne (key_eq hr)) (.inl (by rw [hstore])) hclock (if_neg hne)
      (by simp [completes, hne])

theorem phase_handled {response : Response} (hK : s.key id = some K) (h : Effect s t (.handled id response))
    (hphase : Phase K es s)
    (hreadable : response.isSuccess = true → ∀ v, response.contentType = some v → (toStr v).isSome) :
    Phase K (es ++ [⟨s, .handled id response, t⟩]) t := by
  cases h with
  | @handled _ _ p q hp hq hpc hstore hclock =>
    have hpK : p.key = some K := (key_eq hp).symm.trans hK
    have hanswer : answer K ⟨s, .handled id response, t⟩ = q.response := by
      have hself : t.pc id = some q := by rw [hpc, if_pos rfl]
      simp [answer, hK, hself]
    cases p with
    | passing | returned | dropped => cases hpK
    | buffering k r => cases hq
    | running k =>
      obtain rfl := Option.some.inj hpK
      cases hphase with
      | buffering id' r hnone hid' hone _ hc ha =>
        obtain rfl := hone id hK
        cases hp.symm.trans hid'
      | stored c hstored hnone hc ha hs => exact absurd hK (hnone id)
      | fresh hnone hrunning hone hc ha =>
        have hother : ∀ i, i ≠ id → s.key i ≠ some k := fun i hi hkey => hi (hone i id hkey hK)
        rw [handled] at hq
        split at hq
        · -- an error is returned and not stored
          next hfail =>
            cases hq
            have hcompletes : completes k ⟨s, .handled id response, t⟩ = false := by
              simpa [completes] using fun hs => absurd hs (by simpa using hfail)
            have hnokey : ∀ i, t.key i ≠ some k := by
              intro i hi
              obtain ⟨hid, hold⟩ := key_of_pc hpc (by simp [Pc.key]) hi
              exact hother i hid hold
            refine .fresh (by rw [hstore, hnone]) ?_ (fun i _ hi => absurd hi (hnokey i))
              ((countP_snoc_of_false es hcompletes).trans hc) ?_
            · intro i r hi
              exact hnokey i (key_eq hi)
            · rw [filterMap_snoc_of_some es hanswer]
              exact forall_mem_append.2 ⟨ha, by simpa using hfail⟩
        · -- a success is buffered
          next hsuccess =>
            cases hq
            have hs : response.isSuccess = true := by simpa using hsuccess
            have hcompletes : completes k ⟨s, .handled id response, t⟩ = true := by
              simp [completes, hs, hK]
            refine .buffering id response (by rw [hstore, hnone]) (by rw [hpc, if_pos rfl]) ?_
              (hreadable hs) ?_ (filterMap_snoc_of_none es hanswer ▸ ha)
            · intro i hi
              by_contra hid
              exact hother i hid (key_of_ne hpc hid ▸ hi)
            · simp [countP_append, hcompletes, hc]

theorem quiet_buffered (hne : s.key id ≠ some K) (h : Effect s t (.buffered id)) :
    Quiet K ⟨s, .buffered id, t⟩ := by
  cases h with
  | @buffered _ k r hp hpc hstore hclock =>
    have hk : K ≠ k := fun h => hne (h ▸ key_eq hp)
    refine .of_pc hpc (by simp [Pc.key]) (fun r' hr' => hne (key_eq hr')) (.inl ?_) hclock (if_neg hne) rfl
    rw [hstore, IdempotencyStore.store, Keyed.get?_upsert, if_neg hk]

theorem phase_buffered (hK : s.key id = some K) (h : Effect s t (.buffered id)) (hphase : Phase K es s) :
    Phase K (es ++ [⟨s, .buffered id, t⟩]) t := by
  cases h with
  | @buffered _ k r hp hpc hstore hclock =>
    obtain rfl : k = K := Option.some.inj ((key_eq hp).symm.trans hK)
    cases hphase with
    | fresh hnone hrunning hone hc ha => exact absurd hp (hrunning id r)
    | stored c hstored hnone hc ha hs => exact absurd hK (hnone id)
    | buffering id' r' hnone hid' hone hreadable hc ha =>
      obtain rfl := hone id hK
      rw [hp] at hid'
      cases hid'
      have htype : r.cachedContentType.bind fromStr = r.contentType := by
        cases hct : r.contentType with
        | none => simp [Response.cachedContentType, hct]
        | some v =>
          obtain ⟨str, hstr⟩ := isSome_iff_exists.1 (hreadable v hct)
          simp [Response.cachedContentType, hct, hstr, fromStr_of_toStr hstr]
      have hself : t.pc id = some (.returned { r with body := some r.bodyBytes }) := by rw [hpc, if_pos rfl]
      have hgiven : answer k ⟨s, .buffered id, t⟩ = some { r with body := some r.bodyBytes } := by
        simp only [answer, hK, if_true, hself]
        rfl
      refine .stored ⟨r.status, r.cachedContentType, r.bodyBytes, s.clock⟩ (.inl ?_) ?_
        ((countP_snoc_of_false es rfl).trans hc) ?_
        ⟨_, mem_append_right _ (mem_singleton_self _), by simp [stores, hK], rfl⟩
      · rw [hstore, IdempotencyStore.store, Keyed.get?_upsert, if_pos rfl]
      · intro i hi
        obtain ⟨hid, hold⟩ := key_of_pc hpc (by simp [Pc.key]) hi
        exact hid (hone i hold)
      · refine ⟨_, [_], filterMap_snoc_of_some es hgiven, ha, ?_⟩
        intro r' hr'
        rw [mem_singleton.1 hr', CachedIdempotentResponse.response, htype]

theorem phase_step (hstep : step s a = some t) (httl : s.store.ttl = idempotencyTtl) (hphase : Phase K es s)
    (hquiet : Undisturbed K ⟨s, a, t⟩)
    (hwithin : (∃ id request, a = .request id request ∧ request.scopedKey = some K) → ∀ f ∈ es, stores K f = true →
      s.clock < f.src.clock + idempotencyTtl) :
    Phase K (es ++ [⟨s, a, t⟩]) t := by
  have heffect := effect_step hstep
  cases a with
  | request id request =>
    by_cases hK : request.scopedKey = some K
    · exact phase_lookup httl hK heffect hphase (hquiet hK) (hwithin ⟨id, request, rfl, hK⟩)
    · exact hphase.quiet (quiet_request httl hK heffect)
  | handled id response =>
    by_cases hK : s.key id = some K
    · exact phase_handled hK heffect hphase (hquiet hK)
    · exact hphase.quiet (quiet_handled hK heffect)
  | buffered id =>
    by_cases hK : s.key id = some K
    · exact phase_buffered hK heffect hphase
    · exact hphase.quiet (quiet_buffered hK heffect)
  | drop id =>
    cases heffect with
    | drop hpc hstore hclock =>
      exact hphase.quiet (.of_pc hpc (by simp [Pc.key]) hquiet (.inl (by rw [hstore])) hclock rfl rfl)
  | prune =>
    cases heffect with
    | prune hpc hstore hclock =>
      refine hphase.quiet ⟨fun i _ => hpc i, fun i _ _ => hpc i, .inr ?_, hclock.ge, rfl, rfl⟩
      rw [hstore, get?_prune, httl, hclock]
  | tick elapsed =>
    cases heffect with
    | tick hpc hstore hclock =>
      exact hphase.quiet ⟨fun i _ => hpc i, fun i _ _ => hpc i, .inl (by rw [hstore]), hclock, rfl, rfl⟩

theorem phase_run {clock : Time} (r : Run (Fires step) (.initial clock) es s)
    (hquiet : ∀ e ∈ es, Undisturbed K e) (hwithin : WithinTtl K es) :
    s.store.ttl = idempotencyTtl ∧ Phase K es s := by
  induction r with
  | nil =>
    refine ⟨rfl, .fresh rfl ?_ ?_ rfl (by simp)⟩
    · rintro i r ⟨⟩
    · rintro i j ⟨⟩
  | @snoc t u a es r hs ih =>
    have hbefore : WithinTtl K es := fun before e after heq =>
      hwithin before e (after ++ [⟨t, a, u⟩]) (by rw [heq]; simp)
    obtain ⟨httl, hphase⟩ := ih (fun e he => hquiet e (mem_append_left _ he)) hbefore
    refine ⟨ttl_step hs httl, phase_step hs httl hphase (hquiet _ (by simp)) ?_⟩
    exact fun hlookup => hwithin es ⟨t, a, u⟩ [] rfl hlookup

/-- For every user and key, in every run in which no two requests with them overlap: within the TTL the
    handler completes with a 2xx at most once, and every response after a 2xx is the same response. -/
theorem ingest_once (u : AuthUser) (rawKey : String) {clock : Time} {s : State}
    (r : Run (Fires step) (.initial clock) es s)
    (hquiet : ∀ e ∈ es, Undisturbed (idempotencyKeyForUser u rawKey) e)
    (hwithin : WithinTtl (idempotencyKeyForUser u rawKey) es) :
    es.countP (completes (idempotencyKeyForUser u rawKey)) ≤ 1 ∧
      (es.filterMap (answer (idempotencyKeyForUser u rawKey))).Pairwise fun earlier later =>
        earlier.isSuccess = true → later = earlier := by
  have hnosuccess : ∀ {l : List Response}, (∀ r ∈ l, r.isSuccess = false) →
      l.Pairwise fun earlier later => earlier.isSuccess = true → later = earlier := by
    intro l hl
    refine pairwise_of_forall_mem_list fun a ha b _ hsuccess => ?_
    rw [hl a ha] at hsuccess
    cases hsuccess
  cases (phase_run r hquiet hwithin).2 with
  | fresh _ _ _ hcount hanswers | buffering _ _ _ _ _ _ hcount hanswers => exact ⟨by omega, hnosuccess hanswers⟩
  | stored c _ _ hcount hanswers _ =>
    obtain ⟨errors, replays, heq, herrors, hreplays⟩ := hanswers
    refine ⟨by omega, ?_⟩
    rw [heq, pairwise_append]
    refine ⟨hnosuccess herrors, ?_, ?_⟩
    · exact pairwise_of_forall_mem_list fun a ha b hb _ => by rw [hreplays a ha, hreplays b hb]
    · intro a ha b _ hsuccess
      rw [herrors a ha] at hsuccess
      cases hsuccess

/-- `POST /api/ingest` of the user with the key `k`. -/
private def post (user : AuthUser) : Request := ⟨"POST", "/api/ingest", some [107], some user⟩

private def created (n : UInt8) : Response := ⟨201, none, some [n]⟩

theorem ingest_once_sequential : ∃ es s,
    Run (Fires step) (.initial 0) es s ∧
      es.map Edge.label = [.request 1 (post ⟨1, 2⟩), .handled 1 (created 1), .buffered 1, .request 2 (post ⟨1, 2⟩)] ∧
      (∀ e ∈ es, Undisturbed (idempotencyKeyForUser ⟨1, 2⟩ "k") e) ∧
      WithinTtl (idempotencyKeyForUser ⟨1, 2⟩ "k") es ∧
      es.filterMap (answer (idempotencyKeyForUser ⟨1, 2⟩ "k")) = [created 1, created 1] ∧
      es.countP (completes (idempotencyKeyForUser ⟨1, 2⟩ "k")) ≤ 1 := by
  refine exists_run_of_imp (fun es _ => (∀ e ∈ es, Undisturbed (idempotencyKeyForUser ⟨1, 2⟩ "k") e) ∧
    (∀ e ∈ es, e.src.clock = 0) ∧
    es.filterMap (answer (idempotencyKeyForUser ⟨1, 2⟩ "k")) = [created 1, created 1]) (by decide +kernel) ?_
  rintro es s hrun ⟨hundisturbed, hclock, hanswers⟩
  have hwithin : WithinTtl (idempotencyKeyForUser ⟨1, 2⟩ "k") es := by
    rintro before e after rfl - f hf -
    rw [hclock e (by simp), hclock f (mem_append_left _ hf)]
    decide +kernel
  exact ⟨hundisturbed, hwithin, hanswers, (ingest_once ⟨1, 2⟩ "k" hrun hundisturbed hwithin).1⟩

/-- Two requests of one user with one key both miss: both are executed, and what the first one created
    is not what the key stands for afterwards. -/
theorem ingest_twice : ∃ es s,
    Run (Fires step) (.initial 0) es s ∧ (∀ e ∈ es, e.src.clock = 0) ∧
      es.map Edge.label = [.request 1 (post ⟨1, 2⟩), .request 2 (post ⟨1, 2⟩), .handled 1 (created 1),
        .buffered 1, .handled 2 (created 2), .buffered 2, .request 3 (post ⟨1, 2⟩)] ∧
      es.countP (completes (idempotencyKeyForUser ⟨1, 2⟩ "k")) = 2 ∧
      es.filterMap (answer (idempotencyKeyForUser ⟨1, 2⟩ "k")) = [created 1, created 2, created 2] := by
  simp only [and_left_comm (a := ∀ e ∈ _, _)]
  exact exists_run_of_holds (by decide +kernel)

end Tagsmaxxing.Idempotency
