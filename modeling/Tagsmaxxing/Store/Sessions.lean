import Tagsmaxxing.Core.Types
import Tagsmaxxing.Lib.Expiring
import Tagsmaxxing.Lib.Run

/-! # Sessions (`session_store.rs`, `auth_middleware`)

A request with a session cookie validates its token and then slides the expiry of the session, as two calls of the
store. Between them other requests run, sessions are revoked and time passes. Both stores are modelled with the trait
they implement as a record of operations; the system of requests is the same over either.

An operation that fails (the database is unavailable, a TTL is out of range) changes nothing, so a failed call is no
step. `generate_session_token` never draws a token twice: that is part of the model. -/

namespace Tagsmaxxing

inductive UserRole
  | owner | admin | member
deriving DecidableEq, Repr

structure SessionInfo where
  tenantId : Int
  userId : ℕ
  userRole : UserRole
  emailVerified : Bool
deriving DecidableEq

/-- A row of `users`, without the columns of the login. -/
structure UserRow where
  tenantId : Int
  role : UserRole
  emailVerified : Bool
deriving DecidableEq

namespace Sessions

open Transition Expiring

/-- `Session`; its `id`, the token, is the key it is stored under. -/
structure Session where
  tenantId : Int
  userId : ℕ
  userRole : UserRole
  emailVerified : Bool
  expiresAt : Time
  createdAt : Time

/-- The arguments of `create`. -/
structure NewSession where
  tenantId : Int
  userId : ℕ
  userRole : UserRole
  emailVerified : Bool
  ttl : Time
deriving DecidableEq

/-- What `create` stores, where `now` is the clock of the application. -/
def NewSession.session (new : NewSession) (now : Time) : Session :=
  ⟨new.tenantId, new.userId, new.userRole, new.emailVerified, now + new.ttl, now⟩

/-- The trait `SessionStore`, and the writes that change what it reads of a user. `create` is given the
    token it drew; `none` is an error. -/
structure SessionStore (σ : Type) where
  create : Time → String → NewSession → σ → Option σ
  validate : Time → String → σ → Option SessionInfo
  extend : Time → String → Time → σ → σ
  revoke : String → σ → σ
  revokeAllForTenant : Int → σ → σ
  revokeUserSessions : Int → ℕ → σ → σ
  updateUserInfo : Int → ℕ → UserRole → Bool → σ → σ

/-! ## `InMemorySessionStore` -/

structure InMemorySessionStore where
  sessions : Keyed String Session
  userInfo : Keyed (Int × ℕ) (UserRole × Bool)

namespace InMemorySessionStore

def new : InMemorySessionStore := ⟨.empty, .empty⟩

def create (now : Time) (token : String) (args : NewSession) (s : InMemorySessionStore) : Option InMemorySessionStore :=
  some
    { userInfo := s.userInfo.upsert (args.tenantId, args.userId) (args.userRole, args.emailVerified)
      sessions := s.sessions.upsert token (args.session now) }

def validate (now : Time) (token : String) (s : InMemorySessionStore) : Option SessionInfo :=
  match s.sessions.get? token with
  | none => none
  | some session =>
      if session.expiresAt ≤ now then none
      else
        let info := (s.userInfo.get? (session.tenantId, session.userId)).getD
          (session.userRole, session.emailVerified)
        some ⟨session.tenantId, session.userId, info.1, info.2⟩

def extend (now : Time) (token : String) (ttl : Time) (s : InMemorySessionStore) : InMemorySessionStore :=
  match s.sessions.get? token with
  | none => s
  | some session =>
      let newExpiry := now + ttl
      if newExpiry > session.expiresAt then
        { s with sessions := s.sessions.upsert token { session with expiresAt := newExpiry } }
      else s

def revoke (token : String) (s : InMemorySessionStore) : InMemorySessionStore :=
  { s with sessions := s.sessions.deleteWhere fun id _ => id == token }

def revokeAllForTenant (tenantId : Int) (s : InMemorySessionStore) : InMemorySessionStore :=
  { s with sessions := s.sessions.deleteWhere fun _ x => x.tenantId == tenantId }

def revokeUserSessions (tenantId : Int) (userId : ℕ) (s : InMemorySessionStore) : InMemorySessionStore :=
  { s with sessions := s.sessions.deleteWhere fun _ x => x.tenantId == tenantId && x.userId == userId }

def updateUserInfo (tenantId : Int) (userId : ℕ) (role : UserRole) (emailVerified : Bool)
    (s : InMemorySessionStore) : InMemorySessionStore :=
  { s with userInfo := s.userInfo.upsert (tenantId, userId) (role, emailVerified) }

/-- `impl SessionStore for InMemorySessionStore`. -/
def store : SessionStore InMemorySessionStore :=
  ⟨create, validate, extend, revoke, revokeAllForTenant, revokeUserSessions, updateUserInfo⟩

end InMemorySessionStore

/-! ## `PgSessionStore` -/

/-- The tables `sessions` and `users`, and the ids of `tenants`. -/
structure PgSessionStore where
  sessions : Keyed String Session
  users : Serial UserRow
  tenants : List Int

namespace PgSessionStore

/-- The `INSERT`. The token is the primary key, and tenant and user are foreign keys. -/
def create (now : Time) (token : String) (args : NewSession) (s : PgSessionStore) : Option PgSessionStore :=
  if (s.sessions.get? token).isNone ∧ args.tenantId ∈ s.tenants ∧ (s.users.get? args.userId).isSome then
    some { s with sessions := s.sessions.upsert token (args.session now) }
  else none

/-- `JOIN users u ON s.tenant_id = u.tenant_id AND s.user_id = u.id`. -/
def joined (s : PgSessionStore) (session : Session) : Option UserRow :=
  (s.users.get? session.userId).filter fun u => session.tenantId == u.tenantId

def validate (now : Time) (token : String) (s : PgSessionStore) : Option SessionInfo :=
  match s.sessions.get? token with
  | none => none
  | some session =>
      match s.joined session with
      | none => none
      | some u =>
          if session.expiresAt > now then
            some ⟨session.tenantId, session.userId, u.role, u.emailVerified⟩
          else none

/-- The `UPDATE` with `GREATEST`. -/
def extend (now : Time) (token : String) (ttl : Time) (s : PgSessionStore) : PgSessionStore :=
  { s with
    sessions := s.sessions.updateWhere (fun id _ => id == token) fun x =>
      { x with expiresAt := max x.expiresAt (now + ttl) } }

def revoke (token : String) (s : PgSessionStore) : PgSessionStore :=
  { s with sessions := s.sessions.deleteWhere fun id _ => id == token }

def revokeAllForTenant (tenantId : Int) (s : PgSessionStore) : PgSessionStore :=
  { s with sessions := s.sessions.deleteWhere fun _ x => x.tenantId == tenantId }

def revokeUserSessions (tenantId : Int) (userId : ℕ) (s : PgSessionStore) : PgSessionStore :=
  { s with sessions := s.sessions.deleteWhere fun _ x => x.tenantId == tenantId && x.userId == userId }

/-- An `UPDATE users` of role and verification. -/
def updateUserInfo (tenantId : Int) (userId : ℕ) (role : UserRole) (emailVerified : Bool)
    (s : PgSessionStore) : PgSessionStore :=
  { s with
    users := s.users.updateWhere (fun id u => id == userId && u.tenantId == tenantId) fun u =>
      { u with role := role, emailVerified := emailVerified } }

/-- `impl SessionStore for PgSessionStore`. -/
def store : SessionStore PgSessionStore :=
  ⟨create, validate, extend, revoke, revokeAllForTenant, revokeUserSessions, updateUserInfo⟩

end PgSessionStore

/-! ## Requests -/

/-- The store and its clock, the tokens issued so far, and the requests that have validated their token
    and not yet slid its expiry. -/
structure State (σ : Type) where
  clock : Time
  store : σ
  issued : List String
  validated : List String

/-- A server with no request under way. -/
def State.initial {σ : Type} (store : σ) (clock : Time) : State σ := ⟨clock, store, [], []⟩

inductive Act
  /-- a login; `now` is the clock of the application, `token` the token drawn -/
  | create (now : Time) (token : String) (new : NewSession)
  /-- the first call of a request -/
  | validate (token : String)
  /-- its second call -/
  | extend (token : String)
  | revoke (token : String)
  | revokeAllForTenant (tenantId : Int)
  | revokeUserSessions (tenantId : Int) (userId : ℕ)
  | updateUserInfo (tenantId : Int) (userId : ℕ) (role : UserRole) (emailVerified : Bool)
  | tick (elapsed : Time)
deriving DecidableEq

variable {σ : Type}

/-- One call of the store; `sessionTtl` is `AppState::session_ttl`. -/
def step (S : SessionStore σ) (sessionTtl : Time) (s : State σ) : Act → Option (State σ)
  | .create now token new =>
      if token ∈ s.issued then none
      else (S.create now token new s.store).map fun st =>
        { s with store := st, issued := token :: s.issued }
  | .validate token =>
      match S.validate s.clock token s.store with
      | none => some s
      | some _ => some { s with validated := token :: s.validated }
  | .extend token =>
      if token ∈ s.validated then
        some { s with
          store := S.extend s.clock token sessionTtl s.store
          validated := s.validated.erase token }
      else none
  | .revoke token => some { s with store := S.revoke token s.store }
  | .revokeAllForTenant tenantId => some { s with store := S.revokeAllForTenant tenantId s.store }
  | .revokeUserSessions tenantId userId =>
      some { s with store := S.revokeUserSessions tenantId userId s.store }
  | .updateUserInfo tenantId userId role emailVerified =>
      some { s with store := S.updateUserInfo tenantId userId role emailVerified s.store }
  | .tick elapsed => if 0 ≤ elapsed then some { s with clock := s.clock + elapsed } else none

/-! ## What a store is for

A store keeps a deadline for each token it would accept if time stood still. -/

/-- The deadlines behind a store: `validate` accepts the tokens that are alive, and every other operation
    does to the deadlines what its name says. -/
structure Deadlines (S : SessionStore σ) where
  of : σ → String → Option Time
  validate_isSome (now : Time) (token : String) (s : σ) :
    (S.validate now token s).isSome ↔ Live (of s) now token
  create {now : Time} {token : String} {new : NewSession} {s t : σ}
    (h : S.create now token new s = some t) : of t = issue token (now + new.ttl) (of s) ∨ of t = of s
  extend (now : Time) (token : String) (ttl : Time) (s : σ) :
    of (S.extend now token ttl s) = slide token (now + ttl) (of s)
  revoke (token : String) (s : σ) : ∃ p, of (S.revoke token s) = drop p (of s)
  revokeAllForTenant (tenantId : Int) (s : σ) :
    ∃ p, of (S.revokeAllForTenant tenantId s) = drop p (of s)
  revokeUserSessions (tenantId : Int) (userId : ℕ) (s : σ) :
    ∃ p, of (S.revokeUserSessions tenantId userId s) = drop p (of s)
  updateUserInfo (tenantId : Int) (userId : ℕ) (role : UserRole) (emailVerified : Bool) (s : σ) :
    of (S.updateUserInfo tenantId userId role emailVerified s) = of s

/-- Deleting rows of a table drops the deadlines read from them. -/
theorem drop_of_deleteWhere {ρ : Type} (t : Keyed String ρ) (p : String → ρ → Bool) (f : ρ → Option Time) :
    (fun i => ((t.deleteWhere p).get? i).bind f) = drop (fun i => (t.get? i).any (p i)) fun i => (t.get? i).bind f := by
  funext i
  rw [Keyed.get?_deleteWhere, drop]
  cases hi : t.get? i with
  | none => simp
  | some r =>
    cases hp : p i r with
    | false | true => simp [Option.filter, hp]

/-- In memory, every session counts. -/
def InMemorySessionStore.deadline (s : InMemorySessionStore) (token : String) : Option Time :=
  (s.sessions.get? token).bind fun x => some x.expiresAt

variable (now : Time) (token : String)

theorem InMemorySessionStore.validate_isSome (s : InMemorySessionStore) :
    (s.validate now token).isSome ↔ Live s.deadline now token := by
  cases hs : s.sessions.get? token with
  | none => simp [validate, deadline, Live, hs]
  | some x =>
    by_cases hx : x.expiresAt ≤ now
    · simp [validate, deadline, Live, hs, hx]
    · simp [validate, deadline, Live, hs, hx, not_le.1 hx]

theorem InMemorySessionStore.deadline_extend (ttl : Time) (s : InMemorySessionStore) :
    (s.extend now token ttl).deadline = slide token (now + ttl) s.deadline := by
  funext i
  cases hs : s.sessions.get? token with
  | none =>
    by_cases hi : i = token
    all_goals simp [extend, deadline, slide, hs, hi]
  | some x =>
    by_cases hi : i = token
    · subst hi
      by_cases hx : now + ttl > x.expiresAt
      · simp [extend, deadline, slide, hs, hx, max_eq_right (le_of_lt hx)]
      · simp [extend, deadline, slide, hs, hx, max_eq_left (not_lt.1 hx)]
    · by_cases hx : now + ttl > x.expiresAt
      all_goals simp [extend, deadline, slide, hs, hx, hi]

theorem InMemorySessionStore.deadline_create {now : Time} {token : String} {new : NewSession}
    {s t : InMemorySessionStore} (h : create now token new s = some t) :
    t.deadline = issue token (now + new.ttl) s.deadline ∨ t.deadline = s.deadline := by
  cases h
  left
  funext i
  by_cases hi : i = token
  · simp [deadline, issue, hi, NewSession.session]
  · simp [deadline, issue, hi]

/-- `InMemorySessionStore` keeps the expiry of each session. -/
def InMemorySessionStore.deadlines : Deadlines InMemorySessionStore.store where
  of := deadline
  validate_isSome := validate_isSome
  create := deadline_create
  extend := deadline_extend
  revoke := fun _ s => ⟨_, drop_of_deleteWhere s.sessions _ _⟩
  revokeAllForTenant := fun _ s => ⟨_, drop_of_deleteWhere s.sessions _ _⟩
  revokeUserSessions := fun _ _ s => ⟨_, drop_of_deleteWhere s.sessions _ _⟩
  updateUserInfo := fun _ _ _ _ _ => rfl

/-- In Postgres, the sessions whose user is found. -/
def PgSessionStore.deadline (s : PgSessionStore) (token : String) : Option Time :=
  (s.sessions.get? token).bind fun x => (s.joined x).map fun _ => x.expiresAt

theorem PgSessionStore.validate_isSome (s : PgSessionStore) :
    (s.validate now token).isSome ↔ Live s.deadline now token := by
  cases hs : s.sessions.get? token with
  | none => simp [validate, deadline, Live, hs]
  | some x =>
    cases hu : s.joined x with
    | none => simp [validate, deadline, Live, hs, hu]
    | some u =>
      by_cases hx : x.expiresAt > now
      all_goals simp [validate, deadline, Live, hs, hu, hx]

theorem PgSessionStore.deadline_create {now : Time} {token : String} {new : NewSession}
    {s t : PgSessionStore} (h : create now token new s = some t) :
    t.deadline = issue token (now + new.ttl) s.deadline ∨ t.deadline = s.deadline := by
  unfold create at h
  split at h <;> cases h
  rename_i hguard
  -- a session whose user is of another tenant is stored and never found
  cases hu : s.joined (new.session now) with
  | none =>
    right
    funext i
    by_cases hi : i = token
    · subst hi
      have hnone : s.sessions.get? i = none := Option.isNone_iff_eq_none.1 hguard.1
      have hu' : joined { s with sessions := s.sessions.upsert i (new.session now) } (new.session now) = none := hu
      simp [deadline, hnone, hu']
    · simp [deadline, hi, joined]
  | some u =>
    left
    funext i
    by_cases hi : i = token
    · subst hi
      have hu' : joined { s with sessions := s.sessions.upsert i (new.session now) } (new.session now) = some u := hu
      simp [deadline, issue, hu']
      rfl
    · simp [deadline, issue, hi, joined]

theorem PgSessionStore.deadline_extend (ttl : Time) (s : PgSessionStore) :
    (s.extend now token ttl).deadline = slide token (now + ttl) s.deadline := by
  funext i
  cases hs : s.sessions.get? i with
  | none => simp [extend, deadline, slide, hs]
  | some x =>
    by_cases hi : i = token
    · subst hi
      simp [extend, deadline, slide, hs, joined, Function.comp_def]
    · simp [extend, deadline, slide, hs, hi, joined]

theorem PgSessionStore.deadline_updateUserInfo (tenantId : Int) (userId : ℕ) (role : UserRole)
    (emailVerified : Bool) (s : PgSessionStore) :
    (s.updateUserInfo tenantId userId role emailVerified).deadline = s.deadline := by
  funext i
  cases hs : s.sessions.get? i with
  | none => simp [updateUserInfo, deadline, hs]
  | some x =>
    cases hu : s.users.get? x.userId with
    | none => simp [updateUserInfo, deadline, joined, hs, hu]
    | some u =>
      -- the update leaves the tenant of a user as it is
      by_cases hset : x.userId = userId ∧ u.tenantId = tenantId
      · obtain ⟨rfl, rfl⟩ := hset
        by_cases hx : x.tenantId = u.tenantId
        all_goals simp [updateUserInfo, deadline, joined, hs, hu, hx, Option.filter]
      · simp [updateUserInfo, deadline, joined, hs, hu, hset, Option.filter]

/-- `PgSessionStore` keeps the expiry of each session whose user is found. -/
def PgSessionStore.deadlines : Deadlines PgSessionStore.store where
  of := deadline
  validate_isSome := validate_isSome
  create := deadline_create
  extend := deadline_extend
  revoke := fun _ s => ⟨_, drop_of_deleteWhere s.sessions _ _⟩
  revokeAllForTenant := fun _ s => ⟨_, drop_of_deleteWhere s.sessions _ _⟩
  revokeUserSessions := fun _ _ s => ⟨_, drop_of_deleteWhere s.sessions _ _⟩
  updateUserInfo := deadline_updateUserInfo

/-! ## Dead tokens -/

/-- The second call of a request finds the session of `k` stored and expired, and slides it. -/
def Revives {S : SessionStore σ} (D : Deadlines S) (sessionTtl : Time) (k : String) (e : Edge (State σ) Act) : Prop :=
  e.label = .extend k ∧ 0 < sessionTtl ∧ ∃ t, D.of e.src.store k = some t ∧ t ≤ e.src.clock

/-- The token is refused. -/
def Dead (S : SessionStore σ) (k : String) (s : State σ) : Prop := S.validate s.clock k s.store = none

instance (S : SessionStore σ) (k : String) (s : State σ) : Decidable (Dead S k s) :=
  inferInstanceAs (Decidable (S.validate s.clock k s.store = none))

section

variable {S : SessionStore σ} (D : Deadlines S) {sessionTtl : Time} {k : String}

theorem Deadlines.dead_iff (s : State σ) : Dead S k s ↔ ¬ Live (D.of s.store) s.clock k := by
  rw [← D.validate_isSome, Dead, Option.not_isSome_iff_eq_none]

/-- A token that was issued stays issued, and no step but a slide of its expired session makes it live. -/
theorem live_step {s t : State σ} {a : Act} (h : step S sessionTtl s a = some t) (hk : k ∈ s.issued) :
    k ∈ t.issued ∧ (Live (D.of t.store) t.clock k →
      Live (D.of s.store) s.clock k ∨ Revives D sessionTtl k ⟨s, a, t⟩) := by
  cases a with
  | create now token new =>
    simp only [step] at h
    split at h
    · cases h
    next hfresh =>
      obtain ⟨st, hst, rfl⟩ := Option.map_eq_some_iff.1 h
      have hne : k ≠ token := fun heq => hfresh (heq ▸ hk)
      refine ⟨List.mem_cons_of_mem _ hk, fun hlive => .inl ?_⟩
      rcases D.create hst with hof | hof
      · exact (live_congr (by rw [hof, issue_of_ne hne])).1 hlive
      · exact (live_congr (by rw [hof])).1 hlive
  | validate token =>
    simp only [step] at h
    split at h
    all_goals
      cases h
      exact ⟨hk, .inl⟩
  | extend token =>
    simp only [step] at h
    split at h <;> cases h
    refine ⟨hk, fun hlive => ?_⟩
    rw [D.extend, live_slide_iff] at hlive
    rcases hlive with hlive | ⟨rfl, hstored, hlt⟩
    · exact .inl hlive
    · obtain ⟨x, hx⟩ := Option.isSome_iff_exists.1 hstored
      -- a session that is still stored was alive, or has expired and is revived
      rcases lt_or_ge s.clock x with halive | hexpired
      · exact .inl ⟨x, hx, halive⟩
      · exact .inr ⟨rfl, (lt_add_iff_pos_right _).1 hlt, x, hx, hexpired⟩
  | revoke token =>
    cases h
    obtain ⟨p, hp⟩ := D.revoke token s.store
    exact ⟨hk, fun hlive => .inl (Live.of_drop (hp ▸ hlive))⟩
  | revokeAllForTenant tenantId =>
    cases h
    obtain ⟨p, hp⟩ := D.revokeAllForTenant tenantId s.store
    exact ⟨hk, fun hlive => .inl (Live.of_drop (hp ▸ hlive))⟩
  | revokeUserSessions tenantId userId =>
    cases h
    obtain ⟨p, hp⟩ := D.revokeUserSessions tenantId userId s.store
    exact ⟨hk, fun hlive => .inl (Live.of_drop (hp ▸ hlive))⟩
  | updateUserInfo tenantId userId role emailVerified =>
    cases h
    refine ⟨hk, fun hlive => .inl ?_⟩
    rwa [D.updateUserInfo] at hlive
  | tick elapsed =>
    simp only [step] at h
    split at h <;> cases h
    next helapsed => exact ⟨hk, fun hlive => .inl (hlive.of_le (le_add_of_nonneg_right helapsed))⟩

theorem live_of_revives {e : Edge (State σ) Act} (h : step S sessionTtl e.src e.label = some e.dst)
    (hr : Revives D sessionTtl k e) : Live (D.of e.dst.store) e.dst.clock k := by
  obtain ⟨hlabel, hpos, x, hx, -⟩ := hr
  rw [hlabel] at h
  simp only [step] at h
  split at h
  · obtain hdst := Option.some.inj h
    rw [← hdst, D.extend, live_slide_iff]
    exact .inr ⟨rfl, by rw [hx]; rfl, lt_add_of_pos_right _ hpos⟩
  · cases h

/-- Over either store: a dead token is refused for the rest of the run exactly if no request slides its
    expired session. -/
theorem Deadlines.stays_dead_iff {s u : State σ} {es : List (Edge (State σ) Act)}
    (r : Run (Fires (step S sessionTtl)) s es u) (hk : k ∈ s.issued) (hdead : Dead S k s) :
    (∀ e ∈ es, Dead S k e.dst) ↔ ∀ e ∈ es, ¬ Revives D sessionTtl k e := by
  have hedge : ∀ e ∈ es, step S sessionTtl e.src e.label = some e.dst :=
    fun e he => (r.edge_invariant (I := fun _ => True) trivial (fun _ _ _ _ _ => trivial) e he).1
  constructor
  · intro hall e he hr
    exact (D.dead_iff _).1 (hall e he) (live_of_revives D (hedge e he) hr)
  · intro hnone e he
    have hkept := r.edges_where (C := fun e => ¬ Revives D sessionTtl k e)
      (I := fun t => k ∈ t.issued ∧ Dead S k t) ⟨hk, hdead⟩ ?_ hnone
    · exact (hkept.2 e he).2.2.2
    · rintro ⟨t, a, v⟩ hstep hno ⟨hkt, hdt⟩
      obtain ⟨hkv, hlive⟩ := live_step D hstep hkt
      refine ⟨hkv, (D.dead_iff _).2 fun hl => ?_⟩
      rcases hlive hl with hl | hr
      · exact (D.dead_iff _).1 hdt hl
      · exact hno hr

end

/-- For either store, from any state: once an issued token is dead, it is refused for the rest of the run
    exactly if no request that validated it before slides its expired session afterwards. -/
theorem dead_session_stays_dead_iff (sessionTtl : Time) (k : String) :
    (∀ (s u : State InMemorySessionStore) (es : List (Edge (State InMemorySessionStore) Act)),
      Run (Fires (step InMemorySessionStore.store sessionTtl)) s es u → k ∈ s.issued →
      Dead InMemorySessionStore.store k s →
      ((∀ e ∈ es, Dead InMemorySessionStore.store k e.dst) ↔
        ∀ e ∈ es, ¬ Revives InMemorySessionStore.deadlines sessionTtl k e)) ∧
    (∀ (s u : State PgSessionStore) (es : List (Edge (State PgSessionStore) Act)),
      Run (Fires (step PgSessionStore.store sessionTtl)) s es u → k ∈ s.issued →
      Dead PgSessionStore.store k s →
      ((∀ e ∈ es, Dead PgSessionStore.store k e.dst) ↔
        ∀ e ∈ es, ¬ Revives PgSessionStore.deadlines sessionTtl k e)) :=
  ⟨fun _ _ _ r hk hdead => InMemorySessionStore.deadlines.stays_dead_iff r hk hdead,
    fun _ _ _ r hk hdead => PgSessionStore.deadlines.stays_dead_iff r hk hdead⟩

/-- A database with one tenant and one user. -/
def oneUser : PgSessionStore := ⟨.empty, Serial.empty.insert ⟨1, .member, true⟩, [1]⟩

/-- A session of ten seconds. -/
def tenSeconds : NewSession := ⟨1, 1, .member, true, 10⟩

/-- Its session expired a second ago, and no request is under way. -/
def expired (withSession : Keyed String Session → σ) : State σ :=
  ⟨11, withSession (Keyed.empty.upsert "a" (tenSeconds.session 0)), ["a"], []⟩

/-- A new request presents the token, and time passes. -/
def newRequest : List Act := [.validate "a", .tick 1]

/-- In memory and in Postgres alike, an expired session that only new requests present stays dead. -/
theorem expired_session_stays_dead :
    (∃ es u, Run (Fires (step InMemorySessionStore.store 86400)) (expired (⟨·, .empty⟩)) es u ∧
      es.map Edge.label = newRequest ∧ ∀ e ∈ es, Dead InMemorySessionStore.store "a" e.dst) ∧
    (∃ es u, Run (Fires (step PgSessionStore.store 86400)) (expired ({ oneUser with sessions := · })) es u ∧
      es.map Edge.label = newRequest ∧ ∀ e ∈ es, Dead PgSessionStore.store "a" e.dst) := by
  constructor
  · refine exists_run_of_imp (fun es _ => ∀ e ∈ es, e.label ≠ .extend "a") (by decide +kernel) fun es u r hlabel => ?_
    refine ((dead_session_stays_dead_iff 86400 "a").1 _ _ _ r (by decide) (by decide +kernel)).2 ?_
    exact fun e he hr => hlabel e he hr.1
  · refine exists_run_of_imp (fun es _ => ∀ e ∈ es, e.label ≠ .extend "a") (by decide +kernel) fun es u r hlabel => ?_
    refine ((dead_session_stays_dead_iff 86400 "a").2 _ _ _ r (by decide) (by decide +kernel)).2 ?_
    exact fun e he hr => hlabel e he hr.1

/-- A request validates its token a second before the session expires and slides it a second after. -/
def lateSlide : List Act := [.create 0 "a" tenSeconds, .tick 9, .validate "a", .tick 2, .extend "a"]

/-- In between every request is refused, afterwards none is. -/
theorem expired_session_revived :
    (∃ es u, Run (Fires (step InMemorySessionStore.store 86400)) (.initial .new 0) es u ∧
      (∃ e ∈ es, "a" ∈ e.src.issued ∧ Dead InMemorySessionStore.store "a" e.src) ∧
      ¬ Dead InMemorySessionStore.store "a" u) ∧
    (∃ es u, Run (Fires (step PgSessionStore.store 86400)) (.initial oneUser 0) es u ∧
      (∃ e ∈ es, "a" ∈ e.src.issued ∧ Dead PgSessionStore.store "a" e.src) ∧
      ¬ Dead PgSessionStore.store "a" u) :=
  ⟨exists_run_where lateSlide (by decide +kernel), exists_run_where lateSlide (by decide +kernel)⟩

end Sessions

end Tagsmaxxing
