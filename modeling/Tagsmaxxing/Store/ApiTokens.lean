import Tagsmaxxing.Store.Sessions

/-! # API tokens (`api_token_store.rs`)

Both stores of API tokens beside each other, with the table `users` that only the Postgres store reads. A history gives
both the same calls at the same times; a revocation gives each store the id that its caller has for the token. One clock
serves both, in the resolution of Postgres.

The column `id` is a `SERIAL`, so an `INT4`, and the Postgres store reads it as an `i64`, which sqlx refuses. Its
`create_token` therefore fails after the `INSERT`, its `list_tokens` shows every token under the id 0, and the ids it
tells revoke nothing.

`generate_api_token` draws 256 random bits: no drawn token has the hash of one that is stored. -/

namespace Tagsmaxxing.ApiTokens

open Option Transition

def defaultApiTokenTtlSecs : Time := 365 * 86400

/-- `Duration::MAX`. -/
def durationMax : Time := 18446744073709551615999999999 / 1000000000

/-- `TimeDelta::MAX`, the longest duration `from_std` accepts. -/
def timeDeltaMax : Time := 9223372036854775807 / 1000

/-- `DateTime::<Utc>::MAX_UTC`, beyond which an addition panics. -/
def maxUtc : Time := 8210266876799999999999 / 1000000000

/-- The TTL that counts: zero and the maximum stand for the default. -/
def effectiveTtl (ttl : Time) : Time :=
  if ttl = 0 ∨ ttl = durationMax then defaultApiTokenTtlSecs else ttl

/-- When a token expires; `none` where the computation fails or panics. -/
def expiresAt (now ttl : Time) : Option Time :=
  if effectiveTtl ttl ≤ timeDeltaMax ∧ now + effectiveTtl ttl ≤ maxUtc then some (now + effectiveTtl ttl)
  else none

/-- The arguments of `create_token`. -/
structure NewToken where
  tenantId : Int
  userId : ℕ
  userRole : UserRole
  emailVerified : Bool
  name : String
  ttl : Time
deriving DecidableEq

structure CreateTokenResult where
  id : ℕ
  rawToken : String
  name : String
  expiresAt : Time

structure ApiTokenMeta where
  id : ℕ
  name : String
  lastUsedAt : Option Time
  expiresAt : Time
  createdAt : Time

/-! ## `InMemoryApiTokenStore` -/

structure InMemoryToken where
  id : ℕ
  tenantId : Int
  userId : ℕ
  userRole : UserRole
  emailVerified : Bool
  name : String
  tokenHash : String
  lastUsedAt : Option Time
  expiresAt : Time
  createdAt : Time
  revoked : Bool

structure InMemoryApiTokenStore where
  tokens : Keyed String InMemoryToken
  byId : Keyed ℕ String
  nextId : ℕ

namespace InMemoryApiTokenStore

def new : InMemoryApiTokenStore := ⟨.empty, .empty, 1⟩

/-- The id is taken before the TTL is checked, so a failed call uses one up. -/
def createToken (hashApiToken : String → String) (now : Time) (rawToken : String) (args : NewToken)
    (s : InMemoryApiTokenStore) : Option CreateTokenResult × InMemoryApiTokenStore :=
  let id := s.nextId
  match ApiTokens.expiresAt now args.ttl with
  | none => (none, { s with nextId := s.nextId + 1 })
  | some expires =>
      let record : InMemoryToken :=
        { id := id, tenantId := args.tenantId, userId := args.userId, userRole := args.userRole
          emailVerified := args.emailVerified, name := args.name, tokenHash := hashApiToken rawToken
          lastUsedAt := none, expiresAt := expires, createdAt := now, revoked := false }
      (some ⟨id, rawToken, args.name, expires⟩,
        { tokens := s.tokens.upsert (hashApiToken rawToken) record
          byId := s.byId.upsert id rawToken
          nextId := s.nextId + 1 })

def listTokens (now : Time) (tenantId : Int) (s : InMemoryApiTokenStore) : List ApiTokenMeta :=
  (((s.tokens.rows.map Prod.snd).filter fun t =>
      t.tenantId == tenantId && !t.revoked && decide (t.expiresAt > now)).map fun t =>
    ⟨t.id, t.name, t.lastUsedAt, t.expiresAt, t.createdAt⟩).insertionSort fun a b => a.id ≤ b.id

def revokeToken (hashApiToken : String → String) (tenantId : Int) (tokenId : ℕ)
    (s : InMemoryApiTokenStore) : InMemoryApiTokenStore :=
  match s.byId.get? tokenId with
  | none => s
  | some rawToken =>
      { s with
        tokens := s.tokens.updateWhere
          (fun hash record => hash == hashApiToken rawToken && record.tenantId == tenantId)
          fun record => { record with revoked := true } }

def validateToken (hashApiToken : String → String) (now : Time) (token : String)
    (s : InMemoryApiTokenStore) : Option SessionInfo :=
  match s.tokens.get? (hashApiToken token) with
  | none => none
  | some record =>
      if !record.revoked && decide (record.expiresAt > now) then
        some ⟨record.tenantId, record.userId, record.userRole, record.emailVerified⟩
      else none

end InMemoryApiTokenStore

/-! ## `PgApiTokenStore` -/

/-- A row of `api_tokens`. -/
structure ApiTokenRow where
  tenantId : Int
  userId : ℕ
  name : String
  tokenHash : String
  lastUsedAt : Option Time
  expiresAt : Time
  createdAt : Time
  revoked : Bool

namespace PgApiTokenStore

/-- The types of integer columns. -/
inductive IntType
  | int4
  | int8

/-- `SERIAL`. -/
def idType : IntType := .int4

/-- `try_get` of an `i64`: sqlx holds it compatible with `INT8` only. -/
def tryGetI64 : IntType → ℕ → Option ℕ
  | .int4, _ => none
  | .int8, value => some value

/-- The role and the verification that the caller supplies are not stored. The row is, also where `try_get` fails. -/
def createToken (hashApiToken : String → String) (now : Time) (rawToken : String) (args : NewToken)
    (t : Serial ApiTokenRow) : Option CreateTokenResult × Serial ApiTokenRow :=
  match ApiTokens.expiresAt now args.ttl with
  | none => (none, t)
  | some expires =>
      ((tryGetI64 idType t.next).map fun id => ⟨id, rawToken, args.name, expires⟩,
        t.insert
          { tenantId := args.tenantId, userId := args.userId, name := args.name
            tokenHash := hashApiToken rawToken, lastUsedAt := none, expiresAt := expires
            createdAt := now, revoked := false })

def listTokens (now : Time) (tenantId : Int) (t : Serial ApiTokenRow) : List ApiTokenMeta :=
  ((t.rows.filter fun x =>
      x.2.tenantId == tenantId && !x.2.revoked && decide (x.2.expiresAt > now)).insertionSort
        fun a b => a.1 ≤ b.1).map fun x =>
    ⟨(tryGetI64 idType x.1).getD 0, x.2.name, x.2.lastUsedAt, x.2.expiresAt, x.2.createdAt⟩

def revokeToken (tenantId : Int) (tokenId : ℕ) (t : Serial ApiTokenRow) : Serial ApiTokenRow :=
  t.updateWhere (fun id row => id == tokenId && row.tenantId == tenantId) fun row =>
    { row with revoked := true }

/-- `JOIN users u ON u.id = t.user_id AND u.tenant_id = t.tenant_id`. -/
def joined (users : Serial UserRow) (row : ApiTokenRow) : Option UserRow :=
  (users.get? row.userId).filter fun u => u.tenantId == row.tenantId

def validateToken (hashApiToken : String → String) (now : Time) (token : String) (users : Serial UserRow)
    (t : Serial ApiTokenRow) : Option SessionInfo :=
  (t.rows.find? fun x =>
      x.2.tokenHash == hashApiToken token &&
        (!x.2.revoked && decide (x.2.expiresAt > now) && (joined users x.2).isSome)).bind fun x =>
    (joined users x.2).map fun u => ⟨x.2.tenantId, x.2.userId, u.role, u.emailVerified⟩

/-- The `UPDATE` after a successful validation. -/
def touch (hashApiToken : String → String) (now : Time) (token : String) (t : Serial ApiTokenRow) :
    Serial ApiTokenRow :=
  t.updateWhere (fun _ row => row.tokenHash == hashApiToken token) fun row =>
    { row with lastUsedAt := some now }

end PgApiTokenStore

/-! ## Histories -/

/-- Both stores with the users. -/
structure State where
  clock : Time
  users : Serial UserRow
  inMemory : InMemoryApiTokenStore
  pg : Serial ApiTokenRow

/-- No token yet. -/
def State.initial (users : Serial UserRow) (clock : Time) : State := ⟨clock, users, .new, .empty⟩

inductive Act
  | createUser (user : UserRow)
  | setRole (tenantId : Int) (userId : ℕ) (role : UserRole)
  | verifyEmail (tenantId : Int) (userId : ℕ)
  | deleteUser (tenantId : Int) (userId : ℕ)
  | createToken (rawToken : String) (args : NewToken)
  | listTokens (tenantId : Int)
  /-- with the id in memory and the one in Postgres -/
  | revokeToken (tenantId : Int) (tokenId pgId : ℕ)
  /-- `touched`: the update of `last_used_at` succeeds -/
  | validateToken (token : String) (touched : Bool)
  | tick (elapsed : Time)

def step (hashApiToken : String → String) (s : State) : Act → Option State
  | .createUser user => some { s with users := s.users.insert user }
  | .setRole tenantId userId role =>
      some { s with
        users := s.users.updateWhere (fun id u => id == userId && u.tenantId == tenantId) fun u =>
          { u with role := role } }
  | .verifyEmail tenantId userId =>
      some { s with
        users := s.users.updateWhere (fun id u => id == userId && u.tenantId == tenantId) fun u =>
          { u with emailVerified := true } }
  | .deleteUser tenantId userId =>
      if (s.users.get? userId).any fun u => u.tenantId == tenantId then
        some { s with users := s.users.erase userId }
      else some s
  | .createToken rawToken args =>
      if (s.inMemory.tokens.get? (hashApiToken rawToken)).isSome then none
      else
        some { s with
          inMemory := (s.inMemory.createToken hashApiToken s.clock rawToken args).2
          pg := (PgApiTokenStore.createToken hashApiToken s.clock rawToken args s.pg).2 }
  | .listTokens _ => some s
  | .revokeToken tenantId tokenId pgId =>
      some { s with
        inMemory := s.inMemory.revokeToken hashApiToken tenantId tokenId
        pg := PgApiTokenStore.revokeToken tenantId pgId s.pg }
  | .validateToken token touched =>
      if touched && (PgApiTokenStore.validateToken hashApiToken s.clock token s.users s.pg).isSome then
        some { s with pg := PgApiTokenStore.touch hashApiToken s.clock token s.pg }
      else some s
  | .tick elapsed => if 0 ≤ elapsed then some { s with clock := s.clock + elapsed } else none

/-! ## The simulation -/

/-- What both stores keep of a token from its creation on. -/
structure Issued where
  tenantId : Int
  userId : ℕ
  expiresAt : Time

def InMemoryToken.issued (r : InMemoryToken) : Issued := ⟨r.tenantId, r.userId, r.expiresAt⟩

def ApiTokenRow.issued (r : ApiTokenRow) : Issued := ⟨r.tenantId, r.userId, r.expiresAt⟩

/-- The row with a hash. -/
def byHash (t : Serial ApiTokenRow) (hash : String) : Option (ℕ × ApiTokenRow) :=
  t.rows.find? fun x => x.2.tokenHash == hash

/-- Both stores hold the same tokens. The ids in Postgres start at one. -/
structure Agree (mem : InMemoryApiTokenStore) (pg : Serial ApiTokenRow) : Prop where
  same : ∀ h, (mem.tokens.get? h).map InMemoryToken.issued = (byHash pg h).map (·.2.issued)
  unique : (pg.rows.map (·.2.tokenHash)).Nodup
  pos : 0 < pg.next ∧ ∀ x ∈ pg.rows, 0 < x.1

theorem byHash_insert (t : Serial ApiTokenRow) (row : ApiTokenRow) (h : String) :
    byHash (t.insert row) h = (byHash t h).or (if row.tokenHash = h then some (t.next, row) else none) := by
  simp [byHash, Serial.insert, List.find?_append, List.find?_singleton]

section

variable {p : ℕ → ApiTokenRow → Bool} {f : ApiTokenRow → ApiTokenRow} (hf : ∀ row, (f row).tokenHash = row.tokenHash)

include hf

theorem tokenHash_update (x : ℕ × ApiTokenRow) :
    (if p x.1 x.2 then (x.1, f x.2) else x).2.tokenHash = x.2.tokenHash := by
  split
  · exact hf x.2
  · rfl

/-- An update that keeps the hashes rewrites the row that is found. -/
theorem byHash_updateWhere (t : Serial ApiTokenRow) (h : String) :
    byHash (t.updateWhere p f) h = (byHash t h).map fun x => if p x.1 x.2 then (x.1, f x.2) else x := by
  simp only [byHash, Serial.updateWhere, List.find?_map, Function.comp_def, tokenHash_update hf]

theorem tokenHash_updateWhere (t : Serial ApiTokenRow) :
    (t.updateWhere p f).rows.map (·.2.tokenHash) = t.rows.map (·.2.tokenHash) := by
  simp only [Serial.updateWhere, List.map_map, Function.comp_def, tokenHash_update hf]

end

section

variable {hashApiToken : String → String} {mem : InMemoryApiTokenStore} {pg : Serial ApiTokenRow}

theorem Agree.initial : Agree .new .empty where
  same := fun _ => rfl
  unique := List.nodup_nil
  pos := ⟨Nat.one_pos, by simp⟩

section

variable (hs : Agree mem pg)

include hs

theorem Agree.updateWhere {p : ℕ → ApiTokenRow → Bool} {f : ApiTokenRow → ApiTokenRow}
    (hhash : ∀ row, (f row).tokenHash = row.tokenHash) (hissued : ∀ row, (f row).issued = row.issued) :
    Agree mem (pg.updateWhere p f) where
  same := by
    intro h
    rw [hs.same h, byHash_updateWhere hhash, map_map]
    refine Option.map_congr fun x _ => ?_
    simp only [Function.comp_apply]
    split
    · exact (hissued x.2).symm
    · rfl
  unique := (tokenHash_updateWhere hhash pg).symm ▸ hs.unique
  pos := by
    refine ⟨hs.pos.1, List.forall_mem_map.2 fun x hx => ?_⟩
    split <;> exact hs.pos.2 x hx

theorem Agree.touch (now : Time) (token : String) : Agree mem (PgApiTokenStore.touch hashApiToken now token pg) :=
  hs.updateWhere (by simp) (by simp [ApiTokenRow.issued])

theorem Agree.pgRevoke (tenantId : Int) (pgId : ℕ) : Agree mem (PgApiTokenStore.revokeToken tenantId pgId pg) :=
  hs.updateWhere (by simp) (by simp [ApiTokenRow.issued])

theorem Agree.revoke (tenantId : Int) (tokenId : ℕ) :
    Agree (mem.revokeToken hashApiToken tenantId tokenId) pg := by
  unfold InMemoryApiTokenStore.revokeToken
  split
  · exact hs
  · refine ⟨fun h => ?_, hs.unique, hs.pos⟩
    rw [← hs.same h, Keyed.get?_updateWhere, map_map]
    refine Option.map_congr fun r _ => ?_
    simp only [Function.comp_apply]
    split <;> rfl

theorem Agree.created {rawToken : String} {record : InMemoryToken} {row : ApiTokenRow} {byId : Keyed ℕ String}
    {nextId : ℕ} (hnew : mem.tokens.get? (hashApiToken rawToken) = none)
    (hrow : row.tokenHash = hashApiToken rawToken) (hissued : record.issued = row.issued) :
    Agree ⟨mem.tokens.upsert (hashApiToken rawToken) record, byId, nextId⟩ (pg.insert row) := by
  have hpgnew : byHash pg (hashApiToken rawToken) = none := by
    have hsame := hs.same (hashApiToken rawToken)
    rwa [hnew, map_none, eq_comm, map_eq_none_iff] at hsame
  have hapart : ∀ x ∈ pg.rows, x.2.tokenHash ≠ hashApiToken rawToken := by
    intro x hx
    simpa using List.find?_eq_none.1 hpgnew x hx
  refine ⟨?_, ?_, Nat.succ_pos _, List.forall_mem_append.2 ⟨hs.pos.2, by simpa using hs.pos.1⟩⟩
  · intro h
    rw [byHash_insert, hrow]
    by_cases hh : h = hashApiToken rawToken
    · subst hh
      simp [hpgnew, hissued]
    · simp [hh, Ne.symm hh, hs.same h]
  · rw [Serial.insert, List.map_append, List.map_singleton, ← List.concat_eq_append]
    exact hs.unique.concat (by simpa [hrow] using hapart)

/-- No id that the Postgres store tells revokes a token: creations tell none, and listings 0. -/
theorem Agree.told_id_revokes_nothing (now : Time) (rawToken : String) (args : NewToken) (tenantId : Int) :
    (PgApiTokenStore.createToken hashApiToken now rawToken args pg).1 = none ∧
      ∀ listed ∈ PgApiTokenStore.listTokens now tenantId pg,
        (PgApiTokenStore.revokeToken tenantId listed.id pg).rows = pg.rows := by
  constructor
  · unfold PgApiTokenStore.createToken
    split <;> rfl
  · intro listed hlisted
    obtain ⟨_, _, rfl⟩ := List.mem_map.1 hlisted
    refine (List.map_congr_left fun x hx => ?_).trans (List.map_id _)
    simp [PgApiTokenStore.tryGetI64, PgApiTokenStore.idType, (hs.pos.2 x hx).ne']

end

theorem agree_step {s t : State} {a : Act} (h : step hashApiToken s a = some t) (hs : Agree s.inMemory s.pg) :
    Agree t.inMemory t.pg := by
  cases a with
  | createUser | setRole | verifyEmail | listTokens =>
    cases h
    exact hs
  | deleteUser tenantId userId =>
    simp only [step] at h
    split at h
    all_goals
      cases h
      exact hs
  | createToken rawToken args =>
    simp only [step] at h
    split at h
    · cases h
    next hnew =>
      rw [not_isSome_iff_eq_none] at hnew
      -- both stores compute the expiry alike, so both store the token or none does
      cases hexp : expiresAt s.clock args.ttl with
      | none =>
        simp only [InMemoryApiTokenStore.createToken, PgApiTokenStore.createToken, hexp] at h
        cases h
        exact ⟨hs.same, hs.unique, hs.pos⟩
      | some expires =>
        simp only [InMemoryApiTokenStore.createToken, PgApiTokenStore.createToken, hexp] at h
        cases h
        exact hs.created hnew rfl rfl
  | revokeToken tenantId tokenId pgId =>
    cases h
    exact (hs.revoke tenantId tokenId).pgRevoke tenantId pgId
  | validateToken token touched =>
    simp only [step] at h
    split at h <;> cases h
    · exact hs.touch s.clock token
    · exact hs
  | tick elapsed =>
    simp only [step] at h
    split at h <;> cases h
    exact hs

theorem agree_run {users : Serial UserRow} {clock : Time} {s : State} {es : List (Edge State Act)}
    (r : Run (Fires (step hashApiToken)) (.initial users clock) es s) : Agree s.inMemory s.pg :=
  r.invariant (I := fun s => Agree s.inMemory s.pg) Agree.initial fun _ _ _ => agree_step

end

/-! ## When the answers agree -/

/-- The token is unknown or expired; or revoked in memory, and in Postgres as well or without its user; or revoked
    nowhere, with its user still as they were when it was created. -/
def Current (hashApiToken : String → String) (s : State) (token : String) : Prop :=
  ∀ r, s.inMemory.tokens.get? (hashApiToken token) = some r → ∀ x, byHash s.pg (hashApiToken token) = some x →
    r.expiresAt ≤ s.clock ∨
    (r.revoked = true ∧ (x.2.revoked = true ∨ PgApiTokenStore.joined s.users x.2 = none)) ∨
    (r.revoked = false ∧ x.2.revoked = false ∧
      s.users.get? r.userId = some ⟨r.tenantId, r.userRole, r.emailVerified⟩)

/-- Postgres looks the row up by its hash and then tests it. -/
theorem validateToken_eq {hashApiToken : String → String} {mem : InMemoryApiTokenStore}
    {pg : Serial ApiTokenRow} (hs : Agree mem pg) (now : Time) (token : String) (users : Serial UserRow) :
    PgApiTokenStore.validateToken hashApiToken now token users pg =
      (byHash pg (hashApiToken token)).bind fun x =>
        if !x.2.revoked && decide (x.2.expiresAt > now) then
          (PgApiTokenStore.joined users x.2).map fun u => ⟨x.2.tenantId, x.2.userId, u.role, u.emailVerified⟩
        else none := by
  have hunique : ∀ x ∈ pg.rows, ∀ y ∈ pg.rows, (x.2.tokenHash == hashApiToken token) = true →
      (y.2.tokenHash == hashApiToken token) = true → x = y := by
    intro x hx y hy hxh hyh
    rw [beq_iff_eq] at hxh hyh
    exact List.inj_on_of_nodup_map hs.unique hx hy (hxh.trans hyh.symm)
  rw [PgApiTokenStore.validateToken, find?_and_of_unique hunique, ← byHash]
  cases byHash pg (hashApiToken token) with
  | none => rfl
  | some x =>
    cases hvalid : !x.2.revoked && decide (x.2.expiresAt > now) with
    | false => simp only [Option.filter, hvalid, Bool.false_and, Bool.false_eq_true, if_false,
        bind_some, bind_none]
    | true =>
      cases hu : PgApiTokenStore.joined users x.2 with
      | none => simp only [Option.filter, hvalid, hu, isSome_none, Bool.and_false,
          Bool.false_eq_true, if_false, if_true, bind_some, bind_none, map_none]
      | some u => simp only [Option.filter, hvalid, hu, isSome_some, Bool.and_true, if_true,
          bind_some]

/-- After any history, for any token presented: both stores give the same answer exactly if the token is unknown or
    expired, or revoked in both (or in memory, with its user gone), or revoked in none, with the tenant, role and
    verification of its user as they were given when it was created. -/
theorem token_stores_agree_iff {hashApiToken : String → String} {users : Serial UserRow} {clock : Time}
    {s : State} {es : List (Edge State Act)}
    (r : Run (Fires (step hashApiToken)) (.initial users clock) es s) (token : String) :
    s.inMemory.validateToken hashApiToken s.clock token =
        PgApiTokenStore.validateToken hashApiToken s.clock token s.users s.pg ↔
      Current hashApiToken s token := by
  have hs := agree_run r
  have hsame := hs.same (hashApiToken token)
  rw [validateToken_eq hs, InMemoryApiTokenStore.validateToken, Current]
  cases hr : s.inMemory.tokens.get? (hashApiToken token) with
  | none =>
    rw [hr, map_none, eq_comm, map_eq_none_iff] at hsame
    simp [hsame]
  | some record =>
    rw [hr, map_some, eq_comm] at hsame
    obtain ⟨x, hx, hissued⟩ := map_eq_some_iff.1 hsame
    have htenant : x.2.tenantId = record.tenantId := congrArg Issued.tenantId hissued
    have huser : x.2.userId = record.userId := congrArg Issued.userId hissued
    have hexpires : x.2.expiresAt = record.expiresAt := congrArg Issued.expiresAt hissued
    simp only [hx, bind_some, hexpires, htenant, huser, Option.some.injEq, forall_eq']
    by_cases hlive : record.expiresAt ≤ s.clock
    · have hover : ¬record.expiresAt > s.clock := not_lt.2 hlive
      simp [hlive, hover]
    · have hlater : record.expiresAt > s.clock := not_le.1 hlive
      cases record.revoked <;> cases x.2.revoked
      · -- valid in both, so the user decides
        simp only [hlive, hlater, Bool.not_false, decide_true, Bool.and_true, if_true, Bool.false_eq_true, false_and,
          true_and, false_or]
        rw [PgApiTokenStore.joined, huser, htenant]
        cases hu : s.users.get? record.userId with
        | none => simp
        | some u =>
          obtain ⟨tenantId, role, emailVerified⟩ := u
          by_cases hut : tenantId = record.tenantId
          · simp [Option.filter, hut, eq_comm]
          · simp [Option.filter, hut]
      all_goals simp [hlive, hlater, eq_comm (a := none)]

/-! ### One token of one administrator -/

/-- Tenant 1 has one user, an administrator. -/
def oneAdmin : Serial UserRow := Serial.empty.insert ⟨1, .admin, true⟩

/-- A token of that user, with the default TTL. -/
def adminToken : NewToken := ⟨1, 1, .admin, true, "cli", 0⟩

theorem expiresAt_adminToken : expiresAt 0 adminToken.ttl = some 31536000 := by decide +kernel

/-- Both stores after its creation. -/
def created (hashApiToken : String → String) : State where
  clock := 0
  users := oneAdmin
  inMemory :=
    { tokens := Keyed.empty.upsert (hashApiToken "a")
        ⟨1, 1, 1, .admin, true, "cli", hashApiToken "a", none, 31536000, 0, false⟩
      byId := Keyed.empty.upsert 1 "a"
      nextId := 2 }
  pg := Serial.empty.insert ⟨1, 1, "cli", hashApiToken "a", none, 31536000, 0, false⟩

theorem step_created (hashApiToken : String → String) :
    step hashApiToken (.initial oneAdmin 0) (.createToken "a" adminToken) = some (created hashApiToken) := by
  simp only [step, State.initial, InMemoryApiTokenStore.createToken, PgApiTokenStore.createToken,
    expiresAt_adminToken]
  rfl

/-- With the administrator as they were, both stores accept the token with the same answer. -/
theorem unchanged_admin_agrees :
    (created id).inMemory.validateToken id 0 "a" =
      PgApiTokenStore.validateToken id 0 "a" (created id).users (created id).pg := by
  refine (token_stores_agree_iff (Run.snoc .nil (step_created id)) "a").2 ?_
  rintro r ⟨⟩ x ⟨⟩
  exact .inr (.inr ⟨rfl, rfl, rfl⟩)

/-- An administrator creates a token and is made a member, or deleted. In memory the token stays one of an
    administrator; in Postgres it is one of a member, or none. If they revoke it, by the ids that the stores list, it
    is gone in memory and accepted in Postgres. -/
theorem changed_admin_keeps_token :
    (∃ es s, Run (Fires (step id)) (.initial oneAdmin 0) es s ∧
      s.inMemory.validateToken id s.clock "a" = some ⟨1, 1, .admin, true⟩ ∧
      PgApiTokenStore.validateToken id s.clock "a" s.users s.pg = some ⟨1, 1, .member, true⟩) ∧
    (∃ es s, Run (Fires (step id)) (.initial oneAdmin 0) es s ∧
      s.inMemory.validateToken id s.clock "a" = some ⟨1, 1, .admin, true⟩ ∧
      PgApiTokenStore.validateToken id s.clock "a" s.users s.pg = none) ∧
    ((created id).inMemory.listTokens 0 1).map ApiTokenMeta.id = [1] ∧
    (PgApiTokenStore.listTokens 0 1 (created id).pg).map ApiTokenMeta.id = [0] ∧
    (∃ es s, Run (Fires (step id)) (.initial oneAdmin 0) es s ∧
      s.inMemory.validateToken id s.clock "a" = none ∧
      PgApiTokenStore.validateToken id s.clock "a" s.users s.pg = some ⟨1, 1, .admin, true⟩) := by
  refine ⟨exists_run_where [.createToken "a" adminToken, .setRole 1 1 .member] (by decide +kernel),
    exists_run_where [.createToken "a" adminToken, .deleteUser 1 1] (by decide +kernel), by decide +kernel,
    by decide +kernel, exists_run_where [.createToken "a" adminToken, .revokeToken 1 1 0] (by decide +kernel)⟩

end Tagsmaxxing.ApiTokens
