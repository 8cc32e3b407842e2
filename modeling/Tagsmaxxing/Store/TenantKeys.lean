import Tagsmaxxing.Core.Json
import Tagsmaxxing.Core.Kek
import Tagsmaxxing.Lib.Table
import Tagsmaxxing.Lib.Threads

/-! # The data key of a tenant (`data_key.rs`, `PgStore::get_or_create_tenant_dek`)

Column encryption uses one data encryption key per tenant, stored wrapped, as the JSON of a `DataKey` in
`tenant_data_keys`; the first call for a tenant generates it. The lookup and the insert are two statements, so two
first calls may both generate a key. The insert has no `ON CONFLICT`: the primary key refuses the second one, and that
call returns an error. The calls are `Thread`s over the database, and the results hold for every interleaving of their
statements, every failure of a statement and every key drawn. Deserializing a UUID is a parameter, as the KEK is. -/

namespace Tagsmaxxing

open Exec

structure Uuid where
  bytes : List.Vector UInt8 16
deriving DecidableEq

/-- The text form of a UUID, and which texts are read as one. -/
structure UuidText where
  format : Uuid → String
  parse : String → Option Uuid
  parse_format : ∀ u, parse (format u) = some u

structure DataKey where
  id : Uuid
  wrappedDek : List UInt8
  kekId : String
deriving DecidableEq

/-- What a call draws to make a key: its bytes, the randomness of `wrap`, and a UUID. -/
structure KeyDraws (ρ : Type) where
  rawDek : Fill 32
  wrap : ρ
  uuid : Uuid

namespace DataKey

def generate {ρ : Type} (kek : KeyEncryptionKey ρ) (kekId : String) (draws : KeyDraws ρ) : Exec DataKey := do
  let rawDek ← filled "failed to generate random DEK: " draws.rawDek
  let wrappedDek ← kek.wrap draws.wrap rawDek.toList
  return ⟨draws.uuid, wrappedDek, kekId⟩

/-- `#[derive(Serialize)]`. -/
def toValue (text : UuidText) (key : DataKey) : Json :=
  .obj [("id", .str (text.format key.id)),
    ("wrapped_dek", .arr (key.wrappedDek.map fun b => .int b.toNat)),
    ("kek_id", .str key.kekId)]

/-- A number as a byte. -/
def byteOfValue : Json → Option UInt8
  | .int n => if 0 ≤ n ∧ n < 256 then some (UInt8.ofNat n.toNat) else none
  | _ => none

/-- An array of numbers as bytes. -/
def bytesOfValue : Json → Option (List UInt8)
  | .arr xs => xs.mapM byteOfValue
  | _ => none

/-- The record whose three fields are given. -/
def ofFields (text : UuidText) (id wrappedDek kekId : Json) : Option DataKey := do
  return ⟨← text.parse (← id.asStr), ← bytesOfValue wrappedDek, ← kekId.asStr⟩

/-- `#[derive(Deserialize)]`: an object, or an array in the order of the fields. -/
def fromValue (text : UuidText) : Json → Option DataKey
  | .obj fields => do
      ofFields text (← fields.lookup "id") (← fields.lookup "wrapped_dek") (← fields.lookup "kek_id")
  | .arr [id, wrappedDek, kekId] => ofFields text id wrappedDek kekId
  | _ => none

theorem byteOfValue_int (b : UInt8) : byteOfValue (.int b.toNat) = some b := by
  have hlt : b.toNat < 256 := b.toNat_lt
  have hrange : (0 : Int) ≤ b.toNat ∧ (b.toNat : Int) < 256 := by omega
  rw [byteOfValue, if_pos hrange, Int.toNat_natCast, UInt8.ofNat_toNat]

theorem bytesOfValue_arr (bs : List UInt8) :
    bytesOfValue (.arr (bs.map fun b => .int b.toNat)) = some bs := by
  show (bs.map fun b => Json.int b.toNat).mapM byteOfValue = some bs
  induction bs with
  | nil => rfl
  | cons b bs ih => simp [List.mapM_cons, byteOfValue_int, ih]

theorem fromValue_toValue (text : UuidText) (key : DataKey) : fromValue text (key.toValue text) = some key := by
  simp [fromValue, toValue, ofFields, Json.asStr, text.parse_format, bytesOfValue_arr, List.lookup_cons]

end DataKey

/-! ## The store -/

inductive DecryptAuditAction
  | unwrapDek
  | unwrapProviderKey

def DecryptAuditAction.asStr : DecryptAuditAction → String
  | .unwrapDek => "unwrap_dek"
  | .unwrapProviderKey => "unwrap_provider_key"

/-- A row of `decrypt_audit`. -/
structure DecryptAuditRow where
  tenantId : Int
  operation : String
  keyId : String
  userId : Option Int
  success : Bool

/-- The tables a data key touches. -/
structure KeyDb where
  tenants : List Int
  tenantDataKeys : Keyed Int Json
  decryptAudit : Serial DecryptAuditRow

namespace KeyDb

/-- Whether `INSERT INTO tenant_data_keys` of a tenant's row meets the table's constraints: the tenant exists
    and has no row. -/
def acceptsKey (db : KeyDb) (tenantId : Int) : Bool :=
  decide (tenantId ∈ db.tenants) && (db.tenantDataKeys.get? tenantId).isNone

/-- `INSERT INTO tenant_data_keys (tenant_id, data_key_json) VALUES ($1, $2)`. -/
def insertKey (tenantId : Int) (json : Json) (db : KeyDb) : KeyDb :=
  if db.acceptsKey tenantId then
    { db with tenantDataKeys := db.tenantDataKeys.insertNew tenantId json }
  else db

end KeyDb

/-- What `PgStore` keeps in memory: the KEK, if one is configured, and whether there is an admin pool. -/
structure PgStore (ρ : Type) where
  kek : Option (KeyEncryptionKey ρ)
  connected : Bool

namespace PgStore

variable {ρ : Type}

def adminPool (store : PgStore ρ) : Thread KeyDb Unit :=
  Thread.lift (ensure (store.connected = true)
    "PgStore is not connected — call connect() before using Store methods")

def insertDecryptAuditEvent (store : PgStore ρ) (tenantId : Int) (operation : DecryptAuditAction)
    (keyId : String) (userId : Option Int) (success : Bool) : Thread KeyDb ℕ := do
  store.adminPool
  Thread.run "failed to insert decrypt audit event"
    (fun db => { db with
      decryptAudit := db.decryptAudit.insert ⟨tenantId, operation.asStr, keyId, userId, success⟩ })
    fun db => .ok db.decryptAudit.next

/-- `kek.unwrap(..).await`. The KEK may be a remote service: the call may fail whatever its argument. -/
def unwrap (kek : KeyEncryptionKey ρ) (wrapped : List UInt8) : Thread KeyDb (List UInt8) :=
  Thread.query "KEK unavailable" fun _ => kek.unwrap wrapped

/-- The end of both branches of `get_or_create_tenant_dek`: unwrap the key, record whether that worked, and
    check the length. `unwrapErr` and `lengthErr` are the branch's messages. -/
def unwrapAudited (store : PgStore ρ) (text : UuidText) (kek : KeyEncryptionKey ρ) (tenantId : Int)
    (dataKey : DataKey) (unwrapErr lengthErr : String) : Thread KeyDb (List.Vector UInt8 32) := do
  let keyId := "dek:" ++ text.format dataKey.id
  match ← (unwrap kek dataKey.wrappedDek).attempt with
  | .ok rawDek =>
      let _ ← (store.insertDecryptAuditEvent tenantId .unwrapDek keyId none true).attempt
      Thread.lift (do
        ensure (rawDek.length = 32)
          (lengthErr ++ toString rawDek.length ++ " bytes (expected 32)")
        toArray 32 rawDek)
  | .error _ =>
      let _ ← (store.insertDecryptAuditEvent tenantId .unwrapDek keyId none false).attempt
      Thread.lift (.error unwrapErr)

def getOrCreateTenantDek (store : PgStore ρ) (text : UuidText) (tenantId : Int) (draws : KeyDraws ρ) :
    Thread KeyDb (List.Vector UInt8 32) := do
  let kek ← Thread.lift (ofOption "KEK not configured — cannot encrypt/decrypt columns" store.kek)
  store.adminPool
  let existingJson ← Thread.query "failed to look up tenant data key"
    fun db => .ok (db.tenantDataKeys.get? tenantId)
  match existingJson with
  | some json =>
      let dataKey ← Thread.lift
        (ofOption "failed to deserialize tenant DataKey from DB" (DataKey.fromValue text json))
      store.unwrapAudited text kek tenantId dataKey "failed to unwrap tenant DEK with KEK"
        "unwrapped tenant DEK has wrong length: "
  | none =>
      let dataKey ← Thread.lift
        (context "failed to generate tenant DEK" (DataKey.generate kek "db-column-dek:v1" draws))
      Thread.run "failed to persist tenant data key" (KeyDb.insertKey tenantId (dataKey.toValue text))
        fun db => ensure (db.acceptsKey tenantId = true) "failed to persist tenant data key"
      store.unwrapAudited text kek tenantId dataKey "failed to unwrap freshly generated tenant DEK"
        "freshly generated tenant DEK has wrong length: "

end PgStore

/-! ## What the calls guarantee each other -/

/-- Every row of `tenant_data_keys` is still there, unchanged. -/
def KeyDb.Extends (db db' : KeyDb) : Prop :=
  ∀ tenantId json, db.tenantDataKeys.get? tenantId = some json →
    db'.tenantDataKeys.get? tenantId = some json

instance : IsPreorder KeyDb KeyDb.Extends where
  refl _ _ _ h := h
  trans _ _ _ h₁ h₂ tenantId json h := h₂ tenantId json (h₁ tenantId json h)

/-- The key persisted for a tenant. -/
def KeyDb.Stores (text : UuidText) (tenantId : Int) (db : KeyDb) (key : DataKey) : Prop :=
  ∃ json, db.tenantDataKeys.get? tenantId = some json ∧ DataKey.fromValue text json = some key

namespace KeyDb

variable {db db' : KeyDb} {text : UuidText} {tenantId : Int} {key key' : DataKey}

theorem Stores.extends (h : db.Stores text tenantId key) (hx : db.Extends db') :
    db'.Stores text tenantId key := by
  obtain ⟨json, hget, hkey⟩ := h
  exact ⟨json, hx tenantId json hget, hkey⟩

theorem Stores.unique (h : db.Stores text tenantId key) (h' : db.Stores text tenantId key') : key = key' := by
  obtain ⟨json, hget, hkey⟩ := h
  obtain ⟨json', hget', hkey'⟩ := h'
  cases hget.symm.trans hget'
  rw [hkey, Option.some.injEq] at hkey'
  exact hkey'

theorem extends_insertKey (db : KeyDb) (tenantId : Int) (json : Json) :
    db.Extends (db.insertKey tenantId json) := by
  intro i stored hstored
  unfold insertKey
  split
  · rw [Keyed.get?_insertNew]
    split
    next hi =>
      subst hi
      rw [hstored, Option.getD_some]
    · exact hstored
  · exact hstored

/-- An insert that the constraints accept persists the key it was given. -/
theorem stores_insertKey (h : db.acceptsKey tenantId = true) (text : UuidText) (key : DataKey) :
    (db.insertKey tenantId (key.toValue text)).Stores text tenantId key := by
  have hnone : db.tenantDataKeys.get? tenantId = none := by
    rw [acceptsKey, Bool.and_eq_true] at h
    exact Option.isNone_iff_eq_none.1 h.2
  refine ⟨key.toValue text, ?_, DataKey.fromValue_toValue text key⟩
  rw [insertKey, if_pos h]
  rw [Keyed.get?_insertNew, if_pos rfl, hnone, Option.getD_none]

end KeyDb

namespace PgStore

variable {ρ : Type} {store : PgStore ρ} {text : UuidText} {kek : KeyEncryptionKey ρ} {tenantId : Int} {db : KeyDb}

/-- `dek` is the unwrapped key persisted for a tenant. -/
def Unwraps (store : PgStore ρ) (text : UuidText) (tenantId : Int) (db : KeyDb) (dek : List.Vector UInt8 32) : Prop :=
  ∃ kek key, store.kek = some kek ∧ db.Stores text tenantId key ∧ kek.unwrap key.wrappedDek = .ok dek.toList

theorem Unwraps.unique {dek dek' : List.Vector UInt8 32}
    (h : store.Unwraps text tenantId db dek) (h' : store.Unwraps text tenantId db dek') : dek = dek' := by
  obtain ⟨kek, key, hkek, hkey, hdek⟩ := h
  obtain ⟨kek', key', hkek', hkey', hdek'⟩ := h'
  cases hkek.symm.trans hkek'
  obtain rfl := hkey.unique hkey'
  rw [hdek, Exec.ok.injEq] at hdek'
  exact Subtype.ext hdek'

/-- The audit row leaves the keys alone, whether or not it is written. -/
theorem insertDecryptAuditEvent_ensures (operation : DecryptAuditAction) (keyId : String)
    (userId : Option Int) (success : Bool) (db : KeyDb) :
    (store.insertDecryptAuditEvent tenantId operation keyId userId success).Ensures KeyDb.Extends
      (fun _ _ => True) db := by
  refine Thread.Ensures.bind (R := fun _ _ => True) (Thread.Ensures.lift fun _ _ _ _ => trivial) ?_
  intro db' _ _ _
  exact Thread.Ensures.run (fun _ _ _ _ h => h) fun _ _ _ _ _ _ => trivial

/-- A call that holds the persisted key returns what that key unwraps to. -/
theorem unwrapAudited_ensures (hkek : store.kek = some kek) {key : DataKey}
    (hkey : db.Stores text tenantId key) (unwrapErr lengthErr : String) :
    (store.unwrapAudited text kek tenantId key unwrapErr lengthErr).Ensures KeyDb.Extends
      (store.Unwraps text tenantId) db := by
  have hunwrap : (unwrap kek key.wrappedDek : Thread KeyDb _).Ensures KeyDb.Extends
      (fun _ rawDek => kek.unwrap key.wrappedDek = .ok rawDek) db :=
    Thread.Ensures.query fun _ _ _ _ _ h => h
  refine Thread.Ensures.bind hunwrap.attempt ?_
  intro db₁ r hdb₁ hr
  cases r with
  | ok rawDek =>
    refine Thread.Ensures.bind (insertDecryptAuditEvent_ensures .unwrapDek _ none true db₁).attempt ?_
    intro db₂ _ hdb₂ _
    apply Thread.Ensures.lift
    intro db₃ dek hdb₃ hdek
    obtain ⟨_, -, harray⟩ := bind_eq_ok_iff.1 hdek
    have hraw : rawDek = dek.toList := toArray_eq_ok_iff.1 harray
    have hrow : db₃.Stores text tenantId key := ((hkey.extends hdb₁).extends hdb₂).extends hdb₃
    exact ⟨kek, key, hkek, hrow, hraw ▸ hr rawDek rfl⟩
  | error msg =>
    refine Thread.Ensures.bind (insertDecryptAuditEvent_ensures .unwrapDek _ none false db₁).attempt ?_
    intro db₂ _ _ _
    exact Thread.Ensures.lift fun _ _ _ h => by cases h

/-- A call changes no persisted key, and a key it returns is the persisted one. -/
theorem getOrCreateTenantDek_ensures (store : PgStore ρ) (text : UuidText) (tenantId : Int)
    (draws : KeyDraws ρ) (db : KeyDb) :
    (store.getOrCreateTenantDek text tenantId draws).Ensures KeyDb.Extends (store.Unwraps text tenantId) db := by
  refine Thread.Ensures.bind (R := fun _ kek => store.kek = some kek)
    (Thread.Ensures.lift fun _ _ _ h => ofOption_eq_ok_iff.1 h) ?_
  intro db₁ kek _ hkek
  refine Thread.Ensures.bind (R := fun _ _ => True) (Thread.Ensures.lift fun _ _ _ _ => trivial) ?_
  intro db₂ _ _ _
  -- what the lookup has found stays; that it found nothing says nothing later
  refine Thread.Ensures.bind (R := fun db' r => ∀ json, r = some json → db'.tenantDataKeys.get? tenantId = some json)
    (Thread.Ensures.query ?_) ?_
  · intro db₃ db₄ r _ hext hr json hjson
    rw [Exec.ok.injEq] at hr
    exact hext tenantId json (hr.trans hjson)
  intro db₃ r _ hr
  cases r with
  | some json =>
    refine Thread.Ensures.bind (R := fun db' key => db'.Stores text tenantId key)
      (Thread.Ensures.lift ?_) fun _ _ _ hkey => unwrapAudited_ensures hkek hkey _ _
    intro db₄ key hext hkey
    exact ⟨json, hext tenantId json (hr json rfl), ofOption_eq_ok_iff.1 hkey⟩
  | none =>
    refine Thread.Ensures.bind (R := fun _ _ => True) (Thread.Ensures.lift fun _ _ _ _ => trivial) ?_
    intro db₄ key _ _
    refine Thread.Ensures.bind (R := fun db' _ => db'.Stores text tenantId key)
      (Thread.Ensures.run (fun db' _ => db'.extends_insertKey tenantId _) ?_)
      fun _ _ _ hkey => unwrapAudited_ensures hkek hkey _ _
    intro db₅ db₆ _ _ hext haccepts
    exact (KeyDb.stores_insertKey (ensure_eq_ok_iff.1 haccepts) text key).extends hext

/-! ## Concurrent calls -/

open Transition ThreadPool

/-- A call of `get_or_create_tenant_dek` and what it draws. -/
structure KeyCall (ρ : Type) where
  tenantId : Int
  draws : KeyDraws ρ

variable {ι : Type} [DecidableEq ι]

/-- Calls that are about to start. -/
def startCalls (store : PgStore ρ) (text : UuidText) (db : KeyDb) (calls : ι → KeyCall ρ) :
    ThreadPool ι KeyDb (List.Vector UInt8 32) :=
  ⟨db, fun i => store.getOrCreateTenantDek text (calls i).tenantId (calls i).draws⟩

/-- However the statements of the calls interleave and fail: a call that has returned a key has returned what
    the persisted key of its tenant unwraps to, two such calls for one tenant agree, and no statement replaces
    a persisted key. -/
theorem one_data_key_per_tenant (store : PgStore ρ) (text : UuidText) (db : KeyDb) (calls : ι → KeyCall ρ)
    {es : List (Edge (ThreadPool ι KeyDb (List.Vector UInt8 32)) (Turn ι))}
    {u : ThreadPool ι KeyDb (List.Vector UInt8 32)}
    (r : Run (Fires ThreadPool.step) (store.startCalls text db calls) es u) :
    (∀ i dek, (u.threads i).outcome? = some (.ok dek) →
      store.Unwraps text (calls i).tenantId u.db dek) ∧
    (∀ i j dek dek', (calls i).tenantId = (calls j).tenantId →
      (u.threads i).outcome? = some (.ok dek) → (u.threads j).outcome? = some (.ok dek') → dek = dek') ∧
    (∀ e ∈ es, ∀ tenantId json, e.src.db.tenantDataKeys.get? tenantId = some json →
      e.dst.db.tenantDataKeys.get? tenantId = some json) := by
  have hstart : ∀ i, ((store.startCalls text db calls).threads i).Ensures KeyDb.Extends
      (store.Unwraps text (calls i).tenantId) db :=
    fun i => store.getOrCreateTenantDek_ensures text (calls i).tenantId (calls i).draws db
  have hreturned : ∀ i dek, (u.threads i).outcome? = some (.ok dek) →
      store.Unwraps text (calls i).tenantId u.db dek := fun i dek hi => run_returned hstart r hi
  refine ⟨hreturned, ?_, (run_ensures hstart r).2⟩
  intro i j dek dek' htenant hi hj
  have hdek := hreturned i dek hi
  rw [htenant] at hdek
  exact hdek.unique (hreturned j dek' hj)

/-- A text form of UUIDs: one character for each byte. -/
def latinUuid : UuidText where
  format u := String.ofList (u.bytes.toList.map fun b => Char.ofNat b.toNat)
  parse s :=
    let bytes := s.toList.map fun c => UInt8.ofNat c.toNat
    if h : bytes.length = 16 then some ⟨⟨bytes, h⟩⟩ else none
  parse_format := by
    intro u
    have hchar : ∀ n : Fin 256, UInt8.ofNat (Char.ofNat n).toNat = UInt8.ofNat n := by decide +kernel
    have hbyte : ∀ b : UInt8, UInt8.ofNat (Char.ofNat b.toNat).toNat = b := fun b =>
      (hchar ⟨b.toNat, b.toNat_lt⟩).trans UInt8.ofNat_toNat
    have hbytes : (u.bytes.toList.map fun b => Char.ofNat b.toNat).map (fun c => UInt8.ofNat c.toNat) =
        u.bytes.toList := by
      rw [List.map_map]
      exact (List.map_congr_left fun b _ => hbyte b).trans (List.map_id _)
    simp only [String.toList_ofList, hbytes, u.bytes.toList_length, dite_true]
    rfl

/-- A KEK that puts a byte in front. -/
def markingKek : KeyEncryptionKey Unit where
  wrap _ dek := .ok (7 :: dek)
  unwrap wrapped := ofOption "not a wrapped key" wrapped.tail?

def markingStore : PgStore Unit := ⟨some markingKek, true⟩

/-- Three first calls for one tenant, each with a key of its own. -/
def threeCalls (i : Fin 3) : KeyCall Unit :=
  ⟨1, .ok (List.Vector.replicate 32 (UInt8.ofNat i)), (), ⟨List.Vector.replicate 16 (UInt8.ofNat i)⟩⟩

/-- Calls 0 and 1 both find no row; 0 inserts first, 1 is refused, and 2 looks the key up. -/
def racingTurns : List (Turn (Fin 3)) :=
  [0, 1, 0, 1, 0, 0, 2, 2, 2].map fun i => ⟨i, .done⟩

def emptyKeyDb : KeyDb := ⟨[1], Keyed.empty, Serial.empty⟩

theorem racing_calls_agree :
    ∃ es u dek, Run (Fires ThreadPool.step) (markingStore.startCalls latinUuid emptyKeyDb threeCalls) es u ∧
      (u.threads 0).outcome? = some (.ok dek) ∧ (u.threads 2).outcome? = some (.ok dek) ∧
      (u.threads 1).outcome? = some (.error "failed to persist tenant data key") ∧
      markingStore.Unwraps latinUuid 1 u.db dek := by
  obtain ⟨es, u, hrun, h0, h1, h2⟩ : ∃ es u,
      Run (Fires ThreadPool.step) (markingStore.startCalls latinUuid emptyKeyDb threeCalls) es u ∧
      (u.threads 0).outcome? = some (.ok (List.Vector.replicate 32 0)) ∧
      (u.threads 1).outcome? = some (.error "failed to persist tenant data key") ∧
      (u.threads 2).outcome? = some (.ok (List.Vector.replicate 32 0)) :=
    exists_run_where racingTurns (by decide +kernel)
  obtain ⟨hpersisted, -, -⟩ := one_data_key_per_tenant markingStore latinUuid emptyKeyDb threeCalls hrun
  exact ⟨es, u, _, hrun, h0, h2, h1, hpersisted 0 _ h0⟩

end PgStore

end Tagsmaxxing
