import Mathlib.Data.Int.ConditionallyCompleteOrder
import Mathlib.Data.List.DropRight
import Mathlib.Data.Prod.Lex
import Mathlib.Data.String.Basic
import Tagsmaxxing.Core.Json
import Tagsmaxxing.Scheduler.Backend

/-! # The routing table of the database (`db_routing.rs`, `core/src/routing.rs`)

`get_routing_table` joins `routes`, `models` and `providers`, orders the rows, and drops a global row when some tenant
has a row for the same role, tier and model. `RoutingTable::from_entries` groups what is left by tenant and role, and
`tiers_for` reads the group of a tenant, or else the global one.

The columns with a `CHECK` on an enumeration have that enumeration as their type. `None` from `fromEntries` is an
abort: a negative tier becomes an index near `2 ^ 64`, and the loop that pads the tiers asks for more memory than can
be allocated. -/

namespace Tagsmaxxing.Routing

open Scheduler (Role DataClass RoutingStrategy)

/-! ## Rows -/

inductive ProviderKind
  | openAiCompat | anthropic | geminiNative | local
deriving DecidableEq

structure ProviderRow where
  id : Int
  name : String
  kind : ProviderKind
  endpoint : Option String
  headers : Json
  enabled : Bool
  apiKeyEnc : Option (List UInt8)

structure ModelRow where
  id : Int
  providerId : Int
  modelId : String
  caps : List String
  ctxTokens : Option Int32
  maxConc : Option Int32
  rpm : Option Int32
  tpm : Option Int32
  priceIn : Option ℚ
  priceOut : Option ℚ
  dataClass : DataClass
  enabled : Bool

/-- `RouteRow`; `tenantId = none` is a global default. -/
structure RouteRow where
  id : Int
  tenantId : Option Int
  role : Role
  tier : Int32
  strategy : RoutingStrategy
  spillMs : Int32
  modelId : Int

/-- One row of the join. -/
structure RoutingEntry where
  tenantId : Option Int
  role : Role
  tier : Int32
  strategy : RoutingStrategy
  spillMs : Int32
  provider : ProviderRow
  model : ModelRow

/-- The three tables. -/
structure RoutingDb where
  providers : List ProviderRow
  models : List ModelRow
  routes : List RouteRow

/-- `Role::as_str`. -/
def roleStr : Role → String
  | .text => "text"
  | .vision => "vision"
  | .code => "code"
  | .embed => "embed"
  | .rerank => "rerank"

/-! ## `PgStore::get_routing_table` -/

/-- The rows of the join for one route: its model and that model's provider, both enabled. -/
def RoutingDb.resolve (db : RoutingDb) (r : RouteRow) : List RoutingEntry :=
  (db.models.filter fun m => m.id == r.modelId && m.enabled).flatMap fun m =>
    (db.providers.filter fun p => p.id == m.providerId && p.enabled).map fun p =>
      ⟨r.tenantId, r.role, r.tier, r.strategy, r.spillMs, p, m⟩

/-- `routes r JOIN models m … JOIN providers p …`. -/
def RoutingDb.join (db : RoutingDb) : List RoutingEntry := db.routes.flatMap db.resolve

/-- `ORDER BY r.role, r.tenant_id NULLS FIRST, r.tier`. -/
def sortKey (e : RoutingEntry) : Lex (String × Lex (WithBot Int × Int)) :=
  toLex (roleStr e.role, toLex (e.tenantId, e.tier.toInt))

/-- The rows of the query; rows that the order does not tell apart come as the join lists them. -/
def RoutingDb.rows (db : RoutingDb) : List RoutingEntry :=
  db.join.insertionSort fun a b => sortKey a ≤ sortKey b

/-- What a tenant's row overrides: `(role, tier, model_id)`. -/
def RoutingEntry.key (e : RoutingEntry) : Role × Int32 × Int := (e.role, e.tier, e.model.id)

/-- `PgStore::get_routing_table`, from its rows on. -/
def applyOverrides (rows : List RoutingEntry) : List RoutingEntry :=
  let tenantKeys := (rows.filter fun r => r.tenantId.isSome).map RoutingEntry.key
  rows.filter fun r => if r.tenantId.isNone then !tenantKeys.contains r.key else true

/-- `PgStore::get_routing_table`. -/
def getRoutingTable (db : RoutingDb) : List RoutingEntry := applyOverrides db.rows

/-! ## `RoutingTable` -/

/-- The tiers of one tenant and role. -/
abbrev Tiers := List (List RoutingEntry)

structure RoutingTable where
  entries : Option Int × Role → Option Tiers

/-- The elements a `Vec<Vec<_>>` can hold: `isize::MAX` bytes, 24 for each. -/
def vecMax : ℕ := (2 ^ 63 - 1) / 24

/-- `entry.tier as usize`. -/
def tierIdx (tier : Int32) : ℕ := (tier.toInt % 2 ^ 64).toNat

/-- The tiers padded up to the entry's, and the entry pushed there. -/
def pushTier (tiers : Tiers) (e : RoutingEntry) : Tiers :=
  (tiers ++ List.replicate (tierIdx e.tier + 1 - tiers.length) []).modify (tierIdx e.tier) (· ++ [e])

/-- One turn of the loop of `from_entries`. -/
def pushEntry (map : Option Int × Role → Option Tiers) (e : RoutingEntry) : Option (Option Int × Role → Option Tiers) :=
  let key := (e.tenantId, e.role)
  if tierIdx e.tier < vecMax then
    some (Function.update map key (some (pushTier ((map key).getD []) e)))
  else none

/-- `RoutingTable::from_entries`; the trailing empty tiers go last. -/
def RoutingTable.fromEntries (entries : List RoutingEntry) : Option RoutingTable :=
  (entries.foldlM pushEntry fun _ => none).map fun map =>
    ⟨fun key => (map key).map fun tiers => tiers.rdropWhile List.isEmpty⟩

def RoutingTable.tiersFor (t : RoutingTable) (tenantId : Option Int) (role : Role) : Tiers :=
  match t.entries (tenantId, role) with
  | some tiers => tiers
  | none => (t.entries (none, role)).getD []

/-- What tenant `u` (or the global view) sees of the database for a role. -/
def tiersSeen (db : RoutingDb) (u : Option Int) (role : Role) : Option Tiers :=
  (RoutingTable.fromEntries (getRoutingTable db)).map fun t => t.tiersFor u role

end Tagsmaxxing.Routing
