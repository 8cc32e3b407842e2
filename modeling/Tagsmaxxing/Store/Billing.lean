import Tagsmaxxing.Core.Types
import Tagsmaxxing.Lib.Statements

/-! # Plans, tenant billing and processed events (`plans.rs`, `subscription_lifecycle.rs`,
`stripe_events.rs`)

The billing columns of `tenants`, the `plans` table, the ids of processed Stripe events and the audit
trail. Every function of these files issues its statements on the admin pool, each its own
transaction, so a function of several statements is a `Prog` and can stop between any two of them. -/

namespace Tagsmaxxing.Billing

open Statements

/-- The values `billing_status` takes. -/
inductive BillingStatus
  | inactive | active | pastDue | canceled | suspended
deriving DecidableEq

/-- A row of `plans`; the feature gates and prices are not read here. -/
structure Plan where
  code : String
  stripePrice : String
  quotaBytes : Int
  tokenBudget : Option Int
deriving DecidableEq

/-- The billing columns of a row of `tenants`. -/
structure TenantRow where
  planId : Option ℕ
  stripeCustomerId : Option String
  subscriptionId : Option String
  billingStatus : Option BillingStatus
  currentPeriodEnd : Option Time
  quotaBytes : Option Int
  quotaTokens : Option Int
deriving DecidableEq

/-- A row of `audit_events` whose details are those of a `plan_changed` event. -/
structure AuditEvent where
  actorUserId : Int
  tenantId : Int
  action : String
  targetType : String
  targetId : Option Int
  planId : ℕ
  planCode : String
  quotaBytes : Int
  tokenBudget : Option Int
deriving DecidableEq

/-- The tables billing works on. -/
structure Ledger where
  plans : Serial Plan
  tenants : Serial TenantRow
  /-- `stripe_events`: event ids, a primary key, with their types. -/
  stripeEvents : List (String × String)
  audit : List AuditEvent

/-! ## What the statements read and write -/

/-- The first row of a table that satisfies a `WHERE` clause. -/
def fetchOptional {ρ : Type} (t : Serial ρ) (p : ρ → Bool) : Option (ℕ × ρ) :=
  t.rows.find? fun r => p r.2

/-- `get_plan_by_code`. -/
def Ledger.planByCode (db : Ledger) (code : String) : Option (ℕ × Plan) :=
  fetchOptional db.plans fun p => p.code == code

/-- `find_plan_by_stripe_price`. -/
def Ledger.planByStripePrice (db : Ledger) (price : String) : Option (ℕ × Plan) :=
  fetchOptional db.plans fun p => p.stripePrice == price

/-- `find_tenant_by_stripe_customer`. -/
def Ledger.tenantByStripeCustomer (db : Ledger) (customerId : String) : Option ℕ :=
  (fetchOptional db.tenants fun t => t.stripeCustomerId == some customerId).map Prod.fst

/-- Whether the event is recorded. -/
def Ledger.processed (db : Ledger) (eventId : String) : Bool := db.stripeEvents.any fun e => e.1 == eventId

/-- The rows an `UPDATE tenants … WHERE id = $1` touches. -/
def updateTenant (tenantId : Int) (f : TenantRow → TenantRow) (db : Ledger) : Ledger :=
  { db with tenants := db.tenants.updateWhere (fun id _ => (id : Int) == tenantId) f }

/-- The `SET` clause of `update_tenant_plan`: an argument that is `None` keeps the column. -/
def coalescePlan (planId : Option ℕ) (stripeCustomerId subscriptionId : Option String)
    (billingStatus : Option BillingStatus) (currentPeriodEnd : Option Time) (t : TenantRow) :
    TenantRow :=
  { t with
    planId := planId <|> t.planId
    stripeCustomerId := stripeCustomerId <|> t.stripeCustomerId
    subscriptionId := subscriptionId <|> t.subscriptionId
    billingStatus := billingStatus <|> t.billingStatus
    currentPeriodEnd := currentPeriodEnd <|> t.currentPeriodEnd }

/-- The `SET` clause of `apply_plan_quotas_to_tenant`. -/
def setQuotas (plan : Plan) (t : TenantRow) : TenantRow :=
  { t with quotaBytes := some plan.quotaBytes, quotaTokens := plan.tokenBudget }

/-! ## The functions -/

/-- Whether the event is new. -/
def recordStripeEvent (eventId eventType : String) : Prog Ledger Bool :=
  stmt "failed to record stripe event for idempotency" fun db =>
    if db.processed eventId then (false, db)
    else (true, { db with stripeEvents := db.stripeEvents ++ [(eventId, eventType)] })

def getPlan (planId : ℕ) : Prog Ledger (Option Plan) :=
  query "failed to fetch plan by id" fun db => db.plans.get? planId

def getPlanByCode (code : String) : Prog Ledger (Option (ℕ × Plan)) :=
  query "failed to fetch plan by code" fun db => db.planByCode code

def findPlanByStripePrice (price : String) : Prog Ledger (Option (ℕ × Plan)) :=
  query "failed to find plan by stripe price" fun db => db.planByStripePrice price

def findTenantByStripeCustomer (customerId : String) : Prog Ledger (Option ℕ) :=
  query "failed to find tenant by stripe customer id" fun db => db.tenantByStripeCustomer customerId

def updateTenantPlan (tenantId : Int) (planId : Option ℕ)
    (stripeCustomerId subscriptionId : Option String) (billingStatus : Option BillingStatus)
    (currentPeriodEnd : Option Time) : Prog Ledger Unit :=
  execute "failed to update tenant billing columns" (updateTenant tenantId
    (coalescePlan planId stripeCustomerId subscriptionId billingStatus currentPeriodEnd))

/-- `admin_insert_audit_event`, for a plan change. -/
def insertPlanChanged (tenantId actorUserId : Int) (planId : ℕ) (plan : Plan) : Prog Ledger Unit :=
  execute "failed to write plan_changed audit event" fun db =>
    { db with audit := db.audit ++
        [{ actorUserId := actorUserId, tenantId := tenantId, action := "plan_changed",
           targetType := "tenant", targetId := some tenantId, planId := planId,
           planCode := plan.code, quotaBytes := plan.quotaBytes, tokenBudget := plan.tokenBudget }] }

def applyPlanQuotasToTenant (tenantId : Int) (planId : ℕ) (actorUserId : Int) : Prog Ledger Unit := do
  match ← getPlan planId with
  | none => throw ("plan not found: id=" ++ toString planId)
  | some plan =>
      execute "failed to apply plan quotas to tenant" (updateTenant tenantId (setQuotas plan))
      insertPlanChanged tenantId actorUserId planId plan

end Tagsmaxxing.Billing
