import Tagsmaxxing.Core.Json
import Tagsmaxxing.Pipeline.DocumentBuilder
import Tagsmaxxing.Store.Billing

/-! # The Stripe webhook (`handlers/webhook.rs`)

`post_webhook` verifies the signature, parses the event, records its id and, if the id is new, runs
`handle_stripe_event`. Third-party functions are parameters (`Deps`): the JSON parser, HMAC-SHA256 and
chrono's timestamp conversion. -/

namespace Tagsmaxxing.Webhook

open Statements Billing

/-- `serde_json::from_slice`, HMAC-SHA256 (key, message) and `DateTime::from_timestamp`. -/
structure Deps where
  fromSlice : List UInt8 → Option Json
  hmac : List UInt8 → List UInt8 → List UInt8
  fromTimestamp : Int → Option Time

/-! ## Signature verification -/

/-- The value of a hexadecimal digit, of either case. -/
def hexValue (c : Char) : Option ℕ :=
  if c.isDigit then some (c.toNat - 48)
  else if 'a' ≤ c ∧ c ≤ 'f' then some (c.toNat - 87)
  else if 'A' ≤ c ∧ c ≤ 'F' then some (c.toNat - 55)
  else none

/-- `hex::decode`. -/
def hexDecode : List Char → Option (List UInt8)
  | [] => some []
  | [_] => none
  | a :: b :: cs =>
      match hexValue a, hexValue b, hexDecode cs with
      | some x, some y, some bytes => some (UInt8.ofNat (16 * x + y) :: bytes)
      | _, _, _ => none

/-- `str::strip_prefix`. -/
def dropPrefix? (pre s : List Char) : Option (List Char) :=
  if pre.isPrefixOf s then some (s.drop pre.length) else none

/-- The loop over the header's parts: the last `t=` and the last `v1=` value. -/
def scanHeader : List (List Char) → Option (List Char) × Option (List Char) →
    Option (List Char) × Option (List Char)
  | [], acc => acc
  | part :: parts, (timestamp, v1Sig) =>
      let part := trim part
      match dropPrefix? "t=".toList part with
      | some val => scanHeader parts (some val, v1Sig)
      | none =>
          match dropPrefix? "v1=".toList part with
          | some val => scanHeader parts (timestamp, some val)
          | none => scanHeader parts (timestamp, v1Sig)

/-- The UTF-8 bytes of a string. -/
def utf8 (s : List Char) : List UInt8 := (String.ofList s).toUTF8.toList

def verifyStripeSignature (deps : Deps) (payload : List UInt8) (signatureHeader secret : String) : Bool :=
  match scanHeader (signatureHeader.toList.splitOn ',') (none, none) with
  | (some t, some sigHex) =>
      match hexDecode sigHex with
      | some sig => deps.hmac (utf8 secret.toList) (utf8 t ++ utf8 ".".toList ++ payload) == sig
      | none => false
  | _ => false

/-! ## Events -/

structure StripeEvent where
  id : String
  eventType : String
  dataObject : Json

def parseStripeEvent (deps : Deps) (payload : List UInt8) : Option StripeEvent := do
  let body ← deps.fromSlice payload
  let id ← (← body.get? "id").asStr
  let eventType ← (← body.get? "type").asStr
  let dataObject ← (← body.get? "data").get? "object"
  pure ⟨id, eventType, dataObject⟩

/-- The event types `handle_stripe_event` knows. -/
inductive EventKind
  | checkoutSessionCompleted | subscriptionUpdated | subscriptionDeleted | invoicePaid
  | invoicePaymentFailed | other
deriving DecidableEq

/-- The dispatch on `event_type`. -/
def StripeEvent.kind (ev : StripeEvent) : EventKind :=
  if ev.eventType = "checkout.session.completed" then .checkoutSessionCompleted
  else if ev.eventType = "customer.subscription.updated" then .subscriptionUpdated
  else if ev.eventType = "customer.subscription.deleted" then .subscriptionDeleted
  else if ev.eventType = "invoice.paid" then .invoicePaid
  else if ev.eventType = "invoice.payment_failed" then .invoicePaymentFailed
  else .other

structure CheckoutSessionCompleted where
  tenantId : Int
  stripeCustomerId : String
  subscriptionId : String
  planCode : String

def extractCheckoutSession (data : Json) : Option CheckoutSessionCompleted := do
  let tenantId ← parseI64 (← (← data.get? "client_reference_id").asStr)
  let stripeCustomerId ← (← data.get? "customer").asStr
  let subscriptionId ← (← data.get? "subscription").asStr
  let planCode ← (← (← data.get? "metadata").get? "plan_code").asStr
  pure ⟨tenantId, stripeCustomerId, subscriptionId, planCode⟩

/-- `SubscriptionUpdated`; its subscription id must be present but is not used. -/
structure SubscriptionUpdated where
  stripeCustomerId : String
  stripePriceId : Option String
  currentPeriodEnd : Option Int

def extractSubscriptionUpdated (data : Json) : Option SubscriptionUpdated := do
  let _ ← (← data.get? "id").asStr
  let stripeCustomerId ← (← data.get? "customer").asStr
  let stripePriceId := do
    let first ← (← (← (← data.get? "items").get? "data").asArray).head?
    (← (← first.get? "price").get? "id").asStr
  let currentPeriodEnd := (data.get? "current_period_end").bind Json.asI64
  pure ⟨stripeCustomerId, stripePriceId, currentPeriodEnd⟩

/-- `extract_subscription_deleted` and `extract_invoice_payment_failed`: the customer. -/
def extractCustomer (data : Json) : Option String := do
  (← data.get? "customer").asStr

structure InvoicePaid where
  stripeCustomerId : String
  periodEnd : Option Int

def extractInvoicePaid (data : Json) : Option InvoicePaid := do
  let stripeCustomerId ← (← data.get? "customer").asStr
  let lines ← (← (← data.get? "lines").get? "data").asArray
  let periodEnd := do
    let line ← lines.head?
    (← (← line.get? "period").get? "end").asI64
  pure ⟨stripeCustomerId, periodEnd⟩

/-- `DateTime::from_timestamp(ts, 0).unwrap_or_default()`. -/
def periodTime (deps : Deps) (ts : Int) : Time := (deps.fromTimestamp ts).getD 0

/-! ## Handling -/

/-- `ok_or_else`. -/
def orThrow {α : Type} (err : String) : Option α → Prog Ledger α
  | some a => pure a
  | none => throw err

/-- The tenant of a Stripe customer, or an error. -/
def tenantOfCustomer (customer : String) : Prog Ledger ℕ := do
  orThrow ("no tenant found for stripe customer: " ++ customer)
    (← findTenantByStripeCustomer customer)

/-- The arm for `checkout.session.completed`. -/
def handleCheckout (cs : CheckoutSessionCompleted) : Prog Ledger Unit := do
  let plan ← orThrow ("unknown plan code: " ++ cs.planCode) (← getPlanByCode cs.planCode)
  updateTenantPlan cs.tenantId (some plan.1) (some cs.stripeCustomerId) (some cs.subscriptionId)
    (some .active) none
  applyPlanQuotasToTenant cs.tenantId plan.1 0

/-- The arm for `customer.subscription.updated`. -/
def handleSubscriptionUpdated (deps : Deps) (su : SubscriptionUpdated) : Prog Ledger Unit := do
  let tenantId ← tenantOfCustomer su.stripeCustomerId
  match su.stripePriceId, su.currentPeriodEnd with
  | some priceId, periodEnd =>
      let plan ← orThrow ("unknown stripe price id: " ++ priceId) (← findPlanByStripePrice priceId)
      updateTenantPlan tenantId (some plan.1) none none none (periodEnd.map (periodTime deps))
      applyPlanQuotasToTenant tenantId plan.1 0
  | none, some ts => updateTenantPlan tenantId none none none none (some (periodTime deps ts))
  | none, none => pure ()

/-- The arm for `customer.subscription.deleted`. -/
def handleSubscriptionDeleted (customer : String) : Prog Ledger Unit := do
  let tenantId ← tenantOfCustomer customer
  let freePlan ← orThrow "free plan not found in database" (← getPlanByCode "free")
  updateTenantPlan tenantId (some freePlan.1) none none (some .canceled) none
  applyPlanQuotasToTenant tenantId freePlan.1 0

/-- The arm for `invoice.paid`. -/
def handleInvoicePaid (deps : Deps) (ip : InvoicePaid) : Prog Ledger Unit := do
  let tenantId ← tenantOfCustomer ip.stripeCustomerId
  match ip.periodEnd with
  | some ts => updateTenantPlan tenantId none none none none (some (periodTime deps ts))
  | none => pure ()

/-- The arm for `invoice.payment_failed`. -/
def handleInvoicePaymentFailed (customer : String) : Prog Ledger Unit := do
  let tenantId ← tenantOfCustomer customer
  updateTenantPlan tenantId none none none (some .pastDue) none

def handleStripeEvent (deps : Deps) (ev : StripeEvent) : Prog Ledger Unit := do
  match ev.kind with
  | .checkoutSessionCompleted =>
      handleCheckout (← orThrow "failed to parse checkout.session.completed event"
        (extractCheckoutSession ev.dataObject))
  | .subscriptionUpdated =>
      handleSubscriptionUpdated deps (← orThrow "failed to parse customer.subscription.updated event"
        (extractSubscriptionUpdated ev.dataObject))
  | .subscriptionDeleted =>
      handleSubscriptionDeleted (← orThrow "failed to parse customer.subscription.deleted event"
        (extractCustomer ev.dataObject))
  | .invoicePaid =>
      handleInvoicePaid deps (← orThrow "failed to parse invoice.paid event"
        (extractInvoicePaid ev.dataObject))
  | .invoicePaymentFailed =>
      handleInvoicePaymentFailed (← orThrow "failed to parse invoice.payment_failed event"
        (extractCustomer ev.dataObject))
  | .other => pure ()

/-! ## The endpoint -/

/-- The answers `post_webhook` gives. -/
inductive Response
  | ok
  | badRequest (msg : String)
  | unauthorized (msg : String)
  | internalServerError (msg : String)
deriving DecidableEq

/-- One delivery: the configured secret at that moment, the signature header (empty when absent), the
    body, and where the database connection breaks. -/
structure Delivery where
  secret : Option String
  signatureHeader : String
  body : List UInt8
  fault : Option Fault

/-- Dispatch past the gate. -/
def processEvent (deps : Deps) (ev : StripeEvent) : Prog Ledger Response := do
  if ← recordStripeEvent ev.id ev.eventType then
    handleStripeEvent deps ev
    pure .ok
  else pure .ok

/-- The answer and the database it leaves. -/
def postWebhook (deps : Deps) (d : Delivery) (db : Ledger) : Response × Ledger :=
  match d.secret with
  | none =>
      (if d.signatureHeader.isEmpty then .internalServerError "webhook secret not configured"
        else .unauthorized "invalid signature", db)
  | some secret =>
      if verifyStripeSignature deps d.body d.signatureHeader secret then
        match parseStripeEvent deps d.body with
        | none => (.badRequest "failed to parse stripe event body", db)
        | some ev =>
            match (processEvent deps ev).run ⟨db, d.fault⟩ with
            | .ok response c => (response, c.db)
            | .error _ c => (.internalServerError "internal error", c.db)
      else (.unauthorized "invalid signature", db)

/-- The deliveries as a system: each one is handled to its end before the next. -/
def step (deps : Deps) (db : Ledger) (d : Delivery) : Option Ledger := some (postWebhook deps d db).2

/-! ## Signature headers with several signatures

While a secret is being rolled, Stripe signs with both and sends several `v1` parts. `verify_stripe_signature` keeps the
last one only (`scanHeader_eq`), so it accepts what it should exactly if none of the others is the right one alone
(`verify_any_iff`). -/

/-- The values of the header's parts with the given key, in order. -/
def values (key : String) (parts : List (List Char)) : List (List Char) :=
  parts.filterMap fun part => dropPrefix? key.toList (trim part)

/-- The signature is the hexadecimal HMAC of the timestamp, a dot and the body. -/
def signs (deps : Deps) (secret : String) (payload : List UInt8) (t sigHex : List Char) : Bool :=
  hexDecode sigHex == some (deps.hmac (utf8 secret.toList) (utf8 t ++ utf8 ".".toList ++ payload))

theorem dropPrefix?_v1 {part val : List Char} (h : dropPrefix? "t=".toList part = some val) :
    dropPrefix? "v1=".toList part = none := by
  cases part with
  | nil => rfl
  | cons c cs =>
    unfold dropPrefix? at h ⊢
    split_ifs at h with ht
    have hc : c = 't' := by
      rw [List.isPrefixOf_iff_prefix] at ht
      exact (List.cons_prefix_cons.1 ht).1.symm
    subst hc
    rfl

theorem scanHeader_eq (parts : List (List Char)) (timestamp v1Sig : Option (List Char)) :
    scanHeader parts (timestamp, v1Sig) =
      ((values "t=" parts).getLast?.or timestamp, (values "v1=" parts).getLast?.or v1Sig) := by
  induction parts generalizing timestamp v1Sig with
  | nil => rfl
  | cons part parts ih =>
    have hlast : ∀ (val : List Char) (vals : List (List Char)) (old : Option (List Char)),
        (val :: vals).getLast?.or old = vals.getLast?.or (some val) := by
      intro val vals old
      cases h : vals.getLast? <;> simp [List.getLast?_cons, h]
    rw [scanHeader, values, values, List.filterMap_cons, List.filterMap_cons]
    cases ht : dropPrefix? "t=".toList (trim part) with
    | some val =>
      simp only [dropPrefix?_v1 ht, ih, hlast, values]
    | none =>
      cases hv : dropPrefix? "v1=".toList (trim part) with
      | some val => simp only [ih, hlast, values]
      | none => exact ih timestamp v1Sig

variable {t : List Char}

theorem verifyStripeSignature_eq (deps : Deps) (payload : List UInt8) (header secret : String)
    (ht : values "t=" (header.toList.splitOn ',') = [t]) :
    verifyStripeSignature deps payload header secret =
      (values "v1=" (header.toList.splitOn ',')).getLast?.any (signs deps secret payload t) := by
  rw [verifyStripeSignature, scanHeader_eq, ht, Option.or_none]
  cases (values "v1=" (header.toList.splitOn ',')).getLast? with
  | none => rfl
  | some sigHex =>
    simp only [List.getLast?_singleton, Option.some_or, Option.any_some, signs]
    cases hexDecode sigHex with
    | none => rfl
    | some sig => exact Bool.beq_comm

/-- **A right signature is accepted at any place exactly if it is accepted at the last**: with one timestamp, the
    verification asks for any of the signatures exactly if the last one is right or none is. -/
theorem verify_any_iff (deps : Deps) (payload : List UInt8) (header secret : String)
    (ht : values "t=" (header.toList.splitOn ',') = [t]) :
    (verifyStripeSignature deps payload header secret = true ↔
        ∃ sigHex ∈ values "v1=" (header.toList.splitOn ','), signs deps secret payload t sigHex = true) ↔
      ((∃ sigHex ∈ values "v1=" (header.toList.splitOn ','), signs deps secret payload t sigHex = true) →
        ∃ sigHex ∈ (values "v1=" (header.toList.splitOn ',')).getLast?, signs deps secret payload t sigHex = true) := by
  rw [verifyStripeSignature_eq deps payload header secret ht, Option.any_eq_true]
  refine ⟨fun h => h.2, fun h => ⟨?_, h⟩⟩
  rintro ⟨sigHex, hlast, hsigns⟩
  exact ⟨sigHex, List.mem_of_getLast? hlast, hsigns⟩

/-- The new secret `n` signs with the byte 0, and any other with the byte 255. -/
def rolled : Deps := ⟨fun _ => none, fun key _ => if key = utf8 ['n'] then [0] else [255], fun _ => none⟩

theorem verify_last_right : verifyStripeSignature rolled [] "t=1,v1=ff,v1=00" "n" = true :=
  ((verify_any_iff rolled [] "t=1,v1=ff,v1=00" "n" (t := ['1']) (by decide +kernel)).2
    fun _ => ⟨['0', '0'], by decide +kernel⟩).2 ⟨['0', '0'], by decide +kernel⟩

/-- The first signature is right, the second one is that of the other secret. -/
theorem first_of_two_signatures_refused :
    values "t=" ("t=1,v1=00,v1=ff".toList.splitOn ',') = [['1']] ∧
      (∃ sigHex ∈ values "v1=" ("t=1,v1=00,v1=ff".toList.splitOn ','), signs rolled "n" [] ['1'] sigHex = true) ∧
      signs rolled "o" [] ['1'] ['f', 'f'] = true ∧
      verifyStripeSignature rolled [] "t=1,v1=00,v1=ff" "n" = false :=
  ⟨by decide +kernel, ⟨['0', '0'], by decide +kernel⟩, by decide +kernel, by decide +kernel⟩

end Tagsmaxxing.Webhook
