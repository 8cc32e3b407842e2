import Tagsmaxxing.Api.Webhook

/-! # Is each billing event applied exactly once?

The gate (`record_stripe_event`) and the effect (`handle_stripe_event`) are separate statements, and the effect itself
is several. A delivery that records its event and then fails leaves the id behind: the redelivery finds it, answers
200 and does nothing, so the effect is lost, or left half applied.

`effect` is what an event does to the tenants. It is applied exactly once for every event answered 200, provided that a
delivery which records its event gets through the statements of the effect, and that the event can be applied at that
point (`exactly_once`). -/

namespace Tagsmaxxing.Webhook

open List Statements Billing Transition

/-! ## What an event does -/

/-- The tenants after an update of one of them. -/
def tenantsWith (db : Ledger) (tenantId : Int) (f : TenantRow → TenantRow) : Serial TenantRow :=
  db.tenants.updateWhere (fun id _ => (id : Int) == tenantId) f

/-- The tenants after the event; none if the event cannot be applied: its data does not parse, or it
    names a plan, a price or a customer that does not exist. -/
def effect (deps : Deps) (ev : StripeEvent) (db : Ledger) : Option (Serial TenantRow) :=
  match ev.kind with
  | .checkoutSessionCompleted => do
      let cs ← extractCheckoutSession ev.dataObject
      let plan ← db.planByCode cs.planCode
      pure (tenantsWith db cs.tenantId fun t =>
        { t with
          planId := some plan.1
          stripeCustomerId := some cs.stripeCustomerId
          subscriptionId := some cs.subscriptionId
          billingStatus := some .active
          quotaBytes := some plan.2.quotaBytes
          quotaTokens := plan.2.tokenBudget })
  | .subscriptionUpdated => do
      let su ← extractSubscriptionUpdated ev.dataObject
      let tenantId ← db.tenantByStripeCustomer su.stripeCustomerId
      match su.stripePriceId with
      | some priceId => do
          let plan ← db.planByStripePrice priceId
          pure (tenantsWith db tenantId fun t =>
            { t with
              planId := some plan.1
              currentPeriodEnd := su.currentPeriodEnd.map (periodTime deps) <|> t.currentPeriodEnd
              quotaBytes := some plan.2.quotaBytes
              quotaTokens := plan.2.tokenBudget })
      | none =>
          pure (match su.currentPeriodEnd with
            | some ts => tenantsWith db tenantId fun t =>
                { t with currentPeriodEnd := some (periodTime deps ts) }
            | none => db.tenants)
  | .subscriptionDeleted => do
      let customer ← extractCustomer ev.dataObject
      let tenantId ← db.tenantByStripeCustomer customer
      let plan ← db.planByCode "free"
      pure (tenantsWith db tenantId fun t =>
        { t with
          planId := some plan.1
          billingStatus := some .canceled
          quotaBytes := some plan.2.quotaBytes
          quotaTokens := plan.2.tokenBudget })
  | .invoicePaid => do
      let ip ← extractInvoicePaid ev.dataObject
      let tenantId ← db.tenantByStripeCustomer ip.stripeCustomerId
      pure (match ip.periodEnd with
        | some ts => tenantsWith db tenantId fun t =>
            { t with currentPeriodEnd := some (periodTime deps ts) }
        | none => db.tenants)
  | .invoicePaymentFailed => do
      let customer ← extractCustomer ev.dataObject
      let tenantId ← db.tenantByStripeCustomer customer
      pure (tenantsWith db tenantId fun t => { t with billingStatus := some .pastDue })
  | .other => pure db.tenants

/-- How many statements `handle_stripe_event` runs up to its last write to `tenants`; after those
    there is at most the audit insert. -/
def effectStatements (ev : StripeEvent) : ℕ :=
  match ev.kind with
  | .checkoutSessionCompleted => 4
  | .subscriptionUpdated =>
      match extractSubscriptionUpdated ev.dataObject with
      | some ⟨_, some _, _⟩ => 5
      | some ⟨_, none, some _⟩ => 2
      | _ => 1
  | .subscriptionDeleted => 5
  | .invoicePaid =>
      match extractInvoicePaid ev.dataObject with
      | some ⟨_, some _⟩ => 2
      | _ => 1
  | .invoicePaymentFailed => 2
  | .other => 0

/-! ## The handler does it, if nothing fails before the audit insert -/

/-- What a program leaves of the tenants and of the processed events. -/
def Leaves {α : Type} (r : EStateM.Result String (Conn Ledger) α) (tenants : Serial TenantRow)
    (events : List (String × String)) : Prop :=
  (finalDb r).tenants = tenants ∧ (finalDb r).stripeEvents = events

section Arms

variable {c : Conn Ledger}

theorem orThrow_some {α : Type} (err : String) (a : α) : (orThrow err (some a)).run c = .ok a c := rfl

theorem mem_of_fetchOptional {ρ : Type} {t : Serial ρ} {p : ρ → Bool} {r : ℕ × ρ}
    (h : fetchOptional t p = some r) : t.get? r.1 = some r.2 :=
  (t.get?_eq_some_iff r.1 r.2).2 (mem_of_find?_eq_some h)

variable {customer : String} {plan : ℕ × Plan} {id : ℕ} {find : Ledger → Option (ℕ × Plan)}

theorem tenantOfCustomer_ok {n : ℕ} (h : Survives (n + 1) c) (hid : c.db.tenantByStripeCustomer customer = some id) :
    ∃ c', (tenantOfCustomer customer).run c = .ok id c' ∧ c'.db = c.db ∧ Survives n c' := by
  obtain ⟨c', hq, hdb, hs⟩ := query_ok "failed to find tenant by stripe customer id"
    (fun db : Ledger => db.tenantByStripeCustomer customer) h
  refine ⟨c', ?_, hdb, hs⟩
  rw [tenantOfCustomer, findTenantByStripeCustomer, bind_ok hq, hid]
  rfl

/-- `apply_plan_quotas_to_tenant`: the quotas are written, whether or not the audit insert fails. -/
theorem applyPlanQuotas_leaves (tenantId actor : Int) {planId : ℕ} {plan : Plan}
    (hplan : c.db.plans.get? planId = some plan) (h : Survives 2 c) :
    Leaves ((applyPlanQuotasToTenant tenantId planId actor).run c)
      (tenantsWith c.db tenantId (setQuotas plan)) c.db.stripeEvents := by
  obtain ⟨c₁, h₁, hdb₁, hs₁⟩ := query_ok "failed to fetch plan by id" (fun db : Ledger => db.plans.get? planId) h
  obtain ⟨c₂, h₂, hdb₂, -⟩ := execute_ok "failed to apply plan quotas to tenant"
    (updateTenant tenantId (setQuotas plan)) hs₁
  rw [applyPlanQuotasToTenant, getPlan, bind_ok h₁, hplan]
  rw [bind_ok h₂]
  rw [hdb₁] at hdb₂
  constructor
  · exact (finalDb_execute Ledger.tenants rfl _).trans (congrArg Ledger.tenants hdb₂)
  · exact (finalDb_execute Ledger.stripeEvents rfl _).trans (by rw [hdb₂]; rfl)

section Update

variable (tenantId : Int) (customer subscription : Option String) (status : Option BillingStatus)
  (periodEnd : Option Time)

theorem updateTenantPlan_leaves (planId : Option ℕ) (h : Survives 1 c) :
    Leaves ((updateTenantPlan tenantId planId customer subscription status periodEnd).run c)
      (tenantsWith c.db tenantId (coalescePlan planId customer subscription status periodEnd))
      c.db.stripeEvents := by
  obtain ⟨c', hq, hdb, -⟩ := execute_ok "failed to update tenant billing columns"
    (updateTenant tenantId (coalescePlan planId customer subscription status periodEnd)) h
  rw [updateTenantPlan, hq]
  show c'.db.tenants = _ ∧ c'.db.stripeEvents = _
  rw [hdb]
  exact ⟨rfl, rfl⟩

/-- A plan is looked up and the tenant changes to it: `update_tenant_plan`, and then the quotas. -/
theorem foundPlan_leaves (err unknown : String)
    (hfind : find c.db = some plan) (hplan : c.db.plans.get? plan.1 = some plan.2) (h : Survives 4 c) :
    Leaves ((do
        let plan ← orThrow unknown (← query err find)
        updateTenantPlan tenantId (some plan.1) customer subscription status periodEnd
        applyPlanQuotasToTenant tenantId plan.1 0 : Prog Ledger Unit).run c)
      (tenantsWith c.db tenantId fun t =>
        setQuotas plan.2 (coalescePlan (some plan.1) customer subscription status periodEnd t))
      c.db.stripeEvents := by
  obtain ⟨c₁, h₁, hdb₁, hs₁⟩ := query_ok err find h
  obtain ⟨c₂, h₂, hdb₂, hs₂⟩ := execute_ok "failed to update tenant billing columns"
    (updateTenant tenantId (coalescePlan (some plan.1) customer subscription status periodEnd)) hs₁
  rw [hdb₁] at hdb₂
  rw [bind_ok h₁, hfind, bind_ok (orThrow_some _ plan), updateTenantPlan, bind_ok h₂]
  have hplan₂ : c₂.db.plans.get? plan.1 = some plan.2 := by rw [hdb₂]; exact hplan
  obtain ⟨htenants, hevents⟩ := applyPlanQuotas_leaves tenantId 0 hplan₂ hs₂
  refine ⟨htenants.trans ?_, hevents.trans (by rw [hdb₂]; rfl)⟩
  rw [hdb₂]
  exact Serial.updateWhere_updateWhere c.db.tenants (fun id => (id : Int) == tenantId) _ _

end Update

variable (hid : c.db.tenantByStripeCustomer customer = some id)

include hid

/-- The arms that look the tenant up first. -/
theorem customerPlan_leaves (err unknown : String)
    (status : Option BillingStatus) (periodEnd : Option Time) (hfind : find c.db = some plan)
    (hplan : c.db.plans.get? plan.1 = some plan.2) (h : Survives 5 c) :
    Leaves ((do
        let tenantId ← tenantOfCustomer customer
        let plan ← orThrow unknown (← query err find)
        updateTenantPlan tenantId (some plan.1) none none status periodEnd
        applyPlanQuotasToTenant tenantId plan.1 0 : Prog Ledger Unit).run c)
      (tenantsWith c.db id fun t => setQuotas plan.2 (coalescePlan (some plan.1) none none status periodEnd t))
      c.db.stripeEvents := by
  obtain ⟨c₁, h₁, hdb₁, hs₁⟩ := tenantOfCustomer_ok h hid
  rw [← hdb₁] at hfind hplan ⊢
  rw [bind_ok h₁]
  exact foundPlan_leaves (id : Int) _ _ _ _ _ _ hfind hplan hs₁

/-- The arms that look the tenant up and write it once. -/
theorem tenantUpdate_leaves (status : Option BillingStatus) (periodEnd : Option Time) (h : Survives 2 c) :
    Leaves ((do
        let tenantId ← tenantOfCustomer customer
        updateTenantPlan tenantId none none none status periodEnd : Prog Ledger Unit).run c)
      (tenantsWith c.db id (coalescePlan none none none status periodEnd)) c.db.stripeEvents := by
  obtain ⟨c₁, h₁, hdb₁, hs₁⟩ := tenantOfCustomer_ok h hid
  rw [bind_ok h₁, ← hdb₁]
  exact updateTenantPlan_leaves _ _ _ _ _ _ hs₁

/-- The arms that find nothing to write. -/
theorem tenantOnly_leaves (h : Survives 1 c) :
    Leaves ((do
        let _ ← tenantOfCustomer customer
        pure () : Prog Ledger Unit).run c) c.db.tenants c.db.stripeEvents := by
  obtain ⟨c₁, h₁, hdb₁, -⟩ := tenantOfCustomer_ok h hid
  rw [bind_ok h₁, ← hdb₁]
  exact ⟨rfl, rfl⟩

end Arms

variable {ev : StripeEvent} {deps : Deps}

/-- **The handler applies the whole effect** when the statements before the audit insert succeed and
    the event can be applied. -/
theorem handleStripeEvent_leaves {c : Conn Ledger} {tenants : Serial TenantRow}
    (heff : effect deps ev c.db = some tenants) (h : Survives (effectStatements ev) c) :
    Leaves ((handleStripeEvent deps ev).run c) tenants c.db.stripeEvents := by
  unfold effect at heff
  unfold effectStatements at h
  unfold handleStripeEvent
  cases hk : ev.kind
  all_goals simp only [hk, Option.bind_eq_bind, Option.bind_eq_some_iff] at heff h ⊢
  case checkoutSessionCompleted =>
    obtain ⟨cs, hcs, plan, hplan, ⟨⟩⟩ := heff
    rw [hcs, bind_ok (orThrow_some _ cs)]
    exact foundPlan_leaves cs.tenantId _ _ _ _ _ _ hplan (mem_of_fetchOptional hplan) h
  case subscriptionUpdated =>
    obtain ⟨⟨customer, price, periodEnd⟩, hsu, id, hid, heq⟩ := heff
    rw [hsu] at h ⊢
    rw [bind_ok (orThrow_some _ _)]
    cases price with
    | some priceId =>
      simp only [Option.bind_eq_some_iff] at heq
      obtain ⟨plan, hplan, ⟨⟩⟩ := heq
      exact customerPlan_leaves hid _ _ _ _ hplan (mem_of_fetchOptional hplan) h
    | none =>
      cases periodEnd with
      | some ts =>
        cases heq
        exact tenantUpdate_leaves hid none (some (periodTime deps ts)) h
      | none =>
        cases heq
        exact tenantOnly_leaves hid h
  case subscriptionDeleted =>
    obtain ⟨customer, hcust, id, hid, plan, hplan, ⟨⟩⟩ := heff
    rw [hcust, bind_ok (orThrow_some _ customer)]
    exact customerPlan_leaves hid _ _ _ _ hplan (mem_of_fetchOptional hplan) h
  case invoicePaid =>
    obtain ⟨⟨customer, periodEnd⟩, hip, id, hid, heq⟩ := heff
    rw [hip] at h ⊢
    rw [bind_ok (orThrow_some _ _)]
    cases periodEnd with
    | some ts =>
      cases heq
      exact tenantUpdate_leaves hid none (some (periodTime deps ts)) h
    | none =>
      cases heq
      exact tenantOnly_leaves hid h
  case invoicePaymentFailed =>
    obtain ⟨customer, hcust, id, hid, ⟨⟩⟩ := heff
    rw [hcust, bind_ok (orThrow_some _ customer)]
    exact tenantUpdate_leaves hid (some .pastDue) none h
  case other =>
    cases heff
    exact ⟨rfl, rfl⟩

/-! ## One delivery -/

/-- The event of a delivery that reaches the gate. -/
def event (deps : Deps) (d : Delivery) : Option StripeEvent :=
  match d.secret with
  | none => none
  | some secret =>
      if verifyStripeSignature deps d.body d.signatureHeader secret then parseStripeEvent deps d.body
      else none

/-- If the delivery records its event, then the connection does not break before the audit insert,
    and the event can be applied. -/
def Completes (deps : Deps) (db : Ledger) (d : Delivery) : Prop :=
  ∀ ev ∈ event deps d, db.processed ev.id = false → d.fault ≠ some ⟨0, false⟩ →
    (∀ f ∈ d.fault, effectStatements ev + 1 ≤ f.after) ∧ (effect deps ev db).isSome

/-- The delivery is the one that takes the event through the gate, and it applies the whole effect. -/
structure Applies (deps : Deps) (ev : StripeEvent) (e : Edge Ledger Delivery) : Prop where
  event : event deps e.label = some ev
  fresh : e.src.processed ev.id = false
  recorded : e.dst.processed ev.id = true
  whole : effect deps ev e.src = some e.dst.tenants

/-- The endpoint, past verification and parsing. -/
theorem postWebhook_eq (deps : Deps) (d : Delivery) (db : Ledger) :
    (event deps d = none ∧ (postWebhook deps d db).2 = db ∧ (postWebhook deps d db).1 ≠ .ok) ∨
    ∃ ev, event deps d = some ev ∧ postWebhook deps d db =
      match (processEvent deps ev).run ⟨db, d.fault⟩ with
      | .ok response c => (response, c.db)
      | .error _ c => (.internalServerError "internal error", c.db) := by
  unfold event postWebhook
  cases d.secret with
  | none =>
    refine .inl ⟨rfl, rfl, ?_⟩
    simp only
    split <;> simp
  | some secret =>
    simp only
    split
    · cases hev : parseStripeEvent deps d.body with
      | none => exact .inl ⟨rfl, rfl, by simp⟩
      | some ev => exact .inr ⟨ev, rfl, rfl⟩
    · exact .inl ⟨rfl, rfl, by simp⟩

variable {d : Delivery}

theorem postWebhook_of_event (hev : event deps d = some ev) (db : Ledger) :
    postWebhook deps d db =
      match (processEvent deps ev).run ⟨db, d.fault⟩ with
      | .ok response c => (response, c.db)
      | .error _ c => (.internalServerError "internal error", c.db) := by
  rcases postWebhook_eq deps d db with ⟨hnone, -⟩ | ⟨ev', hev', heq⟩
  · exact absurd (hev.symm.trans hnone) (by simp)
  · cases hev.symm.trans hev'
    exact heq

variable {db : Ledger}

theorem postWebhook_duplicate (hev : event deps d = some ev)
    (hdup : db.processed ev.id = true) : (postWebhook deps d db).2 = db := by
  rw [postWebhook_of_event hev, processEvent, recordStripeEvent]
  rcases stmt_cases "failed to record stripe event for idempotency" (fun db : Ledger =>
      if db.processed ev.id then (false, db)
      else (true, { db with stripeEvents := db.stripeEvents ++ [(ev.id, ev.eventType)] }))
      ⟨db, d.fault⟩ with ⟨c', h, hdb⟩ | ⟨c', h, hdb⟩
  · simp only [hdup, if_true] at h hdb
    rw [bind_ok h]
    exact hdb
  · simp only [hdup, if_true, or_self] at h hdb
    rw [bind_error h]
    exact hdb

theorem effect_record (deps : Deps) (ev : StripeEvent) (db : Ledger) (events : List (String × String)) :
    effect deps ev { db with stripeEvents := events } = effect deps ev db := rfl

/-- The delivery that records its event: afterwards the event is recorded and, if the delivery
    completes, its whole effect is applied. -/
theorem postWebhook_fresh (hev : event deps d = some ev)
    (hfresh : db.processed ev.id = false) (hrec : d.fault ≠ some ⟨0, false⟩) (hcomp : Completes deps db d) :
    effect deps ev db = some (postWebhook deps d db).2.tenants ∧
      (postWebhook deps d db).2.stripeEvents = db.stripeEvents ++ [(ev.id, ev.eventType)] := by
  obtain ⟨hsurv, happ⟩ := hcomp ev hev hfresh hrec
  obtain ⟨tenants, heff⟩ := Option.isSome_iff_exists.1 happ
  obtain ⟨c₁, h₁, hdb₁, hs₁⟩ := stmt_ok "failed to record stripe event for idempotency"
    (fun db : Ledger => if db.processed ev.id then (false, db)
      else (true, { db with stripeEvents := db.stripeEvents ++ [(ev.id, ev.eventType)] }))
    (c := ⟨db, d.fault⟩) hsurv
  simp only [hfresh, Bool.false_eq_true, if_false] at h₁ hdb₁
  have heff₁ : effect deps ev c₁.db = some tenants := by rw [hdb₁, effect_record]; exact heff
  obtain ⟨htenants, hevents⟩ := handleStripeEvent_leaves heff₁ hs₁
  rw [hdb₁] at hevents
  rw [postWebhook_of_event hev, processEvent, recordStripeEvent, bind_ok h₁, if_pos rfl, heff]
  -- whether the audit insert failed or not, the database is the handler's
  cases hh : (handleStripeEvent deps ev).run c₁ with
  | ok a c₂ =>
    rw [hh] at htenants hevents
    rw [bind_ok hh]
    exact ⟨congrArg some htenants.symm, hevents⟩
  | error err c₂ =>
    rw [hh] at htenants hevents
    rw [bind_error hh]
    exact ⟨congrArg some htenants.symm, hevents⟩

/-- The delivery whose record statement fails without effect changes nothing, and is not answered
    200. -/
theorem postWebhook_unrecorded (hev : event deps d = some ev) (hrec : d.fault = some ⟨0, false⟩) :
    (postWebhook deps d db).2 = db ∧ (postWebhook deps d db).1 ≠ .ok := by
  rw [postWebhook_of_event hev, hrec]
  exact ⟨rfl, by simp [processEvent, recordStripeEvent, stmt, EStateM.run, bind, EStateM.bind]⟩

/-! ## Whole histories -/

theorem processed_append (db : Ledger) (id id' type : String) :
    ({ db with stripeEvents := db.stripeEvents ++ [(id', type)] } : Ledger).processed id =
      (db.processed id || id' == id) := by
  simp [Ledger.processed, any_append]

section Delivery

variable {deps : Deps} {db : Ledger} {d : Delivery}

/-- A completing delivery changes nothing, or applies its event. -/
theorem delivery_cases (hcomp : Completes deps db d) :
    (postWebhook deps d db).2 = db ∨
    ∃ ev, Applies deps ev ⟨db, d, (postWebhook deps d db).2⟩ ∧
      (postWebhook deps d db).2.stripeEvents = db.stripeEvents ++ [(ev.id, ev.eventType)] := by
  rcases postWebhook_eq deps d db with ⟨-, hsame, -⟩ | ⟨ev, hev, -⟩
  · exact .inl hsame
  · cases hdup : db.processed ev.id with
    | true => exact .inl (postWebhook_duplicate hev hdup)
    | false =>
      by_cases hrec : d.fault = some ⟨0, false⟩
      · exact .inl (postWebhook_unrecorded hev hrec).1
      · obtain ⟨heff, hevents⟩ := postWebhook_fresh hev hdup hrec hcomp
        refine .inr ⟨ev, ⟨hev, hdup, ?_, heff⟩, hevents⟩
        simp [Ledger.processed, hevents]

/-- A delivery answered 200 leaves its event recorded. -/
theorem processed_of_ok (hev : event deps d = some ev)
    (hok : (postWebhook deps d db).1 = .ok) (hcomp : Completes deps db d) :
    (postWebhook deps d db).2.processed ev.id = true := by
  cases hdup : db.processed ev.id with
  | true => rw [postWebhook_duplicate hev hdup, hdup]
  | false =>
    by_cases hrec : d.fault = some ⟨0, false⟩
    · exact absurd hok (postWebhook_unrecorded hev hrec).2
    · have hevents := (postWebhook_fresh hev hdup hrec hcomp).2
      simp [Ledger.processed, hevents]

end Delivery

/-- A delivery of the event that changed nothing. -/
def Idle (e : Edge Ledger Delivery) : Prop := e.dst = e.src

/-- In the history `es`, exactly one delivery has applied `ev`, and the others of the same id were
    idle. -/
def AppliedOnce (deps : Deps) (ev : StripeEvent) (es : List (Edge Ledger Delivery)) : Prop :=
  ∃ l e₁ r, es = l ++ e₁ :: r ∧ Applies deps ev e₁ ∧
    ∀ e' ∈ l ++ r, ∀ ev', event deps e'.label = some ev' → ev'.id = ev.id → Idle e'

/-- What holds of every history of completing deliveries: a recorded id stands for an event applied
    once, and deliveries of an id that is not recorded did nothing. -/
structure History (deps : Deps) (es : List (Edge Ledger Delivery)) (db : Ledger) : Prop where
  once : ∀ id, db.processed id = true → ∃ ev, ev.id = id ∧ AppliedOnce deps ev es
  idle : ∀ id, db.processed id = false → ∀ e' ∈ es, ∀ ev', event deps e'.label = some ev' →
    ev'.id = id → Idle e'

variable {es : List (Edge Ledger Delivery)} {e : Edge Ledger Delivery}

theorem AppliedOnce.snoc
    (h : AppliedOnce deps ev es) (he : ∀ ev', event deps e.label = some ev' → ev'.id = ev.id → Idle e) :
    AppliedOnce deps ev (es ++ [e]) := by
  obtain ⟨l, e₁, r, rfl, happ, hidle⟩ := h
  refine ⟨l, e₁, r ++ [e], by simp, happ, ?_⟩
  rw [← append_assoc]
  exact forall_mem_append.2 ⟨hidle, forall_mem_singleton.2 he⟩

theorem history_step (hcomp : Completes deps db d) (h : History deps es db) :
    History deps (es ++ [⟨db, d, (postWebhook deps d db).2⟩]) (postWebhook deps d db).2 := by
  rcases delivery_cases hcomp with hsame | ⟨ev, happ, hevents⟩
  · -- nothing happened: the new delivery is idle
    rw [hsame]
    refine ⟨fun id hid => ?_, fun id hid => ?_⟩
    · obtain ⟨ev, hev, honce⟩ := h.once id hid
      exact ⟨ev, hev, honce.snoc fun _ _ _ => rfl⟩
    · exact forall_mem_append.2 ⟨h.idle id hid, forall_mem_singleton.2 fun _ _ _ => rfl⟩
  · have hproc : ∀ id, (postWebhook deps d db).2.processed id = (db.processed id || ev.id == id) := by
      intro id
      rw [← processed_append db id ev.id ev.eventType, Ledger.processed, hevents]
      rfl
    -- a delivery of another id is none of this event
    have hother : ∀ {id ev'}, ev.id ≠ id → event deps d = some ev' → ev'.id ≠ id := by
      intro id ev' hne hev'
      cases happ.event.symm.trans hev'
      exact hne
    refine ⟨fun id hid => ?_, fun id hid => ?_⟩
    · by_cases hnew : ev.id = id
      · -- the id just recorded: earlier deliveries of it were idle
        subst hnew
        refine ⟨ev, rfl, es, _, [], rfl, happ, ?_⟩
        rw [append_nil]
        exact h.idle ev.id happ.fresh
      · have hold : db.processed id = true := by
          rw [hproc] at hid
          simpa [hnew] using hid
        obtain ⟨ev₁, rfl, honce⟩ := h.once id hold
        exact ⟨ev₁, rfl, honce.snoc fun ev' hev' hid' => absurd hid' (hother hnew hev')⟩
    · rw [hproc, Bool.or_eq_false_iff] at hid
      refine forall_mem_append.2 ⟨h.idle id hid.1, forall_mem_singleton.2 fun ev' hev' hid' => ?_⟩
      exact absurd hid' (hother (by simpa using hid.2) hev')

/-- **Exactly once.** In every history of deliveries that starts with no event recorded, in which an
    event id names one event and every delivery that records its event completes: whenever a delivery
    of `ev` is answered 200, exactly one delivery so far has applied the whole effect of `ev`, and all
    others of that event have changed nothing. -/
theorem exactly_once {deps : Deps} {db u : Ledger} {es : List (Edge Ledger Delivery)}
    (h0 : db.stripeEvents = []) (hrun : Run (Fires (step deps)) db es u)
    (hids : ∀ e ∈ es, ∀ e' ∈ es, ∀ ev ev', event deps e.label = some ev →
      event deps e'.label = some ev' → ev.id = ev'.id → ev = ev')
    (hcomp : ∀ e ∈ es, Completes deps e.src e.label) :
    ∀ before e later ev, es = before ++ e :: later → event deps e.label = some ev →
      (postWebhook deps e.label e.src).1 = .ok → AppliedOnce deps ev (before ++ [e]) := by
  intro before e later ev hes hev hok
  subst hes
  have hsplit : before ++ e :: later = (before ++ [e]) ++ later := by simp
  rw [hsplit] at hrun
  obtain ⟨t, hpre, -⟩ := Run.append_iff.1 hrun
  have hcomp' : ∀ e' ∈ before ++ [e], Completes deps e'.src e'.label := fun e' he' => hcomp e' (by simp at he' ⊢; tauto)
  have hist : History deps (before ++ [e]) t := by
    refine (hpre.restrict hcomp').history_invariant ?_ ?_
    · have hnone : ∀ id, db.processed id = false := fun id => by simp [Ledger.processed, h0]
      exact ⟨fun id hid => absurd hid (by simp [hnone id]), fun _ _ _ he' => absurd he' (by simp)⟩
    · rintro es' s d v ⟨hs, hc⟩ hI
      cases hs
      exact history_step hc hI
  -- the state after `e` is `t`, and there the event is recorded
  obtain ⟨t', -, hlast⟩ := Run.append_iff.1 hpre
  obtain ⟨hsrc, hstep, hnil⟩ := Run.cons_iff.1 hlast
  obtain rfl := hnil.eq_of_nil
  subst hsrc
  have hdst : (postWebhook deps e.label e.src).2 = e.dst := Option.some.inj hstep
  have hrec : e.dst.processed ev.id = true := by
    rw [← hdst]
    exact processed_of_ok hev hok (hcomp e (by simp))
  obtain ⟨ev₁, hid₁, l, e₁, r, hl, happ, hidle⟩ := hist.once ev.id hrec
  have he₁ : e₁ ∈ before ++ [e] := by rw [hl]; simp
  obtain rfl : ev₁ = ev := hids e₁ (by simp at he₁ ⊢; tauto) e (by simp) ev₁ ev happ.event hev hid₁
  exact ⟨l, e₁, r, hl, happ, hidle⟩

/-! ## A checkout, delivered twice -/

/-- The completed checkout of the pro plan by tenant 1. -/
def checkoutEvent : StripeEvent where
  id := "evt_1"
  eventType := "checkout.session.completed"
  dataObject := .obj [("client_reference_id", .str "1"), ("customer", .str "cus_1"),
    ("subscription", .str "sub_1"), ("metadata", .obj [("plan_code", .str "pro")])]

/-- Every body is that of the checkout; the secret `whsec` signs with the byte `ab`, any other with 0. -/
def checkoutDeps : Deps where
  fromSlice _ := some (.obj [("id", .str checkoutEvent.id), ("type", .str checkoutEvent.eventType),
    ("data", .obj [("object", checkoutEvent.dataObject)])])
  hmac key _ := if key = utf8 "whsec".toList then [0xab] else [0]
  fromTimestamp _ := none

/-- A signed delivery of the checkout. -/
def checkout (fault : Option Fault) : Delivery where
  secret := some "whsec"
  signatureHeader := "t=1,v1=ab"
  body := []
  fault := fault

/-- One plan, one tenant, no event so far. -/
def freshLedger : Ledger where
  plans := Serial.empty.insert ⟨"pro", "price_pro", 1000, none⟩
  tenants := Serial.empty.insert ⟨none, none, none, none, none, none, none⟩
  stripeEvents := []
  audit := []

theorem event_checkout (fault : Option Fault) :
    event checkoutDeps (checkout fault) = some checkoutEvent := by
  have hsig : verifyStripeSignature checkoutDeps [] "t=1,v1=ab" "whsec" = true := by decide +kernel
  have hparse : parseStripeEvent checkoutDeps [] = some checkoutEvent := rfl
  exact (if_pos hsig).trans hparse

/-- The checkout delivered twice, the first time with a fault. -/
def redelivery (fault : Option Fault) : List (Edge Ledger Delivery) :=
  let db := (postWebhook checkoutDeps (checkout fault) freshLedger).2
  [⟨freshLedger, checkout fault, db⟩,
    ⟨db, checkout none, (postWebhook checkoutDeps (checkout none) db).2⟩]

theorem event_redelivery {fault : Option Fault}
    (he : e ∈ redelivery fault) : event checkoutDeps e.label = some checkoutEvent := by
  rcases mem_pair.1 he with rfl | rfl
  · exact event_checkout fault
  · exact event_checkout none

theorem run_redelivery (fault : Option Fault) :
    ∃ u, Run (Fires (step checkoutDeps)) freshLedger (redelivery fault) u := by
  have hfirst : Run (Fires (step checkoutDeps)) freshLedger _ _ := .snoc .nil (a := checkout fault) rfl
  exact ⟨_, hfirst.snoc rfl⟩

/-- Whether the delivery changed the tenants as the checkout should. -/
def wholeEffect (e : Edge Ledger Delivery) : Bool :=
  decide ((effect checkoutDeps checkoutEvent e.src).map Serial.rows = some e.dst.tenants.rows)

theorem exactly_once_redelivered :
    (redelivery none).map (fun e => (postWebhook checkoutDeps e.label e.src).1) = [.ok, .ok] ∧
      AppliedOnce checkoutDeps checkoutEvent (redelivery none) := by
  obtain ⟨u, hrun⟩ := run_redelivery none
  refine ⟨by decide +kernel, ?_⟩
  refine exactly_once rfl hrun ?_ ?_ [_] _ [] checkoutEvent rfl (event_checkout none) (by decide +kernel)
  · intro e he e' he' ev ev' hev hev' _
    rw [event_redelivery he] at hev
    rw [event_redelivery he'] at hev'
    exact Option.some.inj (hev.symm.trans hev')
  · intro e he ev hev hnew _
    cases (event_redelivery he).symm.trans hev
    rcases mem_pair.1 he with rfl | rfl
    · exact ⟨fun f hf => absurd hf (by simp [checkout]), by decide +kernel⟩
    · exact absurd hnew (by decide +kernel)

/-- The connection breaks at `update_tenant_plan`, after the event is recorded and the plan is read.
    The delivery is answered 500 and the redelivery 200, yet neither applies the event. -/
theorem checkout_lost_after_failed_update :
    (∃ u, Run (Fires (step checkoutDeps)) freshLedger (redelivery (some ⟨2, false⟩)) u) ∧
      (∀ e ∈ redelivery (some ⟨2, false⟩), event checkoutDeps e.label = some checkoutEvent) ∧
      (redelivery (some ⟨2, false⟩)).map (fun e => (postWebhook checkoutDeps e.label e.src).1) =
        [.internalServerError "internal error", .ok] ∧
      ∀ e ∈ redelivery (some ⟨2, false⟩), ¬ Applies checkoutDeps checkoutEvent e := by
  refine ⟨run_redelivery _, fun _ => event_redelivery, by decide +kernel, fun e he happ => ?_⟩
  have hnone : (redelivery (some ⟨2, false⟩)).any wholeEffect = false := by decide +kernel
  have hwhole : wholeEffect e = true := by
    rw [wholeEffect, happ.whole]
    exact decide_eq_true rfl
  exact absurd hwhole (by simpa using any_eq_false.1 hnone e he)

end Tagsmaxxing.Webhook
