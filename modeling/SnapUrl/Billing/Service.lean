import SnapUrl.Billing.Provider

/-!
# The billing service

`apps/api/src/billing/billing.service.ts`, on the rows of one workspace: its one
subscription row, its `plan` column, its payments, and the recorded webhook
events.

* `startCheckout`: `openCheckout`, which ends at the provider, and then
  `recordCheckout`, which writes the row.
* `handleWebhook`: the event is recorded, then the payment, then the row and the
  plan.  `webhookWrites` is the list of these writes, so that a handler that stops
  half way is a part of the list.
* `cancelSubscription`, `changePlan`: what the owner can ask for.
-/

namespace SnapUrl.Billing

/-! ### Rows -/

structure Subscription where
  planKey : PlanKey
  interval : BillingInterval
  provider : String
  providerSubscriptionId : Option String
  status : SubscriptionStatus
  currentPeriodEnd : Option Int
  cancelAtPeriodEnd : Option Int
  graceEndsAt : Option Int
  trialEndsAt : Option Int
  pendingPlanKey : Option PlanKey
  pendingInterval : Option BillingInterval
  cancellationReason : Option String
  cancellationComment : Option String
deriving DecidableEq, Repr

/-- A row of the webhook events, `processed` once it is marked so. -/
structure StoredEvent where
  eventId : String
  eventType : String
  processed : Bool
deriving DecidableEq, Repr

structure Payment where
  providerPaymentId : String
  providerSubscriptionId : Option String
  amount : String
  currency : String
  status : String
deriving DecidableEq, Repr

/-- What is stored of one workspace. -/
structure Account where
  subscription : Option Subscription
  /-- The `plan` column of the workspace. -/
  plan : String
  events : List StoredEvent
  payments : List Payment
deriving DecidableEq, Repr

/-- The fields the lifecycle rules read. -/
def Subscription.lifecycle (row : Subscription) : LifecycleSubscription :=
  ⟨row.status, row.currentPeriodEnd, row.cancelAtPeriodEnd, row.graceEndsAt⟩

def Subscription.entitled (row : Subscription) (now : Int) : Bool := isEntitled row.lifecycle now

/-- Whether the workspace has an entitled subscription row at `now`. -/
def Account.entitled (a : Account) (now : Int) : Bool := a.subscription.any (·.entitled now)

/-- The event ids that are recorded. -/
def Account.eventIds (a : Account) : List String := a.events.map (·.eventId)

/-- `key.charAt(0).toUpperCase() + key.slice(1)`. -/
def capitalise (key : String) : String :=
  match key.toList with
  | [] => ""
  | c :: rest => String.ofList (c.toUpper :: rest)

/-- Display label for the workspace's `plan` column. -/
def planLabel (planKey : PlanKey) : String := capitalise planKey.name

/-! ### Checkout -/

structure CatalogPlan where
  trialDays : Int
  trialRequiresCard : Bool
  price : BillingInterval → Option Int

structure ResolvedCoupon where
  couponId : String
  code : String
  providerOfferId : Option String
  discountMinor : Int
deriving DecidableEq, Repr

structure CheckoutRequest where
  workspaceId : String
  customerEmail : String
  planKey : PlanKey
  interval : BillingInterval
  couponCode : Option String
deriving DecidableEq, Repr

/-- What the switches, the catalogue, the coupons and the provider answer. -/
structure CheckoutAnswers where
  now : Int
  checkoutOn : Bool
  trialsOn : Bool
  couponsOn : Bool
  plan : Option CatalogPlan
  /-- `coupons.validate` on the live price, none where it rejects the code. -/
  coupon : Int → Option ResolvedCoupon
  client : CreateSubscription → Option String
  /-- Whether `coupons.recordRedemption` goes through. -/
  redeemed : Bool

/-- What the browser is handed. -/
structure CheckoutSession where
  subscriptionId : String
  keyId : String
  planKey : PlanKey
  interval : BillingInterval
  amountMinor : Option Int
  coupon : Option (String × Int)
  trialEndsAt : Option Int
deriving DecidableEq, Repr

/-- The live price, informational for the confirmation screen. -/
def livePriceMinor (req : CheckoutRequest) (ans : CheckoutAnswers) : Option Int :=
  ans.plan.bind (·.price req.interval)

/-- The coupon of a checkout that presents one. -/
def resolveCoupon (req : CheckoutRequest) (ans : CheckoutAnswers) :
    Except CheckoutError (Option ResolvedCoupon) :=
  if !truthy req.couponCode then .ok none
  else if !ans.couponsOn then .error (.switchedOff "billing.coupons")
  else
    match ans.coupon ((livePriceMinor req ans).getD 0) with
    | none => .error .couponNotApplicable
    | some coupon => .ok (some coupon)

def checkoutParams (req : CheckoutRequest) (ans : CheckoutAnswers)
    (coupon : Option ResolvedCoupon) : CreateCheckoutParams where
  workspaceId := req.workspaceId
  customerEmail := req.customerEmail
  planKey := req.planKey
  interval := req.interval
  offerId := coupon.bind (·.providerOfferId)
  trialDays := if ans.trialsOn then (ans.plan.map (·.trialDays)).getD 0 else 0
  trialRequiresCard := (ans.plan.map (·.trialRequiresCard)).getD true

/-- Everything of `startCheckout` before its own row is written. -/
def openCheckout (cfg : ProviderConfig) (req : CheckoutRequest) (ans : CheckoutAnswers) :
    Except CheckoutError CheckoutSession :=
  if !ans.checkoutOn then .error (.switchedOff "billing.checkout")
  else
    match resolveCoupon req ans with
    | .error e => .error e
    | .ok coupon =>
      match createCheckout cfg ans.client (checkoutParams req ans coupon) ans.now with
      | .error e => .error e
      | .ok result =>
        if coupon.isSome ∧ ans.redeemed = false then .error .couponRedeemed
        else
          .ok
            { subscriptionId := result.subscriptionId
              keyId := result.keyId
              planKey := req.planKey
              interval := req.interval
              amountMinor := livePriceMinor req ans
              coupon := coupon.bind fun c =>
                c.providerOfferId.map fun _ => (c.code, c.discountMinor)
              trialEndsAt := result.trialEndsAt }

/-- The row a checkout leaves: a new one, or the one that is there with the fields
of its `set` clause overwritten. -/
def checkoutRow (cfg : ProviderConfig) (session : CheckoutSession) :
    Option Subscription → Subscription
  | none =>
    { planKey := session.planKey
      interval := session.interval
      provider := cfg.name
      providerSubscriptionId := some session.subscriptionId
      status := .created
      currentPeriodEnd := none
      cancelAtPeriodEnd := none
      graceEndsAt := none
      trialEndsAt := session.trialEndsAt
      pendingPlanKey := none
      pendingInterval := none
      cancellationReason := none
      cancellationComment := none }
  | some row =>
    { row with
      planKey := session.planKey
      interval := session.interval
      provider := cfg.name
      providerSubscriptionId := some session.subscriptionId
      status := .created
      trialEndsAt := session.trialEndsAt }

/-- The upsert at the end of `startCheckout`. -/
def recordCheckout (cfg : ProviderConfig) (session : CheckoutSession) (a : Account) : Account :=
  { a with subscription := some (checkoutRow cfg session a.subscription) }

def startCheckout (cfg : ProviderConfig) (req : CheckoutRequest) (ans : CheckoutAnswers)
    (a : Account) : Account × Except CheckoutError CheckoutSession :=
  match openCheckout cfg req ans with
  | .error e => (a, .error e)
  | .ok session => (recordCheckout cfg session a, .ok session)

/-! ### Webhooks -/

/-- The writes of one event. -/
inductive Write where
  | insertEvent (eventId eventType : String)
  | upsertPayment (providerSubscriptionId : Option String) (payment : NormalizedPayment)
  /-- The transaction over the subscription row and the workspace's plan. -/
  | applyUpdate (row : Subscription) (plan : String)
  | markProcessed (eventId : String)
deriving DecidableEq, Repr

/-- The upsert of a payment, on its provider id. -/
def upsertPayment (providerSubscriptionId : Option String) (payment : NormalizedPayment)
    (payments : List Payment) : List Payment :=
  if payment.providerPaymentId ∈ payments.map (·.providerPaymentId) then
    payments.map fun row =>
      if row.providerPaymentId = payment.providerPaymentId then
        { row with status := payment.status }
      else row
  else
    payments ++ [⟨payment.providerPaymentId, providerSubscriptionId, payment.amount,
      payment.currency, payment.status⟩]

def Write.apply (a : Account) : Write → Account
  | .insertEvent eventId eventType => { a with events := a.events ++ [⟨eventId, eventType, false⟩] }
  | .upsertPayment subscriptionId payment =>
    { a with payments := Billing.upsertPayment subscriptionId payment a.payments }
  | .applyUpdate row plan => { a with subscription := some row, plan := plan }
  | .markProcessed eventId =>
    { a with
      events := a.events.map fun e =>
        if e.eventId = eventId then { e with processed := true } else e }

/-- The stored row an event is about. -/
def Account.rowOf (cfg : ProviderConfig) (a : Account) (event : NormalizedBillingEvent) :
    Option Subscription :=
  a.subscription.filter fun row =>
    event.providerSubscriptionId.isSome ∧ row.provider = cfg.name ∧
      row.providerSubscriptionId = event.providerSubscriptionId

/-- The provider plan id a pending change waits for, while the row is entitled. -/
def pendingTargetId (cfg : ProviderConfig) (entitled : Bool) (row : Subscription) :
    Option String := do
  let planKey ← row.pendingPlanKey
  let interval ← row.pendingInterval
  if entitled then resolvePlanId cfg planKey interval else none

/-- The row after an event of this status: entitlement, and the pending change once
the provider confirms it. -/
def updatedRow (cfg : ProviderConfig) (row : Subscription) (event : NormalizedBillingEvent)
    (status : SubscriptionStatus) (now : Int) : Subscription :=
  let graceEndsAt :=
    if isFailedPaymentStatus status then some (row.graceEndsAt.getD (graceEndFrom now)) else none
  let currentPeriodEnd := event.currentPeriodEnd.orElse fun _ => row.currentPeriodEnd
  let cancelAtPeriodEnd := if status = .cancelled then currentPeriodEnd else none
  let entitled := isEntitled ⟨status, currentPeriodEnd, cancelAtPeriodEnd, graceEndsAt⟩ now
  let target := pendingTargetId cfg entitled row
  let moved :=
    { row with
      status := status
      currentPeriodEnd := currentPeriodEnd
      cancelAtPeriodEnd := cancelAtPeriodEnd
      graceEndsAt := graceEndsAt }
  if target.isSome ∧ event.providerPlanId = target then
    { moved with
      planKey := row.pendingPlanKey.getD row.planKey
      interval := row.pendingInterval.getD row.interval
      pendingPlanKey := none
      pendingInterval := none }
  else moved

/-- The plan column that goes with a row. -/
def mirroredPlan (row : Subscription) (now : Int) : String :=
  if row.entitled now then planLabel row.planKey else "Free"

/-- The writes that move money or a plan. -/
def effectWrites (cfg : ProviderConfig) (row : Subscription) (event : NormalizedBillingEvent)
    (now : Int) : List Write :=
  (event.payment.map (Write.upsertPayment row.providerSubscriptionId)).toList ++
    (event.status.map fun status =>
      let row := updatedRow cfg row event status now
      Write.applyUpdate row (mirroredPlan row now)).toList

/-- Every write of a first delivery, in order. -/
def webhookWrites (cfg : ProviderConfig) (a : Account) (event : NormalizedBillingEvent)
    (now : Int) : List Write :=
  .insertEvent event.eventId event.eventType ::
    match a.rowOf cfg event with
    | none => []
    | some row => effectWrites cfg row event now ++ [.markProcessed event.eventId]

inductive WebhookResult where
  | processed
  | duplicate
  | ignored
deriving DecidableEq, Repr

/-- Process a verified webhook event. -/
def handleWebhook (cfg : ProviderConfig) (a : Account) (event : NormalizedBillingEvent)
    (now : Int) : Account × WebhookResult :=
  if event.eventId ∈ a.eventIds then (a, .duplicate)
  else
    ((webhookWrites cfg a event now).foldl Write.apply a,
      if (a.rowOf cfg event).isSome then .processed else .ignored)

/-! ### What the owner asks for -/

inductive OwnerError where
  | switchedOff (killSwitch : String)
  | noActiveSubscription
  | samePlan (planKey : PlanKey) (interval : BillingInterval)
  | planNotConfigured (planKey : PlanKey) (interval : BillingInterval)
  | provider
deriving DecidableEq, Repr

/-- The entitled row an owner's request is about. -/
def Account.ownedRow (a : Account) (now : Int) : Option Subscription :=
  a.subscription.filter fun row => truthy row.providerSubscriptionId ∧ row.entitled now

/-- Schedule the subscription to end; the plan waits for the webhook. -/
def cancelSubscription (a : Account) (reason comment : Option String) (providerOk : Bool)
    (now : Int) : Account × Except OwnerError Unit :=
  match a.ownedRow now with
  | none => (a, .error .noActiveSubscription)
  | some row =>
    if !providerOk then (a, .error .provider)
    else
      ({ a with
        subscription := some { row with
          cancelAtPeriodEnd := some now
          cancellationReason := reason
          cancellationComment := comment } }, .ok ())

/-- Ask for another plan; the row keeps the request until a webhook confirms it. -/
def changePlan (cfg : ProviderConfig) (a : Account) (planKey : PlanKey)
    (interval : BillingInterval) (planChangesOn providerOk : Bool) (now : Int) :
    Account × Except OwnerError Unit :=
  if !planChangesOn then (a, .error (.switchedOff "billing.planChanges"))
  else
    match a.ownedRow now with
    | none => (a, .error .noActiveSubscription)
    | some row =>
      if row.planKey = planKey ∧ row.interval = interval then
        (a, .error (.samePlan planKey interval))
      else if resolvePlanId cfg planKey interval = none then
        (a, .error (.planNotConfigured planKey interval))
      else if !providerOk then (a, .error .provider)
      else
        ({ a with
          subscription := some { row with
            pendingPlanKey := some planKey
            pendingInterval := some interval } }, .ok ())

/-! ### What each operation does -/

section Operations

variable {cfg : ProviderConfig} {req : CheckoutRequest} {ans : CheckoutAnswers} {a : Account}
  {event : NormalizedBillingEvent} {row : Subscription} {now : Int}

theorem startCheckout_of_error {e : CheckoutError} (h : openCheckout cfg req ans = .error e) :
    startCheckout cfg req ans a = (a, .error e) := by
  rw [startCheckout, h]

theorem startCheckout_of_ok {session : CheckoutSession}
    (h : openCheckout cfg req ans = .ok session) :
    startCheckout cfg req ans a = (recordCheckout cfg session a, .ok session) := by
  rw [startCheckout, h]

/-- Whatever row was there, a recorded checkout is a created one with the new id. -/
theorem checkoutRow_status (cfg : ProviderConfig) (session : CheckoutSession)
    (o : Option Subscription) :
    (checkoutRow cfg session o).status = .created := by
  cases o <;> rfl

theorem checkoutRow_subscriptionId (cfg : ProviderConfig) (session : CheckoutSession)
    (o : Option Subscription) :
    (checkoutRow cfg session o).providerSubscriptionId = some session.subscriptionId := by
  cases o <;> rfl

theorem checkoutRow_planKey (cfg : ProviderConfig) (session : CheckoutSession)
    (o : Option Subscription) :
    (checkoutRow cfg session o).planKey = session.planKey := by
  cases o <;> rfl

theorem not_entitled_checkoutRow (cfg : ProviderConfig) (session : CheckoutSession)
    (o : Option Subscription) (t : Int) :
    (checkoutRow cfg session o).entitled t = false :=
  not_isEntitled_of_created (checkoutRow_status cfg session o) t

theorem rowOf_eq_some_iff :
    a.rowOf cfg event = some row ↔ a.subscription = some row ∧
      event.providerSubscriptionId.isSome = true ∧ row.provider = cfg.name ∧
        row.providerSubscriptionId = event.providerSubscriptionId := by
  rw [Account.rowOf, Option.filter_eq_some_iff]
  simp

/-- An event that was recorded changes nothing. -/
theorem handleWebhook_of_mem (h : event.eventId ∈ a.eventIds) :
    handleWebhook cfg a event now = (a, .duplicate) := by
  rw [handleWebhook, if_pos h]

/-- An event about no stored row is recorded, and that is all. -/
theorem handleWebhook_of_rowOf_none (hnew : event.eventId ∉ a.eventIds)
    (hrow : a.rowOf cfg event = none) :
    handleWebhook cfg a event now =
      ({ a with events := a.events ++ [⟨event.eventId, event.eventType, false⟩] }, .ignored) := by
  rw [handleWebhook, if_neg hnew, webhookWrites, hrow]
  rfl

theorem handleWebhook_of_rowOf_some (hnew : event.eventId ∉ a.eventIds)
    (hrow : a.rowOf cfg event = some row) :
    handleWebhook cfg a event now =
      ((Write.insertEvent event.eventId event.eventType ::
        (effectWrites cfg row event now ++ [.markProcessed event.eventId])).foldl Write.apply a,
          .processed) := by
  rw [handleWebhook, if_neg hnew, webhookWrites, hrow]
  rfl

/-- A first delivery about a stored row: the row moves with the status of the event. -/
theorem subscription_handleWebhook (hnew : event.eventId ∉ a.eventIds)
    (hrow : a.rowOf cfg event = some row) :
    (handleWebhook cfg a event now).1.subscription =
      some (event.status.elim row fun status => updatedRow cfg row event status now) := by
  have hsub := (rowOf_eq_some_iff.mp hrow).1
  rw [handleWebhook_of_rowOf_some hnew hrow, effectWrites]
  cases event.payment <;> cases event.status <;> simp [Write.apply, hsub]

/-- And the plan follows the row. -/
theorem plan_handleWebhook (hnew : event.eventId ∉ a.eventIds)
    (hrow : a.rowOf cfg event = some row) :
    (handleWebhook cfg a event now).1.plan =
      event.status.elim a.plan fun status =>
        mirroredPlan (updatedRow cfg row event status now) now := by
  rw [handleWebhook_of_rowOf_some hnew hrow, effectWrites]
  cases event.payment <;> cases event.status <;> simp [Write.apply]

/-- After a delivery the event is recorded, and nothing that was recorded is lost. -/
theorem mem_eventIds_handleWebhook {id : String} :
    id ∈ (handleWebhook cfg a event now).1.eventIds ↔ id ∈ a.eventIds ∨ id = event.eventId := by
  by_cases hmem : event.eventId ∈ a.eventIds
  · rw [handleWebhook_of_mem hmem]
    constructor
    · exact Or.inl
    · rintro (h | rfl)
      · exact h
      · exact hmem
  · cases hrow : a.rowOf cfg event with
    | none =>
      rw [handleWebhook_of_rowOf_none hmem hrow]
      simp [Account.eventIds]
    | some row =>
      rw [handleWebhook_of_rowOf_some hmem hrow, effectWrites]
      have hmark : ∀ (l : List StoredEvent), (l.map fun e =>
          if e.eventId = event.eventId then { e with processed := true } else e).map
            (·.eventId) = l.map (·.eventId) := by
        intro l
        rw [List.map_map]
        refine List.map_congr_left fun e _ => ?_
        rw [Function.comp_apply]
        split <;> rfl
      cases event.payment <;> cases event.status <;>
        simp [Write.apply, Account.eventIds, hmark]

/-- The lifecycle fields of a row an event has moved. -/
theorem lifecycle_updatedRow (status : SubscriptionStatus) :
    (updatedRow cfg row event status now).lifecycle =
      { status := status
        currentPeriodEnd := event.currentPeriodEnd.orElse fun _ => row.currentPeriodEnd
        cancelAtPeriodEnd :=
          if status = .cancelled then event.currentPeriodEnd.orElse fun _ => row.currentPeriodEnd
          else none
        graceEndsAt :=
          if isFailedPaymentStatus status then some (row.graceEndsAt.getD (graceEndFrom now))
          else none } :=
  (apply_ite Subscription.lifecycle _ _ _).trans (ite_self _)

/-- An event never moves a row to another subscription. -/
theorem provider_updatedRow (status : SubscriptionStatus) :
    (updatedRow cfg row event status now).provider = row.provider ∧
      (updatedRow cfg row event status now).providerSubscriptionId =
        row.providerSubscriptionId :=
  ⟨(apply_ite Subscription.provider _ _ _).trans (ite_self _),
    (apply_ite Subscription.providerSubscriptionId _ _ _).trans (ite_self _)⟩

/-- The plan of a row an event has moved: the pending one once the provider confirms it. -/
theorem planKey_updatedRow (status : SubscriptionStatus) :
    (updatedRow cfg row event status now).planKey =
      if (pendingTargetId cfg ((updatedRow cfg row event status now).entitled now) row).isSome ∧
          event.providerPlanId =
            pendingTargetId cfg ((updatedRow cfg row event status now).entitled now) row
      then row.pendingPlanKey.getD row.planKey else row.planKey := by
  rw [Subscription.entitled, lifecycle_updatedRow]
  exact apply_ite Subscription.planKey _ _ _

/-- A healthy event entitles the row. -/
theorem entitled_updatedRow {status : SubscriptionStatus} (h : isHealthyStatus status = true)
    (t : Int) : (updatedRow cfg row event status now).entitled t = true := by
  rw [Subscription.entitled, lifecycle_updatedRow]
  exact isEntitled_of_healthy h t

end Operations

end SnapUrl.Billing
