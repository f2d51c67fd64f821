import SnapUrl.Billing.Lifecycle

/-!
# The billing provider

`apps/api/src/billing/razorpay.provider.ts` and `billing-plans.ts`: what a
checkout asks of the provider, and what a signed webhook body says.

* `verifyWebhook`: the event a body carries, once its signature is checked.
  `signature_of_verifyWebhook` says **no event comes out of an unsigned body**.
* `statusForEvent`, `trialStatusFromEntity`: the status the event implies.
* `createCheckout`: the subscription that is asked for, with the workspace in its
  notes.
-/

namespace SnapUrl.Billing

structure ProviderConfig where
  name : String
  keyId : String
  webhookSecret : String
  /-- `RAZORPAY_PLAN_IDS`, parsed: `planKey:interval` and the provider's plan id. -/
  planIds : List (String × String)
deriving DecidableEq, Repr

def BillingInterval.name : BillingInterval → String
  | .monthly => "monthly"
  | .yearly => "yearly"

def planLookupKey (planKey : PlanKey) (interval : BillingInterval) : String :=
  planKey.name ++ ":" ++ interval.name

/-- The provider plan id configured for a plan and an interval. -/
def resolvePlanId (cfg : ProviderConfig) (planKey : PlanKey) (interval : BillingInterval) :
    Option String :=
  cfg.planIds.lookup (planLookupKey planKey interval)

/-! ### Webhooks -/

structure NormalizedPayment where
  providerPaymentId : String
  amount : String
  currency : String
  status : String
deriving DecidableEq, Repr

/-- A verified webhook, as the service acts on it. -/
structure NormalizedBillingEvent where
  eventId : String
  eventType : String
  providerSubscriptionId : Option String
  status : Option SubscriptionStatus
  providerPlanId : Option String
  currentPeriodEnd : Option Int
  payment : Option NormalizedPayment
deriving DecidableEq, Repr

/-- The status an event type implies, none for an event that moves no plan. -/
def statusForEvent (eventType : String) : Option SubscriptionStatus :=
  if eventType = "subscription.activated" ∨ eventType = "subscription.charged" ∨
      eventType = "subscription.resumed" then some .active
  else if eventType = "subscription.authenticated" then some .authenticated
  else if eventType = "subscription.pending" then some .past_due
  else if eventType = "subscription.halted" then some .halted
  else if eventType = "subscription.cancelled" then some .cancelled
  else if eventType = "subscription.completed" then some .completed
  else if eventType = "subscription.expired" then some .expired
  else none

/-- The trial window as the subscription entity reports it. -/
def trialStatusFromEntity (entity : Option Json) (now : Int) : Option SubscriptionStatus := do
  let entity ← entity
  let status ← (entity.get "status").bind Json.asString
  let chargeAt ← (entity.get "charge_at").bind Json.asNumber
  if status = "authenticated" ∧ now < chargeAt * 1000 then some .trialing else none

/-- `payload.<name>.entity` of a body. -/
def readEntity (raw : Json) (name : String) : Option Json := do
  let payload ← raw.get "payload"
  let wrapper ← payload.get name
  match ← wrapper.get "entity" with
  | .obj fields => some (.obj fields)
  | _ => none

def readPayment (raw : Json) : Option NormalizedPayment := do
  let entity ← readEntity raw "payment"
  let id ← (entity.get "id").bind Json.asString
  let amount ← (entity.get "amount").bind fun v =>
    (v.asNumber.map toString).orElse fun _ => v.asString
  let currency ← (entity.get "currency").bind Json.asString
  let status ← (entity.get "status").bind Json.asString
  if id = "" then none else some ⟨id, amount, currency, status⟩

/-- The event's own id, or a deterministic fallback. -/
def readEventId (p : Platform) (raw : Json) : String :=
  match (raw.get "id").bind Json.asString with
  | some id =>
    if id = "" then "sha256:" ++ p.hmacSha256Hex "razorpay-event-id-fallback" (p.stringifyJson raw)
    else id
  | none => "sha256:" ++ p.hmacSha256Hex "razorpay-event-id-fallback" (p.stringifyJson raw)

/-- What a signed body says.  The body's own time of the event is not read. -/
def normalise (p : Platform) (raw : Json) (eventType : String) (now : Int) :
    NormalizedBillingEvent :=
  let entity := readEntity raw "subscription"
  let field := fun name => entity.bind (·.get name)
  { eventId := readEventId p raw
    eventType := eventType
    providerSubscriptionId := (field "id").bind Json.asString
    status := (trialStatusFromEntity entity now).orElse fun _ => statusForEvent eventType
    providerPlanId := (field "plan_id").bind Json.asString
    currentPeriodEnd := ((field "current_end").bind Json.asNumber).map (· * 1000)
    payment := readPayment raw }

def verifyWebhook (p : Platform) (cfg : ProviderConfig) (rawBody : String)
    (signature : Option String) (now : Int) : Option NormalizedBillingEvent :=
  if cfg.webhookSecret = "" ∨ !truthy signature then none
  else if signature ≠ some (p.hmacSha256Hex cfg.webhookSecret rawBody) then none
  else
    match p.parseJson rawBody with
    | none => none
    | some raw =>
      let eventType := orEmpty ((raw.get "event").bind Json.asString)
      if eventType = "" then none else some (normalise p raw eventType now)

/-- **No event comes out of an unsigned body.** -/
theorem signature_of_verifyWebhook {p : Platform} {cfg : ProviderConfig} {rawBody : String}
    {signature : Option String} {now : Int} {event : NormalizedBillingEvent}
    (h : verifyWebhook p cfg rawBody signature now = some event) :
    signature = some (p.hmacSha256Hex cfg.webhookSecret rawBody) ∧ cfg.webhookSecret ≠ "" := by
  rw [verifyWebhook] at h
  split at h
  · simp at h
  rename_i hsecret
  split at h
  · simp at h
  rename_i hsigned
  exact ⟨not_not.mp hsigned, fun he => hsecret (Or.inl he)⟩

/-! ### Checkouts -/

/-- `TOTAL_CYCLES`. -/
def totalCycles : Nat := 120

def dayMs : Int := 24 * 60 * 60 * 1000

structure CreateCheckoutParams where
  workspaceId : String
  customerEmail : String
  planKey : PlanKey
  interval : BillingInterval
  offerId : Option String
  trialDays : Int
  trialRequiresCard : Bool
deriving DecidableEq, Repr

/-- What is asked of the provider. -/
structure CreateSubscription where
  planId : String
  totalCount : Nat
  notes : List (String × String)
  customerEmail : String
  offerId : Option String
  /-- In seconds, none for a first charge now. -/
  startAt : Option Int
  requiresCard : Bool
deriving DecidableEq, Repr

structure CheckoutResult where
  subscriptionId : String
  keyId : String
  trialEndsAt : Option Int
deriving DecidableEq, Repr

inductive CheckoutError where
  | switchedOff (killSwitch : String)
  | couponNotApplicable
  | planNotConfigured (planKey : PlanKey) (interval : BillingInterval)
  | provider
  | couponRedeemed
deriving DecidableEq, Repr

/-- Open a subscription at the provider, which answers with its id or raises. -/
def createCheckout (cfg : ProviderConfig) (client : CreateSubscription → Option String)
    (params : CreateCheckoutParams) (now : Int) : Except CheckoutError CheckoutResult :=
  match resolvePlanId cfg params.planKey params.interval with
  | none => .error (.planNotConfigured params.planKey params.interval)
  | some planId =>
    let trialEndsAt := if 0 < params.trialDays then some (now + params.trialDays * dayMs) else none
    let request : CreateSubscription :=
      { planId := planId
        totalCount := totalCycles
        notes := [("workspaceId", params.workspaceId), ("planKey", params.planKey.name),
          ("interval", params.interval.name)]
        customerEmail := params.customerEmail
        offerId := params.offerId
        startAt := trialEndsAt.map (· / 1000)
        requiresCard := params.trialRequiresCard }
    match client request with
    | none => .error .provider
    | some subscriptionId => .ok ⟨subscriptionId, cfg.keyId, trialEndsAt⟩

end SnapUrl.Billing
