import SnapUrl.Billing.Checkout

/-!
# The order events arrive in

The provider delivers the events of a subscription in any order, and more than
once.  A body carries the time of its event; `verifyWebhook` does not read it, so
that the order of arrival is the only order the service knows.

* `webhooks`: the webhook route, request after request.
* `receiveAll_firstArrivals`: a repeated event changes nothing, so that a run is
  a run over the first arrivals.
* `receiveAll_new`: over events of which none comes twice the row is a fold over
  the lifecycle events of its subscription.
* `last_arrival_decides`: **the status is that of the last of them**, the period
  end the last one that was reported, and the plan goes with the row as it was then.
* `older_event_reentitles`: an activation that arrives after a newer cancellation.
-/

namespace SnapUrl.Billing.EventOrder

/-- A request to the webhook route. -/
structure WebhookRequest where
  rawBody : String
  signature : Option String
  receivedAt : Int
deriving DecidableEq, Repr

/-- A verified event and when it came. -/
structure Received where
  event : NormalizedBillingEvent
  receivedAt : Int
deriving DecidableEq, Repr

def WebhookRequest.verified (p : Platform) (cfg : ProviderConfig) (d : WebhookRequest) :
    Option Received :=
  (verifyWebhook p cfg d.rawBody d.signature d.receivedAt).map (⟨·, d.receivedAt⟩)

/-- The time of the event, as the provider gives it. -/
def WebhookRequest.eventTime (p : Platform) (d : WebhookRequest) : Option Int := do
  let raw ← p.parseJson d.rawBody
  (← raw.get "created_at").asNumber

/-- The webhook route; none stands for the answer to a body that is not signed. -/
def webhook (p : Platform) (cfg : ProviderConfig) (a : Account) (d : WebhookRequest) :
    Account × Option WebhookResult :=
  match d.verified p cfg with
  | none => (a, none)
  | some r =>
    let (a', result) := handleWebhook cfg a r.event r.receivedAt
    (a', some result)

def webhooks (p : Platform) (cfg : ProviderConfig) (a : Account) (ds : List WebhookRequest) :
    Account :=
  ds.foldl (fun a d => (webhook p cfg a d).1) a

def receiveAll (cfg : ProviderConfig) (a : Account) (rs : List Received) : Account :=
  rs.foldl (fun a r => (handleWebhook cfg a r.event r.receivedAt).1) a

/-- The events that are new when they come, to a service that has seen `seen`. -/
def firstArrivals : List String → List Received → List Received
  | _, [] => []
  | seen, r :: rs =>
    if r.event.eventId ∈ seen then firstArrivals seen rs
    else r :: firstArrivals (r.event.eventId :: seen) rs

/-- An event that moves this row. -/
def Received.moves (row : Subscription) (r : Received) : Bool :=
  r.event.providerSubscriptionId.isSome &&
    row.providerSubscriptionId = r.event.providerSubscriptionId && r.event.status.isSome

/-- The lifecycle events of the subscription of a row, each on its first arrival. -/
def lifecycleArrivals (p : Platform) (cfg : ProviderConfig) (a : Account) (row : Subscription)
    (ds : List WebhookRequest) : List Received :=
  (firstArrivals a.eventIds (ds.filterMap (·.verified p cfg))).filter (·.moves row)

/-- The row after an event of its subscription. -/
def movedRow (cfg : ProviderConfig) (row : Subscription) (r : Received) : Subscription :=
  r.event.status.elim row fun status => updatedRow cfg row r.event status r.receivedAt

section

variable {p : Platform} {cfg : ProviderConfig} {a : Account} {row : Subscription} {r : Received}

theorem webhooks_eq (ds : List WebhookRequest) :
    webhooks p cfg a ds = receiveAll cfg a (ds.filterMap (·.verified p cfg)) := by
  induction ds generalizing a with
  | nil => rfl
  | cons d ds ih =>
    rw [webhooks, List.foldl_cons, List.filterMap_cons]
    cases hverified : d.verified p cfg with
    | none =>
      have hsame : (webhook p cfg a d).1 = a := by rw [webhook, hverified]
      rw [hsame]
      exact ih
    | some r =>
      have hnext : (webhook p cfg a d).1 = (handleWebhook cfg a r.event r.receivedAt).1 := by
        rw [webhook, hverified]
      rw [hnext]
      exact ih

theorem receiveAll_cons (r : Received) (rs : List Received) :
    receiveAll cfg a (r :: rs) =
      receiveAll cfg (handleWebhook cfg a r.event r.receivedAt).1 rs := rfl

/-- **A repeated event changes nothing.** -/
theorem receiveAll_firstArrivals {seen : List String} (hseen : ∀ id, id ∈ seen ↔ id ∈ a.eventIds)
    (rs : List Received) :
    receiveAll cfg a (firstArrivals seen rs) = receiveAll cfg a rs := by
  induction rs generalizing a seen with
  | nil => rfl
  | cons r rs ih =>
    rw [firstArrivals]
    by_cases hmem : r.event.eventId ∈ seen
    · rw [if_pos hmem, receiveAll_cons, handleWebhook_of_mem ((hseen _).mp hmem)]
      exact ih hseen
    · rw [if_neg hmem, receiveAll_cons, receiveAll_cons]
      refine ih fun id => ?_
      rw [List.mem_cons, hseen, mem_eventIds_handleWebhook]
      exact or_comm

theorem firstArrivals_new {seen : List String} (rs : List Received) :
    (∀ r ∈ firstArrivals seen rs, r.event.eventId ∉ seen) ∧
      (firstArrivals seen rs).Pairwise fun r r' => r.event.eventId ≠ r'.event.eventId := by
  induction rs generalizing seen with
  | nil => simp [firstArrivals]
  | cons r rs ih =>
    rw [firstArrivals]
    by_cases hmem : r.event.eventId ∈ seen
    · rw [if_pos hmem]
      exact ih
    · rw [if_neg hmem]
      obtain ⟨hnew, hpairwise⟩ := @ih (r.event.eventId :: seen)
      refine ⟨?_, List.pairwise_cons.mpr ⟨?_, hpairwise⟩⟩
      · intro r' hr'
        rcases List.mem_cons.mp hr' with rfl | hr'
        · exact hmem
        · exact fun h => hnew r' hr' (List.mem_cons_of_mem _ h)
      · exact fun r' hr' h => hnew r' hr' (h ▸ List.mem_cons_self)

/-! ### What one event does to the row -/

theorem provider_movedRow : (movedRow cfg row r).provider = row.provider ∧
    (movedRow cfg row r).providerSubscriptionId = row.providerSubscriptionId := by
  rw [movedRow]
  cases r.event.status with
  | none => exact ⟨rfl, rfl⟩
  | some status => exact provider_updatedRow status

/-- The next row and the next plan: those of a lifecycle event of the subscription, the
old ones otherwise. -/
theorem handleWebhook_new (hrow : a.subscription = some row) (hprovider : row.provider = cfg.name)
    (hnew : r.event.eventId ∉ a.eventIds) :
    (handleWebhook cfg a r.event r.receivedAt).1.subscription =
        some (if r.moves row then movedRow cfg row r else row) ∧
      (handleWebhook cfg a r.event r.receivedAt).1.plan =
        if r.moves row then mirroredPlan (movedRow cfg row r) r.receivedAt else a.plan := by
  cases hfound : a.rowOf cfg r.event with
  | none =>
    have hmoves : r.moves row = false := by
      by_contra hmoves
      rw [Bool.not_eq_false, Received.moves, Bool.and_eq_true, Bool.and_eq_true,
        decide_eq_true_eq] at hmoves
      have := rowOf_eq_some_iff.mpr ⟨hrow, hmoves.1.1, hprovider, hmoves.1.2⟩
      rw [hfound] at this
      exact absurd this (by simp)
    rw [handleWebhook_of_rowOf_none hnew hfound, hmoves]
    exact ⟨hrow, rfl⟩
  | some row' =>
    obtain ⟨hrow', hsome, _, hid⟩ := rowOf_eq_some_iff.mp hfound
    obtain rfl : row = row' := Option.some.inj (hrow.symm.trans hrow')
    rw [subscription_handleWebhook hnew hfound, plan_handleWebhook hnew hfound]
    have hmoves : r.moves row = r.event.status.isSome := by simp [Received.moves, hsome, hid]
    rw [hmoves, movedRow]
    cases r.event.status with
    | none => exact ⟨rfl, rfl⟩
    | some status => exact ⟨rfl, rfl⟩

/-! ### Runs -/

/-- The row and the plan after a run over events that come once each. -/
theorem receiveAll_new {rs : List Received} (hrow : a.subscription = some row)
    (hprovider : row.provider = cfg.name) (hnew : ∀ r ∈ rs, r.event.eventId ∉ a.eventIds)
    (hpairwise : rs.Pairwise fun r r' => r.event.eventId ≠ r'.event.eventId) :
    (receiveAll cfg a rs).subscription =
        some ((rs.filter (·.moves row)).foldl (movedRow cfg) row) ∧
      (receiveAll cfg a rs).plan = (rs.filter (·.moves row)).getLast?.elim a.plan fun r =>
        mirroredPlan ((rs.filter (·.moves row)).foldl (movedRow cfg) row) r.receivedAt := by
  induction rs generalizing a row with
  | nil => exact ⟨hrow, rfl⟩
  | cons r rs ih =>
    obtain ⟨hdistinct, hrest⟩ := List.pairwise_cons.mp hpairwise
    obtain ⟨hsub, hplan⟩ := handleWebhook_new hrow hprovider (hnew r List.mem_cons_self)
    have hnext : ∀ r' ∈ rs,
        r'.event.eventId ∉ (handleWebhook cfg a r.event r.receivedAt).1.eventIds := by
      intro r' hr' hmem
      rcases mem_eventIds_handleWebhook.mp hmem with hmem | heq
      · exact hnew r' (List.mem_cons_of_mem _ hr') hmem
      · exact hdistinct r' hr' heq.symm
    rw [receiveAll_cons]
    by_cases hmoves : r.moves row = true
    · rw [if_pos hmoves] at hsub hplan
      obtain ⟨hprovider', hid⟩ := @provider_movedRow cfg row r
      have hsame : ∀ r' : Received, r'.moves (movedRow cfg row r) = r'.moves row := by
        intro r'
        rw [Received.moves, Received.moves, hid]
      obtain ⟨ihsub, ihplan⟩ := ih hsub (hprovider'.trans hprovider) hnext hrest
      rw [List.filter_congr fun r' _ => hsame r'] at ihsub ihplan
      rw [List.filter_cons_of_pos hmoves, List.foldl_cons, List.getLast?_cons]
      refine ⟨ihsub, ?_⟩
      rw [ihplan, hplan]
      cases hlast : (rs.filter (·.moves row)).getLast? with
      | none =>
        rw [List.getLast?_eq_none_iff.mp hlast]
        rfl
      | some last => rfl
    · rw [if_neg hmoves] at hsub hplan
      rw [List.filter_cons_of_neg hmoves, ← hplan]
      exact ih hsub hprovider hnext hrest

/-- **The status is that of the last event.** -/
theorem status_foldl (rs : List Received) :
    (rs.foldl (movedRow cfg) row).status =
      ((rs.filterMap (·.event.status)).getLast?).getD row.status := by
  induction rs using List.reverseRecOn with
  | nil => rfl
  | append_singleton rs r ih =>
    rw [List.foldl_append, List.foldl_cons, List.foldl_nil, List.filterMap_append, movedRow]
    cases hstatus : r.event.status with
    | none => simpa [hstatus] using ih
    | some status =>
      have hrow : (updatedRow cfg (rs.foldl (movedRow cfg) row) r.event status
          r.receivedAt).status = status :=
        congrArg LifecycleSubscription.status (lifecycle_updatedRow status)
      rw [Option.elim_some]
      simpa [hstatus] using hrow

/-- The period end is the last one an event reported. -/
theorem currentPeriodEnd_foldl (rs : List Received)
    (hall : ∀ r ∈ rs, r.event.status.isSome = true) :
    (rs.foldl (movedRow cfg) row).currentPeriodEnd =
      ((rs.filterMap (·.event.currentPeriodEnd)).getLast?).orElse
        fun _ => row.currentPeriodEnd := by
  induction rs using List.reverseRecOn with
  | nil => rfl
  | append_singleton rs r ih =>
    have hrest := ih fun r' hr' => hall r' (List.mem_append_left _ hr')
    obtain ⟨status, hstatus⟩ := Option.isSome_iff_exists.mp (hall r (by simp))
    have hrow : (updatedRow cfg (rs.foldl (movedRow cfg) row) r.event status
        r.receivedAt).currentPeriodEnd =
          r.event.currentPeriodEnd.orElse fun _ => (rs.foldl (movedRow cfg) row).currentPeriodEnd :=
      congrArg LifecycleSubscription.currentPeriodEnd (lifecycle_updatedRow status)
    rw [List.foldl_append, List.foldl_cons, List.foldl_nil, List.filterMap_append, movedRow,
      hstatus, Option.elim_some]
    refine hrow.trans ?_
    cases hend : r.event.currentPeriodEnd with
    | none => simpa [hend] using hrest
    | some t => simp [hend]

end

/-- **The last arrival decides.**  Of the lifecycle events of a subscription, each on
its first arrival, the last one gives the status and decides with it over the plan,
and the last one that reports a period end gives it.  Runs with the same first
arrivals end alike. -/
theorem last_arrival_decides (p : Platform) (cfg : ProviderConfig) (a : Account)
    (row : Subscription) (ds : List WebhookRequest) (hrow : a.subscription = some row)
    (hprovider : row.provider = cfg.name) :
    ∃ row', (webhooks p cfg a ds).subscription = some row' ∧
      row'.status = (((lifecycleArrivals p cfg a row ds).filterMap (·.event.status)).getLast?).getD
        row.status ∧
      row'.currentPeriodEnd =
        (((lifecycleArrivals p cfg a row ds).filterMap (·.event.currentPeriodEnd)).getLast?).orElse
          (fun _ => row.currentPeriodEnd) ∧
      (webhooks p cfg a ds).plan = (lifecycleArrivals p cfg a row ds).getLast?.elim a.plan
        (fun last => mirroredPlan row' last.receivedAt) ∧
      ∀ ds', lifecycleArrivals p cfg a row ds' = lifecycleArrivals p cfg a row ds →
        (webhooks p cfg a ds').subscription = some row' ∧
          (webhooks p cfg a ds').plan = (webhooks p cfg a ds).plan := by
  have hends : ∀ ds, (webhooks p cfg a ds).subscription =
      some ((lifecycleArrivals p cfg a row ds).foldl (movedRow cfg) row) ∧
        (webhooks p cfg a ds).plan = (lifecycleArrivals p cfg a row ds).getLast?.elim a.plan
          fun r => mirroredPlan ((lifecycleArrivals p cfg a row ds).foldl (movedRow cfg) row)
            r.receivedAt := by
    intro ds
    obtain ⟨hnew, hpairwise⟩ := @firstArrivals_new a.eventIds (ds.filterMap (·.verified p cfg))
    rw [webhooks_eq, ← receiveAll_firstArrivals (fun _ => Iff.rfl)]
    exact receiveAll_new hrow hprovider hnew hpairwise
  have hall : ∀ r ∈ lifecycleArrivals p cfg a row ds, r.event.status.isSome = true := by
    intro r hr
    have hmoves := (List.mem_filter.mp hr).2
    rw [Received.moves, Bool.and_eq_true] at hmoves
    exact hmoves.2
  refine ⟨_, (hends ds).1, status_foldl _, currentPeriodEnd_foldl _ hall, (hends ds).2, ?_⟩
  intro ds' hsame
  obtain ⟨hsub', hplan'⟩ := hends ds'
  rw [hsame] at hsub' hplan'
  exact ⟨hsub', hplan'.trans (hends ds).2.symm⟩

/-! ### An activation that arrives after a newer cancellation -/

def activatedBody : String :=
  "\x7b\"id\":\"evt_2\",\"event\":\"subscription.activated\",\"created_at\":100,\"payload\":\x7b" ++
  "\"subscription\":\x7b\"entity\":\x7b\"id\":\"sub_1\",\"plan_id\":\"plan_pro\"," ++
  "\"status\":\"active\",\"current_end\":2000\x7d\x7d\x7d\x7d"

def cancelledBody : String :=
  "\x7b\"id\":\"evt_3\",\"event\":\"subscription.cancelled\",\"created_at\":200,\"payload\":\x7b" ++
  "\"subscription\":\x7b\"entity\":\x7b\"id\":\"sub_1\",\"plan_id\":\"plan_pro\"," ++
  "\"status\":\"cancelled\",\"current_end\":1\x7d\x7d\x7d\x7d"

def subscriptionJson (eventId eventType status : String) (createdAt currentEnd : Int) : Json :=
  .obj [("id", .str eventId), ("event", .str eventType), ("created_at", .num createdAt),
    ("payload", .obj [("subscription", .obj [("entity", .obj [("id", .str "sub_1"),
      ("plan_id", .str "plan_pro"), ("status", .str status), ("current_end", .num currentEnd)])])])]

/-- The runtime on the two bodies. -/
def webhookPlatform : Platform where
  toLowerCase := id
  toUpperCase := id
  parseUrl _ := none
  parseDate _ := none
  toISOString _ := ""
  parseJson text :=
    if text = activatedBody then
      some (subscriptionJson "evt_2" "subscription.activated" "active" 100 2000)
    else if text = cancelledBody then
      some (subscriptionJson "evt_3" "subscription.cancelled" "cancelled" 200 1)
    else none
  stringifyJson _ := ""
  hmacSha256Hex _ text :=
    if text = activatedBody then "9d1187df4207b560ada4571fc303896c0e7a5e2b9049e6b09436b89402d4dce7"
    else "b7b93b3a9922b8ca794829ae14f81d4d137424320b733f62c2b0a26b85ac104f"
  verifyToken _ _ := none

def activatedRequest (receivedAt : Int) : WebhookRequest :=
  ⟨activatedBody, some "9d1187df4207b560ada4571fc303896c0e7a5e2b9049e6b09436b89402d4dce7",
    receivedAt⟩

def cancelledRequest (receivedAt : Int) : WebhookRequest :=
  ⟨cancelledBody, some "b7b93b3a9922b8ca794829ae14f81d4d137424320b733f62c2b0a26b85ac104f",
    receivedAt⟩

/-- The row of `payingAccount`. -/
def payingRow : Subscription where
  planKey := .pro
  interval := .monthly
  provider := "razorpay"
  providerSubscriptionId := some "sub_1"
  status := .active
  currentPeriodEnd := some 1000
  cancelAtPeriodEnd := none
  graceEndsAt := none
  trialEndsAt := none
  pendingPlanKey := none
  pendingInterval := none
  cancellationReason := none
  cancellationComment := none

/-- An activation, a cancellation, and the activation once more. -/
theorem last_arrival_decides_cancelled :
    ∃ row', (webhooks webhookPlatform sampleConfig payingAccount
        [activatedRequest 5000, cancelledRequest 6000, activatedRequest 7000]).subscription =
          some row' ∧
      row'.status = .cancelled ∧ row'.currentPeriodEnd = some 1000 := by
  obtain ⟨row', hsub, hstatus, hend, _, _⟩ := last_arrival_decides webhookPlatform sampleConfig
    payingAccount payingRow [activatedRequest 5000, cancelledRequest 6000, activatedRequest 7000]
    (by decide) rfl
  exact ⟨row', hsub, hstatus.trans (by decide +kernel), hend.trans (by decide +kernel)⟩

/-- The status, the plan and the period end of a workspace. -/
def outcome (a : Account) : Option SubscriptionStatus × String × Option Int :=
  (a.subscription.map (·.status), a.plan, a.subscription.bind (·.currentPeriodEnd))

/-- Two runs end alike, and the event with the newest time gives the status. -/
def NewestDecides (p : Platform) (cfg : ProviderConfig) (a : Account)
    (ds ds' : List WebhookRequest) : Prop :=
  outcome (webhooks p cfg a ds) = outcome (webhooks p cfg a ds') ∧
    ∀ d ∈ ds, (∀ d' ∈ ds, ∀ t ∈ d.eventTime p, ∀ t' ∈ d'.eventTime p, t' ≤ t) →
      ∀ r ∈ d.verified p cfg, (outcome (webhooks p cfg a ds)).1 = r.event.status

/-- **An activation that arrives after a newer cancellation entitles the workspace
again**, and the same two events in the other order do not. -/
theorem older_event_reentitles :
    ¬ ∀ (p : Platform) (cfg : ProviderConfig) (a : Account) (row : Subscription)
        (ds ds' : List WebhookRequest), a.subscription = some row → row.provider = cfg.name →
      (∀ d ∈ ds ++ ds', ∃ r ∈ d.verified p cfg,
        r.event.providerSubscriptionId = row.providerSubscriptionId ∧
          r.event.eventId ∉ a.eventIds) →
      (∀ body, body ∈ ds.map (·.rawBody) ↔ body ∈ ds'.map (·.rawBody)) →
        NewestDecides p cfg a ds ds' := by
  intro h
  have hverified : ∀ d ∈ [activatedRequest 5000, cancelledRequest 6000] ++
      [cancelledRequest 5000, activatedRequest 6000],
      ((d.verified webhookPlatform sampleConfig).any fun r =>
        r.event.providerSubscriptionId = payingRow.providerSubscriptionId &&
          !decide (r.event.eventId ∈ payingAccount.eventIds)) = true := by
    decide +kernel
  have hdiffer : outcome (webhooks webhookPlatform sampleConfig payingAccount
      [activatedRequest 5000, cancelledRequest 6000]) ≠
        outcome (webhooks webhookPlatform sampleConfig payingAccount
          [cancelledRequest 5000, activatedRequest 6000]) := by
    decide +kernel
  refine hdiffer
    (h webhookPlatform sampleConfig payingAccount payingRow _ _ (by decide) rfl ?_ ?_).1
  · intro d hd
    obtain ⟨r, hr, hnew⟩ := (Option.any_eq_true _ _).mp (hverified d hd)
    rw [Bool.and_eq_true, decide_eq_true_eq, Bool.not_eq_true', decide_eq_false_iff_not] at hnew
    exact ⟨r, hr, hnew⟩
  · intro body
    simp only [List.map_cons, List.map_nil, List.mem_cons, List.not_mem_nil, or_false]
    exact or_comm

end SnapUrl.Billing.EventOrder
