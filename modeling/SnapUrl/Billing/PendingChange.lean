import SnapUrl.Lib.Run
import SnapUrl.Billing.Checkout

/-!
# A change of plan that is pending

The owner (`changePlan`) or an administrator (`applyProviderBackedCharge` of
`apps/api/src/plans/plan-management.service.ts`) asks for another plan, and the row keeps
the request until a webhook confirms it by the provider's plan id.

* `requestAfter`: what has to become of the request in a step.
* `Keeps`: a webhook moves the row to the requested plan only, and only when the provider
  reports that plan; a request goes when it is applied or superseded.
* `keeps_iff_clear`: **every step of a history does so exactly when no checkout goes through
  while a change is pending, and no webhook reports a plan id that the plan in force shares
  with the plan that is asked for.**
* `checkout_keeps_pending`: a checkout on top of a request.
-/

namespace SnapUrl.Billing.PendingChange

open Lib

/-! ### The charge of an administrator -/

inductive ChargeError where
  | switchedOff (killSwitch : String)
  | unknownPlan
  | noActiveSubscription
  | toFree
  | samePlan (planKey : PlanKey)
  | planNotConfigured (planKey : PlanKey) (interval : BillingInterval)
  | provider
deriving DecidableEq, Repr

/-- What the switch, the catalogue and the provider answer. -/
structure ChargeAnswers where
  planChangesOn : Bool
  known : Bool
  providerOk : Bool
deriving DecidableEq, Repr

/-- The live row, with a provider id to drive it by. -/
def liveProviderSubscription (a : Account) : Option Subscription :=
  a.subscription.filter fun row =>
    (row.status = .active ∨ row.status = .trialing) ∧ truthy row.providerSubscriptionId

/-- Like `changePlan`, at the interval of the row. -/
def applyProviderBackedCharge (cfg : ProviderConfig) (a : Account) (toPlanKey : PlanKey)
    (ans : ChargeAnswers) : Account × Except ChargeError Unit :=
  if !ans.planChangesOn then (a, .error (.switchedOff "billing.planChanges"))
  else if !ans.known then (a, .error .unknownPlan)
  else
    match liveProviderSubscription a with
    | none => (a, .error .noActiveSubscription)
    | some row =>
      if toPlanKey = .free then (a, .error .toFree)
      else if toPlanKey = row.planKey then (a, .error (.samePlan toPlanKey))
      else if !truthy (resolvePlanId cfg toPlanKey row.interval) then
        (a, .error (.planNotConfigured toPlanKey row.interval))
      else if !ans.providerOk then (a, .error .provider)
      else
        ({ a with
          subscription := some { row with
            pendingPlanKey := some toPlanKey
            pendingInterval := some row.interval } }, .ok ())

/-! ### Histories -/

inductive Action where
  | checkout (req : CheckoutRequest) (ans : CheckoutAnswers)
  | changePlan (planKey : PlanKey) (interval : BillingInterval) (planChangesOn providerOk : Bool)
      (now : Int)
  | charge (toPlanKey : PlanKey) (ans : ChargeAnswers)
  | cancel (reason comment : Option String) (providerOk : Bool) (now : Int)
  | webhook (event : NormalizedBillingEvent) (now : Int)

def next (cfg : ProviderConfig) (a : Account) : Action → Account
  | .checkout req ans => (startCheckout cfg req ans a).1
  | .changePlan planKey interval planChangesOn providerOk now =>
    (Billing.changePlan cfg a planKey interval planChangesOn providerOk now).1
  | .charge toPlanKey ans => (applyProviderBackedCharge cfg a toPlanKey ans).1
  | .cancel reason comment providerOk now =>
    (cancelSubscription a reason comment providerOk now).1
  | .webhook event now => (handleWebhook cfg a event now).1

def step (cfg : ProviderConfig) (a : Account) (act : Action) : Option Account :=
  some (next cfg a act)

/-! ### What is claimed of them -/

/-- The change a row waits for. -/
def request (row : Subscription) : Option PlanKey × Option BillingInterval :=
  (row.pendingPlanKey, row.pendingInterval)

/-- A first delivery about the row, which entitles it and reports the provider plan id of
the change it waits for. -/
def confirms (cfg : ProviderConfig) (a : Account) (row : Subscription)
    (event : NormalizedBillingEvent) (now : Int) : Bool :=
  event.eventId ∉ a.eventIds && a.rowOf cfg event = some row &&
    event.status.any fun status =>
      let target := pendingTargetId cfg ((updatedRow cfg row event status now).entitled now) row
      target.isSome && event.providerPlanId = target

/-- **What a step makes of a request**: it goes when it is applied or a checkout goes
through, and another request takes its place. -/
def requestAfter (cfg : ProviderConfig) (a : Account) (row : Subscription) :
    Action → Option PlanKey × Option BillingInterval
  | .checkout req ans => if (openCheckout cfg req ans).isOk then (none, none) else request row
  | .changePlan planKey interval planChangesOn providerOk now =>
    if (Billing.changePlan cfg a planKey interval planChangesOn providerOk now).2.isOk then
      (some planKey, some interval)
    else request row
  | .charge toPlanKey ans =>
    if (applyProviderBackedCharge cfg a toPlanKey ans).2.isOk then
      (some toPlanKey, some row.interval)
    else request row
  | .cancel .. => request row
  | .webhook event now => if confirms cfg a row event now then (none, none) else request row

/-- What is claimed of a webhook that leaves `row'` of `row`. -/
structure WebhookKeeps (cfg : ProviderConfig) (a : Account) (event : NormalizedBillingEvent)
    (now : Int) (row row' : Subscription) : Prop where
  /-- The plan changes only to the pending one, on the provider's word. -/
  moved : row'.planKey ≠ row.planKey → row.pendingPlanKey = some row'.planKey ∧
    ∃ interval, row.pendingInterval = some interval ∧ row'.entitled now = true ∧
      event.providerPlanId.isSome = true ∧
      event.providerPlanId = resolvePlanId cfg row'.planKey interval
  /-- A renewal of the plan in force leaves it in force. -/
  renewed : event.providerPlanId.isSome = true →
    event.providerPlanId = resolvePlanId cfg row.planKey row.interval →
    row'.planKey = row.planKey ∧ row'.interval = row.interval
  /-- After an entitled event that is handled, the plan column is that of the row. -/
  mirrored : event.eventId ∉ a.eventIds → a.rowOf cfg event = some row →
    event.status.isSome = true → row'.entitled now = true →
    (handleWebhook cfg a event now).1.plan = planLabel row'.planKey

/-- **What is claimed of a step.** -/
structure Keeps (cfg : ProviderConfig) (a : Account) (act : Action) : Prop where
  pending : ∀ row row', a.subscription = some row → (next cfg a act).subscription = some row' →
    request row' = requestAfter cfg a row act
  webhook : ∀ event now row row', act = .webhook event now → a.subscription = some row →
    (next cfg a act).subscription = some row' → WebhookKeeps cfg a event now row row'

/-- **The condition on a step**: no checkout goes through while a change is pending, and an
event that confirms a change does not report the plan in force. -/
def Clear (cfg : ProviderConfig) (a : Account) : Action → Prop
  | .checkout req ans => ∀ row ∈ a.subscription, (openCheckout cfg req ans).isOk = true →
      request row = (none, none)
  | .webhook event now => ∀ row ∈ a.subscription, confirms cfg a row event now = true →
      event.providerPlanId = resolvePlanId cfg row.planKey row.interval →
        request row = (some row.planKey, some row.interval)
  | _ => True

section

variable {cfg : ProviderConfig} {a : Account} {row row' : Subscription}
  {event : NormalizedBillingEvent} {now : Int}

/-! ### What the requests do -/

/-- A request is refused and leaves everything, or is kept by the row. -/
theorem changePlan_cases (planKey : PlanKey) (interval : BillingInterval)
    (planChangesOn providerOk : Bool) :
    ((Billing.changePlan cfg a planKey interval planChangesOn providerOk now).2.isOk = false ∧
        (Billing.changePlan cfg a planKey interval planChangesOn providerOk now).1 = a) ∨
      (Billing.changePlan cfg a planKey interval planChangesOn providerOk now).2.isOk = true ∧
        ∃ row, a.subscription = some row ∧
          (Billing.changePlan cfg a planKey interval planChangesOn providerOk now).1.subscription =
            some { row with pendingPlanKey := some planKey, pendingInterval := some interval } := by
  rw [Billing.changePlan]
  cases planChangesOn with
  | false => exact Or.inl ⟨rfl, rfl⟩
  | true =>
    cases hrow : a.ownedRow now with
    | none => exact Or.inl ⟨rfl, rfl⟩
    | some row =>
      have hsub : a.subscription = some row := (Option.filter_eq_some_iff.mp hrow).1
      simp only [Bool.not_true, Bool.false_eq_true, if_false]
      split
      · exact Or.inl ⟨rfl, rfl⟩
      split
      · exact Or.inl ⟨rfl, rfl⟩
      split
      · exact Or.inl ⟨rfl, rfl⟩
      · exact Or.inr ⟨rfl, row, hsub, rfl⟩

theorem applyProviderBackedCharge_cases (toPlanKey : PlanKey) (ans : ChargeAnswers) :
    ((applyProviderBackedCharge cfg a toPlanKey ans).2.isOk = false ∧
        (applyProviderBackedCharge cfg a toPlanKey ans).1 = a) ∨
      (applyProviderBackedCharge cfg a toPlanKey ans).2.isOk = true ∧
        ∃ row, a.subscription = some row ∧
          (applyProviderBackedCharge cfg a toPlanKey ans).1.subscription =
            some { row with
              pendingPlanKey := some toPlanKey, pendingInterval := some row.interval } := by
  rw [applyProviderBackedCharge]
  split
  · exact Or.inl ⟨rfl, rfl⟩
  split
  · exact Or.inl ⟨rfl, rfl⟩
  cases hrow : liveProviderSubscription a with
  | none => exact Or.inl ⟨rfl, rfl⟩
  | some row =>
    have hsub : a.subscription = some row := (Option.filter_eq_some_iff.mp hrow).1
    dsimp only
    split
    · exact Or.inl ⟨rfl, rfl⟩
    split
    · exact Or.inl ⟨rfl, rfl⟩
    split
    · exact Or.inl ⟨rfl, rfl⟩
    split
    · exact Or.inl ⟨rfl, rfl⟩
    · exact Or.inr ⟨rfl, row, hsub, rfl⟩

theorem request_cancel {reason comment : Option String} {providerOk : Bool}
    (hrow : a.subscription = some row)
    (hrow' : (cancelSubscription a reason comment providerOk now).1.subscription = some row') :
    request row' = request row := by
  rw [cancelSubscription] at hrow'
  cases howned : a.ownedRow now with
  | none =>
    rw [howned] at hrow'
    rw [Option.some.inj (hrow'.symm.trans hrow)]
  | some owned =>
    have hsub : a.subscription = some owned := (Option.filter_eq_some_iff.mp howned).1
    obtain rfl : owned = row := Option.some.inj (hsub.symm.trans hrow)
    simp only [howned] at hrow'
    split at hrow'
    · rw [Option.some.inj (hrow'.symm.trans hrow)]
    · rw [← Option.some.inj hrow']
      rfl

/-! ### What a webhook does -/

/-- The plan and the request of a row an event has moved. -/
theorem updatedRow_request (cfg : ProviderConfig) (row : Subscription)
    (event : NormalizedBillingEvent) (now : Int) (status : SubscriptionStatus) :
    ((updatedRow cfg row event status now).planKey, (updatedRow cfg row event status now).interval,
        request (updatedRow cfg row event status now)) =
      if (pendingTargetId cfg ((updatedRow cfg row event status now).entitled now) row).isSome ∧
          event.providerPlanId =
            pendingTargetId cfg ((updatedRow cfg row event status now).entitled now) row
      then (row.pendingPlanKey.getD row.planKey, row.pendingInterval.getD row.interval, none, none)
      else (row.planKey, row.interval, request row) := by
  rw [Subscription.entitled, lifecycle_updatedRow]
  exact apply_ite (fun r : Subscription => (r.planKey, r.interval, request r)) _ _ _

theorem pendingTargetId_isSome {entitled : Bool}
    (h : (pendingTargetId cfg entitled row).isSome = true) :
    ∃ planKey interval, row.pendingPlanKey = some planKey ∧ row.pendingInterval = some interval ∧
      entitled = true ∧ pendingTargetId cfg entitled row = resolvePlanId cfg planKey interval := by
  obtain ⟨target, htarget⟩ := Option.isSome_iff_exists.mp h
  rw [pendingTargetId, Option.bind_eq_bind, Option.bind_eq_some_iff] at htarget
  obtain ⟨planKey, hplanKey, htarget⟩ := htarget
  rw [Option.bind_eq_bind, Option.bind_eq_some_iff] at htarget
  obtain ⟨interval, hinterval, htarget⟩ := htarget
  cases entitled with
  | false => simp at htarget
  | true =>
    refine ⟨planKey, interval, hplanKey, hinterval, rfl, ?_⟩
    rw [pendingTargetId, hplanKey, hinterval]
    rfl

/-- **What a webhook leaves of a row**: the requested plan where it confirms the request, and
otherwise the plan and the request that were there. -/
theorem webhook_row (hrow : a.subscription = some row)
    (hrow' : (handleWebhook cfg a event now).1.subscription = some row') :
    if confirms cfg a row event now = true then
      ∃ planKey interval, row.pendingPlanKey = some planKey ∧ row.pendingInterval = some interval ∧
        row'.planKey = planKey ∧ row'.interval = interval ∧ request row' = (none, none) ∧
        row'.entitled now = true ∧ event.providerPlanId.isSome = true ∧
        event.providerPlanId = resolvePlanId cfg planKey interval
    else
      row'.planKey = row.planKey ∧ row'.interval = row.interval ∧ request row' = request row := by
  by_cases hnew : event.eventId ∈ a.eventIds
  · rw [handleWebhook_of_mem hnew] at hrow'
    have hno : ¬ confirms cfg a row event now = true := by simp [confirms, hnew]
    rw [if_neg hno, Option.some.inj (hrow'.symm.trans hrow)]
    exact ⟨rfl, rfl, rfl⟩
  cases hof : a.rowOf cfg event with
  | none =>
    rw [handleWebhook_of_rowOf_none hnew hof] at hrow'
    have hno : ¬ confirms cfg a row event now = true := by simp [confirms, hof]
    rw [if_neg hno, Option.some.inj (hrow'.symm.trans hrow)]
    exact ⟨rfl, rfl, rfl⟩
  | some row₀ =>
    obtain rfl : row₀ = row := Option.some.inj ((rowOf_eq_some_iff.mp hof).1.symm.trans hrow)
    rw [subscription_handleWebhook hnew hof, Option.some.injEq] at hrow'
    cases hstatus : event.status with
    | none =>
      rw [hstatus, Option.elim_none] at hrow'
      have hno : ¬ confirms cfg a row₀ event now = true := by simp [confirms, hstatus]
      rw [if_neg hno, hrow']
      exact ⟨rfl, rfl, rfl⟩
    | some status =>
      rw [hstatus, Option.elim_some] at hrow'
      have hmoved := updatedRow_request cfg row₀ event now status
      have hconfirms : confirms cfg a row₀ event now = true ↔
          (pendingTargetId cfg (row'.entitled now) row₀).isSome = true ∧
            event.providerPlanId = pendingTargetId cfg (row'.entitled now) row₀ := by
        rw [← hrow', confirms]
        simp [hnew, hof, hstatus]
      rw [hrow'] at hmoved
      by_cases hyes : confirms cfg a row₀ event now = true
      · have htarget := hconfirms.mp hyes
        rw [if_pos hyes]
        rw [if_pos htarget, Prod.mk.injEq, Prod.mk.injEq] at hmoved
        obtain ⟨planKey, interval, hplanKey, hinterval, hentitled, hid⟩ :=
          pendingTargetId_isSome htarget.1
        rw [hplanKey, hinterval] at hmoved
        refine ⟨planKey, interval, hplanKey, hinterval, hmoved.1, hmoved.2.1, hmoved.2.2, hentitled,
          ?_, htarget.2.trans hid⟩
        rw [htarget.2]
        exact htarget.1
      · rw [if_neg hyes]
        rw [if_neg fun htarget => hyes (hconfirms.mpr htarget), Prod.mk.injEq,
          Prod.mk.injEq] at hmoved
        exact ⟨hmoved.1, hmoved.2.1, hmoved.2.2⟩

/-- A webhook takes no row away. -/
theorem exists_row_webhook (cfg : ProviderConfig) (event : NormalizedBillingEvent) (now : Int)
    (hrow : a.subscription = some row) :
    ∃ row', (handleWebhook cfg a event now).1.subscription = some row' := by
  by_cases hnew : event.eventId ∈ a.eventIds
  · exact ⟨row, by rw [handleWebhook_of_mem hnew, hrow]⟩
  · cases hof : a.rowOf cfg event with
    | none => exact ⟨row, by rw [handleWebhook_of_rowOf_none hnew hof, hrow]⟩
    | some r => exact ⟨_, subscription_handleWebhook hnew hof⟩

theorem webhookKeeps_iff (hrow : a.subscription = some row)
    (hrow' : (handleWebhook cfg a event now).1.subscription = some row') :
    WebhookKeeps cfg a event now row row' ↔
      (confirms cfg a row event now = true →
        event.providerPlanId = resolvePlanId cfg row.planKey row.interval →
          request row = (some row.planKey, some row.interval)) := by
  have hleft := webhook_row hrow hrow'
  constructor
  · intro hkeeps hyes hold
    rw [if_pos hyes] at hleft
    obtain ⟨planKey, interval, hplanKey, hinterval, hp, hi, -, -, hsome, -⟩ := hleft
    obtain ⟨hsame, hsame'⟩ := hkeeps.renewed hsome hold
    rw [request, hplanKey, hinterval, ← hp, hsame, ← hi, hsame']
  · intro hclear
    constructor
    · intro hne
      by_cases hyes : confirms cfg a row event now = true
      · rw [if_pos hyes] at hleft
        obtain ⟨planKey, interval, hplanKey, hinterval, rfl, -, -, hentitled, hsome, hid⟩ := hleft
        exact ⟨hplanKey, interval, hinterval, hentitled, hsome, hid⟩
      · rw [if_neg hyes] at hleft
        exact absurd hleft.1 hne
    · intro hsome hold
      by_cases hyes : confirms cfg a row event now = true
      · have hrequest := hclear hyes hold
        rw [if_pos hyes] at hleft
        obtain ⟨planKey, interval, hplanKey, hinterval, rfl, rfl, -⟩ := hleft
        rw [request, hplanKey, hinterval, Prod.mk.injEq] at hrequest
        exact ⟨Option.some.inj hrequest.1, Option.some.inj hrequest.2⟩
      · rw [if_neg hyes] at hleft
        exact ⟨hleft.1, hleft.2.1⟩
    · intro hnew hof hstatus hentitled
      obtain ⟨status, hstatus⟩ := Option.isSome_iff_exists.mp hstatus
      rw [subscription_handleWebhook hnew hof, hstatus, Option.elim_some,
        Option.some.injEq] at hrow'
      rw [plan_handleWebhook hnew hof, hstatus, Option.elim_some, hrow', mirroredPlan,
        if_pos hentitled]

/-! ### The result -/

/-- **A step does what is claimed exactly under the condition.** -/
theorem keeps_iff (act : Action) : Keeps cfg a act ↔ Clear cfg a act := by
  cases act with
  | checkout req ans =>
    cases hopen : openCheckout cfg req ans with
    | error e =>
      have hsame : next cfg a (.checkout req ans) = a :=
        congrArg Prod.fst (startCheckout_of_error hopen)
      refine iff_of_true ⟨fun row row' hrow hrow' => ?_, by simp⟩ fun row _ hok => ?_
      · rw [hsame] at hrow'
        rw [Option.some.inj (hrow'.symm.trans hrow), requestAfter, hopen]
        rfl
      · rw [hopen] at hok
        exact absurd hok (by simp [Except.isOk, Except.toBool])
    | ok session =>
      have hnext : (next cfg a (.checkout req ans)).subscription =
          some (checkoutRow cfg session a.subscription) :=
        congrArg (fun r => r.1.subscription) (startCheckout_of_ok hopen)
      have hafter : ∀ row, requestAfter cfg a row (.checkout req ans) = (none, none) := by
        intro row
        rw [requestAfter, hopen]
        rfl
      constructor
      · intro hkeeps row hrow _
        have hpending := hkeeps.pending row _ hrow hnext
        rw [hafter, Option.mem_def.mp hrow] at hpending
        exact hpending
      · intro hclear
        refine ⟨fun row row' hrow hrow' => ?_, by simp⟩
        rw [hnext, hrow] at hrow'
        rw [hafter, ← Option.some.inj hrow', ← hclear row hrow (by rw [hopen]; rfl)]
        rfl
  | changePlan planKey interval planChangesOn providerOk now =>
    refine iff_of_true ⟨fun row row' hrow hrow' => ?_, by simp⟩ trivial
    rw [next] at hrow'
    rw [requestAfter]
    rcases changePlan_cases planKey interval planChangesOn providerOk with
      ⟨hno, hsame⟩ | ⟨hok, r, hr, hkept⟩
    · rw [hsame] at hrow'
      rw [hno, if_neg Bool.false_ne_true, Option.some.inj (hrow'.symm.trans hrow)]
    · rw [hkept] at hrow'
      rw [hok, if_pos rfl, ← Option.some.inj hrow']
      rfl
  | charge toPlanKey ans =>
    refine iff_of_true ⟨fun row row' hrow hrow' => ?_, by simp⟩ trivial
    rw [next] at hrow'
    rw [requestAfter]
    rcases applyProviderBackedCharge_cases toPlanKey ans with ⟨hno, hsame⟩ | ⟨hok, r, hr, hkept⟩
    · rw [hsame] at hrow'
      rw [hno, if_neg Bool.false_ne_true, Option.some.inj (hrow'.symm.trans hrow)]
    · rw [hkept] at hrow'
      rw [hok, if_pos rfl, ← Option.some.inj hrow', Option.some.inj (hrow.symm.trans hr)]
      rfl
  | cancel reason comment providerOk now =>
    exact iff_of_true ⟨fun row row' hrow hrow' => request_cancel hrow hrow', by simp⟩ trivial
  | webhook event now =>
    constructor
    · intro hkeeps row hrow
      obtain ⟨row', hrow'⟩ := exists_row_webhook cfg event now hrow
      exact (webhookKeeps_iff hrow hrow').mp (hkeeps.webhook event now row row' rfl hrow hrow')
    · intro hclear
      refine ⟨fun row row' hrow hrow' => ?_, ?_⟩
      · have hleft := webhook_row hrow hrow'
        rw [requestAfter]
        split at hleft
        · rename_i hyes
          obtain ⟨_, _, _, _, _, _, hrequest, _⟩ := hleft
          rw [if_pos hyes, hrequest]
        · rename_i hno
          rw [if_neg hno, hleft.2.2]
      · rintro event now row row' ⟨rfl, rfl⟩ hrow hrow'
        exact (webhookKeeps_iff hrow hrow').mpr (hclear row hrow)

end

/-- **Every step of a history keeps what is claimed exactly when every step is clear.** -/
theorem keeps_iff_clear (cfg : ProviderConfig) (a : Account) (as : List Action) :
    (∀ pre act post b, as = pre ++ act :: post → run (step cfg) a pre = some b →
        Keeps cfg b act) ↔ Guarded (step cfg) (Clear cfg) a as := by
  rw [guarded_iff_forall_steps]
  simp only [keeps_iff]

/-! ### A checkout on top of a request -/

/-- A workspace that has paid for the pro plan and asks for the team plan. -/
def requestHistory : List Action :=
  [.checkout (checkoutOf .pro) (opens "sub_1"), .webhook (activation "evt_1" "sub_1" "plan_pro") 0,
    .changePlan .team .monthly true true 0]

/-- **The request outlives the subscription it was made on**: the next checkout opens another
one and keeps it. -/
theorem checkout_keeps_pending :
    ¬ ∀ (cfg : ProviderConfig) (a : Account) (as : List Action), ∀ pre act post b,
      as = pre ++ act :: post → run (step cfg) a pre = some b → Keeps cfg b act := by
  intro h
  have hrun : (run (step sampleConfig) freshAccount requestHistory).isSome = true := rfl
  obtain ⟨b, hb⟩ := Option.isSome_iff_exists.mp hrun
  have hkeeps := h sampleConfig freshAccount _ requestHistory
    (.checkout (checkoutOf .pro) (opens "sub_2")) [] b rfl hb
  have hpending : (run (step sampleConfig) freshAccount requestHistory).all (fun b =>
      b.subscription.any fun row => request row = (some .team, some .monthly)) = true := by
    decide +kernel
  rw [hb, Option.all_some, Option.any_eq_true] at hpending
  obtain ⟨row, hrow, hrequest⟩ := hpending
  have hcleared := (keeps_iff _).mp hkeeps row hrow rfl
  rw [hcleared] at hrequest
  exact absurd hrequest (by decide)

end SnapUrl.Billing.PendingChange
