import Mathlib.Data.List.Sort
import SnapUrl.Lib.Run
import SnapUrl.Billing.Checkout

/-!
# The plan that is enforced

Every enforcement check reads the workspace's `plan` column
(`apps/api/src/plans/plans.service.ts`).  A webhook writes the column, and so does
a plan change that an administrator makes or that the worker finds due
(`apps/worker/src/jobs/plan-changes.ts`).  Entitlement ends with time.

* `step`: checkouts, webhooks, what the owner and an administrator ask for, the
  worker's maintenance, and time.
* `State.Backed`: a paid plan that a webhook granted is enforced only while the
  subscription entitles the workspace.
* `backed_iff_within`: **that holds all along a history exactly when, while such a
  plan is in force, time stays inside the entitlement and no checkout goes through**.
* `lapsed_plan_is_enforced`: a payment that fails and is never made good.
-/

namespace SnapUrl.Billing.Enforcement

open Lib

/-! ### The enforced plan -/

/-- The keys of `SEED_PLANS`. -/
def seedKeys : List String := ["free", "starter", "pro", "team", "enterprise"]

/-- The key of the plan whose version `resolveForWorkspace` resolves.  `catalog` has
the lower-cased keys of the stored plans. -/
def resolveForWorkspace (p : Platform) (catalog : List String) (plan : String) : String :=
  let key := p.toLowerCase (trim plan)
  if key ≠ "" ∧ key ∈ catalog then key
  else if key ∈ seedKeys then key
  else "free"

/-! ### Scheduled plan changes -/

structure PlanChangeRequest where
  id : Nat
  toPlanKey : String
  effectiveAt : Int
  appliedAt : Option Int
deriving DecidableEq, Repr

/-- Display label for the `plan` column from a plan key. -/
def planLabelFromKey (p : Platform) (planKey : String) : String :=
  match (trim planKey).toList with
  | [] => "Free"
  | c :: rest => p.toUpperCase (String.ofList [c]) ++ p.toLowerCase (String.ofList rest)

/-- Whether the workspace has a subscription that owns its plan. -/
def hasLiveProviderSubscription (a : Account) : Bool :=
  a.subscription.any fun row => row.status = .active || row.status = .trialing

/-- The requests a sweep applies, of which `room` are among those it reads. -/
def dueRequests (requests : List PlanChangeRequest) (room : Nat) (now : Int) :
    List PlanChangeRequest :=
  let due := requests.filter fun r => r.appliedAt = none ∧ r.effectiveAt ≤ now
  (due.insertionSort fun r r' => r.effectiveAt ≤ r'.effectiveAt).take room

/-- One request: it is claimed, and moves the plan unless a subscription owns it. -/
def applyRequest (p : Platform) (now : Int) (s : Account × List PlanChangeRequest)
    (req : PlanChangeRequest) : Account × List PlanChangeRequest :=
  (if hasLiveProviderSubscription s.1 then s.1
    else { s.1 with plan := planLabelFromKey p req.toPlanKey },
    s.2.map fun r => if r.id = req.id then { r with appliedAt := some now } else r)

def applyDuePlanChanges (p : Platform) (a : Account) (requests : List PlanChangeRequest)
    (room : Nat) (now : Int) : Account × List PlanChangeRequest :=
  (dueRequests requests room now).foldl (applyRequest p now) (a, requests)

/-! ### Histories -/

inductive Action where
  | checkout (req : CheckoutRequest) (ans : CheckoutAnswers)
  | webhook (event : NormalizedBillingEvent)
  | cancel (reason comment : Option String) (providerOk : Bool)
  | changePlan (planKey : PlanKey) (interval : BillingInterval) (planChangesOn providerOk : Bool)
  /-- An administrator grants a plan without payment. -/
  | comp (toPlanKey : String)
  /-- An administrator schedules a change. -/
  | schedule (request : PlanChangeRequest)
  | maintenance (planChangesOn : Bool) (room : Nat)
  | tick (ms : Nat)

structure State where
  account : Account
  requests : List PlanChangeRequest
  now : Int
  /-- Whether a webhook was the last to write the plan. -/
  granted : Bool
deriving DecidableEq, Repr

/-- A workspace whose plan no webhook has written. -/
def start (a : Account) (requests : List PlanChangeRequest) (now : Int) : State :=
  ⟨a, requests, now, false⟩

/-- Whether a delivery writes the plan. -/
def writesPlan (cfg : ProviderConfig) (a : Account) (event : NormalizedBillingEvent) : Bool :=
  event.eventId ∉ a.eventIds && (a.rowOf cfg event).isSome && event.status.isSome

def next (p : Platform) (cfg : ProviderConfig) (s : State) : Action → State
  | .checkout req ans =>
    { s with account := (startCheckout cfg req { ans with now := s.now } s.account).1 }
  | .webhook event =>
    { s with
      account := (handleWebhook cfg s.account event s.now).1
      granted := s.granted || writesPlan cfg s.account event }
  | .cancel reason comment providerOk =>
    { s with account := (cancelSubscription s.account reason comment providerOk s.now).1 }
  | .changePlan planKey interval planChangesOn providerOk =>
    { s with
      account := (changePlan cfg s.account planKey interval planChangesOn providerOk s.now).1 }
  | .comp toPlanKey =>
    if hasLiveProviderSubscription s.account then s
    else
      { s with
        account := { s.account with plan := planLabelFromKey p toPlanKey }
        granted := false }
  | .schedule request => { s with requests := s.requests ++ [request] }
  | .maintenance planChangesOn room =>
    if !planChangesOn then s
    else
      let moves := !hasLiveProviderSubscription s.account && dueRequests s.requests room s.now ≠ []
      let (account, requests) := applyDuePlanChanges p s.account s.requests room s.now
      { s with
        account := account
        requests := requests
        granted := s.granted && !moves }
  | .tick ms => { s with now := s.now + ms }

def step (p : Platform) (cfg : ProviderConfig) (s : State) (a : Action) : Option State :=
  some (next p cfg s a)

/-- A paid plan that a webhook granted is in force. -/
def State.PaidGrant (p : Platform) (catalog : List String) (s : State) : Prop :=
  s.granted = true ∧ resolveForWorkspace p catalog s.account.plan ≠ "free"

/-- **Such a plan is enforced only while the subscription entitles the workspace.** -/
def State.Backed (p : Platform) (catalog : List String) (s : State) : Prop :=
  s.PaidGrant p catalog → s.account.entitled s.now = true

/-- While such a plan is in force, time stays inside the entitlement and no checkout
goes through. -/
def Within (p : Platform) (cfg : ProviderConfig) (catalog : List String) (s : State) :
    Action → Prop
  | .tick ms => s.PaidGrant p catalog → s.account.entitled (s.now + ms) = true
  | .checkout req ans => s.PaidGrant p catalog → ¬ GoesThrough cfg req { ans with now := s.now }
  | _ => True

section

variable {p : Platform} {cfg : ProviderConfig} {catalog : List String} {s : State} {a : Account}
  {event : NormalizedBillingEvent} {now : Int}

/-! ### What each operation does to the entitlement -/

theorem entitled_iff {row : Subscription} (h : a.subscription = some row) :
    a.entitled now = row.entitled now := by
  rw [Account.entitled, h, Option.any_some]

/-- A cancellation the owner asks for waits for its webhook. -/
theorem cancelSubscription_keeps (reason comment : Option String) (providerOk : Bool) (t : Int) :
    (cancelSubscription a reason comment providerOk now).1.plan = a.plan ∧
      (cancelSubscription a reason comment providerOk now).1.entitled t = a.entitled t := by
  rw [cancelSubscription]
  cases hrow : a.ownedRow now with
  | none => exact ⟨rfl, rfl⟩
  | some row =>
    have hsub : a.subscription = some row := (Option.filter_eq_some_iff.mp hrow).1
    cases providerOk with
    | false => exact ⟨rfl, rfl⟩
    | true =>
      refine ⟨rfl, ?_⟩
      rw [entitled_iff hsub]
      rfl

/-- So does a plan change. -/
theorem changePlan_keeps (planKey : PlanKey) (interval : BillingInterval)
    (planChangesOn providerOk : Bool) (t : Int) :
    (changePlan cfg a planKey interval planChangesOn providerOk now).1.plan = a.plan ∧
      (changePlan cfg a planKey interval planChangesOn providerOk now).1.entitled t =
        a.entitled t := by
  rw [changePlan]
  cases planChangesOn with
  | false => exact ⟨rfl, rfl⟩
  | true =>
    cases hrow : a.ownedRow now with
    | none => exact ⟨rfl, rfl⟩
    | some row =>
      have hsub : a.subscription = some row := (Option.filter_eq_some_iff.mp hrow).1
      simp only [Bool.not_true, Bool.false_eq_true, if_false]
      split
      · exact ⟨rfl, rfl⟩
      split
      · exact ⟨rfl, rfl⟩
      split
      · exact ⟨rfl, rfl⟩
      · refine ⟨rfl, ?_⟩
        rw [entitled_iff hsub]
        rfl

/-- **A webhook that writes the plan writes a paid one only if the new row is entitled.** -/
theorem handleWebhook_writes (hwrites : writesPlan cfg a event = true) :
    (handleWebhook cfg a event now).1.entitled now = true ∨
      (handleWebhook cfg a event now).1.plan = "Free" := by
  rw [writesPlan, Bool.and_eq_true, Bool.and_eq_true, decide_eq_true_eq] at hwrites
  obtain ⟨⟨hnew, hfound⟩, hsome⟩ := hwrites
  obtain ⟨row, hrow⟩ := Option.isSome_iff_exists.mp hfound
  obtain ⟨status, hstatus⟩ := Option.isSome_iff_exists.mp hsome
  have hsub : (handleWebhook cfg a event now).1.subscription =
      some (updatedRow cfg row event status now) := by
    rw [subscription_handleWebhook hnew hrow, hstatus]
    rfl
  rw [entitled_iff hsub, plan_handleWebhook hnew hrow, hstatus, Option.elim_some, mirroredPlan]
  split
  · rename_i hentitled
    exact Or.inl hentitled
  · exact Or.inr rfl

/-- Any other delivery leaves the plan and the row as they are. -/
theorem handleWebhook_keeps (hwrites : writesPlan cfg a event = false) :
    (handleWebhook cfg a event now).1.plan = a.plan ∧
      (handleWebhook cfg a event now).1.subscription = a.subscription := by
  by_cases hmem : event.eventId ∈ a.eventIds
  · rw [handleWebhook_of_mem hmem]
    exact ⟨rfl, rfl⟩
  · cases hrow : a.rowOf cfg event with
    | none =>
      rw [handleWebhook_of_rowOf_none hmem hrow]
      exact ⟨rfl, rfl⟩
    | some row =>
      have hstatus : event.status = none := by
        simpa [writesPlan, hmem, hrow] using hwrites
      rw [plan_handleWebhook hmem hrow, subscription_handleWebhook hmem hrow, hstatus]
      exact ⟨rfl, (rowOf_eq_some_iff.mp hrow).1.symm⟩

/-- A sweep leaves the row as it is. -/
theorem subscription_foldl_applyRequest (due : List PlanChangeRequest)
    (st : Account × List PlanChangeRequest) :
    (due.foldl (applyRequest p now) st).1.subscription = st.1.subscription := by
  induction due generalizing st with
  | nil => rfl
  | cons req due ih =>
    rw [List.foldl_cons, ih, applyRequest]
    split <;> rfl

/-- And the plan, where a subscription owns it. -/
theorem plan_foldl_applyRequest (due : List PlanChangeRequest)
    (st : Account × List PlanChangeRequest) (hlive : hasLiveProviderSubscription st.1 = true) :
    (due.foldl (applyRequest p now) st).1.plan = st.1.plan := by
  induction due generalizing st with
  | nil => rfl
  | cons req due ih =>
    have hsame : (applyRequest p now st req).1 = st.1 := by rw [applyRequest, if_pos hlive]
    rw [List.foldl_cons, ih _ (by rw [hsame]; exact hlive), hsame]

/-! ### Steps -/

/-- What a webhook that lapses the plan writes is enforced as free. -/
theorem resolve_free (hlower : p.toLowerCase "Free" = "free") :
    resolveForWorkspace p catalog "Free" = "free" := by
  have htrim : trim "Free" = "Free" := by decide
  rw [resolveForWorkspace, htrim, hlower]
  split
  · rfl
  · rfl

theorem backed_webhook (hlower : p.toLowerCase "Free" = "free") (hbacked : s.Backed p catalog)
    (event : NormalizedBillingEvent) : (next p cfg s (.webhook event)).Backed p catalog := by
  intro hpaid
  cases hwrites : writesPlan cfg s.account event with
  | true =>
    rcases handleWebhook_writes hwrites with hentitled | hfree
    · exact hentitled
    · refine absurd ?_ hpaid.2
      rw [next, hfree]
      exact resolve_free hlower
  | false =>
    obtain ⟨hplan, hsub⟩ := handleWebhook_keeps hwrites
    obtain ⟨hgranted, hnotFree⟩ := hpaid
    rw [next] at hnotFree ⊢
    have hold : s.granted = true := by simpa [next, hwrites] using hgranted
    rw [hplan] at hnotFree
    show (handleWebhook cfg s.account event s.now).1.entitled s.now = true
    rw [Account.entitled, hsub]
    exact hbacked ⟨hold, hnotFree⟩

theorem backed_maintenance (hbacked : s.Backed p catalog) (planChangesOn : Bool) (room : Nat) :
    (next p cfg s (.maintenance planChangesOn room)).Backed p catalog := by
  cases planChangesOn with
  | false => exact hbacked
  | true =>
    rintro ⟨hgranted, hnotFree⟩
    have hboth : s.granted = true ∧
        (hasLiveProviderSubscription s.account = true ∨
          dueRequests s.requests room s.now = []) := by
      simpa [next, or_iff_not_imp_left] using hgranted
    have hsub : (applyDuePlanChanges p s.account s.requests room s.now).1.subscription =
        s.account.subscription := subscription_foldl_applyRequest _ _
    have hplan : (applyDuePlanChanges p s.account s.requests room s.now).1.plan =
        s.account.plan := by
      rcases hboth.2 with hlive | hnone
      · exact plan_foldl_applyRequest _ _ hlive
      · rw [applyDuePlanChanges, hnone]
        rfl
    show (applyDuePlanChanges p s.account s.requests room s.now).1.entitled s.now = true
    rw [Account.entitled, hsub]
    refine hbacked ⟨hboth.1, ?_⟩
    rw [← hplan]
    exact hnotFree

/-- **A step keeps a granted plan backed exactly when it is within the entitlement.** -/
theorem backed_next_iff (hlower : p.toLowerCase "Free" = "free") (hbacked : s.Backed p catalog)
    (a : Action) : (next p cfg s a).Backed p catalog ↔ Within p cfg catalog s a := by
  cases a with
  | tick ms => exact Iff.rfl
  | checkout req ans =>
    constructor
    · rintro hnext hpaid hthrough
      obtain ⟨session, hopen⟩ := openCheckout_ok_iff.mpr hthrough
      have hpaid' : (next p cfg s (.checkout req ans)).PaidGrant p catalog := by
        rw [next, startCheckout_of_ok hopen]
        exact hpaid
      have hentitled := hnext hpaid'
      rw [next, startCheckout_of_ok hopen] at hentitled
      have hlost : (checkoutRow cfg session s.account.subscription).entitled s.now = true :=
        hentitled
      rw [not_entitled_checkoutRow] at hlost
      exact absurd hlost (by simp)
    · intro hwithin
      cases hopen : openCheckout cfg req { ans with now := s.now } with
      | error e =>
        rw [next, startCheckout_of_error hopen]
        exact hbacked
      | ok session =>
        rintro hpaid
        rw [next, startCheckout_of_ok hopen] at hpaid
        exact absurd (openCheckout_ok_iff.mp ⟨session, hopen⟩) (hwithin hpaid)
  | webhook event => exact iff_of_true (backed_webhook hlower hbacked event) trivial
  | cancel reason comment providerOk =>
    refine iff_of_true (fun hpaid => ?_) trivial
    obtain ⟨hplan, hentitled⟩ := @cancelSubscription_keeps s.account s.now reason comment providerOk
      s.now
    rw [next]
    show Account.entitled _ _ = true
    rw [hentitled]
    refine hbacked ⟨hpaid.1, ?_⟩
    rw [← hplan]
    exact hpaid.2
  | changePlan planKey interval planChangesOn providerOk =>
    refine iff_of_true (fun hpaid => ?_) trivial
    obtain ⟨hplan, hentitled⟩ := @changePlan_keeps cfg s.account s.now planKey interval
      planChangesOn providerOk s.now
    rw [next]
    show Account.entitled _ _ = true
    rw [hentitled]
    refine hbacked ⟨hpaid.1, ?_⟩
    rw [← hplan]
    exact hpaid.2
  | comp toPlanKey =>
    refine iff_of_true ?_ trivial
    rw [next]
    split
    · exact hbacked
    · rintro ⟨hgranted, _⟩
      exact absurd hgranted (by simp)
  | schedule request => exact iff_of_true hbacked trivial
  | maintenance planChangesOn room =>
    exact iff_of_true (backed_maintenance hbacked planChangesOn room) trivial

end

/-- **Every plan a webhook granted is backed all along a history exactly when every
step of it is within the entitlement.** -/
theorem backed_iff_within (p : Platform) (cfg : ProviderConfig) (catalog : List String)
    (a : Account) (requests : List PlanChangeRequest) (now : Int) (as : List Action)
    (hlower : p.toLowerCase "Free" = "free") :
    (∀ pre post t, as = pre ++ post → run (step p cfg) (start a requests now) pre = some t →
        t.Backed p catalog) ↔
      Guarded (step p cfg) (Within p cfg catalog) (start a requests now) as := by
  have hstart : (start a requests now).Backed p catalog := by
    rintro ⟨hgranted, _⟩
    exact absurd hgranted (by simp [start])
  refine (guarded_iff_holds_throughout (fun _ _ => rfl) (fun s b s' hbacked hs' => ?_) hstart).symm
  obtain rfl : next p cfg s b = s' := Option.some.inj hs'
  exact backed_next_iff hlower hbacked b

/-! ### A payment that is never made good -/

instance (p : Platform) (catalog : List String) (s : State) : Decidable (s.PaidGrant p catalog) :=
  inferInstanceAs (Decidable (_ ∧ _))

instance (p : Platform) (catalog : List String) (s : State) : Decidable (s.Backed p catalog) :=
  inferInstanceAs (Decidable (_ → _))

instance (cfg : ProviderConfig) (req : CheckoutRequest) (ans : CheckoutAnswers) :
    Decidable (GoesThrough cfg req ans) :=
  match h : openCheckout cfg req ans with
  | .ok session => isTrue (openCheckout_ok_iff.mp ⟨session, h⟩)
  | .error e => isFalse fun hthrough => by
      obtain ⟨session, hsession⟩ := openCheckout_ok_iff.mpr hthrough
      exact absurd (h.symm.trans hsession) (by simp)

instance (p : Platform) (cfg : ProviderConfig) (catalog : List String) (s : State) :
    ∀ a : Action, Decidable (Within p cfg catalog s a)
  | .tick _ => inferInstanceAs (Decidable (_ → _))
  | .checkout .. => inferInstanceAs (Decidable (_ → _))
  | .webhook _ => isTrue trivial
  | .cancel .. => isTrue trivial
  | .changePlan .. => isTrue trivial
  | .comp _ => isTrue trivial
  | .schedule _ => isTrue trivial
  | .maintenance .. => isTrue trivial

/-- The letters of the plan names, which are ASCII. -/
def planPlatform : Platform where
  toLowerCase s := String.ofList (s.toList.map Char.toLower)
  toUpperCase s := String.ofList (s.toList.map Char.toUpper)
  parseUrl _ := none
  parseDate _ := none
  toISOString _ := ""
  parseJson _ := none
  stringifyJson _ := ""
  hmacSha256Hex _ _ := ""
  verifyToken _ _ := none

def failedPayment (eventId subscriptionId : String) : NormalizedBillingEvent where
  eventId := eventId
  eventType := "subscription.pending"
  providerSubscriptionId := some subscriptionId
  status := some .past_due
  providerPlanId := some "plan_pro"
  currentPeriodEnd := none
  payment := none

def dayOf (n : Nat) : Nat := n * 86400000

/-- A payment that fails, and is made good within the grace period. -/
def healedHistory : List Action :=
  [.checkout (checkoutOf .pro) (opens "sub_1"), .webhook (activation "evt_1" "sub_1" "plan_pro"),
    .tick (dayOf 30), .webhook (failedPayment "evt_2" "sub_1"), .tick (dayOf 3),
    .webhook (activation "evt_3" "sub_1" "plan_pro"), .tick (dayOf 30), .maintenance true 200]

theorem backed_healedHistory :
    ∃ t, run (step planPlatform sampleConfig) (start freshAccount [] 0) healedHistory = some t ∧
      t.Backed planPlatform seedKeys := by
  have hrun : (run (step planPlatform sampleConfig) (start freshAccount [] 0)
      healedHistory).isSome = true := rfl
  obtain ⟨t, ht⟩ := Option.isSome_iff_exists.mp hrun
  have hwithin := (backed_iff_within planPlatform sampleConfig seedKeys freshAccount [] 0
    healedHistory (by decide)).mpr (by decide +kernel)
  exact ⟨t, ht, hwithin healedHistory [] t (List.append_nil _).symm ht⟩

/-- The same payment, which is never made good. -/
def lapsedHistory : List Action :=
  [.checkout (checkoutOf .pro) (opens "sub_1"), .webhook (activation "evt_1" "sub_1" "plan_pro"),
    .tick (dayOf 30), .webhook (failedPayment "evt_2" "sub_1"), .tick (dayOf 8),
    .maintenance true 200, .tick (dayOf 1), .maintenance true 200]

/-- **A paid plan is enforced after the grace period has ended**, and maintenance
changes nothing about it. -/
theorem lapsed_plan_is_enforced :
    ¬ ∀ (p : Platform) (cfg : ProviderConfig) (catalog : List String) (a : Account)
        (requests : List PlanChangeRequest) (now : Int) (as : List Action) (t : State),
      p.toLowerCase "Free" = "free" → run (step p cfg) (start a requests now) as = some t →
        t.Backed p catalog := by
  intro h
  have hrun : (run (step planPlatform sampleConfig) (start freshAccount [] 0)
      lapsedHistory).isSome = true := rfl
  have hlapsed : (run (step planPlatform sampleConfig) (start freshAccount [] 0) lapsedHistory).all
      (fun t => !decide (t.Backed planPlatform seedKeys)) = true := by
    decide +kernel
  obtain ⟨t, ht⟩ := Option.isSome_iff_exists.mp hrun
  rw [ht] at hlapsed
  have hnot : ¬ t.Backed planPlatform seedKeys := by simpa using hlapsed
  exact hnot (h planPlatform sampleConfig seedKeys freshAccount [] 0 lapsedHistory t (by decide) ht)

end SnapUrl.Billing.Enforcement
