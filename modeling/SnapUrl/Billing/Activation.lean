import SnapUrl.Lib.Run
import SnapUrl.Billing.Checkout

/-!
# Activations of opened checkouts

`startCheckout` opens a subscription at the provider and writes the row
afterwards.  The customer may pay for any subscription that was opened, and the
activation of it arrives when it arrives.

* `step`: a checkout is opened, its row is written, an activation is delivered.
  Any number of checkouts are open at a time, and a delivery may be repeated.
* `Desk.Honoured`: every activation was processed, and left the workspace entitled
  to the plan that was paid for.
* `honoured_iff`: **that holds of a run exactly when every activation, on its first
  arrival, finds a row that holds its subscription** and waits for no other plan
  under the same provider plan id.
* `early_activation_is_ignored`: an activation that overtakes the write of its row.
-/

namespace SnapUrl.Billing.Activation

open Lib

/-! ### The desk -/

inductive Action where
  /-- `startCheckout` up to its upsert. -/
  | opens (req : CheckoutRequest) (ans : CheckoutAnswers)
  /-- The upsert. -/
  | records (session : CheckoutSession)
  | activates (event : NormalizedBillingEvent) (now : Int)

/-- What came of the delivery of an activation. -/
structure Outcome where
  paid : CheckoutSession
  event : NormalizedBillingEvent
  now : Int
  result : WebhookResult
  account : Account
deriving DecidableEq, Repr

/-- The activation was processed, and entitles the workspace to what was paid for. -/
def Outcome.applied (o : Outcome) : Bool :=
  o.result = .processed && o.account.plan = planLabel o.paid.planKey &&
    o.account.subscription.any fun row => row.planKey = o.paid.planKey && row.entitled o.now

/-- A workspace and its checkouts. -/
structure Desk where
  account : Account
  opened : List CheckoutSession
  unrecorded : List CheckoutSession
  outcomes : List Outcome
deriving DecidableEq, Repr

/-- Any workspace, before the first of these checkouts. -/
def start (a : Account) : Desk := ⟨a, [], [], []⟩

/-- The provider gives every subscription an id of its own. -/
def Desk.Fresh (s : Desk) (id : String) : Prop :=
  id ∉ s.opened.map (·.subscriptionId) ∧
    s.account.subscription.all (fun row => row.providerSubscriptionId ≠ some id) = true

instance (s : Desk) (id : String) : Decidable (s.Fresh id) := inferInstanceAs (Decidable (_ ∧ _))

/-- What the provider sends for a paid checkout.  An event that was recorded is
one it sent before. -/
def Desk.Sends (cfg : ProviderConfig) (s : Desk) (paid : CheckoutSession)
    (event : NormalizedBillingEvent) : Prop :=
  event.status.any isHealthyStatus = true ∧
    event.providerPlanId = resolvePlanId cfg paid.planKey paid.interval ∧
      (event.eventId ∈ s.account.eventIds → ∃ o ∈ s.outcomes, o.event = event)

instance (cfg : ProviderConfig) (s : Desk) (paid : CheckoutSession)
    (event : NormalizedBillingEvent) : Decidable (s.Sends cfg paid event) :=
  inferInstanceAs (Decidable (_ ∧ _ ∧ (_ → _)))

/-- The opened checkout an event is about. -/
def Desk.paidBy (s : Desk) (event : NormalizedBillingEvent) : Option CheckoutSession :=
  s.opened.find? fun c => event.providerSubscriptionId = some c.subscriptionId

/-- The desk after a delivery. -/
def Desk.deliver (cfg : ProviderConfig) (s : Desk) (paid : CheckoutSession)
    (event : NormalizedBillingEvent) (now : Int) : Desk :=
  let (account, result) := handleWebhook cfg s.account event now
  { s with
    account := account
    outcomes := s.outcomes ++ [⟨paid, event, now, result, account⟩] }

def step (cfg : ProviderConfig) (s : Desk) : Action → Option Desk
  | .opens req ans =>
    match openCheckout cfg req ans with
    | .error _ => some s
    | .ok session =>
      if s.Fresh session.subscriptionId then
        some { s with
          opened := s.opened ++ [session]
          unrecorded := s.unrecorded ++ [session] }
      else none
  | .records session =>
    if session ∈ s.unrecorded then
      some { s with
        account := recordCheckout cfg session s.account
        unrecorded := s.unrecorded.erase session }
    else none
  | .activates event now =>
    match s.paidBy event with
    | none => none
    | some paid => if s.Sends cfg paid event then some (s.deliver cfg paid event now) else none

/-- **Every activation was applied**, by one of its deliveries. -/
def Desk.Honoured (s : Desk) : Prop :=
  ∀ o ∈ s.outcomes, ∃ o' ∈ s.outcomes, o'.event = o.event ∧ o'.applied = true

instance (s : Desk) : Decidable s.Honoured := inferInstanceAs (Decidable (∀ _ ∈ _, _))

/-! ### When an activation is applied -/

/-- The row waits for another plan, and the provider plan id of the event is the one
configured for that plan. -/
def AwaitsOther (cfg : ProviderConfig) (row : Subscription) (event : NormalizedBillingEvent) :
    Prop :=
  ∃ key ∈ row.pendingPlanKey, key ≠ row.planKey ∧ ∃ interval ∈ row.pendingInterval,
    event.providerPlanId.isSome = true ∧ event.providerPlanId = resolvePlanId cfg key interval

instance (cfg : ProviderConfig) (row : Subscription) (event : NormalizedBillingEvent) :
    Decidable (AwaitsOther cfg row event) :=
  decidable_of_iff
    (row.pendingPlanKey.any (fun key => key ≠ row.planKey &&
      row.pendingInterval.any fun interval => event.providerPlanId.isSome &&
        event.providerPlanId = resolvePlanId cfg key interval) = true)
    (by simp [AwaitsOther, Option.any_eq_true])

/-- An activation arrives again, or finds its row. -/
def Finds (cfg : ProviderConfig) (s : Desk) : Action → Prop
  | .activates event _ =>
    event.eventId ∈ s.account.eventIds ∨
      ∃ row ∈ s.account.rowOf cfg event, ¬ AwaitsOther cfg row event
  | _ => True

instance (cfg : ProviderConfig) : ∀ (s : Desk) (a : Action), Decidable (Finds cfg s a)
  | _, .opens .. => isTrue trivial
  | _, .records _ => isTrue trivial
  | _, .activates .. => inferInstanceAs (Decidable (_ ∨ _))

section

variable {cfg : ProviderConfig} {s s' : Desk} {row : Subscription} {paid : CheckoutSession}
  {event : NormalizedBillingEvent} {status : SubscriptionStatus} {now : Int}

/-- An activation leaves the plan of the row alone unless the row awaits another one. -/
theorem planKey_updatedRow_iff (hhealthy : isHealthyStatus status = true) :
    (updatedRow cfg row event status now).planKey = row.planKey ↔ ¬ AwaitsOther cfg row event := by
  rw [planKey_updatedRow, entitled_updatedRow hhealthy]
  cases hkey : row.pendingPlanKey with
  | none => simp [AwaitsOther, hkey]
  | some key =>
    cases hinterval : row.pendingInterval with
    | none => simp [AwaitsOther, pendingTargetId, hkey, hinterval]
    | some interval =>
      have htarget : pendingTargetId cfg true row = resolvePlanId cfg key interval := by
        simp [pendingTargetId, hkey, hinterval]
      rw [htarget]
      by_cases hsame : key = row.planKey
      · simp [AwaitsOther, hkey, hsame]
      · by_cases hid : event.providerPlanId = resolvePlanId cfg key interval
        · simp [AwaitsOther, hkey, hinterval, hsame, hid]
        · simp [AwaitsOther, hkey, hinterval, hid]

theorem deliver_account : (s.deliver cfg paid event now).account =
    (handleWebhook cfg s.account event now).1 := rfl

/-- What the delivery adds to the outcomes. -/
def Desk.outcome (cfg : ProviderConfig) (s : Desk) (paid : CheckoutSession)
    (event : NormalizedBillingEvent) (now : Int) : Outcome :=
  ⟨paid, event, now, (handleWebhook cfg s.account event now).2,
    (handleWebhook cfg s.account event now).1⟩

theorem deliver_outcomes : (s.deliver cfg paid event now).outcomes =
    s.outcomes ++ [s.outcome cfg paid event now] := rfl

/-- A repeated delivery applies nothing. -/
theorem applied_of_recorded (h : event.eventId ∈ s.account.eventIds) :
    (s.outcome cfg paid event now).applied = false := by
  rw [Desk.outcome, handleWebhook_of_mem h]
  rfl

/-- **A first delivery is applied exactly when it finds its row.** -/
theorem applied_iff (hnew : event.eventId ∉ s.account.eventIds)
    (hstatus : event.status = some status)
    (hhealthy : isHealthyStatus status = true)
    (hkeyed : ∀ row ∈ s.account.rowOf cfg event, row.planKey = paid.planKey) :
    (s.outcome cfg paid event now).applied = true ↔
      ∃ row ∈ s.account.rowOf cfg event, ¬ AwaitsOther cfg row event := by
  cases hrow : s.account.rowOf cfg event with
  | none =>
    rw [Desk.outcome, handleWebhook_of_rowOf_none hnew hrow]
    simp [Outcome.applied]
  | some row =>
    have hkey := hkeyed row (by rw [hrow]; rfl)
    have hentitled : (updatedRow cfg row event status now).entitled now = true :=
      entitled_updatedRow hhealthy now
    have hsub : (s.outcome cfg paid event now).account.subscription =
        some (updatedRow cfg row event status now) := by
      rw [Desk.outcome, subscription_handleWebhook hnew hrow, hstatus]
      rfl
    have hplan : (s.outcome cfg paid event now).account.plan =
        planLabel (updatedRow cfg row event status now).planKey := by
      rw [Desk.outcome, plan_handleWebhook hnew hrow, hstatus, Option.elim_some, mirroredPlan,
        if_pos hentitled]
    have hresult : (s.outcome cfg paid event now).result = .processed := by
      rw [Desk.outcome, handleWebhook_of_rowOf_some hnew hrow]
    have hiff : (updatedRow cfg row event status now).planKey = paid.planKey ↔
        ¬ AwaitsOther cfg row event := by
      rw [← hkey]
      exact planKey_updatedRow_iff hhealthy
    rw [Outcome.applied, hsub, hplan, hresult]
    simp only [Option.any_some, Option.mem_some_iff, exists_eq_left', ← hiff, Bool.and_eq_true,
      decide_eq_true_eq, decide_true, true_and]
    constructor
    · rintro ⟨_, h, _⟩
      exact h
    · intro h
      exact ⟨congrArg planLabel h, h, hentitled⟩

/-! ### Steps -/

theorem step_opens {req : CheckoutRequest} {ans : CheckoutAnswers}
    (h : step cfg s (.opens req ans) = some s') :
    s' = s ∨ ∃ session, s.Fresh session.subscriptionId ∧
      s' = { s with
        opened := s.opened ++ [session]
        unrecorded := s.unrecorded ++ [session] } := by
  rw [step] at h
  split at h
  · exact Or.inl (Option.some.inj h).symm
  · rename_i session _
    split at h
    · rename_i hfresh
      exact Or.inr ⟨session, hfresh, (Option.some.inj h).symm⟩
    · exact absurd h (by simp)

theorem step_records {session : CheckoutSession} (h : step cfg s (.records session) = some s') :
    session ∈ s.unrecorded ∧ s' = { s with
      account := recordCheckout cfg session s.account
      unrecorded := s.unrecorded.erase session } := by
  rw [step] at h
  split at h
  · rename_i hmem
    exact ⟨hmem, (Option.some.inj h).symm⟩
  · exact absurd h (by simp)

theorem step_activates (h : step cfg s (.activates event now) = some s') :
    ∃ paid, s.paidBy event = some paid ∧ s.Sends cfg paid event ∧
      s' = s.deliver cfg paid event now := by
  rw [step] at h
  split at h
  · exact absurd h (by simp)
  · rename_i paid hpaid
    split at h
    · rename_i hsends
      exact ⟨paid, hpaid, hsends, (Option.some.inj h).symm⟩
    · exact absurd h (by simp)

theorem paidBy_eq_some (h : s.paidBy event = some paid) :
    paid ∈ s.opened ∧ event.providerSubscriptionId = some paid.subscriptionId :=
  ⟨List.mem_of_find?_eq_some h, by simpa using List.find?_some h⟩

/-! ### What a run keeps -/

/-- A row that holds an opened subscription has the plan of its checkout. -/
structure Inv (s : Desk) : Prop where
  keyed : ∀ row ∈ s.account.subscription, ∀ c ∈ s.opened,
    row.providerSubscriptionId = some c.subscriptionId → row.planKey = c.planKey
  distinct : ∀ c ∈ s.opened, ∀ c' ∈ s.opened, c.subscriptionId = c'.subscriptionId → c = c'
  unrecorded : ∀ c ∈ s.unrecorded, c ∈ s.opened
  known : ∀ o ∈ s.outcomes, o.event.eventId ∈ s.account.eventIds

theorem inv_start (a : Account) : Inv (start a) where
  keyed := by simp [start]
  distinct := by simp [start]
  unrecorded := by simp [start]
  known := by simp [start]

theorem Inv.opens {session : CheckoutSession} (hi : Inv s)
    (hfresh : s.Fresh session.subscriptionId) :
    Inv { s with
      opened := s.opened ++ [session]
      unrecorded := s.unrecorded ++ [session] } where
  keyed := by
    intro row hrow c hc hid
    rcases List.mem_append.mp hc with hc | hc
    · exact hi.keyed row hrow c hc hid
    · rw [List.mem_singleton] at hc
      have hall := hfresh.2
      rw [Option.mem_def.mp hrow, Option.all_some, decide_eq_true_eq] at hall
      exact absurd (hc ▸ hid) hall
  distinct := by
    have hnew : ∀ c ∈ s.opened, c.subscriptionId ≠ session.subscriptionId :=
      fun c hc h => hfresh.1 (h ▸ List.mem_map_of_mem hc)
    intro c hc c' hc' hid
    rw [List.mem_append, List.mem_singleton] at hc hc'
    rcases hc with hc | rfl <;> rcases hc' with hc' | rfl
    · exact hi.distinct c hc c' hc' hid
    · exact absurd hid (hnew c hc)
    · exact absurd hid.symm (hnew c' hc')
    · rfl
  unrecorded := by
    intro c hc
    rw [List.mem_append] at hc ⊢
    exact hc.imp_left (hi.unrecorded c)
  known := hi.known

theorem Inv.records {session : CheckoutSession} (hi : Inv s) (hmem : session ∈ s.unrecorded) :
    Inv { s with
      account := recordCheckout cfg session s.account
      unrecorded := s.unrecorded.erase session } where
  keyed := by
    intro row hrow c hc hid
    have hrow' : checkoutRow cfg session s.account.subscription = row := Option.some.inj hrow
    subst hrow'
    rw [checkoutRow_subscriptionId, Option.some.injEq] at hid
    rw [← hi.distinct session (hi.unrecorded session hmem) c hc hid, checkoutRow_planKey]
  distinct := hi.distinct
  unrecorded := fun c hc => hi.unrecorded c (List.mem_of_mem_erase hc)
  known := hi.known

theorem Inv.activates (hi : Inv s) (hsends : s.Sends cfg paid event)
    (hfinds : Finds cfg s (.activates event now)) : Inv (s.deliver cfg paid event now) where
  keyed := by
    rw [deliver_account]
    by_cases hmem : event.eventId ∈ s.account.eventIds
    · rw [handleWebhook_of_mem hmem]
      exact hi.keyed
    · obtain ⟨row, hrow, hawaits⟩ := hfinds.resolve_left hmem
      obtain ⟨status, hstatus, hhealthy⟩ := (Option.any_eq_true _ _).mp hsends.1
      rw [subscription_handleWebhook hmem hrow, hstatus]
      rintro row' hrow' c hc hid
      obtain rfl : updatedRow cfg row event status now = row' := Option.some.inj hrow'
      rw [(provider_updatedRow status).2] at hid
      rw [(planKey_updatedRow_iff hhealthy).mpr hawaits]
      exact hi.keyed row (rowOf_eq_some_iff.mp hrow).1 c hc hid
  distinct := hi.distinct
  unrecorded := hi.unrecorded
  known := by
    intro o ho
    rw [deliver_account, mem_eventIds_handleWebhook]
    rcases List.mem_append.mp ho with ho | ho
    · exact Or.inl (hi.known o ho)
    · obtain rfl : o = s.outcome cfg paid event now := List.mem_singleton.mp ho
      exact Or.inr rfl

theorem inv_step (hi : Inv s) {a : Action} (hfinds : Finds cfg s a)
    (h : step cfg s a = some s') : Inv s' := by
  cases a with
  | opens req ans =>
    rcases step_opens h with rfl | ⟨session, hfresh, rfl⟩
    · exact hi
    · exact hi.opens hfresh
  | records session =>
    obtain ⟨hmem, rfl⟩ := step_records h
    exact hi.records hmem
  | activates event now =>
    obtain ⟨paid, _, hsends, rfl⟩ := step_activates h
    exact hi.activates hsends hfinds

/-- What a row that is found was paid for. -/
theorem Inv.planKey_of_rowOf (hi : Inv s) (hpaid : s.paidBy event = some paid)
    (hrow : s.account.rowOf cfg event = some row) : row.planKey = paid.planKey := by
  obtain ⟨hmem, hid⟩ := paidBy_eq_some hpaid
  obtain ⟨hsub, _, _, hsame⟩ := rowOf_eq_some_iff.mp hrow
  exact hi.keyed row hsub paid hmem (hsame.trans hid)

/-- **A delivery that finds its row, or comes again, keeps every activation applied.** -/
theorem honoured_step (hi : Inv s) (hhonoured : s.Honoured) {a : Action} (hfinds : Finds cfg s a)
    (h : step cfg s a = some s') : s'.Honoured := by
  cases a with
  | opens req ans =>
    rcases step_opens h with rfl | ⟨session, _, rfl⟩ <;> exact hhonoured
  | records session =>
    obtain ⟨_, rfl⟩ := step_records h
    exact hhonoured
  | activates event now =>
    obtain ⟨paid, hpaid, hsends, rfl⟩ := step_activates h
    have hnew : ∃ o' ∈ s.outcomes ++ [s.outcome cfg paid event now],
        o'.event = event ∧ o'.applied = true := by
      by_cases hmem : event.eventId ∈ s.account.eventIds
      · obtain ⟨o, ho, heq⟩ := hsends.2.2 hmem
        obtain ⟨o', ho', heq', happlied⟩ := hhonoured o ho
        exact ⟨o', List.mem_append_left _ ho', heq'.trans heq, happlied⟩
      · obtain ⟨status, hstatus, hhealthy⟩ := (Option.any_eq_true _ _).mp hsends.1
        refine ⟨s.outcome cfg paid event now, by simp, rfl, ?_⟩
        rw [applied_iff hmem hstatus hhealthy fun row hrow => hi.planKey_of_rowOf hpaid hrow]
        exact hfinds.resolve_left hmem
    intro o ho
    rw [deliver_outcomes] at ho ⊢
    rcases List.mem_append.mp ho with ho | ho
    · obtain ⟨o', ho', h⟩ := hhonoured o ho
      exact ⟨o', List.mem_append_left _ ho', h⟩
    · obtain rfl : o = s.outcome cfg paid event now := List.mem_singleton.mp ho
      exact hnew

/-! ### An activation that was not applied -/

/-- The event is consumed, and no delivery of it was applied. -/
structure Lost (event : NormalizedBillingEvent) (s : Desk) : Prop where
  recorded : event.eventId ∈ s.account.eventIds
  delivered : ∃ o ∈ s.outcomes, o.event = event
  unapplied : ∀ o ∈ s.outcomes, o.event = event → o.applied = false

theorem Lost.not_honoured (h : Lost event s) : ¬ s.Honoured := by
  intro hhonoured
  obtain ⟨o, ho, heq⟩ := h.delivered
  obtain ⟨o', ho', heq', happlied⟩ := hhonoured o ho
  exact absurd happlied (by simp [h.unapplied o' ho' (heq'.trans heq)])

/-- **What is lost stays lost**, whatever comes after it. -/
theorem lost_step {a : Action} (hlost : Lost event s) (h : step cfg s a = some s') :
    Lost event s' := by
  cases a with
  | opens req ans =>
    rcases step_opens h with rfl | ⟨session, _, rfl⟩
    · exact hlost
    · exact ⟨hlost.recorded, hlost.delivered, hlost.unapplied⟩
  | records session =>
    obtain ⟨_, rfl⟩ := step_records h
    exact ⟨hlost.recorded, hlost.delivered, hlost.unapplied⟩
  | activates event' now =>
    obtain ⟨paid, _, _, rfl⟩ := step_activates h
    refine ⟨mem_eventIds_handleWebhook.mpr (Or.inl hlost.recorded), ?_, ?_⟩
    · obtain ⟨o, ho, heq⟩ := hlost.delivered
      exact ⟨o, List.mem_append_left _ ho, heq⟩
    · intro o ho heq
      rcases List.mem_append.mp ho with ho | ho
      · exact hlost.unapplied o ho heq
      · obtain rfl : o = s.outcome cfg paid event' now := List.mem_singleton.mp ho
        obtain rfl : event' = event := heq
        exact applied_of_recorded hlost.recorded

/-- A first delivery that does not find its row is lost. -/
theorem lost_of_not_finds (hi : Inv s) {a : Action}
    (hfinds : ¬ Finds cfg s a) (h : step cfg s a = some s') : ∃ event, Lost event s' := by
  cases a with
  | opens req ans => exact absurd trivial hfinds
  | records session => exact absurd trivial hfinds
  | activates event now =>
    obtain ⟨paid, hpaid, hsends, rfl⟩ := step_activates h
    obtain ⟨hmem, hrow⟩ := not_or.mp hfinds
    obtain ⟨status, hstatus, hhealthy⟩ := (Option.any_eq_true _ _).mp hsends.1
    have happlied : (s.outcome cfg paid event now).applied = false := by
      rw [← Bool.not_eq_true,
        applied_iff hmem hstatus hhealthy fun row hrow => hi.planKey_of_rowOf hpaid hrow]
      exact hrow
    refine ⟨event, mem_eventIds_handleWebhook.mpr (Or.inr rfl), ?_, ?_⟩
    · exact ⟨s.outcome cfg paid event now, List.mem_append_right _ (List.mem_singleton_self _), rfl⟩
    · intro o ho heq
      rcases List.mem_append.mp ho with ho | ho
      · exact absurd (heq ▸ hi.known o ho) hmem
      · rw [List.mem_singleton.mp ho]
        exact happlied

end

theorem guarded_of_honoured {cfg : ProviderConfig} {as : List Action} {s t : Desk} (hi : Inv s)
    (hrun : run (step cfg) s as = some t) (hhonoured : t.Honoured) :
    Guarded (step cfg) (Finds cfg) s as := by
  induction as generalizing s with
  | nil => exact trivial
  | cons a as ih =>
    obtain ⟨s', hs', hrest⟩ := run_cons_eq_some.mp hrun
    have hfinds : Finds cfg s a := by
      by_contra hnot
      obtain ⟨event, hlost⟩ := lost_of_not_finds hi hnot hs'
      exact (invariant_of_run (fun _ _ _ => lost_step) as s' t hlost hrest).not_honoured hhonoured
    refine ⟨hfinds, fun s'' hs'' => ?_⟩
    obtain rfl : s' = s'' := Option.some.inj (hs'.symm.trans hs'')
    exact ih (inv_step hi hfinds hs') hrest

/-- **In a run every activation is applied exactly when every activation finds its row
on its first arrival.** -/
theorem honoured_iff (cfg : ProviderConfig) (a : Account) (as : List Action) (t : Desk)
    (hrun : run (step cfg) (start a) as = some t) :
    t.Honoured ↔ Guarded (step cfg) (Finds cfg) (start a) as := by
  constructor
  · exact guarded_of_honoured (inv_start a) hrun
  · intro hguarded
    have hkeeps : ∀ s b s', (Inv s ∧ s.Honoured) → Finds cfg s b → step cfg s b = some s' →
        Inv s' ∧ s'.Honoured := fun s b s' h hfinds hstep =>
      ⟨inv_step h.1 hfinds hstep, honoured_step h.1 h.2 hfinds hstep⟩
    have hstart : (start a).Honoured := by simp [start, Desk.Honoured]
    exact (invariant_of_guarded hkeeps as (start a) t ⟨inv_start a, hstart⟩ hguarded hrun).2

/-! ### An activation that overtakes its row -/

/-- A pro checkout that is paid for, with every delivery made twice. -/
def paidRun : List Action :=
  [.opens (checkoutOf .pro) (opens "sub_1"),
    .records ⟨"sub_1", "key", .pro, .monthly, none, none, none⟩,
    .activates (activation "evt_1" "sub_1" "plan_pro") 5,
    .activates (activation "evt_1" "sub_1" "plan_pro") 9]

theorem honoured_paidRun :
    ∃ t, run (step sampleConfig) (start freshAccount) paidRun = some t ∧ t.Honoured := by
  have hrun : (run (step sampleConfig) (start freshAccount) paidRun).isSome = true := by decide
  obtain ⟨t, ht⟩ := Option.isSome_iff_exists.mp hrun
  exact ⟨t, ht, (honoured_iff sampleConfig freshAccount paidRun t ht).mpr (by decide)⟩

/-- The same checkout, with the activation between the provider's answer and the upsert. -/
def overtakenRun : List Action :=
  [.opens (checkoutOf .pro) (opens "sub_1"), .activates (activation "evt_1" "sub_1" "plan_pro") 5,
    .records ⟨"sub_1", "key", .pro, .monthly, none, none, none⟩,
    .activates (activation "evt_1" "sub_1" "plan_pro") 9]

/-- **An activation that overtakes the upsert is recorded and ignored**, and comes back
as a duplicate once the row is there. -/
theorem early_activation_is_ignored :
    ¬ ∀ (cfg : ProviderConfig) (a : Account) (as : List Action) (t : Desk),
      run (step cfg) (start a) as = some t → t.Honoured := by
  intro h
  have hrun : (run (step sampleConfig) (start freshAccount) overtakenRun).isSome = true := by
    decide
  have hlost : (run (step sampleConfig) (start freshAccount) overtakenRun).all
      (fun t => !decide t.Honoured) = true := by
    decide
  obtain ⟨t, ht⟩ := Option.isSome_iff_exists.mp hrun
  rw [ht] at hlost
  have hnot : ¬ t.Honoured := by simpa using hlost
  exact hnot (h sampleConfig freshAccount overtakenRun t ht)

end SnapUrl.Billing.Activation
