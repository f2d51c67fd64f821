import Mathlib.Data.List.Nodup
import SnapUrl.Billing.Service

/-!
# The daily reconciliation

`apps/worker/src/jobs/billing-reconcile.ts` against the webhook path of
`razorpay.provider.ts` and `billing.service.ts`: two readings of what the provider says of a
subscription.

* `reconcileBilling`: the status of the provider, compared as a text.
* `webhookRow`: the row as the webhook about the entity leaves it.
* `inStep_iff`: which rows that webhook would leave as they are.
* `flagged_right_iff`: **the job flags a row exactly when it is out of step, but for the rows of
  `FalseAlarm` and of `MissedDrift`**.
-/

namespace SnapUrl.Billing

/-- The status as it is stored. -/
def SubscriptionStatus.name : SubscriptionStatus → String
  | .created => "created"
  | .authenticated => "authenticated"
  | .active => "active"
  | .trialing => "trialing"
  | .past_due => "past_due"
  | .halted => "halted"
  | .cancelled => "cancelled"
  | .completed => "completed"
  | .expired => "expired"

/-! ### The job -/

/-- A row of `subscriptions` with its keys. -/
structure TrackedSubscription where
  id : String
  workspaceId : String
  row : Subscription
deriving DecidableEq, Repr

/-- One row whose local status disagrees with the provider's. -/
structure ReconcileMismatch where
  subscriptionId : String
  workspaceId : String
  providerSubscriptionId : String
  localStatus : String
  /-- None when the provider does not know the subscription. -/
  providerStatus : Option String
deriving DecidableEq, Repr

structure ReconcileResult where
  checked : Nat
  mismatches : List ReconcileMismatch
deriving DecidableEq, Repr

/-- `DEFAULT_RECONCILED_STATUSES`. -/
def defaultReconciledStatuses : List SubscriptionStatus :=
  [.authenticated, .active, .trialing, .past_due, .halted, .cancelled]

/-- What is noted of a row, none when the provider's status is the row's. -/
def mismatchOf (t : TrackedSubscription) (providerStatus : Option String) :
    Option ReconcileMismatch :=
  if providerStatus ≠ some t.row.status.name then
    some
      { subscriptionId := t.id
        workspaceId := t.workspaceId
        providerSubscriptionId := orEmpty t.row.providerSubscriptionId
        localStatus := t.row.status.name
        providerStatus := providerStatus }
  else none

/-- The rows one after the other, none when a read of the provider raises. -/
def reconcileRows (providerStatus : String → Option (Option String)) :
    List TrackedSubscription → ReconcileResult → Option ReconcileResult
  | [], result => some result
  | t :: rows, result =>
    if !truthy t.row.providerSubscriptionId then reconcileRows providerStatus rows result
    else (providerStatus (orEmpty t.row.providerSubscriptionId)).bind fun status =>
      reconcileRows providerStatus rows
        ⟨result.checked + 1, result.mismatches ++ (mismatchOf t status).toList⟩

def reconcileBilling (providerStatus : String → Option (Option String))
    (statuses : List SubscriptionStatus) (rows : List TrackedSubscription) :
    Option ReconcileResult :=
  reconcileRows providerStatus (rows.filter fun t => t.row.status ∈ statuses) ⟨0, []⟩

/-- A row that the job looks at. -/
def watched (row : Subscription) : Bool :=
  row.status ∈ defaultReconciledStatuses && truthy row.providerSubscriptionId

/-! ### The webhook path -/

/-- A subscription of the provider.  Instants count seconds. -/
structure ProviderSubscription where
  status : String
  planId : Option String
  chargeAt : Option Int
  currentEnd : Option Int
deriving DecidableEq, Repr

/-- The entity of a webhook body. -/
def ProviderSubscription.entity (sub : ProviderSubscription) (id : String) : Json :=
  .obj [("id", .str id), ("status", .str sub.status), ("plan_id", sub.planId.elim .null .str),
    ("charge_at", sub.chargeAt.elim .null .num), ("current_end", sub.currentEnd.elim .null .num)]

/-- The event that reports a status.  None is sent for a `created` subscription, and an unknown
status has none. -/
def eventTypeFor (status : String) : Option String :=
  if status = "active" then some "subscription.activated"
  else if status ∈ ["authenticated", "pending", "paused", "halted", "cancelled", "completed",
      "expired"] then some ("subscription." ++ status)
  else none

/-- The body of the webhook about a subscription. -/
def webhookBody (sub : ProviderSubscription) (id eventType : String) : Json :=
  .obj [("event", .str eventType),
    ("payload", .obj [("subscription", .obj [("entity", sub.entity id)])])]

/-- The row as the webhook about the subscription leaves it. -/
def webhookRow (p : Platform) (cfg : ProviderConfig) (row : Subscription)
    (sub : ProviderSubscription) (now : Int) : Subscription :=
  match eventTypeFor sub.status with
  | none => row
  | some eventType =>
    let event := normalise p (webhookBody sub (orEmpty row.providerSubscriptionId) eventType)
      eventType now
    event.status.elim row fun status => updatedRow cfg row event status now

/-- What a row mirrors of the provider's subscription. -/
structure Mirrored where
  status : SubscriptionStatus
  planKey : PlanKey
  interval : BillingInterval
  currentPeriodEnd : Option Int
deriving DecidableEq, Repr

def Subscription.mirrored (row : Subscription) : Mirrored :=
  ⟨row.status, row.planKey, row.interval, row.currentPeriodEnd⟩

/-- **The row is what the webhook would have written.** -/
def InStep (p : Platform) (cfg : ProviderConfig) (row : Subscription)
    (sub : ProviderSubscription) (now : Int) : Prop :=
  (webhookRow p cfg row sub now).mirrored = row.mirrored

/-! ### The conditions -/

/-- A first charge that is still to come. -/
def ProviderSubscription.inTrial (sub : ProviderSubscription) (now : Int) : Bool :=
  sub.chargeAt.any fun chargeAt => now < chargeAt * 1000

/-- The status the webhook path gives a row, none when it leaves the row alone. -/
def movesTo (sub : ProviderSubscription) (now : Int) : Option SubscriptionStatus :=
  if sub.status = "authenticated" then
    some (if sub.inTrial now then .trialing else .authenticated)
  else if sub.status = "active" then some .active
  else if sub.status = "pending" then some .past_due
  else if sub.status = "halted" then some .halted
  else if sub.status = "cancelled" then some .cancelled
  else if sub.status = "completed" then some .completed
  else if sub.status = "expired" then some .expired
  else none

/-- The period end that the webhook path gives a row. -/
def periodEndFor (row : Subscription) (sub : ProviderSubscription) : Option Int :=
  (sub.currentEnd.map (· * 1000)).orElse fun _ => row.currentPeriodEnd

/-- Whether a row with this status entitles its workspace. -/
def entitledAs (row : Subscription) (sub : ProviderSubscription) (status : SubscriptionStatus)
    (now : Int) : Bool :=
  isEntitled
    ⟨status, periodEndFor row sub, if status = .cancelled then periodEndFor row sub else none,
      if isFailedPaymentStatus status then some (row.graceEndsAt.getD (graceEndFrom now))
      else none⟩ now

/-- The subscription is on the plan that a pending change waits for. -/
def confirmsChange (cfg : ProviderConfig) (row : Subscription) (sub : ProviderSubscription)
    (status : SubscriptionStatus) (now : Int) : Prop :=
  (pendingTargetId cfg (entitledAs row sub status now) row).isSome ∧
    sub.planId = pendingTargetId cfg (entitledAs row sub status now) row

/-- The period end is the row's, and no change of plan is confirmed. -/
def TermsKept (cfg : ProviderConfig) (row : Subscription) (sub : ProviderSubscription)
    (status : SubscriptionStatus) (now : Int) : Prop :=
  periodEndFor row sub = row.currentPeriodEnd ∧
    (confirmsChange cfg row sub status now →
      row.pendingPlanKey.getD row.planKey = row.planKey ∧
        row.pendingInterval.getD row.interval = row.interval)

/-- **A row in step that is flagged**: the provider has another word for its status, or one that
no webhook acts on. -/
def FalseAlarm (cfg : ProviderConfig) (row : Subscription) (sub : ProviderSubscription)
    (now : Int) : Prop :=
  watched row = true ∧
    (row.status = .past_due ∧ sub.status = "pending" ∧ TermsKept cfg row sub .past_due now ∨
      row.status = .trialing ∧ sub.status = "authenticated" ∧ sub.inTrial now = true ∧
        TermsKept cfg row sub .trialing now ∨
      movesTo sub now = none ∧ sub.status ≠ row.status.name)

/-- **A row out of step that is not flagged**: its status is the same text, or it is not looked
at. -/
def MissedDrift (cfg : ProviderConfig) (row : Subscription) (sub : ProviderSubscription)
    (now : Int) : Prop :=
  ∃ status ∈ movesTo sub now,
    (watched row = true ∧ sub.status = row.status.name ∧
        (sub.status = "authenticated" ∧ sub.inTrial now = true ∨
          ¬ TermsKept cfg row sub row.status now) ∨
      watched row = false ∧ (status ≠ row.status ∨ ¬ TermsKept cfg row sub row.status now))

/-! ### What the webhook path leaves alone -/

section

variable {p : Platform} {cfg : ProviderConfig} {row : Subscription} {sub : ProviderSubscription}
  {now : Int}

/-- What the webhook's body says. -/
theorem normalise_webhookBody (id eventType : String) :
    let event := normalise p (webhookBody sub id eventType) eventType now
    event.providerSubscriptionId = some id ∧ event.providerPlanId = sub.planId ∧
      event.currentPeriodEnd = sub.currentEnd.map (· * 1000) ∧
      event.status = (trialStatusFromEntity (some (sub.entity id)) now).orElse fun _ =>
        statusForEvent eventType := by
  refine ⟨rfl, ?_, ?_, rfl⟩
  · cases h : sub.planId <;> simp [normalise, webhookBody, readEntity, Json.get, Json.asString,
      ProviderSubscription.entity, h, List.lookup_cons]
  · cases h : sub.currentEnd <;> simp [normalise, webhookBody, readEntity, Json.get,
      Json.asNumber, ProviderSubscription.entity, h, List.lookup_cons]

theorem trialStatusFromEntity_entity (id : String) :
    trialStatusFromEntity (some (sub.entity id)) now =
      if sub.status = "authenticated" ∧ sub.inTrial now = true then some .trialing else none := by
  cases h : sub.chargeAt <;> simp [trialStatusFromEntity, ProviderSubscription.entity, Json.get,
    Json.asNumber, Json.asString, ProviderSubscription.inTrial, h, List.lookup_cons]

/-- The event and the entity say one status. -/
theorem status_webhookBody (id : String) :
    movesTo sub now = (eventTypeFor sub.status).bind fun eventType =>
      (normalise p (webhookBody sub id eventType) eventType now).status := by
  have hstatus := fun eventType =>
    (@normalise_webhookBody p sub now id eventType).2.2.2
  simp only [hstatus, trialStatusFromEntity_entity]
  by_cases hknown : sub.status ∈ ["active", "authenticated", "pending", "paused", "halted",
      "cancelled", "completed", "expired"]
  · simp only [List.mem_cons, List.not_mem_nil, or_false] at hknown
    rcases hknown with h | h | h | h | h | h | h | h <;>
      (simp [movesTo, eventTypeFor, statusForEvent, h]; try (split <;> rfl))
  · simp only [List.mem_cons, List.not_mem_nil, or_false, not_or] at hknown
    simp [movesTo, eventTypeFor, hknown]

/-- **The row a webhook leaves**, by the status that it moves the row to. -/
theorem webhookRow_eq : ∃ event : NormalizedBillingEvent,
    event.providerPlanId = sub.planId ∧ event.currentPeriodEnd = sub.currentEnd.map (· * 1000) ∧
      webhookRow p cfg row sub now =
        (movesTo sub now).elim row fun status => updatedRow cfg row event status now := by
  rw [status_webhookBody (p := p) (orEmpty row.providerSubscriptionId), webhookRow]
  cases eventTypeFor sub.status with
  | none =>
    exact ⟨⟨"", "", none, none, sub.planId, sub.currentEnd.map (· * 1000), none⟩, rfl, rfl, rfl⟩
  | some eventType =>
    obtain ⟨-, hplan, hperiod, -⟩ :=
      @normalise_webhookBody p sub now (orEmpty row.providerSubscriptionId) eventType
    exact ⟨_, hplan, hperiod, rfl⟩

/-- What the update of a row leaves as it was. -/
theorem mirrored_updatedRow {event : NormalizedBillingEvent} {status : SubscriptionStatus}
    (hplan : event.providerPlanId = sub.planId)
    (hperiod : event.currentPeriodEnd = sub.currentEnd.map (· * 1000)) :
    (updatedRow cfg row event status now).mirrored = row.mirrored ↔
      status = row.status ∧ TermsKept cfg row sub status now := by
  have hconfirm : confirmsChange cfg row sub status now ↔
      (pendingTargetId cfg (entitledAs row sub status now) row).isSome ∧
        event.providerPlanId = pendingTargetId cfg (entitledAs row sub status now) row := by
    rw [hplan]
    rfl
  have hrow : (updatedRow cfg row event status now).mirrored =
      if (pendingTargetId cfg (entitledAs row sub status now) row).isSome ∧
          event.providerPlanId = pendingTargetId cfg (entitledAs row sub status now) row then
        ⟨status, row.pendingPlanKey.getD row.planKey, row.pendingInterval.getD row.interval,
          periodEndFor row sub⟩
      else ⟨status, row.planKey, row.interval, periodEndFor row sub⟩ := by
    rw [updatedRow, hperiod]
    exact apply_ite Subscription.mirrored _ _ _
  rw [hrow, TermsKept, hconfirm, Subscription.mirrored]
  split
  · next hc =>
    rw [Mirrored.mk.injEq, imp_iff_right hc]
    tauto
  · next hc =>
    rw [Mirrored.mk.injEq]
    tauto

/-- **Which rows a webhook would leave as they are.** -/
theorem inStep_iff : InStep p cfg row sub now ↔
    ∀ status ∈ movesTo sub now, status = row.status ∧ TermsKept cfg row sub row.status now := by
  obtain ⟨event, hplan, hperiod, hrow⟩ := @webhookRow_eq p cfg row sub now
  rw [InStep, hrow]
  cases movesTo sub now with
  | none => exact iff_of_true rfl nofun
  | some status =>
    rw [Option.elim_some, mirrored_updatedRow hplan hperiod]
    constructor
    · rintro ⟨rfl, hterms⟩ status hstatus
      obtain rfl := Option.mem_some_iff.mp hstatus
      exact ⟨rfl, hterms⟩
    · intro h
      obtain ⟨rfl, hterms⟩ := h status rfl
      exact ⟨rfl, hterms⟩

theorem name_injective : Function.Injective SubscriptionStatus.name := by
  intro a b
  cases a <;> cases b <;> decide

/-- A status is moved to under its own word, but for a trial and a payment that is due. -/
theorem eq_of_movesTo_eq_some {moved : SubscriptionStatus} (h : movesTo sub now = some moved) :
    moved = .trialing ∧ sub.status = "authenticated" ∧ sub.inTrial now = true ∨
      moved = .past_due ∧ sub.status = "pending" ∨
      sub.status = moved.name ∧ ¬ (sub.status = "authenticated" ∧ sub.inTrial now = true) := by
  have hword : ∀ {word}, word ≠ "authenticated" → sub.status = word →
      ¬ (sub.status = "authenticated" ∧ sub.inTrial now = true) :=
    fun hne hstatus hauth => hne (hstatus.symm.trans hauth.1)
  rw [movesTo] at h
  split_ifs at h with hauth htrial hactive hpending hhalted hcancelled hcompleted hexpired
  all_goals obtain rfl := Option.some.inj h
  · exact Or.inl ⟨rfl, hauth, htrial⟩
  · exact Or.inr (Or.inr ⟨hauth, fun hboth => htrial hboth.2⟩)
  · exact Or.inr (Or.inr ⟨hactive, hword (by decide) hactive⟩)
  · exact Or.inr (Or.inl ⟨rfl, hpending⟩)
  · exact Or.inr (Or.inr ⟨hhalted, hword (by decide) hhalted⟩)
  · exact Or.inr (Or.inr ⟨hcancelled, hword (by decide) hcancelled⟩)
  · exact Or.inr (Or.inr ⟨hcompleted, hword (by decide) hcompleted⟩)
  · exact Or.inr (Or.inr ⟨hexpired, hword (by decide) hexpired⟩)

/-- A status of ours under another word: two that the provider does not have. -/
theorem movesTo_eq_some_iff {status : SubscriptionStatus} (h : sub.status ≠ status.name) :
    movesTo sub now = some status ↔
      status = .past_due ∧ sub.status = "pending" ∨
        status = .trialing ∧ sub.status = "authenticated" ∧ sub.inTrial now = true := by
  constructor
  · intro hmoved
    rcases eq_of_movesTo_eq_some hmoved with htrial | hdue | ⟨hsame, -⟩
    · exact Or.inr htrial
    · exact Or.inl hdue
    · exact absurd hsame h
  · rintro (⟨rfl, hpending⟩ | ⟨rfl, hauth, htrial⟩)
    · rw [movesTo, hpending]
      rfl
    · rw [movesTo, if_pos hauth, htrial]
      rfl

/-- A status under its own word is kept, but for a trial. -/
theorem eq_of_movesTo {status moved : SubscriptionStatus} (h : sub.status = status.name)
    (hmoved : movesTo sub now = some moved) :
    moved = status ↔ ¬ (sub.status = "authenticated" ∧ sub.inTrial now = true) := by
  rcases eq_of_movesTo_eq_some hmoved with ⟨rfl, htrial⟩ | ⟨rfl, hpending⟩ | ⟨hsame, hnot⟩
  · refine iff_of_false ?_ fun hnot => hnot htrial
    rintro rfl
    exact absurd (h.symm.trans htrial.1) (by decide)
  · exact absurd (h.symm.trans hpending) (by cases status <;> decide)
  · exact iff_of_true (name_injective (hsame.symm.trans h)) hnot

end

/-! ### What the job flags -/

/-- **Every row is flagged by itself.** -/
theorem mem_reconcileRows {providerStatus : String → Option (Option String)}
    {m : ReconcileMismatch} (rows : List TrackedSubscription) :
    ∀ {result r : ReconcileResult}, reconcileRows providerStatus rows result = some r →
      (m ∈ r.mismatches ↔ m ∈ result.mismatches ∨ ∃ t ∈ rows,
        truthy t.row.providerSubscriptionId = true ∧
          ∃ status, providerStatus (orEmpty t.row.providerSubscriptionId) = some status ∧
            m ∈ mismatchOf t status) := by
  induction rows with
  | nil =>
    intro result r h
    obtain rfl := Option.some.inj h
    exact ⟨Or.inl, fun h => h.resolve_right (by simp)⟩
  | cons t rows ih =>
    intro result r h
    rw [reconcileRows] at h
    rw [List.exists_mem_cons_iff]
    by_cases hid : truthy t.row.providerSubscriptionId = true
    · rw [if_neg (by rw [hid]; decide), Option.bind_eq_some_iff] at h
      obtain ⟨status, hstatus, h⟩ := h
      rw [ih h, List.mem_append, Option.mem_toList, or_assoc]
      refine or_congr_right (or_congr_left ⟨fun hm => ⟨hid, status, hstatus, hm⟩, ?_⟩)
      rintro ⟨-, status', hstatus', hm⟩
      obtain rfl := Option.some.inj (hstatus.symm.trans hstatus')
      exact hm
    · rw [if_pos (by rw [Bool.not_eq_true] at hid; rw [hid]; decide)] at h
      rw [ih h]
      exact or_congr_right ⟨Or.inr, fun h => h.resolve_left fun h => hid h.1⟩

/-- A pass whose reads all succeed comes to its end. -/
theorem reconcileRows_isSome {providerStatus : String → Option (Option String)}
    (hreads : ∀ id, (providerStatus id).isSome = true) (rows : List TrackedSubscription) :
    ∀ result, ∃ r, reconcileRows providerStatus rows result = some r := by
  induction rows with
  | nil => exact fun result => ⟨result, rfl⟩
  | cons t rows ih =>
    intro result
    rw [reconcileRows]
    split
    · exact ih result
    · obtain ⟨status, hstatus⟩ :=
        Option.isSome_iff_exists.mp (hreads (orEmpty t.row.providerSubscriptionId))
      rw [hstatus, Option.bind_some]
      exact ih _

/-- The provider's answers, when every read succeeds. -/
def statusSource (provider : String → Option ProviderSubscription) (id : String) :
    Option (Option String) :=
  some ((provider id).map (·.status))

/-- The pass over the table flags a row. -/
def Flagged (provider : String → Option ProviderSubscription) (rows : List TrackedSubscription)
    (t : TrackedSubscription) : Prop :=
  ∃ r, reconcileBilling (statusSource provider) defaultReconciledStatuses rows = some r ∧
    ∃ m ∈ r.mismatches, m.subscriptionId = t.id

section

variable {provider : String → Option ProviderSubscription} {rows : List TrackedSubscription}
  {t : TrackedSubscription} {sub : ProviderSubscription}

/-- **A row is flagged when it is looked at and its status is another text.** -/
theorem flagged_iff (hids : (rows.map (·.id)).Nodup) (ht : t ∈ rows)
    (hsub : provider (orEmpty t.row.providerSubscriptionId) = some sub) :
    Flagged provider rows t ↔ watched t.row = true ∧ sub.status ≠ t.row.status.name := by
  have hinj := List.inj_on_of_nodup_map hids
  constructor
  · rintro ⟨r, hr, m, hm, hid⟩
    rcases (mem_reconcileRows _ hr).mp hm with hm | ⟨t', ht', hpaid, status, hstatus, hm⟩
    · exact absurd hm (List.not_mem_nil)
    obtain ⟨ht', hstatuses⟩ := List.mem_filter.mp ht'
    rw [mismatchOf, Option.mem_ite_none_right, Option.mem_some_iff] at hm
    obtain ⟨hne, rfl⟩ := hm
    obtain rfl := hinj ht' ht hid
    obtain rfl := Option.some.inj hstatus
    rw [hsub] at hne
    exact ⟨Bool.and_eq_true_iff.mpr ⟨hstatuses, hpaid⟩, fun he => hne (congrArg some he)⟩
  · rintro ⟨hw, hne⟩
    obtain ⟨hstatuses, hpaid⟩ := Bool.and_eq_true_iff.mp hw
    have hreads : ∀ id, (statusSource provider id).isSome = true := fun _ => rfl
    obtain ⟨r, hr⟩ := reconcileRows_isSome hreads
      (rows.filter fun t => t.row.status ∈ defaultReconciledStatuses) ⟨0, []⟩
    have hdiff : some sub.status ≠ some t.row.status.name := fun he => hne (Option.some.inj he)
    refine ⟨r, hr, _, (mem_reconcileRows _ hr).mpr (Or.inr ⟨t, List.mem_filter.mpr ⟨ht, hstatuses⟩,
      hpaid, some sub.status, ?_, if_pos hdiff⟩), rfl⟩
    rw [statusSource, hsub]
    rfl

/-- A row with the provider's own word is never flagged, and what it drifts in is missed. -/
theorem missedDrift_of_name_eq (cfg : ProviderConfig) {row : Subscription} (now : Int)
    (hw : watched row = true) (htext : sub.status = row.status.name) :
    ¬ FalseAlarm cfg row sub now ∧ (MissedDrift cfg row sub now ↔ ¬ ∀ status ∈ movesTo sub now,
      status = row.status ∧ TermsKept cfg row sub row.status now) := by
  refine ⟨?_, ?_, fun h => ?_⟩
  · rintro ⟨-, ⟨hs, hword, -⟩ | ⟨hs, hword, -⟩ | ⟨-, hne⟩⟩
    · rw [hs, hword] at htext
      exact absurd htext (by decide)
    · rw [hs, hword] at htext
      exact absurd htext (by decide)
    · exact hne htext
  · rintro ⟨moved, hmoved, ⟨-, -, h⟩ | ⟨h, -⟩⟩ hall
    · obtain ⟨hstatus, hterms⟩ := hall moved hmoved
      exact h.elim ((eq_of_movesTo htext hmoved).mp hstatus) fun h => h hterms
    · exact absurd hw (by rw [h]; decide)
  · obtain ⟨moved, h⟩ := not_forall.mp h
    obtain ⟨hmoved, h⟩ := Classical.not_imp.mp h
    refine ⟨moved, hmoved, Or.inl ⟨hw, htext, ?_⟩⟩
    by_cases htrial : sub.status = "authenticated" ∧ sub.inTrial now = true
    · exact Or.inl htrial
    · exact Or.inr fun hterms => h ⟨(eq_of_movesTo htext hmoved).mpr htrial, hterms⟩

/-- A row with another word is flagged, also where it is in step. -/
theorem falseAlarm_of_name_ne (cfg : ProviderConfig) {row : Subscription} (now : Int)
    (hw : watched row = true) (htext : sub.status ≠ row.status.name) :
    ¬ MissedDrift cfg row sub now ∧ (FalseAlarm cfg row sub now ↔
      ∀ status ∈ movesTo sub now, status = row.status ∧ TermsKept cfg row sub row.status now) := by
  have hother := @movesTo_eq_some_iff sub now row.status htext
  refine ⟨?_, ?_, fun h => ⟨hw, ?_⟩⟩
  · rintro ⟨_, -, ⟨-, h, -⟩ | ⟨h, -⟩⟩
    · exact htext h
    · exact absurd hw (by rw [h]; decide)
  · rintro ⟨-, ⟨hs, hword, hterms⟩ | ⟨hs, hword, htrial, hterms⟩ | ⟨hnone, -⟩⟩ status hstatus
    · rw [hother.mpr (Or.inl ⟨hs, hword⟩), Option.mem_some_iff] at hstatus
      exact ⟨hstatus.symm, hs ▸ hterms⟩
    · rw [hother.mpr (Or.inr ⟨hs, hword, htrial⟩), Option.mem_some_iff] at hstatus
      exact ⟨hstatus.symm, hs ▸ hterms⟩
    · rw [hnone] at hstatus
      exact absurd hstatus (Option.not_mem_none _)
  · cases hmoved : movesTo sub now with
    | none => exact Or.inr (Or.inr ⟨rfl, htext⟩)
    | some status =>
      obtain ⟨rfl, hterms⟩ := h status hmoved
      rcases hother.mp hmoved with ⟨hs, hword⟩ | ⟨hs, hword, htrial⟩
      · exact Or.inl ⟨hs, hword, hs ▸ hterms⟩
      · exact Or.inr (Or.inl ⟨hs, hword, htrial, hs ▸ hterms⟩)

/-- **The job flags a row exactly when it is out of step, but for false alarms and for drift
that it misses.** -/
theorem flagged_right_iff (p : Platform) (cfg : ProviderConfig) (now : Int)
    (hids : (rows.map (·.id)).Nodup) (ht : t ∈ rows)
    (hsub : provider (orEmpty t.row.providerSubscriptionId) = some sub) :
    (Flagged provider rows t ↔ ¬ InStep p cfg t.row sub now) ↔
      ¬ FalseAlarm cfg t.row sub now ∧ ¬ MissedDrift cfg t.row sub now := by
  rw [flagged_iff hids ht hsub, inStep_iff]
  cases hw : watched t.row with
  | false =>
    rw [FalseAlarm, MissedDrift, hw]
    simp only [Bool.false_eq_true, false_and, false_iff, not_not, not_false_eq_true, true_and,
      false_or, not_exists, not_and, not_or]
  | true =>
    by_cases htext : sub.status = t.row.status.name
    · obtain ⟨halarm, hmissed⟩ := missedDrift_of_name_eq cfg now hw htext
      rw [hmissed]
      tauto
    · obtain ⟨hmissed, halarm⟩ := falseAlarm_of_name_ne cfg now hw htext
      rw [halarm]
      tauto

end

/-! ### A payment that is due -/

/-- A subscription whose payment has failed, as its webhook has left it. -/
def pastDue : TrackedSubscription where
  id := "subscription"
  workspaceId := "workspace"
  row :=
    { planKey := .pro
      interval := .monthly
      provider := "razorpay"
      providerSubscriptionId := some "sub_1"
      status := .past_due
      currentPeriodEnd := none
      cancelAtPeriodEnd := none
      graceEndsAt := some 1
      trialEndsAt := none
      pendingPlanKey := none
      pendingInterval := none
      cancellationReason := none
      cancellationComment := none }

def pendingSubscription : ProviderSubscription := ⟨"pending", some "plan_1", none, none⟩

/-- A runtime, of which the webhook about a subscription needs only the hash of its id. -/
def hashingPlatform : Platform where
  toLowerCase := id
  toUpperCase := id
  parseUrl _ := none
  parseDate _ := none
  toISOString _ := ""
  parseJson _ := none
  stringifyJson _ := ""
  hmacSha256Hex _ text := text
  verifyToken _ _ := none

def razorpay : ProviderConfig := ⟨"razorpay", "", "", []⟩

theorem flagged_right_iff_pastDue :
    (Flagged (fun _ => some pendingSubscription) [pastDue] pastDue ↔
        ¬ InStep hashingPlatform razorpay pastDue.row pendingSubscription 0) ↔
      ¬ FalseAlarm razorpay pastDue.row pendingSubscription 0 ∧
        ¬ MissedDrift razorpay pastDue.row pendingSubscription 0 :=
  flagged_right_iff hashingPlatform razorpay 0 (List.nodup_singleton _)
    (List.mem_singleton_self _) rfl

/-- **A row that every webhook has kept in step is flagged**: what we call past due, the provider
calls pending. -/
theorem past_due_is_flagged : ¬ ∀ (p : Platform) (cfg : ProviderConfig) (now : Int)
    (provider : String → Option ProviderSubscription) (rows : List TrackedSubscription)
    (t : TrackedSubscription) (sub : ProviderSubscription), (rows.map (·.id)).Nodup → t ∈ rows →
      provider (orEmpty t.row.providerSubscriptionId) = some sub →
      (Flagged provider rows t ↔ ¬ InStep p cfg t.row sub now) := by
  intro h
  have hpast := h hashingPlatform razorpay 0 (fun _ => some pendingSubscription)
    [pastDue] pastDue pendingSubscription (List.nodup_singleton _) (List.mem_singleton_self _) rfl
  have hids : ([pastDue].map (·.id)).Nodup := List.nodup_singleton _
  have hflagged : Flagged (fun _ => some pendingSubscription) [pastDue] pastDue :=
    (flagged_iff hids (List.mem_singleton_self _) rfl).mpr ⟨by decide, by decide⟩
  refine hpast.mp hflagged (inStep_iff.mpr fun status hstatus => ?_)
  obtain rfl := Option.mem_some_iff.mp (show status ∈ some .past_due from hstatus)
  exact ⟨rfl, rfl, fun hconfirms => absurd hconfirms.1 (by decide)⟩

end SnapUrl.Billing
