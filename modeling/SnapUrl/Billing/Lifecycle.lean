import SnapUrl.Platform

/-!
# Entitlement

`apps/api/src/billing/billing-lifecycle.ts`: whether a subscription entitles its
workspace to the paid plan at an instant.

Entitlement is a condition on time, and the condition is a `Window`: never, up to
an instant, or always.

* `isEntitled_iff_contains`: a subscription is entitled **exactly inside its window**.
* `lapses`: a window that has an end is left by time alone.
-/

namespace SnapUrl.Billing

inductive SubscriptionStatus where
  | created
  | authenticated
  | active
  | trialing
  | past_due
  | halted
  | cancelled
  | completed
  | expired
deriving DecidableEq, Repr

inductive BillingInterval where
  | monthly
  | yearly
deriving DecidableEq, Repr

inductive PlanKey where
  | free
  | starter
  | pro
  | team
deriving DecidableEq, Repr

/-- The key as it is written. -/
def PlanKey.name : PlanKey → String
  | .free => "free"
  | .starter => "starter"
  | .pro => "pro"
  | .team => "team"

/-- `GRACE_PERIOD_DAYS` in milliseconds. -/
def gracePeriodMs : Int := 7 * 24 * 60 * 60 * 1000

/-- What the lifecycle rules read of a subscription. -/
structure LifecycleSubscription where
  status : SubscriptionStatus
  currentPeriodEnd : Option Int
  cancelAtPeriodEnd : Option Int
  graceEndsAt : Option Int
deriving DecidableEq, Repr

/-- `HEALTHY_STATUSES`. -/
def isHealthyStatus (status : SubscriptionStatus) : Bool := status = .active || status = .trialing

/-- `FAILED_PAYMENT_STATUSES`. -/
def isFailedPaymentStatus (status : SubscriptionStatus) : Bool :=
  status = .past_due || status = .halted

def graceEndFrom (at_ : Int) : Int := at_ + gracePeriodMs

/-- Whether the workspace is entitled to its paid plan at `now`. -/
def isEntitled (sub : LifecycleSubscription) (now : Int) : Bool :=
  if isHealthyStatus sub.status then true
  else if isFailedPaymentStatus sub.status then sub.graceEndsAt.any (now < ·)
  else if sub.status = .cancelled then sub.currentPeriodEnd.any (now < ·)
  else false

inductive NoticeKind where
  | payment_failed
  | cancellation_scheduled
deriving DecidableEq, Repr

/-- The in-app notice a client should render. -/
structure LifecycleNotice where
  kind : NoticeKind
  revertsAt : Option Int
deriving DecidableEq, Repr

def noticeFor (sub : LifecycleSubscription) (now : Int) : Option LifecycleNotice :=
  if !isEntitled sub now then none
  else if isFailedPaymentStatus sub.status then some ⟨.payment_failed, sub.graceEndsAt⟩
  else if sub.status = .cancelled then some ⟨.cancellation_scheduled, sub.currentPeriodEnd⟩
  else if isHealthyStatus sub.status ∧ sub.cancelAtPeriodEnd ≠ none then
    some ⟨.cancellation_scheduled, sub.cancelAtPeriodEnd⟩
  else none

/-! ### Windows -/

/-- The instants a subscription is entitled at. -/
inductive Window where
  | never
  | until (t : Int)
  | always
deriving DecidableEq, Repr

def Window.Contains : Window → Int → Prop
  | .never, _ => False
  | .until t, now => now < t
  | .always, _ => True

instance : ∀ (w : Window) (now : Int), Decidable (w.Contains now)
  | .never, _ => isFalse id
  | .until t, now => inferInstanceAs (Decidable (now < t))
  | .always, _ => isTrue trivial

/-- The window a missing instant leaves shut. -/
def Window.ofEnd : Option Int → Window
  | none => .never
  | some t => .until t

/-- When a subscription is entitled. -/
def window (sub : LifecycleSubscription) : Window :=
  if isHealthyStatus sub.status then .always
  else if isFailedPaymentStatus sub.status then .ofEnd sub.graceEndsAt
  else if sub.status = .cancelled then .ofEnd sub.currentPeriodEnd
  else .never

theorem any_lt_iff_contains (o : Option Int) (now : Int) :
    o.any (now < ·) = true ↔ (Window.ofEnd o).Contains now := by
  cases o with
  | none => simp [Window.ofEnd, Window.Contains]
  | some t => simp [Window.ofEnd, Window.Contains]

/-- **A subscription is entitled exactly inside its window.** -/
theorem isEntitled_iff_contains {sub : LifecycleSubscription} {now : Int} :
    isEntitled sub now = true ↔ (window sub).Contains now := by
  rw [isEntitled, window]
  split
  · simp [Window.Contains]
  split
  · exact any_lt_iff_contains _ _
  split
  · exact any_lt_iff_contains _ _
  · simp [Window.Contains]

/-- **A window that has an end is left by time alone.** -/
theorem lapses {sub : LifecycleSubscription} {e now : Int} (h : window sub = .until e)
    (hle : e ≤ now) : isEntitled sub now = false := by
  have hout : ¬ (window sub).Contains now := by
    rw [h]
    exact not_lt.mpr hle
  rw [← isEntitled_iff_contains] at hout
  exact Bool.eq_false_iff.mpr hout

theorem isEntitled_of_healthy {sub : LifecycleSubscription} (h : isHealthyStatus sub.status = true)
    (now : Int) : isEntitled sub now = true := by
  rw [isEntitled, if_pos h]

theorem not_isEntitled_of_created {sub : LifecycleSubscription} (h : sub.status = .created)
    (now : Int) : isEntitled sub now = false := by
  simp [isEntitled, isHealthyStatus, isFailedPaymentStatus, h]

end SnapUrl.Billing
