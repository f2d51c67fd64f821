import SnapUrl.Billing.Service

/-!
# Starting a checkout

A workspace has one subscription row, and a checkout writes it.

* `KeepsEntitlement`: a checkout takes nothing from a paying workspace.  Its row
  is entitled for as long as it was, and its provider subscription is still the
  one that later webhooks find.
* `keepsEntitlement_iff`: **that is so exactly when the row was not entitled to
  begin with, or the checkout stopped before its upsert**.  The upsert writes the
  status and the subscription id of the new checkout over the old ones.
* `checkout_drops_entitlement`: a paying workspace that opens a checkout, and a
  webhook of the subscription it still pays for.
-/

namespace SnapUrl.Billing

/-- What a checkout must leave of an entitled row. -/
def KeepsEntitlement (cfg : ProviderConfig) (req : CheckoutRequest) (ans : CheckoutAnswers)
    (a : Account) : Prop :=
  ∀ row, a.subscription = some row → row.entitled ans.now = true →
    ∃ row', (startCheckout cfg req ans a).1.subscription = some row' ∧
      (∀ t, ans.now ≤ t → row.entitled t = true → row'.entitled t = true) ∧
      ∀ id, row.providerSubscriptionId = some id →
        row'.providerSubscriptionId = some id ∧ row'.provider = row.provider

/-- The coupon a checkout goes on with. -/
def CouponAccepted (req : CheckoutRequest) (ans : CheckoutAnswers)
    (coupon : Option ResolvedCoupon) : Prop :=
  if truthy req.couponCode then
    ans.couponsOn = true ∧ coupon.isSome = true ∧
      ans.coupon ((livePriceMinor req ans).getD 0) = coupon ∧ ans.redeemed = true
  else coupon = none

/-- **A checkout goes through**: it is switched on, its coupon is accepted and redeemed
if it has one, and the provider opens the subscription. -/
def GoesThrough (cfg : ProviderConfig) (req : CheckoutRequest) (ans : CheckoutAnswers) : Prop :=
  ans.checkoutOn = true ∧ ∃ coupon, CouponAccepted req ans coupon ∧
    ∃ result, createCheckout cfg ans.client (checkoutParams req ans coupon) ans.now = .ok result

section

variable {cfg : ProviderConfig} {req : CheckoutRequest} {ans : CheckoutAnswers} {a : Account}

theorem couponAccepted_iff {coupon : Option ResolvedCoupon} :
    CouponAccepted req ans coupon ↔
      resolveCoupon req ans = .ok coupon ∧ (coupon.isSome = true → ans.redeemed = true) := by
  rw [CouponAccepted, resolveCoupon]
  by_cases hcode : truthy req.couponCode = true
  · rw [if_pos hcode]
    by_cases hon : ans.couponsOn = true
    · cases hcoupon : ans.coupon ((livePriceMinor req ans).getD 0) with
      | none =>
        simp only [hcode, hon, Bool.not_true, Bool.false_eq_true, if_false]
        constructor
        · rintro ⟨_, hsome, rfl, _⟩
          simp at hsome
        · intro h
          simp at h
      | some c =>
        simp only [hcode, hon, Bool.not_true, Bool.false_eq_true, if_false]
        constructor
        · rintro ⟨_, _, rfl, hredeemed⟩
          exact ⟨rfl, fun _ => hredeemed⟩
        · rintro ⟨hok, hredeemed⟩
          rw [Except.ok.injEq] at hok
          subst hok
          exact ⟨trivial, rfl, rfl, hredeemed rfl⟩
    · simp [hcode, hon]
  · rw [if_neg hcode]
    simp only [hcode, Bool.not_false, if_true, Except.ok.injEq]
    constructor
    · rintro rfl
      exact ⟨rfl, by simp⟩
    · exact fun h => h.1.symm

theorem openCheckout_ok_iff :
    (∃ session, openCheckout cfg req ans = .ok session) ↔ GoesThrough cfg req ans := by
  rw [openCheckout, GoesThrough]
  by_cases hon : ans.checkoutOn = true
  · simp only [hon, Bool.not_true, Bool.false_eq_true, if_false, true_and]
    constructor
    · rintro ⟨session, h⟩
      split at h
      · simp at h
      rename_i coupon hcoupon
      split at h
      · simp at h
      rename_i result hresult
      split at h
      · simp at h
      rename_i hredeemed
      refine ⟨coupon, couponAccepted_iff.mpr ⟨hcoupon, fun hsome => ?_⟩, result, hresult⟩
      by_contra hnot
      exact hredeemed ⟨hsome, Bool.eq_false_iff.mpr hnot⟩
    · rintro ⟨coupon, haccepted, result, hresult⟩
      obtain ⟨hcoupon, hredeemed⟩ := couponAccepted_iff.mp haccepted
      rw [hcoupon]
      simp only [hresult]
      rw [if_neg]
      · exact ⟨_, rfl⟩
      · rintro ⟨hsome, hnot⟩
        exact absurd (hredeemed hsome) (by simp [hnot])
  · simp [hon]

end

/-- **A checkout keeps what a workspace is entitled to exactly when there is nothing
to keep, or it does not go through.** -/
theorem keepsEntitlement_iff (cfg : ProviderConfig) (req : CheckoutRequest)
    (ans : CheckoutAnswers) (a : Account) :
    KeepsEntitlement cfg req ans a ↔
      a.entitled ans.now = false ∨ ¬ GoesThrough cfg req ans := by
  rw [← openCheckout_ok_iff]
  constructor
  · intro hkeeps
    by_contra hboth
    rw [not_or, not_not, Bool.not_eq_false] at hboth
    obtain ⟨hentitled, session, hopen⟩ := hboth
    obtain ⟨row, hrow, hrowEntitled⟩ := (Option.any_eq_true _ _).mp hentitled
    obtain ⟨row', hrow', hstill, _⟩ := hkeeps row hrow hrowEntitled
    rw [startCheckout_of_ok hopen] at hrow'
    have heq : checkoutRow cfg session a.subscription = row' := Option.some.inj hrow'
    have hlost := not_entitled_checkoutRow cfg session a.subscription ans.now
    rw [heq, hstill ans.now le_rfl hrowEntitled] at hlost
    exact absurd hlost (by simp)
  · rintro (hnone | hrefused) row hrow hentitled
    · have : a.entitled ans.now = true := (Option.any_eq_true _ _).mpr ⟨row, hrow, hentitled⟩
      exact absurd this (by simp [hnone])
    · cases hopen : openCheckout cfg req ans with
      | ok session => exact absurd ⟨session, hopen⟩ hrefused
      | error e =>
        rw [startCheckout_of_error hopen]
        exact ⟨row, hrow, fun _ _ h => h, fun id hid => ⟨hid, rfl⟩⟩

/-! ### A paying workspace that opens a checkout -/

def sampleConfig : ProviderConfig where
  name := "razorpay"
  keyId := "key"
  webhookSecret := "secret"
  planIds := [("pro:monthly", "plan_pro"), ("team:monthly", "plan_team")]

/-- A workspace that never paid. -/
def freshAccount : Account := ⟨none, "Free", [], []⟩

def checkoutOf (planKey : PlanKey) : CheckoutRequest :=
  ⟨"workspace", "owner@example.com", planKey, .monthly, none⟩

/-- Everything on, no trial, and a provider that opens `subscriptionId`. -/
def opens (subscriptionId : String) : CheckoutAnswers where
  now := 0
  checkoutOn := true
  trialsOn := true
  couponsOn := true
  plan := none
  coupon _ := none
  client _ := some subscriptionId
  redeemed := true

def activation (eventId subscriptionId planId : String) : NormalizedBillingEvent where
  eventId := eventId
  eventType := "subscription.activated"
  providerSubscriptionId := some subscriptionId
  status := some .active
  providerPlanId := some planId
  currentPeriodEnd := some 1000
  payment := none

/-- The workspace after it has paid for a checkout of the pro plan. -/
def payingAccount : Account :=
  (handleWebhook sampleConfig (startCheckout sampleConfig (checkoutOf .pro) (opens "sub_1")
    freshAccount).1 (activation "evt_1" "sub_1" "plan_pro") 0).1

/-- **A paying workspace that opens a checkout is no longer entitled**, and the
webhooks of what it pays for find no row. -/
theorem checkout_drops_entitlement :
    ¬ ∀ (cfg : ProviderConfig) (req : CheckoutRequest) (ans : CheckoutAnswers) (a : Account),
      KeepsEntitlement cfg req ans a := by
  intro h
  have hrow : payingAccount.subscription.isSome = true := by decide
  obtain ⟨row, hrow⟩ := Option.isSome_iff_exists.mp hrow
  have hentitled : payingAccount.subscription.all (·.entitled 0) = true := by decide
  have hlost : (startCheckout sampleConfig (checkoutOf .team) (opens "sub_2")
      payingAccount).1.subscription.all (fun r => !r.entitled 0) = true := by
    decide
  rw [hrow] at hentitled
  obtain ⟨row', hrow', hstill, _⟩ :=
    h sampleConfig (checkoutOf .team) (opens "sub_2") payingAccount row hrow hentitled
  rw [hrow'] at hlost
  have hnot : row'.entitled 0 = false := by simpa using hlost
  exact absurd (hstill 0 le_rfl hentitled) (by simp [hnot])

end SnapUrl.Billing
