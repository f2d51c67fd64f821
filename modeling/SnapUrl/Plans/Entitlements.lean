import Mathlib.Logic.Function.Basic

/-!
# Entitlements of a plan

`packages/contract/src/plans.ts`: what a version of a plan grants, what it costs, and the
entitlements a workspace has once its overrides are folded in.

* `resolveEntitlements`: baseline, then the version, then the overrides.
* `priceFor`: the amount of an interval in a currency.
* `seedPlans`: the plans a new deployment starts with.
-/

namespace SnapUrl.Plans

/-! ### Names -/

inductive FeatureName where
  | customDomains
  | passwordProtectedLinks
  | linkExpiry
  | routingRules
  | conversions
  | bioPages
  | forms
  | apiKeys
  | webhooks
  | csvExport
  | cookielessAnalytics
  | qrCustomisation
deriving DecidableEq, Repr

/-- `FEATURE_NAMES`. -/
def featureNames : List (String × FeatureName) :=
  [("customDomains", .customDomains), ("passwordProtectedLinks", .passwordProtectedLinks),
    ("linkExpiry", .linkExpiry), ("routingRules", .routingRules), ("conversions", .conversions),
    ("bioPages", .bioPages), ("forms", .forms), ("apiKeys", .apiKeys), ("webhooks", .webhooks),
    ("csvExport", .csvExport), ("cookielessAnalytics", .cookielessAnalytics),
    ("qrCustomisation", .qrCustomisation)]

inductive LimitName where
  | links
  | clicksPerMonth
  | customDomains
  | teamMembers
  | apiKeys
  | bioPages
  | forms
  | retentionYears
deriving DecidableEq, Repr

/-- `LIMIT_NAMES`. -/
def limitNames : List (String × LimitName) :=
  [("links", .links), ("clicksPerMonth", .clicksPerMonth), ("customDomains", .customDomains),
    ("teamMembers", .teamMembers), ("apiKeys", .apiKeys), ("bioPages", .bioPages),
    ("forms", .forms), ("retentionYears", .retentionYears)]

/-! ### Matrices -/

/-- A partial map: a feature that is not stated is off. -/
abbrev FeatureMatrix := FeatureName → Option Bool

/-- A cap, `none` for unlimited. -/
abbrev LimitValue := Option Nat

/-- A partial map: a limit that is not stated is 0. -/
abbrev LimitMatrix := LimitName → Option LimitValue

structure ResolvableVersion where
  features : FeatureMatrix
  limits : LimitMatrix

/-- The matrices `{}`. -/
def ResolvableVersion.empty : ResolvableVersion := ⟨fun _ => none, fun _ => none⟩

structure ResolvedEntitlements where
  features : FeatureName → Bool
  limits : LimitName → LimitValue

/-- The fail-closed baseline: every feature off, every limit 0. -/
def baselineEntitlements : ResolvedEntitlements := ⟨fun _ => false, fun _ => some 0⟩

inductive OverrideKind where
  | feature
  | limit
deriving DecidableEq, Repr

inductive OverrideValue where
  | bool (on : Bool)
  | num (cap : Nat)
  | null
deriving DecidableEq, Repr

structure ResolvableOverride where
  kind : OverrideKind
  name : String
  value : OverrideValue
deriving DecidableEq, Repr

/-- The loops over the version's entries. -/
def applyVersion (r : ResolvedEntitlements) (version : ResolvableVersion) :
    ResolvedEntitlements where
  features f := (version.features f).getD (r.features f)
  limits l := (version.limits l).getD (r.limits l)

/-- One override: its value has to fit its kind, and its name to be known. -/
def applyOverride (r : ResolvedEntitlements) (ov : ResolvableOverride) : ResolvedEntitlements :=
  let setLimit (cap : LimitValue) : ResolvedEntitlements :=
    match limitNames.lookup ov.name with
    | some l => { r with limits := Function.update r.limits l cap }
    | none => r
  match ov.kind, ov.value with
  | .feature, .bool on =>
    match featureNames.lookup ov.name with
    | some f => { r with features := Function.update r.features f on }
    | none => r
  | .limit, .num cap => setLimit (some cap)
  | .limit, .null => setLimit none
  | _, _ => r

/-- **The effective entitlements**: an override always beats the plan. -/
def resolveEntitlements (version : Option ResolvableVersion)
    (overrides : List ResolvableOverride) : ResolvedEntitlements :=
  overrides.foldl applyOverride
    (version.elim baselineEntitlements (applyVersion baselineEntitlements))

/-! ### Prices -/

inductive PriceCurrency where
  | INR
  | USD
deriving DecidableEq, Repr

inductive PriceInterval where
  | monthly
  | yearly
deriving DecidableEq, Repr

/-- An amount in the currency's minor unit. -/
abbrev PriceAmountMinor := Fin 100000001

/-- A version's full price set; what it does not price is not offered. -/
structure PlanPrices where
  primaryCurrency : PriceCurrency
  amounts : PriceInterval → Option (PriceCurrency → Option PriceAmountMinor)

def emptyPlanPrices : PlanPrices := ⟨.INR, fun _ => none⟩

/-- The amount of an interval; the currency defaults to the set's primary. -/
def priceFor (prices : PlanPrices) (interval : PriceInterval) (currency : Option PriceCurrency) :
    Option Nat := do
  let forInterval ← prices.amounts interval
  let amount ← forInterval (currency.getD prices.primaryCurrency)
  some amount.val

@[simp] theorem priceFor_empty (interval : PriceInterval) (currency : Option PriceCurrency) :
    priceFor emptyPlanPrices interval currency = none := rfl

/-- What a version stores of its prices; `null` reads as unpriced. -/
def parsePricing (pricing : Option PlanPrices) : PlanPrices := pricing.getD emptyPlanPrices

/-! ### The seed -/

/-- A matrix that states every name, as the seed's do. -/
def featuresOf (on : List FeatureName) : FeatureMatrix := fun f => some (decide (f ∈ on))

/-- Limits in the order of `LIMIT_NAMES`. -/
def limitsOf (links clicksPerMonth customDomains teamMembers apiKeys bioPages forms
    retentionYears : LimitValue) : LimitMatrix
  | .links => some links
  | .clicksPerMonth => some clicksPerMonth
  | .customDomains => some customDomains
  | .teamMembers => some teamMembers
  | .apiKeys => some apiKeys
  | .bioPages => some bioPages
  | .forms => some forms
  | .retentionYears => some retentionYears

def inrPrices (monthlyRupees yearlyRupees : Nat) : PlanPrices where
  primaryCurrency := .INR
  amounts
    | .monthly => some fun c => if c = .INR then some (Fin.ofNat _ (monthlyRupees * 100)) else none
    | .yearly => some fun c => if c = .INR then some (Fin.ofNat _ (yearlyRupees * 100)) else none

structure SeedPlan where
  key : String
  matrices : ResolvableVersion
  prices : Option PlanPrices

def everyFeature : FeatureMatrix := fun _ => some true

/-- `SEED_PLANS` of `apps/api/src/plans/plan-seed.ts`. -/
def seedPlans : List SeedPlan :=
  [⟨"free", ⟨featuresOf [.linkExpiry, .bioPages, .apiKeys, .cookielessAnalytics],
      limitsOf (some 50) (some 1000000) (some 0) (some 1) (some 1) (some 1) (some 0) (some 1)⟩,
      none⟩,
    ⟨"starter", ⟨featuresOf [.customDomains, .passwordProtectedLinks, .linkExpiry, .bioPages,
      .forms, .apiKeys, .csvExport, .cookielessAnalytics, .qrCustomisation],
      limitsOf (some 500) (some 5000000) (some 1) (some 3) (some 3) (some 3) (some 3) (some 2)⟩,
      some (inrPrices 59 590)⟩,
    ⟨"pro", ⟨everyFeature, limitsOf (some 10000) (some 25000000) (some 5) (some 10) (some 10)
      (some 25) (some 25) (some 3)⟩, some (inrPrices 199 1990)⟩,
    ⟨"team", ⟨everyFeature, limitsOf (some 100000) (some 100000000) (some 25) (some 50) (some 50)
      (some 100) (some 100) (some 5)⟩, some (inrPrices 299 2990)⟩,
    ⟨"enterprise", ⟨everyFeature, limitsOf none none (some 1000) none none none none (some 7)⟩,
      none⟩]

/-- The entry of `SEED_BY_KEY`. -/
def seedByKey (key : String) : Option SeedPlan := seedPlans.find? fun seed => seed.key = key

/-- `DEFAULT_PLAN_KEY`. -/
def defaultPlanKey : String := "free"

/-- The compiled-in matrices for a key that is not in the catalogue: those of `free` where
the key is not a seed's. -/
def seedVersionFor (key : String) : Option ResolvableVersion :=
  ((seedByKey key).or (seedByKey defaultPlanKey)).map (·.matrices)

end SnapUrl.Plans
