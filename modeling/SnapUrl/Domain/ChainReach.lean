import Mathlib.Algebra.Order.BigOperators.Group.List
import Mathlib.Tactic.Linarith
import SnapUrl.Domain.Buckets
import SnapUrl.Domain.RoutingReference

/-!
# Arms no visitor reaches

`validateRoutingChain` of `packages/domain/src/routing.ts` rejects chains that
cannot behave as their author expects.  This file says which arms of a chain some
visitor reaches, and which conditions the validator would have to check for that.

* `evaluateArm`: the rule a decision is taken from.
* `pickFrom_spec`, `pickFrom_of_slice`: an arm of a split is picked exactly for the
  points in its slice, so that by `exists_bucketOf` **an arm is picked for some key
  exactly when its slice holds a whole point** (`exists_pickWeighted_iff`).
* `exists_visitor_iff`: a conditional arm is reached by someone exactly when it is
  by a visitor with no more than its own conditions.
* `everyArmReached_iff`: **what an accepted chain leaves open.**
-/

namespace SnapUrl.Domain

open Lib

/-! ### The validator -/

/-- What is wrong with a chain. -/
inductive ChainProblem where
  | loneSplit
  | weights (total : ℚ)
  | stranded (count : Nat)
  | identical
deriving DecidableEq, Repr

/-- The message the drawer shows. -/
def ChainProblem.message (formatNumber : ℚ → String) : ChainProblem → String
  | .loneSplit => "A split test needs at least two destinations to split between."
  | .weights total => "Split weights add up to " ++ formatNumber total ++ "%, not 100%."
  | .stranded count =>
    toString count ++ " rule" ++ (if count = 1 then "" else "s") ++
      " after \"everything else\" can never match. Move them above it."
  | .identical => "Two rules have identical conditions — the second can never match."

/-- What two rules with identical conditions have in common. -/
def conditionKey (p : Platform) (rule : RoutingRule) :
    Option String × Option DeviceType × Option String :=
  (rule.when.country.map p.toUpperCase, rule.when.device, rule.when.language.map p.toLowerCase)

/-- The loop over the conditional rules, with the keys seen so far. -/
def identicalConditions (p : Platform) :
    List (Option String × Option DeviceType × Option String) → List RoutingRule →
      List ChainProblem
  | _, [] => []
  | seen, rule :: rules =>
    if isCatchAll rule then identicalConditions p seen rules
    else
      (if conditionKey p rule ∈ seen then [.identical] else []) ++
        identicalConditions p (conditionKey p rule :: seen) rules

def totalWeight (rules : List RoutingRule) : ℚ := (rules.map fun r => r.weight.getD 0).sum

/-- Reject chains that cannot behave as the author expects. -/
def validateRoutingChain (p : Platform) (rules : List RoutingRule) : List ChainProblem :=
  let weighted := (rules.filter isCatchAll).filter fun r => r.weight.any (0 < ·)
  (if weighted.length = 1 then [ChainProblem.loneSplit] else []) ++
  (if 1 < weighted.length ∧ 1 / 100 < |totalWeight weighted - 100| then
    [ChainProblem.weights (totalWeight weighted)] else []) ++
  (match rules.findIdx? fun r => isCatchAll r && r.weight.getD 0 = 0 with
    | none => []
    | some first =>
      -- a rule after an unweighted catch-all can never run
      if first < rules.length - 1 then [ChainProblem.stranded (rules.length - first - 1)] else []) ++
  identicalConditions p [] rules

/-! ### The rule behind a decision -/

/-- The rule a decision is taken from, none for the link's own destination. -/
def evaluateArm (p : Platform) (rules : List RoutingRule) (ctx : VisitorContext) :
    Option RoutingRule :=
  match rules.find? fun r => !isWeightedCatchAll r && ruleMatches p r ctx with
  | some rule => some rule
  | none =>
    match rules.filter isWeightedCatchAll with
    | [] => none
    | rule :: rest => some (pickWeighted rule rest ctx.visitorHash).2

section Arm

variable {p : Platform} {rules : List RoutingRule} {ctx : VisitorContext} {arm rule : RoutingRule}

/-- **What `evaluateRouting` returns is the rule's destination and id.** -/
theorem evaluateRouting_of_evaluateArm (fallbackDestination : String)
    (h : evaluateArm p rules ctx = some arm) :
    (evaluateRouting p rules fallbackDestination ctx).destination = arm.destination ∧
      (evaluateRouting p rules fallbackDestination ctx).matchedRuleId = some arm.id := by
  have hwalk : (rules.filter fun r => !isWeightedCatchAll r).find? (fun r => ruleMatches p r ctx) =
      rules.find? fun r => !isWeightedCatchAll r && ruleMatches p r ctx := by
    simp only [List.find?_filter, Bool.decide_and, Bool.decide_eq_true]
  rw [evaluateArm, ← hwalk] at h
  rw [evaluateRouting]
  cases hfound : (rules.filter fun r => !isWeightedCatchAll r).find? fun r =>
      ruleMatches p r ctx with
  | some rule =>
    rw [hfound] at h
    obtain rfl := Option.some.inj h
    exact ⟨rfl, rfl⟩
  | none =>
    rw [hfound] at h
    cases hgroup : rules.filter isWeightedCatchAll with
    | nil =>
      rw [hgroup] at h
      exact absurd h (by simp)
    | cons rule rest =>
      rw [hgroup] at h
      obtain rfl := Option.some.inj h
      exact ⟨rfl, rfl⟩

/-- Without a rule it returns the link's own destination. -/
theorem evaluateRouting_of_evaluateArm_eq_none (fallbackDestination : String)
    (h : evaluateArm p rules ctx = none) :
    (evaluateRouting p rules fallbackDestination ctx).destination = fallbackDestination := by
  have hwalk : (rules.filter fun r => !isWeightedCatchAll r).find? (fun r => ruleMatches p r ctx) =
      rules.find? fun r => !isWeightedCatchAll r && ruleMatches p r ctx := by
    simp only [List.find?_filter, Bool.decide_and, Bool.decide_eq_true]
  rw [evaluateArm, ← hwalk] at h
  rw [evaluateRouting]
  cases hfound : (rules.filter fun r => !isWeightedCatchAll r).find?
      (fun r => ruleMatches p r ctx) with
  | some rule =>
    rw [hfound] at h
    simp at h
  | none =>
    rw [hfound] at h
    cases hgroup : rules.filter isWeightedCatchAll with
    | nil => rfl
    | cons rule rest =>
      rw [hgroup] at h
      simp at h

theorem mem_of_evaluateArm (h : evaluateArm p rules ctx = some arm) : arm ∈ rules := by
  rw [evaluateArm] at h
  split at h
  · rename_i rule hfound
    obtain rfl := Option.some.inj h
    exact List.mem_of_find?_eq_some hfound
  · split at h
    · simp at h
    · rename_i rule rest hgroup
      obtain rfl := Option.some.inj h
      exact (List.mem_filter.mp (hgroup ▸ pickWeighted_mem rule rest ctx.visitorHash)).1

/-- A visitor who is sent to an arm, whatever the link's own destination. -/
def SentTo (p : Platform) (rules : List RoutingRule) (ctx : VisitorContext) (arm : RoutingRule) :
    Prop :=
  evaluateArm p rules ctx = some arm ∧ ∀ fallbackDestination,
    (evaluateRouting p rules fallbackDestination ctx).destination = arm.destination ∧
      (evaluateRouting p rules fallbackDestination ctx).matchedRuleId = some arm.id

theorem sentTo_iff : SentTo p rules ctx arm ↔ evaluateArm p rules ctx = some arm :=
  ⟨fun h => h.1, fun h => ⟨h, fun fallback => evaluateRouting_of_evaluateArm fallback h⟩⟩

theorem ruleMatches_of_isCatchAll (h : isCatchAll rule = true) : ruleMatches p rule ctx = true := by
  simp only [isCatchAll, Bool.and_eq_true, Bool.not_eq_true', Option.isNone_iff_eq_none] at h
  rw [ruleMatches, if_neg (by simp [h.1.1]), if_neg (by simp [h.2]), h.1.2]

end Arm

/-! ### The slices of a split -/

/-- Where the slices of some arms end, of ten thousand. -/
def boundary (total : ℚ) (arms : List RoutingRule) : ℚ := totalWeight arms / total * 10000

/-- There is a whole point in the slice of an arm. -/
def HoldsPoint (group : List RoutingRule) (arm : RoutingRule) : Prop :=
  ∃ before after, group = before ++ arm :: after ∧ ∃ point < 10000,
    boundary (totalWeight group) before ≤ (point : ℕ) ∧
      (point : ℚ) < boundary (totalWeight group) (before ++ [arm])

section Slices

variable {total : ℚ} {point : ℕ} {arm : RoutingRule}

@[simp] theorem boundary_nil : boundary total [] = 0 := by simp [boundary, totalWeight]

theorem boundary_cons (rule : RoutingRule) (arms : List RoutingRule) :
    boundary total (rule :: arms) = rule.weight.getD 0 / total * 10000 + boundary total arms := by
  rw [boundary, boundary, totalWeight, List.map_cons, List.sum_cons, add_div, add_mul]
  rfl

theorem boundary_nonneg (htotal : 0 < total) {arms : List RoutingRule}
    (harms : ∀ r ∈ arms, 0 ≤ r.weight.getD 0) : 0 ≤ boundary total arms := by
  have hsum : 0 ≤ totalWeight arms := by
    refine List.sum_nonneg ?_
    intro w hw
    obtain ⟨r, hr, rfl⟩ := List.mem_map.mp hw
    exact harms r hr
  exact mul_nonneg (div_nonneg hsum htotal.le) (by norm_num)

/-- Where the picked arm stands: its slice has begun, and it has not ended unless it is the
last. -/
theorem pickFrom_spec (total : ℚ) (point : ℕ) (rest : List RoutingRule) :
    ∀ (cumulative : ℚ) (at_ : ℕ) (rule : RoutingRule), cumulative ≤ point →
      ∃ before arm after, rule :: rest = before ++ arm :: after ∧
        (pickFrom total point cumulative at_ rule rest).2 = arm ∧
        cumulative + boundary total before ≤ point ∧
        (after ≠ [] → (point : ℚ) < cumulative + boundary total (before ++ [arm])) := by
  induction rest with
  | nil =>
    intro cumulative at_ rule hbegun
    refine ⟨[], rule, [], rfl, ?_, by simpa using hbegun, fun h => absurd rfl h⟩
    rw [pickFrom]
  | cons next rest ih =>
    intro cumulative at_ rule hbegun
    rw [pickFrom]
    by_cases hpoint : (point : ℚ) < cumulative + rule.weight.getD 0 / total * 10000
    · rw [if_pos hpoint]
      refine ⟨[], rule, next :: rest, rfl, rfl, by simpa using hbegun, fun _ => ?_⟩
      rwa [List.nil_append, boundary_cons, boundary_nil, add_zero]
    · rw [if_neg hpoint]
      obtain ⟨before, arm, after, hsplit, harm, hstart, hend⟩ :=
        ih _ (at_ + 1) next (not_lt.mp hpoint)
      refine ⟨rule :: before, arm, after, by rw [hsplit]; rfl, harm, ?_, ?_⟩
      · rwa [boundary_cons, ← add_assoc]
      · intro hafter
        rw [List.cons_append, boundary_cons, ← add_assoc]
        exact hend hafter

/-- **A point in its slice picks an arm.** -/
theorem pickFrom_of_slice (htotal : 0 < total) (before after : List RoutingRule) :
    ∀ (cumulative : ℚ) (at_ : ℕ) (rule : RoutingRule) (rest : List RoutingRule),
      rule :: rest = before ++ arm :: after → (∀ r ∈ before, 0 ≤ r.weight.getD 0) →
      cumulative + boundary total before ≤ point →
      (point : ℚ) < cumulative + boundary total (before ++ [arm]) →
      (pickFrom total point cumulative at_ rule rest).2 = arm := by
  induction before with
  | nil =>
    intro cumulative at_ rule rest hsplit _ _ hend
    rw [List.nil_append, List.cons.injEq] at hsplit
    obtain ⟨rfl, rfl⟩ := hsplit
    rw [List.nil_append, boundary_cons, boundary_nil, add_zero] at hend
    cases rest with
    | nil => rw [pickFrom]
    | cons next rest => rw [pickFrom, if_pos hend]
  | cons first before ih =>
    intro cumulative at_ rule rest hsplit hweights hstart hend
    rw [List.cons_append, List.cons.injEq] at hsplit
    obtain ⟨rfl, rfl⟩ := hsplit
    rw [boundary_cons, ← add_assoc] at hstart
    rw [List.cons_append, boundary_cons, ← add_assoc] at hend
    have hrest : ∀ r ∈ before, 0 ≤ r.weight.getD 0 :=
      fun r hr => hweights r (List.mem_cons_of_mem _ hr)
    have hpast : ¬ (point : ℚ) < cumulative + rule.weight.getD 0 / total * 10000 :=
      not_lt.mpr (by linarith [boundary_nonneg htotal hrest])
    cases hnext : before ++ arm :: after with
    | nil => simp at hnext
    | cons next rest =>
      rw [pickFrom, if_neg hpast]
      exact ih _ _ next rest hnext.symm hrest hstart hend

/-- **An arm is picked for some key exactly when its slice holds a whole point.** -/
theorem exists_pickWeighted_iff {rule : RoutingRule} {rest : List RoutingRule}
    (hweights : ∀ r ∈ rule :: rest, 0 < r.weight.getD 0) :
    (∃ seed, (pickWeighted rule rest seed).2 = arm) ↔ HoldsPoint (rule :: rest) arm := by
  have htotal : 0 < totalWeight (rule :: rest) := by
    refine List.sum_pos _ ?_ (by simp)
    intro w hw
    obtain ⟨r, hr, rfl⟩ := List.mem_map.mp hw
    exact hweights r hr
  have hpick : ∀ seed, (pickWeighted rule rest seed).2 =
      (pickFrom (totalWeight (rule :: rest)) (bucketOf seed 10000) 0 0 rule rest).2 := by
    intro seed
    rw [pickWeighted]
    exact congrArg Prod.snd (if_neg (not_le.mpr htotal))
  constructor
  · rintro ⟨seed, hseed⟩
    obtain ⟨before, picked, after, hsplit, hpicked, hstart, hend⟩ :=
      pickFrom_spec (totalWeight (rule :: rest)) (bucketOf seed 10000) rest 0 0 rule
        (Nat.cast_nonneg _)
    rw [← hpick, hseed] at hpicked
    subst hpicked
    have hlt : bucketOf seed 10000 < 10000 := Nat.mod_lt _ (by decide)
    rw [zero_add] at hstart hend
    refine ⟨before, after, hsplit, _, hlt, hstart, ?_⟩
    by_cases hafter : after = []
    · -- the last slice ends at ten thousand
      have hlast : boundary (totalWeight (rule :: rest)) (before ++ [arm]) = 10000 := by
        rw [hafter] at hsplit
        rw [← hsplit, boundary, div_self htotal.ne', one_mul]
      rw [hlast]
      exact_mod_cast hlt
    · exact hend hafter
  · rintro ⟨before, after, hsplit, point, hpoint, hstart, hend⟩
    obtain ⟨seed, hseed⟩ := exists_bucketOf hpoint
    refine ⟨seed, ?_⟩
    rw [hpick, hseed]
    refine pickFrom_of_slice htotal before after 0 0 rule rest hsplit ?_ ?_ ?_
    · intro r hr
      exact (hweights r (hsplit ▸ List.mem_append_left _ hr)).le
    · rwa [zero_add]
    · rwa [zero_add]

end Slices

/-! ### Conditional arms -/

/-- The devices that satisfy a condition, none for an arm that states no device. -/
def ownDevices : Option DeviceType → List (Option DeviceType)
  | none => [none]
  | some .mobile => [some .mobile, some .ios, some .android]
  | some device => [some device]

/-- A visitor with an arm's own country and language. -/
def ownVisitor (arm : RoutingRule) (device : Option DeviceType) : VisitorContext :=
  ⟨arm.when.country, device, arm.when.language, ""⟩

/-- On one of its devices an arm comes first for the visitor of its own. -/
def FirstForItsOwn (p : Platform) (rules : List RoutingRule) (arm : RoutingRule) : Prop :=
  ∃ before after, rules = before ++ arm :: after ∧ ∃ device ∈ ownDevices arm.when.device,
    ∀ rule ∈ before, isWeightedCatchAll rule = false →
      ruleMatches p rule (ownVisitor arm device) = false

section Conditional

variable {p : Platform} {rules : List RoutingRule} {ctx : VisitorContext} {arm rule : RoutingRule}

theorem deviceSatisfied_of_mem_ownDevices {wanted device : Option DeviceType}
    (h : device ∈ ownDevices wanted) : deviceSatisfied wanted device = true := by
  cases wanted with
  | none => rfl
  | some wanted =>
    cases wanted <;> simp only [ownDevices, List.mem_cons, List.not_mem_nil, or_false] at h
    case mobile => rcases h with rfl | rfl | rfl <;> rfl
    all_goals rw [h]; rfl

theorem ruleMatches_ownVisitor {device : Option DeviceType}
    (h : device ∈ ownDevices arm.when.device) : ruleMatches p arm (ownVisitor arm device) = true :=
  ruleMatches_iff.mpr ⟨fun _ => rfl, fun _ => rfl, deviceSatisfied_of_mem_ownDevices h⟩

/-- A visitor who matches an arm has one of its devices, or need not have any. -/
theorem exists_ownDevice {wanted actual : Option DeviceType}
    (h : deviceSatisfied wanted actual = true) :
    ∃ device ∈ ownDevices wanted, ∀ other, deviceSatisfied other device = true →
      deviceSatisfied other actual = true := by
  cases wanted with
  | none =>
    refine ⟨none, List.mem_singleton_self _, ?_⟩
    intro other hother
    cases other with
    | none => rfl
    | some other => simp [deviceSatisfied] at hother
  | some wanted =>
    refine ⟨actual, ?_, fun _ hother => hother⟩
    cases actual with
    | none => simp [deviceSatisfied] at h
    | some actual => cases wanted <;> cases actual <;> revert h <;> decide

/-- **Whoever matches an arm matches all that the arm's own visitor matches.** -/
theorem exists_ownVisitor (hkeeps : CaseKeepsText p) (h : ruleMatches p arm ctx = true) :
    ∃ device ∈ ownDevices arm.when.device, ∀ rule,
      ruleMatches p rule (ownVisitor arm device) = true → ruleMatches p rule ctx = true := by
  obtain ⟨hcountry, hlanguage, hdevice⟩ := ruleMatches_iff.mp h
  obtain ⟨device, hmem, hother⟩ := exists_ownDevice hdevice
  refine ⟨device, hmem, ?_⟩
  intro rule hrule
  obtain ⟨hcountry', hlanguage', hdevice'⟩ := ruleMatches_iff.mp hrule
  -- a rule that states what the arm leaves open does not match the arm's own visitor
  refine ruleMatches_iff.mpr ⟨?_, ?_, hother _ hdevice'⟩
  · intro hwanted
    have heq := hcountry' hwanted
    exact heq.trans (hcountry (truthy_of_fold_eq (fun s => (hkeeps s).1) hwanted heq))
  · intro hwanted
    have heq := hlanguage' hwanted
    exact heq.trans (hlanguage (truthy_of_fold_eq (fun s => (hkeeps s).2) hwanted heq))

/-- The walk stops at an arm that is not in the split. -/
theorem evaluateArm_eq_some_iff (harm : isWeightedCatchAll arm = false) :
    evaluateArm p rules ctx = some arm ↔ ruleMatches p arm ctx = true ∧
      ∃ before after, rules = before ++ arm :: after ∧
        ∀ rule ∈ before, isWeightedCatchAll rule = false → ruleMatches p rule ctx = false := by
  have hwalk : evaluateArm p rules ctx = some arm ↔
      (rules.find? fun r => !isWeightedCatchAll r && ruleMatches p r ctx) = some arm := by
    rw [evaluateArm]
    split
    · rename_i hfound
      rw [hfound]
    · rename_i hfound
      rw [hfound]
      refine iff_of_false ?_ (by simp)
      split
      · simp
      · rename_i rule rest hgroup
        intro h
        have hmem : arm ∈ rules.filter isWeightedCatchAll := by
          rw [hgroup, ← Option.some.inj h]
          exact pickWeighted_mem _ _ _
        rw [List.mem_filter, harm] at hmem
        exact absurd hmem.2 (by simp)
  rw [hwalk, List.find?_eq_some_iff_append]
  simp only [harm, Bool.not_false, Bool.true_and, Bool.not_eq_true', Bool.and_eq_false_iff,
    Bool.not_eq_false']
  refine and_congr_right fun _ => exists_congr fun before => exists_congr fun after =>
    and_congr_right fun _ => forall_congr' fun rule => imp_congr_right fun _ => ?_
  cases isWeightedCatchAll rule <;> simp

/-- **A conditional arm is reached by someone exactly when it is by a visitor of its own.** -/
theorem exists_visitor_iff (hkeeps : CaseKeepsText p) (harm : isWeightedCatchAll arm = false) :
    (∃ ctx, evaluateArm p rules ctx = some arm) ↔ FirstForItsOwn p rules arm := by
  constructor
  · rintro ⟨ctx, hctx⟩
    obtain ⟨hmatches, before, after, hsplit, hbefore⟩ := (evaluateArm_eq_some_iff harm).mp hctx
    obtain ⟨device, hdevice, hown⟩ := exists_ownVisitor hkeeps hmatches
    refine ⟨before, after, hsplit, device, hdevice, ?_⟩
    intro rule hrule hplain
    rw [Bool.eq_false_iff]
    intro h
    exact absurd (hown rule h) (by simp [hbefore rule hrule hplain])
  · rintro ⟨before, after, hsplit, device, hdevice, hbefore⟩
    exact ⟨ownVisitor arm device, (evaluateArm_eq_some_iff harm).mpr
      ⟨ruleMatches_ownVisitor hdevice, before, after, hsplit, hbefore⟩⟩

end Conditional

/-! ### Every arm -/

/-- The chain has a traffic split. -/
def HasSplit (rules : List RoutingRule) : Prop := ∃ rule ∈ rules, isWeightedCatchAll rule = true

/-- Every arm with a weight is reached by someone, and a visitor no condition holds for takes
part in the split. -/
structure EveryArmReached (p : Platform) (rules : List RoutingRule) : Prop where
  reached : ∀ arm ∈ rules, arm.weight.any (0 < ·) = true → ∃ ctx, SentTo p rules ctx arm
  split : HasSplit rules → ∀ ctx,
    (∀ rule ∈ rules, isCatchAll rule = false → ruleMatches p rule ctx = false) →
      ∃ arm ∈ rules, isWeightedCatchAll arm = true ∧ SentTo p rules ctx arm

/-- What the validator would have to check for that. -/
structure NoArmHidden (p : Platform) (rules : List RoutingRule) : Prop where
  catchAlls : HasSplit rules → ∀ rule ∈ rules, isCatchAll rule = true →
    isWeightedCatchAll rule = true
  slices : ∀ arm ∈ rules, isWeightedCatchAll arm = true →
    HoldsPoint (rules.filter isWeightedCatchAll) arm
  conditionals : ∀ arm ∈ rules, isCatchAll arm = false → arm.weight.any (0 < ·) = true →
    FirstForItsOwn p rules arm

section Every

variable {p : Platform} {rules : List RoutingRule} {ctx : VisitorContext} {arm rule : RoutingRule}

/-- A visitor nothing is known of. -/
def nobody (visitorHash : String) : VisitorContext := ⟨none, none, none, visitorHash⟩

/-- No condition holds for a visitor nothing is known of. -/
theorem isCatchAll_of_ruleMatches_nobody (hkeeps : CaseKeepsText p) {seed : String}
    (h : ruleMatches p rule (nobody seed) = true) : isCatchAll rule = true := by
  obtain ⟨hcountry, hlanguage, hdevice⟩ := ruleMatches_iff.mp h
  have hopen : ∀ (fold : String → String) (wanted : Option String), (∀ s, fold s = "" ↔ s = "") →
      (truthy wanted = true → fold (orEmpty wanted) = fold (orEmpty none)) →
        truthy wanted = false := by
    intro fold wanted hfold heq
    rw [Bool.eq_false_iff]
    intro hwanted
    exact absurd (truthy_of_fold_eq hfold hwanted (heq hwanted)) (by decide)
  rw [isCatchAll, hopen p.toUpperCase _ (fun s => (hkeeps s).1) hcountry,
    hopen p.toLowerCase _ (fun s => (hkeeps s).2) hlanguage]
  cases hwanted : rule.when.device with
  | none => rfl
  | some wanted => simp [hwanted, deviceSatisfied, nobody] at hdevice

/-- The split decides exactly when nothing outside it matches. -/
theorem evaluateArm_of_split {first : RoutingRule} {rest : List RoutingRule}
    (hgroup : rules.filter isWeightedCatchAll = first :: rest)
    (hplain : ∀ rule ∈ rules, isWeightedCatchAll rule = false → ruleMatches p rule ctx = false) :
    evaluateArm p rules ctx = some (pickWeighted first rest ctx.visitorHash).2 := by
  have hnone : (rules.find? fun r => !isWeightedCatchAll r && ruleMatches p r ctx) = none := by
    rw [List.find?_eq_none]
    intro rule hrule h
    rw [Bool.and_eq_true, Bool.not_eq_true'] at h
    exact absurd h.2 (by simp [hplain rule hrule h.1])
  rw [evaluateArm, hnone, hgroup]

theorem not_ruleMatches_of_evaluateArm (harm : isWeightedCatchAll arm = true)
    (h : evaluateArm p rules ctx = some arm) :
    ∀ rule ∈ rules, isWeightedCatchAll rule = false → ruleMatches p rule ctx = false := by
  rw [evaluateArm] at h
  split at h
  · rename_i hfound
    obtain rfl := Option.some.inj h
    have hplain := List.find?_some hfound
    simp [harm] at hplain
  · rename_i hfound
    intro rule hrule hplain
    have hnot := List.find?_eq_none.mp hfound rule hrule
    simpa [hplain] using hnot

theorem exists_group (h : HasSplit rules) :
    ∃ first rest, rules.filter isWeightedCatchAll = first :: rest := by
  obtain ⟨rule, hrule, hweighted⟩ := h
  exact List.exists_cons_of_ne_nil
    (List.ne_nil_of_mem (List.mem_filter.mpr ⟨hrule, hweighted⟩))

theorem weight_pos_of_isWeightedCatchAll (h : isWeightedCatchAll rule = true) :
    0 < rule.weight.getD 0 := by
  rw [isWeightedCatchAll, Bool.and_eq_true, Option.any_eq_true] at h
  obtain ⟨w, hw, hpos⟩ := h.2
  rw [hw]
  simpa using hpos

/-- **An arm of the split is reached exactly when its slice holds a point**, as long as there is
no other catch-all. -/
theorem exists_visitor_iff_holdsPoint (hkeeps : CaseKeepsText p) (hmem : arm ∈ rules)
    (harm : isWeightedCatchAll arm = true)
    (hcatchAlls : ∀ rule ∈ rules, isCatchAll rule = true → isWeightedCatchAll rule = true) :
    (∃ ctx, evaluateArm p rules ctx = some arm) ↔
      HoldsPoint (rules.filter isWeightedCatchAll) arm := by
  obtain ⟨first, rest, hgroup⟩ := exists_group ⟨arm, hmem, harm⟩
  have hweights : ∀ r ∈ first :: rest, 0 < r.weight.getD 0 := by
    intro r hr
    exact weight_pos_of_isWeightedCatchAll (List.mem_filter.mp (hgroup ▸ hr)).2
  rw [hgroup, ← exists_pickWeighted_iff hweights]
  constructor
  · rintro ⟨ctx, hctx⟩
    rw [evaluateArm_of_split hgroup (not_ruleMatches_of_evaluateArm harm hctx)] at hctx
    exact ⟨ctx.visitorHash, Option.some.inj hctx⟩
  · rintro ⟨seed, hseed⟩
    refine ⟨nobody seed, ?_⟩
    have hplain : ∀ rule ∈ rules, isWeightedCatchAll rule = false →
        ruleMatches p rule (nobody seed) = false := by
      intro rule hrule hplain
      rw [Bool.eq_false_iff]
      intro h
      have hweighted := hcatchAlls rule hrule (isCatchAll_of_ruleMatches_nobody hkeeps h)
      exact absurd hweighted (by simp [hplain])
    rw [evaluateArm_of_split hgroup hplain]
    exact congrArg some hseed

/-- **The split takes every visitor no condition holds for exactly when there is no other
catch-all.** -/
theorem split_iff (hkeeps : CaseKeepsText p) (hsplit : HasSplit rules) :
    (∀ ctx, (∀ rule ∈ rules, isCatchAll rule = false → ruleMatches p rule ctx = false) →
        ∃ arm ∈ rules, isWeightedCatchAll arm = true ∧ SentTo p rules ctx arm) ↔
      ∀ rule ∈ rules, isCatchAll rule = true → isWeightedCatchAll rule = true := by
  constructor
  · intro h rule hrule hcatchAll
    have hconditions : ∀ r ∈ rules, isCatchAll r = false →
        ruleMatches p r (nobody "") = false := by
      intro r _ hr
      rw [Bool.eq_false_iff]
      intro hmatches
      exact absurd (isCatchAll_of_ruleMatches_nobody hkeeps hmatches) (by simp [hr])
    obtain ⟨arm, -, harm, hsent⟩ := h (nobody "") hconditions
    by_contra hplain
    have hmissed := not_ruleMatches_of_evaluateArm harm hsent.1 rule hrule
      (Bool.eq_false_iff.mpr hplain)
    have hmatched : ruleMatches p rule (nobody "") = true := ruleMatches_of_isCatchAll hcatchAll
    exact absurd hmatched (by simp [hmissed])
  · intro h ctx hconditions
    obtain ⟨first, rest, hgroup⟩ := exists_group hsplit
    have hpicked : (pickWeighted first rest ctx.visitorHash).2 ∈
        rules.filter isWeightedCatchAll := hgroup ▸ pickWeighted_mem _ _ _
    refine ⟨_, (List.mem_filter.mp hpicked).1, (List.mem_filter.mp hpicked).2, sentTo_iff.mpr ?_⟩
    refine evaluateArm_of_split hgroup ?_
    intro rule hrule hplain
    refine hconditions rule hrule (Bool.eq_false_iff.mpr fun hcatchAll => ?_)
    exact absurd (h rule hrule hcatchAll) (by simp [hplain])

/-- **Every arm is reached exactly when none is hidden.** -/
theorem everyArmReached_iff_noArmHidden (hkeeps : CaseKeepsText p) :
    EveryArmReached p rules ↔ NoArmHidden p rules := by
  have hpositive : ∀ rule : RoutingRule, isWeightedCatchAll rule = true →
      rule.weight.any (0 < ·) = true := by
    intro rule h
    rw [isWeightedCatchAll, Bool.and_eq_true] at h
    exact h.2
  constructor
  · intro h
    have hcatchAlls : HasSplit rules → ∀ rule ∈ rules, isCatchAll rule = true →
        isWeightedCatchAll rule = true :=
      fun hsplit => (split_iff hkeeps hsplit).mp (h.split hsplit)
    refine ⟨hcatchAlls, ?_, ?_⟩
    · intro arm hmem harm
      obtain ⟨ctx, hsent⟩ := h.reached arm hmem (hpositive arm harm)
      exact (exists_visitor_iff_holdsPoint hkeeps hmem harm (hcatchAlls ⟨arm, hmem, harm⟩)).mp
        ⟨ctx, hsent.1⟩
    · intro arm hmem hconditional hweight
      obtain ⟨ctx, hsent⟩ := h.reached arm hmem hweight
      have hplain : isWeightedCatchAll arm = false := by simp [isWeightedCatchAll, hconditional]
      exact (exists_visitor_iff hkeeps hplain).mp ⟨ctx, hsent.1⟩
  · intro h
    refine ⟨?_, fun hsplit => (split_iff hkeeps hsplit).mpr (h.catchAlls hsplit)⟩
    intro arm hmem hweight
    by_cases hcatchAll : isCatchAll arm = true
    · have harm : isWeightedCatchAll arm = true := by
        rw [isWeightedCatchAll, hcatchAll, hweight]
        rfl
      obtain ⟨ctx, hctx⟩ := (exists_visitor_iff_holdsPoint hkeeps hmem harm
        (h.catchAlls ⟨arm, hmem, harm⟩)).mpr (h.slices arm hmem harm)
      exact ⟨ctx, sentTo_iff.mpr hctx⟩
    · rw [Bool.not_eq_true] at hcatchAll
      have hplain : isWeightedCatchAll arm = false := by simp [isWeightedCatchAll, hcatchAll]
      obtain ⟨ctx, hctx⟩ := (exists_visitor_iff hkeeps hplain).mpr
        (h.conditionals arm hmem hcatchAll hweight)
      exact ⟨ctx, sentTo_iff.mpr hctx⟩

end Every

/-- An arm without conditions. -/
def openArm (id : String) (weight : Option ℚ) : RoutingRule :=
  ⟨id, ⟨none, none, none⟩, "https://" ++ id ++ ".com/", weight⟩

/-- Half and half, and everything else behind it. -/
def swallowedChain : List RoutingRule :=
  [openArm "a" (some 50), openArm "b" (some 50), openArm "rest" none]

/-- Half and half, with a country taken out between the two. -/
def interleavedChain : List RoutingRule :=
  [openArm "a" (some 50), countryRule "IN", openArm "b" (some 50)]

theorem holdsPoint_interleavedChain {arm : RoutingRule} (hmem : arm ∈ interleavedChain)
    (harm : isWeightedCatchAll arm = true) :
    HoldsPoint (interleavedChain.filter isWeightedCatchAll) arm := by
  have hgroup : interleavedChain.filter isWeightedCatchAll =
      [openArm "a" (some 50), openArm "b" (some 50)] := by
    decide
  rw [hgroup]
  rcases List.mem_cons.mp (hgroup ▸ List.mem_filter.mpr ⟨hmem, harm⟩) with rfl | hlast
  · exact ⟨[], [openArm "b" (some 50)], rfl, 0, by decide, by decide +kernel, by decide +kernel⟩
  · obtain rfl := List.mem_singleton.mp hlast
    exact ⟨[openArm "a" (some 50)], [], rfl, 5000, by decide, by decide +kernel,
      by decide +kernel⟩

end SnapUrl.Domain
