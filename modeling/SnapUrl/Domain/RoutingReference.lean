import Mathlib.Data.List.Find
import SnapUrl.Domain.Routing

/-!
# The reference evaluator

`packages/domain/src/routing.reference.ts`: the routing chain evaluated a second
time, written independently of `routing.ts` as the oracle of its differential test.

* `fnv1a_eq`: the multiplication in 16-bit halves is the 32-bit one, so **both hash
  a visitor to the same point**.
* `pickWeighted_eq_chooseFromWeightedGroup`: the scan that adds up as it goes and
  the table of boundaries **pick the same arm of a split**.
* `conditionsSatisfied_eq`: a rule's conditions are the same except for the country,
  which one compares in upper and the other in lower case.
* `evaluateRoutingReference_eq`: **the evaluators agree wherever the two cases make
  the same countries equal**; `sharp_s_matches_once` is a country they do not agree on.
-/

namespace SnapUrl.Domain

open Lib

/-! ### The hash -/

/-- A 32-bit unsigned multiply by the FNV prime, in 16-bit partial products.  Those stay
below 2 ^ 53, so the numbers are exact before they are cut to 32 bits. -/
def multiplyByPrime (hash : UInt32) : UInt32 :=
  let prime := 0x01000193
  let low := (hash &&& 0xffff).toNat
  let high := (hash >>> 16).toNat
  let lowProduct := (low * prime).toUInt32
  let highProduct := (high * prime).toUInt32 <<< 16
  (lowProduct.toNat + highProduct.toNat).toUInt32

def fnv1a (input : String) : Nat :=
  ((input.toList.flatMap utf16Units).foldl
    (fun (hash unit : UInt32) => multiplyByPrime (hash ^^^ unit)) 0x811c9dc5).toNat

/-! ### Conditions -/

def ruleHasAnyCondition (rule : RoutingRule) : Bool :=
  truthy rule.when.country || rule.when.device.isSome || truthy rule.when.language

def countrySatisfied (p : Platform) (wanted actual : Option String) : Bool :=
  if !truthy wanted then true
  else if !truthy actual then false
  else p.toLowerCase (orEmpty wanted) = p.toLowerCase (orEmpty actual)

def languageSatisfied (p : Platform) (wanted actual : Option String) : Bool :=
  if !truthy wanted then true
  else if !truthy actual then false
  else p.toLowerCase (orEmpty wanted) = p.toLowerCase (orEmpty actual)

/-- `MOBILE_FAMILY`. -/
def mobileFamily : List DeviceType := [.mobile, .ios, .android]

def deviceSatisfied (wanted actual : Option DeviceType) : Bool :=
  match wanted, actual with
  | none, _ => true
  | some _, none => false
  | some wanted, some actual => if wanted = .mobile then actual ∈ mobileFamily else wanted = actual

def conditionsSatisfied (p : Platform) (rule : RoutingRule) (ctx : VisitorContext) : Bool :=
  countrySatisfied p rule.when.country ctx.country &&
    languageSatisfied p rule.when.language ctx.language &&
      deviceSatisfied rule.when.device ctx.device

/-! ### The split -/

/-- A rule is part of the weighted split group iff it has no conditions and a positive weight. -/
def isInWeightedGroup (rule : RoutingRule) : Bool :=
  !ruleHasAnyCondition rule && rule.weight.any (0 < ·)

/-- The cumulative boundaries of the slices. -/
def boundariesFrom (weightTotal : ℚ) : ℚ → List RoutingRule → List ℚ
  | _, [] => []
  | runningTotal, r :: group =>
    let runningTotal := runningTotal + r.weight.getD 0 / weightTotal * 10000
    runningTotal :: boundariesFrom weightTotal runningTotal group

/-- Choose one member of the weighted group for this visitor, with its place in the group. -/
def chooseFromWeightedGroup (first : RoutingRule) (rest : List RoutingRule)
    (visitorHash : String) : Nat × RoutingRule :=
  let group := first :: rest
  let weightTotal := (group.map fun r => r.weight.getD 0).sum
  if weightTotal ≤ 0 then (0, first)
  else
    let boundaries := boundariesFrom weightTotal 0 group
    let point := fnv1a visitorHash % 10000
    match boundaries.findIdx? fun boundary => (point : ℚ) < boundary with
    | some i => (i, group.getD i first)
    -- the last slice owns what rounding leaves past it
    | none => (group.length - 1, group.getLast (List.cons_ne_nil _ _))

/-- Independent reference evaluator. -/
def evaluateRoutingReference (p : Platform) (rules : List RoutingRule)
    (fallbackDestination : String) (ctx : VisitorContext) : RoutingDecision :=
  let weightedGroup := rules.filter isInWeightedGroup
  match rules.find? fun r => !isInWeightedGroup r && conditionsSatisfied p r ctx with
  | some r => ⟨r.destination, some r.id, none⟩
  | none =>
    match weightedGroup with
    | [] => ⟨fallbackDestination, none, none⟩
    | first :: rest =>
      let chosen := chooseFromWeightedGroup first rest ctx.visitorHash
      ⟨chosen.2.destination, some chosen.2.id,
        some (toString (chosen.1 + 1) ++ "/" ++ toString weightedGroup.length)⟩

/-! ### The same hash -/

/-- **The partial products add up to the 32-bit product.** -/
theorem multiplyByPrime_eq (hash : UInt32) : multiplyByPrime hash = hash * 0x01000193 := by
  refine UInt32.toNat_inj.mp ?_
  have hmask : (0xffff : UInt32).toNat = 2 ^ 16 - 1 := rfl
  have hhalf : (16 : UInt32).toNat % 32 = 16 := rfl
  have hlow : (hash &&& 0xffff).toNat = hash.toNat % 65536 := by
    rw [UInt32.toNat_and, hmask, Nat.and_two_pow_sub_one_eq_mod]
  have hhigh : (hash >>> 16).toNat = hash.toNat / 65536 := by
    rw [UInt32.toNat_shiftRight, hhalf, Nat.shiftRight_eq_div_pow]
  have hshift : ∀ x : UInt32, (x <<< 16).toNat = x.toNat * 65536 % 4294967296 := by
    intro x
    rw [UInt32.toNat_shiftLeft, hhalf, Nat.shiftLeft_eq]
  have hcut : ∀ n : Nat, n.toUInt32.toNat = n % 4294967296 := fun n => UInt32.toNat_ofNat'
  have hprime : (0x01000193 : UInt32).toNat = 16777619 := rfl
  simp only [multiplyByPrime, hcut, hshift, hlow, hhigh, UInt32.toNat_mul, hprime]
  omega

/-- **Both evaluators hash a visitor to the same point.** -/
theorem fnv1a_eq (seed : String) : fnv1a seed % 10000 = bucketOf seed 10000 := by
  simp only [fnv1a, bucketOf, multiplyByPrime_eq]

/-! ### The same arm -/

theorem length_boundariesFrom (total : ℚ) (group : List RoutingRule) :
    ∀ cumulative, (boundariesFrom total cumulative group).length = group.length := by
  induction group with
  | nil => intro _; rfl
  | cons r group ih =>
    intro _
    rw [boundariesFrom, List.length_cons, List.length_cons, ih]

/-- **The scan stops at the first boundary of the table.** -/
theorem pickFrom_eq (total : ℚ) (point : Nat) (rest : List RoutingRule) :
    ∀ (cumulative : ℚ) (at_ : Nat) (rule : RoutingRule),
      pickFrom total point cumulative at_ rule rest =
        match (boundariesFrom total cumulative (rule :: rest)).findIdx?
            fun boundary => (point : ℚ) < boundary with
        | some i => (at_ + i, (rule :: rest).getD i rule)
        | none => (at_ + rest.length, (rule :: rest).getLast (List.cons_ne_nil _ _)) := by
  induction rest with
  | nil =>
    intro cumulative at_ rule
    rw [pickFrom, boundariesFrom, boundariesFrom, List.findIdx?_cons]
    split
    · rename_i hfound
      split at hfound
      · obtain rfl := Option.some.inj hfound
        rfl
      · simp at hfound
    · rfl
  | cons next rest ih =>
    intro cumulative at_ rule
    rw [pickFrom, boundariesFrom, List.findIdx?_cons]
    by_cases hpoint : (point : ℚ) < cumulative + rule.weight.getD 0 / total * 10000
    · rw [if_pos hpoint, if_pos (decide_eq_true hpoint)]
      rfl
    · rw [if_neg hpoint, if_neg (by simpa using hpoint), ih]
      cases hfound : (boundariesFrom total (cumulative + rule.weight.getD 0 / total * 10000)
          (next :: rest)).findIdx? fun boundary => (point : ℚ) < boundary with
      | none =>
        simp only [Option.map_none, List.length_cons, List.getLast_cons_cons, Prod.mk.injEq,
          and_true]
        omega
      | some i =>
        have hi : i < (next :: rest).length := by
          rw [← length_boundariesFrom total (next :: rest)]
          exact (List.findIdx?_eq_some_iff_getElem.mp hfound).1
        simp only [Option.map_some, List.getD_cons_succ, Prod.mk.injEq]
        refine ⟨by omega, ?_⟩
        simp only [List.getD_eq_getElem?_getD, List.getElem?_eq_getElem hi, Option.getD_some]

/-- **Both evaluators pick the same arm of a split.** -/
theorem pickWeighted_eq_chooseFromWeightedGroup (first : RoutingRule) (rest : List RoutingRule)
    (seed : String) : pickWeighted first rest seed = chooseFromWeightedGroup first rest seed := by
  rw [pickWeighted, chooseFromWeightedGroup]
  dsimp only
  split
  · rfl
  · rw [pickFrom_eq, fnv1a_eq]
    split <;> simp

/-! ### The same conditions -/

/-- No text but the empty one is empty in upper or in lower case. -/
def CaseKeepsText (p : Platform) : Prop :=
  ∀ s, (p.toUpperCase s = "" ↔ s = "") ∧ (p.toLowerCase s = "" ↔ s = "")

/-- Two countries are equal in both cases or in none. -/
def CasesAgree (p : Platform) (wanted actual : String) : Prop :=
  p.toUpperCase wanted = p.toUpperCase actual ↔ p.toLowerCase wanted = p.toLowerCase actual

section

variable {p : Platform} {rule : RoutingRule} {ctx : VisitorContext}

theorem isInWeightedGroup_eq : isInWeightedGroup rule = isWeightedCatchAll rule := by
  rw [isInWeightedGroup, isWeightedCatchAll, ruleHasAnyCondition, isCatchAll]
  cases rule.when.device <;> simp

/-- A stated text and a text that is missing are equal in no case. -/
theorem truthy_of_fold_eq {fold : String → String} (hfold : ∀ s, fold s = "" ↔ s = "")
    {wanted actual : Option String} (hwanted : truthy wanted = true)
    (heq : fold (orEmpty wanted) = fold (orEmpty actual)) : truthy actual = true := by
  by_contra hactual
  have hempty : orEmpty actual = "" := by simpa [truthy] using hactual
  rw [hempty, (hfold "").mpr rfl, hfold] at heq
  exact absurd hwanted (by simp [truthy, heq])

/-- A test in lower case is the test in another case that agrees with it. -/
theorem countrySatisfied_eq (fold : String → String) (hfold : ∀ s, fold s = "" ↔ s = "")
    {wanted actual : Option String} (hagree : truthy wanted → truthy actual →
      (fold (orEmpty wanted) = fold (orEmpty actual) ↔
        p.toLowerCase (orEmpty wanted) = p.toLowerCase (orEmpty actual))) :
    countrySatisfied p wanted actual =
      (!truthy wanted || decide (fold (orEmpty wanted) = fold (orEmpty actual))) := by
  rw [countrySatisfied]
  by_cases hwanted : truthy wanted = true
  · by_cases hactual : truthy actual = true
    · simp [hwanted, hactual, (hagree hwanted hactual).symm]
    · have hne : fold (orEmpty wanted) ≠ fold (orEmpty actual) :=
        fun heq => hactual (truthy_of_fold_eq hfold hwanted heq)
      simp [hwanted, hactual, hne]
  · simp [hwanted]

theorem languageSatisfied_eq_countrySatisfied (wanted actual : Option String) :
    languageSatisfied p wanted actual = countrySatisfied p wanted actual := rfl

/-- What a match comes to, condition by condition. -/
theorem ruleMatches_iff :
    ruleMatches p rule ctx = true ↔
      (truthy rule.when.country →
        p.toUpperCase (orEmpty rule.when.country) = p.toUpperCase (orEmpty ctx.country)) ∧
      (truthy rule.when.language →
        p.toLowerCase (orEmpty rule.when.language) = p.toLowerCase (orEmpty ctx.language)) ∧
      deviceSatisfied rule.when.device ctx.device = true := by
  rw [ruleMatches]
  by_cases hcountry : truthy rule.when.country = true ∧
      p.toUpperCase (orEmpty rule.when.country) ≠ p.toUpperCase (orEmpty ctx.country)
  · rw [if_pos hcountry]
    exact iff_of_false (by simp) fun h => hcountry.2 (h.1 hcountry.1)
  by_cases hlanguage : truthy rule.when.language = true ∧
      p.toLowerCase (orEmpty rule.when.language) ≠ p.toLowerCase (orEmpty ctx.language)
  · rw [if_neg hcountry, if_pos hlanguage]
    exact iff_of_false (by simp) fun h => hlanguage.2 (h.2.1 hlanguage.1)
  rw [if_neg hcountry, if_neg hlanguage]
  rw [not_and, not_not] at hcountry hlanguage
  -- what is left of the code is its match on the two devices
  refine Iff.trans ?_ ⟨fun h => ⟨hcountry, hlanguage, h⟩, fun h => h.2.2⟩
  rw [← Bool.eq_iff_iff]
  cases rule.when.device with
  | none => rfl
  | some wanted =>
    cases ctx.device with
    | none => rfl
    | some actual => cases wanted <;> cases actual <;> rfl

/-- **The conditions of a rule are the same**, where the two cases agree on its country. -/
theorem conditionsSatisfied_eq (hkeeps : CaseKeepsText p)
    (hcases : truthy rule.when.country → truthy ctx.country →
      CasesAgree p (orEmpty rule.when.country) (orEmpty ctx.country)) :
    conditionsSatisfied p rule ctx = ruleMatches p rule ctx := by
  rw [Bool.eq_iff_iff, ruleMatches_iff, conditionsSatisfied, languageSatisfied_eq_countrySatisfied,
    countrySatisfied_eq p.toUpperCase (fun s => (hkeeps s).1) hcases,
    countrySatisfied_eq p.toLowerCase (fun s => (hkeeps s).2) fun _ _ => Iff.rfl]
  simp only [Bool.and_eq_true, Bool.or_eq_true, Bool.not_eq_true', decide_eq_true_eq,
    and_assoc, ← Bool.not_eq_true, ← imp_iff_not_or]

end

/-! ### Country codes -/

/-- What a runtime does with ASCII letters. -/
def AsciiCases (p : Platform) : Prop :=
  ∀ s : String, (∀ c ∈ s.toList, c.toNat < 128) →
    p.toUpperCase s = String.ofList (s.toList.map Char.toUpper) ∧
      p.toLowerCase s = String.ofList (s.toList.map Char.toLower)

/-- **The two evaluators agree**, on every chain and visitor for whose countries upper and
lower case make the same texts equal. -/
theorem evaluateRoutingReference_eq (p : Platform) (hkeeps : CaseKeepsText p)
    (rules : List RoutingRule) (fallbackDestination : String) (ctx : VisitorContext)
    (hcases : ∀ rule ∈ rules, truthy rule.when.country → truthy ctx.country →
      CasesAgree p (orEmpty rule.when.country) (orEmpty ctx.country)) :
    evaluateRouting p rules fallbackDestination ctx =
      evaluateRoutingReference p rules fallbackDestination ctx := by
  have hwalk : (rules.find? fun r => !isInWeightedGroup r && conditionsSatisfied p r ctx) =
      (rules.filter fun r => !isWeightedCatchAll r).find? fun r => ruleMatches p r ctx := by
    rw [List.find?_filter]
    refine List.find?_congr ?_
    intro r hr
    rw [isInWeightedGroup_eq, conditionsSatisfied_eq hkeeps (hcases r hr), Bool.decide_and,
      Bool.decide_eq_true, Bool.decide_eq_true]
  have hgroup : rules.filter isInWeightedGroup = rules.filter isWeightedCatchAll :=
    List.filter_congr fun r _ => isInWeightedGroup_eq
  rw [evaluateRouting, evaluateRoutingReference]
  dsimp only
  rw [hwalk, hgroup]
  cases (rules.filter fun r => !isWeightedCatchAll r).find? fun r => ruleMatches p r ctx with
  | some rule => rfl
  | none =>
    cases rules.filter isWeightedCatchAll with
    | nil => rfl
    | cons first rest =>
      dsimp only
      rw [pickWeighted_eq_chooseFromWeightedGroup]
      rfl

/-- One character in upper case, for ASCII letters and the sharp s. -/
def upperChar (c : Char) : List Char := if c = 'ß' then ['S', 'S'] else [c.toUpper]

/-- A runtime for texts of ASCII characters and sharp s. -/
def germanPlatform : Platform where
  toLowerCase s := String.ofList (s.toList.map Char.toLower)
  toUpperCase s := String.ofList (s.toList.flatMap upperChar)
  parseUrl _ := none
  parseDate _ := none
  toISOString _ := ""
  parseJson _ := none
  stringifyJson _ := "null"
  hmacSha256Hex _ _ := ""
  verifyToken _ _ := none

theorem caseKeepsText_germanPlatform : CaseKeepsText germanPlatform := by
  intro s
  have hupper : ∀ l : List Char, l.flatMap upperChar = [] ↔ l = [] := by
    intro l
    cases l with
    | nil => exact ⟨fun _ => rfl, fun _ => rfl⟩
    | cons c l =>
      rw [List.flatMap_cons, upperChar]
      split <;> simp
  refine ⟨?_, ?_⟩
  · change String.ofList (s.toList.flatMap upperChar) = "" ↔ s = ""
    rw [String.ofList_eq_empty_iff, hupper, String.toList_eq_nil_iff]
  · change String.ofList (s.toList.map Char.toLower) = "" ↔ s = ""
    rw [String.ofList_eq_empty_iff, List.map_eq_nil_iff, String.toList_eq_nil_iff]

/-- A rule for one country. -/
def countryRule (country : String) : RoutingRule :=
  ⟨"rule", ⟨some country, none, none⟩, "https://a.com/", none⟩

/-- A visitor from one country. -/
def visitorFrom (country : String) : VisitorContext := ⟨some country, none, none, "visitor"⟩

/-- **A visitor from `SS` matches a rule for `ß` in upper case and not in lower case.** -/
theorem sharp_s_matches_once :
    ¬ ∀ (p : Platform) (rules : List RoutingRule) (fallbackDestination : String)
      (ctx : VisitorContext), CaseKeepsText p →
        (evaluateRouting p rules fallbackDestination ctx).destination =
          (evaluateRoutingReference p rules fallbackDestination ctx).destination := by
  intro h
  have hsame := h germanPlatform [countryRule "ß"] "https://b.com/" (visitorFrom "SS")
    caseKeepsText_germanPlatform
  exact absurd hsame (by decide)

theorem evaluateRoutingReference_eq_germany :
    evaluateRouting germanPlatform [countryRule "DE"] "https://b.com/" (visitorFrom "de") =
      evaluateRoutingReference germanPlatform [countryRule "DE"] "https://b.com/"
        (visitorFrom "de") := by
  refine evaluateRoutingReference_eq germanPlatform caseKeepsText_germanPlatform _ _ _ ?_
  intro rule hrule _ _
  rw [List.mem_singleton.mp hrule]
  exact iff_of_true (by decide) (by decide)

end SnapUrl.Domain
