import Mathlib.Data.Rat.Defs
import Mathlib.Algebra.Order.Ring.Rat
import Mathlib.Algebra.Field.Rat
import SnapUrl.Domain.Visitor

/-!
# Routing chains

`packages/domain/src/routing.ts`: which destination a visitor gets.  Weights
are exact rationals.

* `evaluateRouting`: the first rule that matches, and when none does the split
  over every weighted catch-all.
* `pickWeighted_mem`: the split picks one of its rules.
-/

namespace SnapUrl.Domain

structure RuleConditions where
  country : Option String
  device : Option DeviceType
  language : Option String
deriving DecidableEq, Repr

/-- One rule in a link's routing chain. -/
structure RoutingRule where
  id : String
  when : RuleConditions
  /-- Where a match goes, `then` in the source. -/
  destination : String
  weight : Option ℚ
deriving DecidableEq, Repr

structure VisitorContext where
  country : Option String
  device : Option DeviceType
  language : Option String
  visitorHash : String
deriving DecidableEq, Repr

structure RoutingDecision where
  destination : String
  /-- The rule that matched, or none when the chain fell through to the default. -/
  matchedRuleId : Option String
  /-- Which arm of a weighted split was taken, for debugging. -/
  variant : Option String
deriving DecidableEq, Repr

/-- A rule with no conditions is the "everything else" arm of the chain. -/
def isCatchAll (rule : RoutingRule) : Bool :=
  !truthy rule.when.country && rule.when.device.isNone && !truthy rule.when.language

/-- Every stated condition must hold. -/
def ruleMatches (p : Platform) (rule : RoutingRule) (ctx : VisitorContext) : Bool :=
  if truthy rule.when.country ∧
      p.toUpperCase (orEmpty rule.when.country) ≠ p.toUpperCase (orEmpty ctx.country) then false
  else if truthy rule.when.language ∧
      p.toLowerCase (orEmpty rule.when.language) ≠ p.toLowerCase (orEmpty ctx.language) then false
  else
    match rule.when.device, ctx.device with
    | none, _ => true
    | some _, none => false
    -- "mobile" is a family: an iOS or Android visitor satisfies a mobile rule
    | some .mobile, some d => d ∈ [.mobile, .ios, .android]
    | some device, some d => device = d

/-- The UTF-16 code units of a character. -/
def utf16Units (c : Char) : List UInt32 :=
  if c.toNat < 0x10000 then [c.toNat.toUInt32]
  else [(0xD800 + (c.toNat - 0x10000) / 0x400).toUInt32,
    (0xDC00 + (c.toNat - 0x10000) % 0x400).toUInt32]

/-- FNV-1a. -/
def bucketOf (seed : String) (buckets : Nat) : Nat :=
  ((seed.toList.flatMap utf16Units).foldl
    (fun (hash unit : UInt32) => (hash ^^^ unit) * 0x01000193) 0x811c9dc5).toNat % buckets

def isWeightedCatchAll (rule : RoutingRule) : Bool :=
  isCatchAll rule && rule.weight.any (0 < ·)

/-- The loop of `pickWeighted`, with the place of the arm in the split. -/
def pickFrom (total : ℚ) (point : Nat) :
    ℚ → Nat → RoutingRule → List RoutingRule → Nat × RoutingRule
  | cumulative, at_, rule, rest =>
    let cumulative := cumulative + rule.weight.getD 0 / total * 10000
    match rest with
    | [] => (at_, rule)
    | next :: rest =>
      if (point : ℚ) < cumulative then (at_, rule)
      else pickFrom total point cumulative (at_ + 1) next rest

/-- Pick one arm of a weighted split, keyed on the visitor rather than on chance. -/
def pickWeighted (rule : RoutingRule) (rest : List RoutingRule) (seed : String) :
    Nat × RoutingRule :=
  let total := ((rule :: rest).map fun r => r.weight.getD 0).sum
  if total ≤ 0 then (0, rule) else pickFrom total (bucketOf seed 10000) 0 0 rule rest

/-- Walk the chain in author order and stop at the first rule that matches. -/
def evaluateRouting (p : Platform) (rules : List RoutingRule) (fallbackDestination : String)
    (ctx : VisitorContext) : RoutingDecision :=
  match (rules.filter fun r => !isWeightedCatchAll r).find? fun r => ruleMatches p r ctx with
  | some rule => ⟨rule.destination, some rule.id, none⟩
  | none =>
    match rules.filter isWeightedCatchAll with
    | [] => ⟨fallbackDestination, none, none⟩
    | rule :: rest =>
      let picked := pickWeighted rule rest ctx.visitorHash
      ⟨picked.2.destination, some picked.2.id,
        some (toString (picked.1 + 1) ++ "/" ++ toString (rest.length + 1))⟩

theorem pickFrom_mem (total : ℚ) (point : Nat) (rest : List RoutingRule) :
    ∀ (cumulative : ℚ) (i : Nat) (rule : RoutingRule),
      (pickFrom total point cumulative i rule rest).2 ∈ rule :: rest := by
  induction rest with
  | nil =>
    intro cumulative i rule
    rw [pickFrom]
    exact List.mem_cons_self
  | cons next rest ih =>
    intro cumulative i rule
    rw [pickFrom]
    split
    · exact List.mem_cons_self
    · exact List.mem_cons_of_mem _ (ih _ _ _)

theorem pickWeighted_mem (rule : RoutingRule) (rest : List RoutingRule) (seed : String) :
    (pickWeighted rule rest seed).2 ∈ rule :: rest := by
  rw [pickWeighted]
  split
  · exact List.mem_cons_self
  · exact pickFrom_mem _ _ _ _ _ _

end SnapUrl.Domain
