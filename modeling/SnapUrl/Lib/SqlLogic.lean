import Mathlib.Logic.Basic

/-!
# Conditions of a query

A condition of SQL is true, false, or unknown where it looks at a missing value, and a
query keeps the rows its condition is true of.

* `Truth`: a condition's value, `none` for unknown, with `and`, `or` and comparisons.
* `and_eq_true`, `or_eq_true`, `compare_eq_true`: **when each is true**, which is all a
  query's rows depend on as long as nothing is negated.
-/

namespace SnapUrl.Lib.Sql

/-- The value of a condition, `none` for unknown. -/
abbrev Truth := Option Bool

/-- `false and unknown` is false. -/
def Truth.and : Truth → Truth → Truth
  | some false, _ => some false
  | some true, b => b
  | none, some false => some false
  | none, _ => none

/-- `true or unknown` is true. -/
def Truth.or : Truth → Truth → Truth
  | some true, _ => some true
  | some false, b => b
  | none, some true => some true
  | none, _ => none

/-- A comparison, unknown where a side is missing. -/
def compare {α : Type} (r : α → α → Prop) [DecidableRel r] (a b : Option α) : Truth :=
  a.bind fun x => b.map fun y => decide (r x y)

def isNull {α : Type} (a : Option α) : Truth := some a.isNone

def isNotNull {α : Type} (a : Option α) : Truth := some a.isSome

section

variable {α : Type} {a b : Truth} {x y : Option α}

@[simp] theorem and_eq_true : a.and b = some true ↔ a = some true ∧ b = some true := by
  cases a with
  | none => cases b with
    | none => simp [Truth.and]
    | some b => cases b <;> simp [Truth.and]
  | some a => cases a <;> simp [Truth.and]

@[simp] theorem or_eq_true : a.or b = some true ↔ a = some true ∨ b = some true := by
  cases a with
  | none => cases b with
    | none => simp [Truth.or]
    | some b => cases b <;> simp [Truth.or]
  | some a => cases a <;> simp [Truth.or]

@[simp] theorem compare_eq_true {r : α → α → Prop} [DecidableRel r] :
    compare r x y = some true ↔ ∃ a ∈ x, ∃ b ∈ y, r a b := by
  cases x with
  | none => simp [compare]
  | some a => cases y <;> simp [compare]

@[simp] theorem isNull_eq_true : isNull x = some true ↔ x = none := by
  simp [isNull]

@[simp] theorem isNotNull_eq_true : isNotNull x = some true ↔ x ≠ none := by
  cases x <;> simp [isNotNull]

end

end SnapUrl.Lib.Sql
