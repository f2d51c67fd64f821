import Mathlib.Algebra.Order.Floor.Ring
import Mathlib.Data.Rat.Floor
import SnapUrl.Plans.Entitlements

/-!
# Proration

`packages/contract/src/proration.ts` in rational arithmetic, and `computeProration` of
`apps/api/src/plans/plan-management.service.ts`.

* `unusedFraction`: the part of the period that is left.
* `prorate`: a credit for the old plan and a charge for the new one, each rounded on its own.
* `ProrationHolds`: **the two lines and their difference stay within the prices, and within a minor
  unit of the exact amount**.
* `amount_rises`: a later change that costs more.
-/

namespace SnapUrl.Plans

inductive ProrationDirection where
  | upgrade
  | downgrade
  | same
deriving DecidableEq, Repr

/-- Instants count milliseconds, prices minor units. -/
structure ProrationInput where
  oldPeriodPriceMinor : Nat
  newPeriodPriceMinor : Nat
  periodStartMs : Int
  periodEndMs : Int
  changeAtMs : Int
  currency : PriceCurrency
deriving DecidableEq, Repr

structure ProrationResult where
  amountMinor : Int
  unusedFraction : ℚ
  oldPlanCreditMinor : Int
  newPlanChargeMinor : Int
  direction : ProrationDirection
  currency : PriceCurrency
deriving DecidableEq

def periodLengthMs (input : ProrationInput) : Int :=
  if 0 < input.periodEndMs - input.periodStartMs then input.periodEndMs - input.periodStartMs else 1

/-- `periodEndMs` less the change instant, which is clamped into the period. -/
def remainingMs (input : ProrationInput) : Int :=
  input.periodEndMs - min (max input.changeAtMs input.periodStartMs) input.periodEndMs

def unusedFraction (input : ProrationInput) : ℚ :=
  if remainingMs input ≤ 0 then 0
  else if periodLengthMs input ≤ remainingMs input then 1
  else remainingMs input / periodLengthMs input

/-- `Math.sign`. -/
def signOf (amount : ℚ) : Int := if 0 < amount then 1 else if amount < 0 then -1 else 0

/-- `Math.sign(amount) * Math.round(Math.abs(amount))`. -/
def roundMinorHalfUp (amount : ℚ) : Int := signOf amount * ⌊|amount| + 1 / 2⌋

def prorationDirection (oldPeriodPriceMinor newPeriodPriceMinor : Nat) : ProrationDirection :=
  if oldPeriodPriceMinor < newPeriodPriceMinor then .upgrade
  else if newPeriodPriceMinor < oldPeriodPriceMinor then .downgrade
  else .same

def prorate (input : ProrationInput) : ProrationResult :=
  let fraction := unusedFraction input
  let oldPlanCreditMinor := roundMinorHalfUp (fraction * input.oldPeriodPriceMinor)
  let newPlanChargeMinor := roundMinorHalfUp (fraction * input.newPeriodPriceMinor)
  { amountMinor := newPlanChargeMinor - oldPlanCreditMinor
    unusedFraction := fraction
    oldPlanCreditMinor := oldPlanCreditMinor
    newPlanChargeMinor := newPlanChargeMinor
    direction := prorationDirection input.oldPeriodPriceMinor input.newPeriodPriceMinor
    currency := input.currency }

/-- A day, in milliseconds. -/
def dayMs : Int := 24 * 3600000

/-- The input that `computeProration` builds; a plan without a price counts as free. -/
def computeProration (now : Int) (currentPeriodEnd : Option Int) (interval : PriceInterval)
    (oldPrice newPrice : Option Nat) : ProrationResult :=
  let periodEnd := currentPeriodEnd.getD (now + 30 * dayMs)
  let periodMs := match interval with
    | .yearly => 365 * dayMs
    | .monthly => 30 * dayMs
  prorate
    { oldPeriodPriceMinor := oldPrice.getD 0
      newPeriodPriceMinor := newPrice.getD 0
      periodStartMs := periodEnd - periodMs
      periodEndMs := periodEnd
      changeAtMs := now
      currency := .INR }

/-- **The two lines and their difference stay within the prices, and within a minor unit of the
exact amount.** -/
structure ProrationHolds (input : ProrationInput) : Prop where
  net : (prorate input).amountMinor =
    (prorate input).newPlanChargeMinor - (prorate input).oldPlanCreditMinor
  credit : 0 ≤ (prorate input).oldPlanCreditMinor ∧
    (prorate input).oldPlanCreditMinor ≤ input.oldPeriodPriceMinor
  charge : 0 ≤ (prorate input).newPlanChargeMinor ∧
    (prorate input).newPlanChargeMinor ≤ input.newPeriodPriceMinor
  magnitude : |(prorate input).amountMinor| ≤
    |(input.newPeriodPriceMinor : Int) - input.oldPeriodPriceMinor|
  /-- The amount never has the other sign. -/
  sign : (input.oldPeriodPriceMinor ≤ input.newPeriodPriceMinor → 0 ≤ (prorate input).amountMinor) ∧
    (input.newPeriodPriceMinor ≤ input.oldPeriodPriceMinor → (prorate input).amountMinor ≤ 0)
  direction : ((prorate input).direction = .upgrade ↔
      input.oldPeriodPriceMinor < input.newPeriodPriceMinor) ∧
    ((prorate input).direction = .downgrade ↔
      input.newPeriodPriceMinor < input.oldPeriodPriceMinor)
  near : |((prorate input).amountMinor : ℚ) - (prorate input).unusedFraction *
    ((input.newPeriodPriceMinor : ℚ) - input.oldPeriodPriceMinor)| ≤ 1
  /-- A later change has no larger line, and an amount that is larger by a minor unit at most. -/
  later : ∀ changeAtMs, input.changeAtMs ≤ changeAtMs →
    (prorate { input with changeAtMs := changeAtMs }).oldPlanCreditMinor ≤
      (prorate input).oldPlanCreditMinor ∧
    (prorate { input with changeAtMs := changeAtMs }).newPlanChargeMinor ≤
      (prorate input).newPlanChargeMinor ∧
    |(prorate { input with changeAtMs := changeAtMs }).amountMinor| ≤
      |(prorate input).amountMinor| + 1
  ended : input.periodEndMs ≤ input.changeAtMs → (prorate input).unusedFraction = 0
  begun : input.periodStartMs < input.periodEndMs → input.changeAtMs ≤ input.periodStartMs →
    (prorate input).unusedFraction = 1
  /-- An empty or inverted period has nothing left. -/
  inverted : input.periodEndMs ≤ input.periodStartMs → (prorate input).unusedFraction = 0

/-! ### Rounding -/

theorem roundMinorHalfUp_of_nonneg {x : ℚ} (h : 0 ≤ x) : roundMinorHalfUp x = ⌊x + 1 / 2⌋ := by
  rw [roundMinorHalfUp, signOf, abs_of_nonneg h]
  rcases eq_or_lt_of_le h with rfl | hpos
  · norm_num
  · rw [if_pos hpos, one_mul]

theorem roundMinorHalfUp_mono {x y : ℚ} (hx : 0 ≤ x) (h : x ≤ y) :
    roundMinorHalfUp x ≤ roundMinorHalfUp y := by
  rw [roundMinorHalfUp_of_nonneg hx, roundMinorHalfUp_of_nonneg (hx.trans h)]
  exact Int.floor_le_floor (by linarith)

/-- Whole units are rounded apart. -/
theorem roundMinorHalfUp_add {x : ℚ} (hx : 0 ≤ x) (n : Nat) :
    roundMinorHalfUp (x + n) = roundMinorHalfUp x + n := by
  have hn : (0 : ℚ) ≤ n := Nat.cast_nonneg n
  rw [roundMinorHalfUp_of_nonneg hx, roundMinorHalfUp_of_nonneg (add_nonneg hx hn)]
  rw [add_right_comm, Int.floor_add_natCast]

theorem roundMinorHalfUp_natCast (n : Nat) : roundMinorHalfUp n = n := by
  have h := roundMinorHalfUp_add (le_refl (0 : ℚ)) n
  rwa [zero_add, roundMinorHalfUp_of_nonneg (le_refl 0), zero_add,
    show ⌊(1 / 2 : ℚ)⌋ = 0 by norm_num, zero_add] at h

/-- Half a unit goes up. -/
theorem roundMinorHalfUp_near {x : ℚ} (h : 0 ≤ x) :
    x - 1 / 2 < roundMinorHalfUp x ∧ (roundMinorHalfUp x : ℚ) ≤ x + 1 / 2 := by
  rw [roundMinorHalfUp_of_nonneg h]
  have hlow := Int.lt_floor_add_one (x + 1 / 2)
  constructor
  · linarith
  · exact Int.floor_le _

/-! ### The fraction -/

section

variable (input : ProrationInput)

theorem periodLengthMs_pos : 0 < periodLengthMs input := by
  rw [periodLengthMs]
  split
  · assumption
  · exact one_pos

theorem unusedFraction_mem : 0 ≤ unusedFraction input ∧ unusedFraction input ≤ 1 := by
  have hlength : (0 : ℚ) < periodLengthMs input := by exact_mod_cast periodLengthMs_pos input
  rw [unusedFraction]
  split
  · exact ⟨le_rfl, zero_le_one⟩
  · next hremaining =>
    split
    · exact ⟨zero_le_one, le_rfl⟩
    · next hlong =>
      have hle : (remainingMs input : ℚ) ≤ periodLengthMs input := by
        exact_mod_cast (not_le.mp hlong).le
      have hpos : (0 : ℚ) ≤ remainingMs input := by exact_mod_cast (not_le.mp hremaining).le
      exact ⟨div_nonneg hpos hlength.le, (div_le_one hlength).mpr hle⟩

/-- The fraction is the remaining time over the period, clamped. -/
theorem unusedFraction_eq :
    unusedFraction input = max 0 (min 1 ((remainingMs input : ℚ) / periodLengthMs input)) := by
  have hlength : (0 : ℚ) < periodLengthMs input := by exact_mod_cast periodLengthMs_pos input
  rw [unusedFraction]
  split
  · next hremaining =>
    have hle : (remainingMs input : ℚ) ≤ 0 := by exact_mod_cast hremaining
    exact (max_eq_left ((min_le_right _ _).trans (div_nonpos_of_nonpos_of_nonneg hle hlength.le))).symm
  · next hremaining =>
    have hpos : (0 : ℚ) ≤ remainingMs input := by exact_mod_cast (not_le.mp hremaining).le
    rw [max_eq_right (le_min zero_le_one (div_nonneg hpos hlength.le))]
    split
    · next hlong =>
      have hle : (periodLengthMs input : ℚ) ≤ remainingMs input := by exact_mod_cast hlong
      exact (min_eq_left ((one_le_div hlength).mpr hle)).symm
    · next hlong =>
      have hle : (remainingMs input : ℚ) ≤ periodLengthMs input := by
        exact_mod_cast (not_le.mp hlong).le
      exact (min_eq_right ((div_le_one hlength).mpr hle)).symm

/-- **A later change has no larger fraction.** -/
theorem unusedFraction_antitone {changeAtMs : Int} (h : input.changeAtMs ≤ changeAtMs) :
    unusedFraction { input with changeAtMs := changeAtMs } ≤ unusedFraction input := by
  have hlength : (0 : ℚ) < periodLengthMs input := by exact_mod_cast periodLengthMs_pos input
  have hremaining : remainingMs { input with changeAtMs := changeAtMs } ≤ remainingMs input :=
    sub_le_sub_left (min_le_min_right _ (max_le_max_right _ h)) _
  have hcast : (remainingMs { input with changeAtMs := changeAtMs } : ℚ) ≤ remainingMs input := by
    exact_mod_cast hremaining
  rw [unusedFraction_eq, unusedFraction_eq]
  exact max_le_max_left _ (min_le_min_left _ (div_le_div_of_nonneg_right hcast hlength.le))

theorem unusedFraction_ended (h : input.periodEndMs ≤ input.changeAtMs) :
    unusedFraction input = 0 := by
  have hnone : remainingMs input ≤ 0 := by
    rw [remainingMs, min_eq_right (le_max_of_le_left h), sub_self]
  exact if_pos hnone

theorem unusedFraction_begun (hproper : input.periodStartMs < input.periodEndMs)
    (h : input.changeAtMs ≤ input.periodStartMs) : unusedFraction input = 1 := by
  have hremaining : remainingMs input = input.periodEndMs - input.periodStartMs := by
    rw [remainingMs, max_eq_right h, min_eq_left hproper.le]
  have hlength : periodLengthMs input = input.periodEndMs - input.periodStartMs :=
    if_pos (by omega)
  rw [unusedFraction, hremaining, hlength, if_neg (by omega), if_pos le_rfl]

theorem unusedFraction_inverted (h : input.periodEndMs ≤ input.periodStartMs) :
    unusedFraction input = 0 := by
  have hnone : remainingMs input ≤ 0 := by
    rw [remainingMs, min_eq_right (le_max_of_le_right h), sub_self]
  exact if_pos hnone

end

/-! ### The amounts -/

section

variable {f : ℚ} {old new : Nat}

/-- A part of a price is within the price. -/
theorem roundPart_mem (hf : 0 ≤ f) (hf' : f ≤ 1) (price : Nat) :
    0 ≤ roundMinorHalfUp (f * price) ∧ roundMinorHalfUp (f * price) ≤ price := by
  have hprice : (0 : ℚ) ≤ price := Nat.cast_nonneg price
  have hpart : 0 ≤ f * price := mul_nonneg hf hprice
  constructor
  · rw [roundMinorHalfUp_of_nonneg hpart]
    exact Int.floor_nonneg.mpr (by linarith)
  · calc roundMinorHalfUp (f * price) ≤ roundMinorHalfUp price :=
          roundMinorHalfUp_mono hpart (mul_le_of_le_one_left hprice hf')
      _ = price := roundMinorHalfUp_natCast price

/-- The dearer plan costs more, by no more than the prices differ. -/
theorem roundParts_sub (hf : 0 ≤ f) (hf' : f ≤ 1) (h : old ≤ new) :
    0 ≤ roundMinorHalfUp (f * new) - roundMinorHalfUp (f * old) ∧
      roundMinorHalfUp (f * new) - roundMinorHalfUp (f * old) ≤ new - old := by
  have hold : 0 ≤ f * old := mul_nonneg hf (Nat.cast_nonneg old)
  have hprices : (old : ℚ) ≤ new := by exact_mod_cast h
  have hmono := roundMinorHalfUp_mono hold (mul_le_mul_of_nonneg_left hprices hf)
  have hshift : f * new ≤ f * old + (new - old : Nat) := by
    rw [Nat.cast_sub h]
    have hpart := mul_le_of_le_one_left (sub_nonneg.mpr hprices) hf'
    linarith
  have hmost := roundMinorHalfUp_mono (mul_nonneg hf (Nat.cast_nonneg new)) hshift
  rw [roundMinorHalfUp_add hold] at hmost
  omega

/-- Two roundings are within a unit. -/
theorem roundParts_near (hf : 0 ≤ f) (old new : Nat) :
    f * ((new : ℚ) - old) - 1 < roundMinorHalfUp (f * new) - roundMinorHalfUp (f * old) ∧
      (roundMinorHalfUp (f * new) : ℚ) - roundMinorHalfUp (f * old) < f * ((new : ℚ) - old) + 1 := by
  obtain ⟨hnew₁, hnew₂⟩ := roundMinorHalfUp_near (mul_nonneg hf (Nat.cast_nonneg (α := ℚ) new))
  obtain ⟨hold₁, hold₂⟩ := roundMinorHalfUp_near (mul_nonneg hf (Nat.cast_nonneg (α := ℚ) old))
  constructor
  · linarith
  · linarith

/-- A smaller part is dearer by a unit at most. -/
theorem roundParts_later {g : ℚ} (hg : 0 ≤ g) (hgf : g ≤ f) (h : old ≤ new) :
    roundMinorHalfUp (g * new) - roundMinorHalfUp (g * old) ≤
      roundMinorHalfUp (f * new) - roundMinorHalfUp (f * old) + 1 := by
  have hprices : (old : ℚ) ≤ new := by exact_mod_cast h
  have hpart : g * ((new : ℚ) - old) ≤ f * ((new : ℚ) - old) :=
    mul_le_mul_of_nonneg_right hgf (sub_nonneg.mpr hprices)
  have hless : (roundMinorHalfUp (g * new) - roundMinorHalfUp (g * old) : ℚ) <
      roundMinorHalfUp (f * new) - roundMinorHalfUp (f * old) + 2 := by
    linarith [(roundParts_near hg old new).2, (roundParts_near (hg.trans hgf) old new).1]
  have hint : roundMinorHalfUp (g * new) - roundMinorHalfUp (g * old) <
      roundMinorHalfUp (f * new) - roundMinorHalfUp (f * old) + 2 := by exact_mod_cast hless
  omega

end

/-- **Every proration holds.** -/
theorem prorate_holds (input : ProrationInput) : ProrationHolds input := by
  obtain ⟨hf, hf'⟩ := unusedFraction_mem input
  have hcredit := roundPart_mem hf hf' input.oldPeriodPriceMinor
  have hcharge := roundPart_mem hf hf' input.newPeriodPriceMinor
  have hamount : (prorate input).amountMinor =
      roundMinorHalfUp (unusedFraction input * input.newPeriodPriceMinor) -
        roundMinorHalfUp (unusedFraction input * input.oldPeriodPriceMinor) := rfl
  refine ⟨rfl, hcredit, hcharge, ?_, ?_, ?_, ?_, fun changeAtMs h => ?_,
    unusedFraction_ended input, unusedFraction_begun input, unusedFraction_inverted input⟩
  · rw [hamount]
    rcases le_total input.oldPeriodPriceMinor input.newPeriodPriceMinor with h | h
    · have hsub := roundParts_sub hf hf' h
      rw [abs_of_nonneg hsub.1, abs_of_nonneg (by omega)]
      exact hsub.2
    · have hsub := roundParts_sub hf hf' h
      rw [abs_sub_comm, abs_of_nonneg hsub.1, abs_sub_comm, abs_of_nonneg (by omega)]
      exact hsub.2
  · rw [hamount]
    refine ⟨fun h => (roundParts_sub hf hf' h).1, fun h => ?_⟩
    have hsub := (roundParts_sub hf hf' h).1
    omega
  · change (prorationDirection _ _ = _ ↔ _) ∧ (prorationDirection _ _ = _ ↔ _)
    rw [prorationDirection]
    split
    · next h => exact ⟨iff_of_true rfl h, iff_of_false (by decide) (by omega)⟩
    · next h =>
      split
      · next h' => exact ⟨iff_of_false (by decide) h, iff_of_true rfl h'⟩
      · next h' => exact ⟨iff_of_false (by decide) h, iff_of_false (by decide) h'⟩
  · obtain ⟨hlow, hhigh⟩ := roundParts_near hf input.oldPeriodPriceMinor input.newPeriodPriceMinor
    rw [hamount, abs_le]
    change -1 ≤ _ - unusedFraction input * _ ∧ _ - unusedFraction input * _ ≤ 1
    push_cast
    constructor
    · linarith
    · linarith
  · have hless := unusedFraction_antitone input h
    have hg := (unusedFraction_mem { input with changeAtMs := changeAtMs }).1
    have hg' := (unusedFraction_mem { input with changeAtMs := changeAtMs }).2
    have hline (price : Nat) := roundMinorHalfUp_mono (mul_nonneg hg (Nat.cast_nonneg price))
      (mul_le_mul_of_nonneg_right hless (Nat.cast_nonneg (α := ℚ) price))
    refine ⟨hline _, hline _, ?_⟩
    have hlater : (prorate { input with changeAtMs := changeAtMs }).amountMinor =
        roundMinorHalfUp (unusedFraction { input with changeAtMs := changeAtMs } *
          input.newPeriodPriceMinor) -
        roundMinorHalfUp (unusedFraction { input with changeAtMs := changeAtMs } *
          input.oldPeriodPriceMinor) := rfl
    rw [hlater, hamount]
    rcases le_total input.oldPeriodPriceMinor input.newPeriodPriceMinor with hle | hle
    · rw [abs_of_nonneg (roundParts_sub hg hg' hle).1, abs_of_nonneg (roundParts_sub hf hf' hle).1]
      exact roundParts_later hg hless hle
    · rw [abs_sub_comm, abs_of_nonneg (roundParts_sub hg hg' hle).1, abs_sub_comm,
        abs_of_nonneg (roundParts_sub hf hf' hle).1]
      exact roundParts_later hg hless hle

/-- A period of a hundred milliseconds, from 1 to 2 minor units. -/
def smallChange (changeAtMs : Int) : ProrationInput := ⟨1, 2, 0, 100, changeAtMs, .INR⟩

/-- **A later change may cost more**: nothing after 26 of 100 milliseconds, a minor unit after
51. -/
theorem amount_rises :
    ¬ ∀ (input : ProrationInput) (changeAtMs : Int), input.changeAtMs ≤ changeAtMs →
      |(prorate { input with changeAtMs := changeAtMs }).amountMinor| ≤
        |(prorate input).amountMinor| := by
  intro h
  have hless := h (smallChange 26) 51 (by decide)
  have hfirst : (prorate (smallChange 26)).amountMinor = 0 := by decide +kernel
  have hlater : (prorate { smallChange 26 with changeAtMs := 51 }).amountMinor = 1 := by
    decide +kernel
  rw [hfirst, hlater] at hless
  exact absurd hless (by decide)

end SnapUrl.Plans
