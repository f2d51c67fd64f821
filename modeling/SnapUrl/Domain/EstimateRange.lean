import Mathlib.Algebra.BigOperators.Field
import Mathlib.Analysis.Complex.ExponentialBounds
import SnapUrl.Domain.Estimate
import SnapUrl.Domain.SketchLaws

/-!
# Where the estimate is a number

* `EstimateHolds`: every branch is evaluated where it is defined, and the result fits an `integer`
  column.
* `estimate_fits_iff`: **of a sketch that can be reached this holds exactly when the sum of
  `2 ** -rank` is at least 60066 / 2^19**, and that sum never grows.
* `estimate_saturated`: every register at the largest rank.
-/

namespace SnapUrl.Domain

/-- The largest `integer` of a column. -/
def maxInteger : ℕ := 2147483647

def InSmallRange (d : Doubles) (sketch : Sketch) : Prop :=
  d.round (rawCount d sketch) ≤ 5 / 2 * hllRegisterCount ∧ 0 < (zeroRegisters sketch).card

def InLargeRange (d : Doubles) (sketch : Sketch) : Prop :=
  d.round (2 ^ 32 / 30) < d.round (rawCount d sketch)

/-- **Every branch is evaluated where it is defined.** -/
structure EstimateDefined (d : Doubles) (sketch : Sketch) : Prop where
  sum : rankSum sketch ≠ 0
  linear : InSmallRange d sketch → (zeroRegisters sketch).card ≠ 0 ∧
    0 < d.round (hllRegisterCount / (zeroRegisters sketch).card)
  large : ¬ InSmallRange d sketch → InLargeRange d sketch →
    0 < 1 - d.round (rawCount d sketch) / 2 ^ 32

/-- **The estimate is defined, and fits an `integer` column.** -/
structure EstimateHolds (d : Doubles) (sketch : Sketch) : Prop where
  isDefined : EstimateDefined d sketch
  fits : ∃ n, estimate d sketch = some n ∧ n ≤ maxInteger

/-! ### The sum of the ranks -/

/-- **A larger sketch has a smaller sum.** -/
theorem rankSum_antitone {a b : Sketch} (h : a ≤ b) : rankSum b ≤ rankSum a :=
  Finset.sum_le_sum fun i _ => pow_le_pow_of_le_one (by norm_num) (by norm_num) (h i)

theorem le_of_addHashed {sketch sketch' : Sketch} {hashHex : String}
    (h : addHashed sketch hashHex = some sketch') : sketch ≤ sketch' := by
  obtain ⟨x, -, rfl⟩ := Option.map_eq_some_iff.mp h
  rw [addValue_eq]
  exact le_sup_left

/-- The sum is a multiple of the smallest power. -/
theorem rankSum_eq {sketch : Sketch} (h : ∀ i, sketch i ≤ 19) :
    ∃ k : ℕ, rankSum sketch = k / 2 ^ 19 := by
  refine ⟨∑ i, 2 ^ (19 - sketch i), ?_⟩
  rw [rankSum, Nat.cast_sum, Finset.sum_div]
  refine Finset.sum_congr rfl fun i _ => ?_
  have hsplit : (2 : ℚ) ^ 19 = 2 ^ (19 - sketch i) * 2 ^ sketch i := by
    rw [← pow_add, Nat.sub_add_cancel (h i)]
  rw [hsplit, one_div, inv_pow, Nat.cast_pow, Nat.cast_ofNat]
  field_simp

theorem one_le_sum {sketch : Sketch} (h : ∀ i, sketch i ≤ 19) : 1 / 2 ^ 5 ≤ rankSum sketch := by
  have hleast : rankSum (fun _ => 19) ≤ rankSum sketch := rankSum_antitone h
  have hsum : rankSum (fun _ => 19) = 1 / 2 ^ 5 := by
    rw [rankSum, Finset.sum_const, Finset.card_univ, Fintype.card_fin, nsmul_eq_mul,
      cast_registerCount]
    norm_num
  exact hsum ▸ hleast

section

variable (d : Doubles) {sketch : Sketch}

/-! ### The constants -/

/-- `ALPHA_M` to six places. -/
theorem alpha_near : 0.7212525 ≤ ALPHA_M d ∧ ALPHA_M d ≤ 0.7212526 := by
  obtain ⟨hnum₁, hnum₂⟩ := d.round_bounds (x := 0.7213) (by norm_num) (by norm_num)
  obtain ⟨hbias₁, hbias₂⟩ := d.round_bounds (x := 1.079) (by norm_num) (by norm_num)
  rw [ALPHA_M, cast_registerCount]
  set num := d.round 0.7213
  set bias := d.round 1.079
  have hnum : 0.72129999999 ≤ num ∧ num ≤ 0.72130000001 := by
    norm_num at hnum₁ hnum₂
    constructor <;> norm_num <;> linarith
  have hquot : 1.07899999999 / 16384 ≤ bias / 16384 ∧ bias / 16384 ≤ 1.07900000001 / 16384 := by
    norm_num at hbias₁ hbias₂
    constructor
    · refine div_le_div_of_nonneg_right ?_ (by norm_num)
      norm_num
      linarith
    · refine div_le_div_of_nonneg_right ?_ (by norm_num)
      norm_num
      linarith
  obtain ⟨hpart₁, hpart₂⟩ := d.round_bounds (x := bias / 16384)
    (le_trans (by norm_num) hquot.1) (le_trans hquot.2 (by norm_num))
  set part := d.round (bias / 16384)
  have hpart : 0.0000658569 ≤ part ∧ part ≤ 0.000065857 := by
    norm_num at hpart₁ hpart₂ hquot ⊢
    constructor
    · linarith [hquot.1]
    · linarith [hquot.2]
  obtain ⟨hsum₁, hsum₂⟩ := d.round_bounds (x := 1 + part)
    (by norm_num at hpart ⊢; linarith [hpart.1]) (by norm_num at hpart ⊢; linarith [hpart.2])
  set sum := d.round (1 + part)
  have hsum : 1.0000658568 ≤ sum ∧ sum ≤ 1.0000658571 := by
    norm_num at hsum₁ hsum₂ hpart ⊢
    constructor
    · linarith [hpart.1]
    · linarith [hpart.2]
  have hpos : 0 < sum := lt_of_lt_of_le (by norm_num) hsum.1
  have hratio : 0.72125250035 ≤ num / sum ∧ num / sum ≤ 0.7212525999 := by
    norm_num at hsum hnum ⊢
    constructor
    · rw [le_div_iff₀ hpos]
      linarith [hsum.2, hnum.1]
    · rw [div_le_iff₀ hpos]
      linarith [hsum.1, hnum.2]
  obtain ⟨hround₁, hround₂⟩ := d.round_bounds (x := num / sum)
    (le_trans (by norm_num) hratio.1) (le_trans hratio.2 (by norm_num))
  norm_num at hround₁ hround₂ hratio ⊢
  constructor
  · linarith [hratio.1]
  · linarith [hratio.2]

theorem rawCount_eq : rawCount d sketch = ALPHA_M d * 2 ^ 28 / rankSum sketch := by
  rw [rawCount, cast_registerCount]
  norm_num
  ring

theorem rawCount_le_of_sum {k : ℚ} (hpos : 0 < k) (hsum : k / 2 ^ 19 ≤ rankSum sketch) :
    rawCount d sketch ≤ 0.7212526 * 2 ^ 47 / k := by
  obtain ⟨-, halpha⟩ := alpha_near d
  have hk : 0 < k / 2 ^ 19 := div_pos hpos (by norm_num)
  rw [rawCount_eq]
  calc ALPHA_M d * 2 ^ 28 / rankSum sketch ≤ 0.7212526 * 2 ^ 28 / (k / 2 ^ 19) :=
        div_le_div₀ (by norm_num) (mul_le_mul_of_nonneg_right halpha (by norm_num)) hk hsum
    _ = 0.7212526 * 2 ^ 47 / k := by field_simp

theorem le_rawCount_of_sum {k : ℚ} (hpos : 0 < k) (hsum : rankSum sketch ≤ k / 2 ^ 19) :
    0.7212525 * 2 ^ 47 / k ≤ rawCount d sketch := by
  obtain ⟨halpha, -⟩ := alpha_near d
  rw [rawCount_eq]
  calc 0.7212525 * 2 ^ 47 / k = 0.7212525 * 2 ^ 28 / (k / 2 ^ 19) := by field_simp
    _ ≤ ALPHA_M d * 2 ^ 28 / rankSum sketch :=
        div_le_div₀ (mul_nonneg (le_trans (by norm_num) halpha) (by norm_num))
          (mul_le_mul_of_nonneg_right halpha (by norm_num)) (rankSum_pos sketch) hsum

/-- The square of `exp (1 / 2)` is `exp 1`. -/
theorem log_le_of_le {y : ℝ} (hpos : 0 < y) (hy : y ≤ 0.6065264) : Real.log y ≤ -0.500005 := by
  rw [Real.log_le_iff_le_exp hpos]
  have hsq : y ^ 2 ≤ Real.exp (-0.500005) ^ 2 := by
    rw [← Real.exp_nat_mul]
    have hexp : Real.exp (((2 : ℕ) : ℝ) * -0.500005) = (Real.exp 1 * Real.exp 0.00001)⁻¹ := by
      rw [← Real.exp_add, ← Real.exp_neg]
      norm_num
    have hsmall : Real.exp 0.00001 ≤ (1 - 0.00001)⁻¹ := by
      have h := Real.add_one_le_exp (-0.00001 : ℝ)
      rw [Real.exp_neg] at h
      have hp := Real.exp_pos (0.00001 : ℝ)
      rw [le_inv_comm₀ hp (by norm_num)]
      norm_num at h ⊢
      linarith
    rw [hexp]
    have hone := Real.exp_one_lt_d9
    have hprod : Real.exp 1 * Real.exp 0.00001 ≤ 2.7182818286 * (1 - 0.00001)⁻¹ :=
      mul_le_mul hone.le hsmall (Real.exp_pos _).le (by norm_num)
    have hinv : (2.7182818286 * (1 - 0.00001)⁻¹ : ℝ)⁻¹ ≤ (Real.exp 1 * Real.exp 0.00001)⁻¹ :=
      inv_anti₀ (mul_pos (Real.exp_pos _) (Real.exp_pos _)) hprod
    refine le_trans ?_ hinv
    have hyy : y ^ 2 ≤ 0.6065264 ^ 2 := pow_le_pow_left₀ hpos.le hy 2
    refine hyy.trans ?_
    norm_num
  exact le_of_sq_le_sq hsq (Real.exp_pos _).le

theorem le_log_of_le {y : ℝ} (hy : 0.606532 ≤ y) : -0.4999995 ≤ Real.log y := by
  have hpos : 0 < y := lt_of_lt_of_le (by norm_num) hy
  rw [Real.le_log_iff_exp_le hpos]
  have hsq : Real.exp (-0.4999995) ^ 2 ≤ y ^ 2 := by
    rw [← Real.exp_nat_mul]
    have hexp : Real.exp (((2 : ℕ) : ℝ) * -0.4999995) = (Real.exp 1 * Real.exp (-0.000001))⁻¹ := by
      rw [← Real.exp_add, ← Real.exp_neg]
      norm_num
    have hsmall : (1 - 0.000001 : ℝ) ≤ Real.exp (-0.000001) := by
      have h := Real.add_one_le_exp (-0.000001 : ℝ)
      norm_num at h ⊢
      linarith
    rw [hexp]
    have hprod : (2.7182818283 * (1 - 0.000001) : ℝ) ≤ Real.exp 1 * Real.exp (-0.000001) :=
      mul_le_mul Real.exp_one_gt_d9.le hsmall (by norm_num) (Real.exp_pos _).le
    refine (inv_anti₀ (by norm_num) hprod).trans ?_
    have hyy : (0.606532 : ℝ) ^ 2 ≤ y ^ 2 := pow_le_pow_left₀ (by norm_num) hy 2
    refine le_trans ?_ hyy
    norm_num
  exact le_of_sq_le_sq hsq hpos.le

/-! ### What fits, and what does not -/

/-- Where the sum is large enough, no estimator passes the largest integer. -/
theorem covered_of_sum (h : 60066 / 2 ^ 19 ≤ rankSum sketch) : Covered d sketch maxInteger := by
  have hraw := rawCount_le_of_sum d (by norm_num) h
  refine ⟨fun hpos _ => ?_, fun _ => ?_, fun _ => ?_⟩
  · generalize (zeroRegisters sketch).card = V at *
    have hV : (1 : ℝ) ≤ V := by exact_mod_cast hpos
    have hlog : Real.log (16384 / V) ≤ 16384 :=
      (Real.log_le_self (by positivity)).trans (div_le_self (by norm_num) hV)
    rw [linearCount, maxInteger]
    push_cast
    linarith
  · rw [maxInteger]
    norm_num at hraw ⊢
    linarith
  · have hroom : (0.606532 : ℚ) ≤ 1 - rawCount d sketch * (1 + 1 / 2 ^ 40) / 2 ^ 32 := by
      norm_num at hraw ⊢
      linarith
    have hreal : (0.606532 : ℝ) ≤
        ((1 - rawCount d sketch * (1 + 1 / 2 ^ 40) / 2 ^ 32 : ℚ) : ℝ) := by
      have hcast := (Rat.cast_le (K := ℝ)).mpr hroom
      norm_num at hcast ⊢
      exact hcast
    have hlog := le_log_of_le hreal
    refine ⟨le_trans (by norm_num) hroom, ?_⟩
    rw [maxInteger]
    norm_num at hlog ⊢
    linarith

/-- The branches that such a sketch takes are defined. -/
theorem defined_of_sum (h : 60066 / 2 ^ 19 ≤ rankSum sketch) : EstimateDefined d sketch := by
  have hcovered := covered_of_sum d h
  have hcard : (setRegisters sketch).card + (zeroRegisters sketch).card = 16384 :=
    card_registers sketch
  refine ⟨(rankSum_pos sketch).ne', fun hsmall => ⟨hsmall.2.ne', ?_⟩, fun _ _ => ?_⟩
  · have hV : (0 : ℚ) < (zeroRegisters sketch).card := by exact_mod_cast hsmall.2
    have hle : ((zeroRegisters sketch).card : ℚ) ≤ 16384 := by
      exact_mod_cast (by omega : (zeroRegisters sketch).card ≤ 16384)
    have hone : (1 : ℚ) ≤ hllRegisterCount / (zeroRegisters sketch).card := by
      rw [cast_registerCount, le_div_iff₀ hV, one_mul]
      exact hle
    have hmost : (hllRegisterCount : ℚ) / (zeroRegisters sketch).card ≤ 16384 := by
      rw [cast_registerCount]
      exact div_le_self (by norm_num) (by exact_mod_cast hsmall.2)
    have hround := (d.round_bounds (le_trans (by norm_num) hone) (hmost.trans (by norm_num))).1
    refine lt_of_lt_of_le ?_ hround
    exact mul_pos (lt_of_lt_of_le one_pos hone) (by norm_num)
  · have hraw := rawCount_le_of_sum d (by norm_num) h
    have hround := hcovered.round_rawCount.2
    norm_num at hraw hround ⊢
    linarith

/-- Where the sum is smaller, the large range passes the largest integer, or has no logarithm. -/
theorem not_fits_of_sum (hranks : ∀ i, sketch i ≤ 19) (h : rankSum sketch ≤ 60065 / 2 ^ 19) :
    ¬ ∃ n, estimate d sketch = some n ∧ n ≤ maxInteger := by
  have hlow := le_rawCount_of_sum d (by norm_num) h
  have hhigh := rawCount_le_of_sum d (k := 2 ^ 14) (by norm_num)
    (le_trans (by norm_num) (one_le_sum hranks))
  obtain ⟨hround₁, hround₂⟩ := d.round_bounds (x := rawCount d sketch)
    (by norm_num at hlow ⊢; linarith) (by norm_num at hhigh ⊢; linarith)
  obtain ⟨-, hlarge⟩ := d.round_bounds (x := 2 ^ 32 / 30) (by norm_num) (by norm_num)
  set e := d.round (rawCount d sketch) with he
  have hsmall : ¬ (e ≤ 5 / 2 * hllRegisterCount ∧ 0 < (zeroRegisters sketch).card) := by
    rintro ⟨hle, -⟩
    rw [cast_registerCount] at hle
    norm_num at hle hlow hround₁
    linarith
  have hrange : d.round (2 ^ 32 / 30) < e := by
    norm_num at hlow hround₁ hlarge ⊢
    linarith
  rintro ⟨n, hn, hle⟩
  rw [estimate] at hn
  rw [← he, if_neg hsmall, if_pos hrange] at hn
  split at hn
  · next hfinite =>
    -- so many ranks would pass the hash width
    obtain ⟨k, hk⟩ := rankSum_eq hranks
    have hmany : 23635 ≤ k := by
      by_contra hfew
      have hsum : rankSum sketch ≤ 23634 / 2 ^ 19 := by
        rw [hk]
        refine div_le_div_of_nonneg_right ?_ (by norm_num)
        exact_mod_cast (by omega : k ≤ 23634)
      have hpast := le_rawCount_of_sum d (by norm_num) hsum
      norm_num at hpast hround₁ hfinite
      linarith
    have hsum : 23635 / 2 ^ 19 ≤ rankSum sketch := by
      rw [hk]
      refine div_le_div_of_nonneg_right ?_ (by norm_num)
      exact_mod_cast hmany
    have hleft := rawCount_le_of_sum d (by norm_num) hsum
    have hy₁ : (0.00004 : ℚ) ≤ 1 - e / 2 ^ 32 := by
      norm_num at hleft hround₂ ⊢
      linarith
    have hy₂ : 1 - e / 2 ^ 32 ≤ (0.6065263 : ℚ) := by
      norm_num at hlow hround₁ ⊢
      linarith
    obtain ⟨hpart₁, hpart₂⟩ := d.round_bounds (x := 1 - e / 2 ^ 32) (le_trans (by norm_num) hy₁)
      (hy₂.trans (by norm_num))
    set part := d.round (1 - e / 2 ^ 32)
    have hpartPos : (0.00003 : ℚ) ≤ part := by
      norm_num at hpart₁ hy₁ ⊢
      linarith
    have hpartLe : part ≤ (0.6065264 : ℚ) := by
      norm_num at hpart₂ hy₂ ⊢
      linarith
    have hreal : (part : ℝ) ≤ 0.6065264 := by
      have hcast := (Rat.cast_le (K := ℝ)).mpr hpartLe
      norm_num at hcast ⊢
      exact hcast
    have hrealPos : (0 : ℝ) < part := by exact_mod_cast lt_of_lt_of_le (by norm_num) hpartPos
    have hlog := log_le_of_le hrealPos hreal
    have hnear := (abs_le.mp (d.log_near part (le_trans (by norm_num) hpartPos)
      (hpartLe.trans (by norm_num)))).2
    have hpast : maxInteger < roundCount (-2 ^ 32 * d.log part) := by
      refine lt_roundCount ?_
      rw [maxInteger]
      push_cast
      norm_num at hlog hnear ⊢
      linarith
    rw [Option.some.inj hn] at hpast
    omega
  · cases hn

/-- **Of a sketch that can be reached the estimate is defined and fits exactly when the sum of
`2 ** -rank` is large enough, and a visitor never makes that sum larger.** -/
theorem estimate_fits_iff (h : Reachable sketch) :
    (EstimateHolds d sketch ↔ 60066 / 2 ^ 19 ≤ rankSum sketch) ∧
      ∀ hashHex sketch', addHashed sketch hashHex = some sketch' →
        rankSum sketch' ≤ rankSum sketch := by
  have hranks := reachable_iff.mp h
  refine ⟨⟨fun hholds => ?_, fun hsum => ?_⟩, fun hashHex sketch' hadd =>
    rankSum_antitone (le_of_addHashed hadd)⟩
  swap
  · exact ⟨defined_of_sum d hsum, estimate_le d (covered_of_sum d hsum)⟩
  by_contra hless
  obtain ⟨k, hk⟩ := rankSum_eq hranks
  refine not_fits_of_sum d hranks ?_ hholds.fits
  rw [hk, div_le_div_iff_of_pos_right (by norm_num)] at hless
  have hlt : k < 60066 := by exact_mod_cast not_le.mp hless
  rw [hk]
  refine div_le_div_of_nonneg_right ?_ (by norm_num)
  exact_mod_cast Nat.le_of_lt_succ hlt

end

/-- An empty sketch. -/
theorem estimate_fits_empty :
    EstimateHolds gridDoubles createSketch ∧ rankSum createSketch = 16384 := by
  have hsum : rankSum createSketch = 16384 := by
    rw [rankSum]
    simp only [createSketch, pow_zero]
    rw [Finset.sum_const, Finset.card_univ, Fintype.card_fin, nsmul_eq_mul, cast_registerCount,
      mul_one]
  refine ⟨(estimate_fits_iff gridDoubles .create).1.mpr ?_, hsum⟩
  rw [hsum]
  norm_num

/-- **A sketch whose registers are all at the largest rank can be reached, and has no estimate.** -/
theorem estimate_saturated :
    ¬ ∀ (d : Doubles) (sketch : Sketch), Reachable sketch → EstimateHolds d sketch := by
  intro h
  have hreach : Reachable fun _ => 19 := reachable_iff.mpr fun _ => le_rfl
  refine not_fits_of_sum gridDoubles (fun _ => le_rfl) ?_ (h gridDoubles _ hreach).fits
  rw [rankSum, Finset.sum_const, Finset.card_univ, Fintype.card_fin, nsmul_eq_mul,
    cast_registerCount]
  norm_num

end SnapUrl.Domain
