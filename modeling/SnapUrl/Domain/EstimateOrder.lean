import Mathlib
import SnapUrl.Domain.EstimateRange

/-!
# The estimate of a larger sketch

`estimate` of `packages/domain/src/hll.ts` over the reals, rounded at the end.

* `exactEstimate`: linear counting, the raw estimator and the large range.
* `exactEstimate_mono`: **a larger sketch has no smaller estimate, unless it leaves linear
  counting**.
* `estimate_falls`: the last register that is at zero.
-/

namespace SnapUrl.Domain

theorem atLeastTwo_two : Nat.AtLeastTwo 2 := inferInstance

attribute [local instance] atLeastTwo_two

/-- The raw estimator, over the reals. -/
noncomputable def exactRaw (sketch : Sketch) : ℝ :=
  0.7213 / (1 + 1.079 / hllRegisterCount) * hllRegisterCount * hllRegisterCount / rankSum sketch

/-- `Math.max(0, Math.round(e))`, over the reals. -/
noncomputable def roundExact (e : ℝ) : ℕ := ⌊e + 1 / 2⌋.toNat

/-- `inSmallRange`, over the reals. -/
def ExactSmallRange (sketch : Sketch) : Prop :=
  exactRaw sketch ≤ 5 / 2 * hllRegisterCount ∧ 0 < (zeroRegisters sketch).card

open Classical in
/-- `none` where the result is not a finite number. -/
noncomputable def exactEstimate (sketch : Sketch) : Option ℕ :=
  if ExactSmallRange sketch then
    some (roundExact (hllRegisterCount *
      Real.log (hllRegisterCount / (zeroRegisters sketch).card)))
  else if 2 ^ 32 / 30 < exactRaw sketch then
    if exactRaw sketch < 2 ^ 32 then
      some (roundExact (-2 ^ 32 * Real.log (1 - exactRaw sketch / 2 ^ 32)))
    else none
  else some (roundExact (exactRaw sketch))

section

variable {a b : Sketch}

theorem roundExact_mono {x y : ℝ} (h : x ≤ y) : roundExact x ≤ roundExact y :=
  Int.toNat_le_toNat (Int.floor_le_floor (by linarith))

theorem cast_registerCount_real : (hllRegisterCount : ℝ) = 16384 := by
  rw [hllRegisterCount_eq]
  norm_num

/-! ### A larger sketch -/

theorem exactRaw_eq (sketch : Sketch) :
    exactRaw sketch = 0.7213 / (1 + 1.079 / 16384) * 2 ^ 28 / rankSum sketch := by
  rw [exactRaw, cast_registerCount_real]
  norm_num

/-- **The raw estimator grows.** -/
theorem exactRaw_mono (h : a ≤ b) : exactRaw a ≤ exactRaw b := by
  have hpos : (0 : ℝ) < rankSum b := by exact_mod_cast rankSum_pos b
  have hsum : (rankSum b : ℝ) ≤ rankSum a := by exact_mod_cast rankSum_antitone h
  rw [exactRaw_eq, exactRaw_eq]
  exact div_le_div_of_nonneg_left (by norm_num) hpos hsum

/-- A larger sketch has no more registers at zero. -/
theorem zeros_antitone (h : a ≤ b) : (zeroRegisters b).card ≤ (zeroRegisters a).card := by
  refine Finset.card_le_card fun i hi => ?_
  have hzero := (Finset.mem_filter.mp hi).2
  exact Finset.mem_filter.mpr ⟨Finset.mem_univ i, Nat.eq_zero_of_le_zero (hzero ▸ h i)⟩

/-- **What linear counting is left for is never taken back.** -/
theorem exactSmallRange_of_le (h : a ≤ b) (hb : ExactSmallRange b) : ExactSmallRange a :=
  ⟨(exactRaw_mono h).trans hb.1, lt_of_lt_of_le hb.2 (zeros_antitone h)⟩

/-- Linear counting grows. -/
theorem linear_mono (h : a ≤ b) (hpos : 0 < (zeroRegisters b).card) :
    (hllRegisterCount : ℝ) * Real.log (hllRegisterCount / (zeroRegisters a).card) ≤
      hllRegisterCount * Real.log (hllRegisterCount / (zeroRegisters b).card) := by
  have hle := zeros_antitone h
  have hb : (0 : ℝ) < (zeroRegisters b).card := by exact_mod_cast hpos
  have hab : ((zeroRegisters b).card : ℝ) ≤ (zeroRegisters a).card := by exact_mod_cast hle
  have ha : (0 : ℝ) < (zeroRegisters a).card := lt_of_lt_of_le hb hab
  rw [cast_registerCount_real]
  refine mul_le_mul_of_nonneg_left (Real.log_le_log (div_pos (by norm_num) ha) ?_) (by norm_num)
  exact div_le_div_of_nonneg_left (by norm_num) hb hab

/-- The large range grows. -/
theorem large_mono {x y : ℝ} (h : x ≤ y) (hy : y < 2 ^ 32) :
    -2 ^ 32 * Real.log (1 - x / 2 ^ 32) ≤ -2 ^ 32 * Real.log (1 - y / 2 ^ 32) := by
  have hleft : 0 < 1 - y / 2 ^ 32 := by
    rw [sub_pos, div_lt_one (by norm_num)]
    exact hy
  have hlog : Real.log (1 - y / 2 ^ 32) ≤ Real.log (1 - x / 2 ^ 32) := by
    refine Real.log_le_log hleft ?_
    have hdiv : x / 2 ^ 32 ≤ y / 2 ^ 32 := div_le_div_of_nonneg_right h (by norm_num)
    linarith
  linarith

/-- The large range corrects upwards. -/
theorem le_large {x : ℝ} (hx : x < 2 ^ 32) : x ≤ -2 ^ 32 * Real.log (1 - x / 2 ^ 32) := by
  have hleft : 0 < 1 - x / 2 ^ 32 := by
    rw [sub_pos, div_lt_one (by norm_num)]
    exact hx
  have hlog := Real.log_le_sub_one_of_pos hleft
  have hone : 2 ^ 32 * (x / 2 ^ 32) = x := by ring
  linarith

/-- **A larger sketch has no smaller estimate, unless it leaves linear counting.** -/
theorem exactEstimate_mono (h : a ≤ b) (hregime : ExactSmallRange a → ExactSmallRange b) {n : ℕ}
    (hb : exactEstimate b = some n) : ∃ k, exactEstimate a = some k ∧ k ≤ n := by
  have hraw := exactRaw_mono h
  by_cases hsmall : ExactSmallRange b
  · -- both are counted by their registers at zero
    rw [exactEstimate, if_pos hsmall] at hb
    rw [exactEstimate, if_pos (exactSmallRange_of_le h hsmall)]
    refine ⟨_, rfl, ?_⟩
    rw [← Option.some.inj hb]
    exact roundExact_mono (linear_mono h hsmall.2)
  · rw [exactEstimate, if_neg hsmall] at hb
    rw [exactEstimate, if_neg fun ha => hsmall (hregime ha)]
    split at hb
    · next hlarge =>
      split at hb
      · next hfinite =>
        obtain rfl := Option.some.inj hb
        by_cases hlargeA : 2 ^ 32 / 30 < exactRaw a
        · rw [if_pos hlargeA, if_pos (lt_of_le_of_lt hraw hfinite)]
          exact ⟨_, rfl, roundExact_mono (large_mono hraw hfinite)⟩
        · rw [if_neg hlargeA]
          exact ⟨_, rfl, roundExact_mono (hraw.trans (le_large hfinite))⟩
      · cases hb
    · next hlarge =>
      obtain rfl := Option.some.inj hb
      rw [if_neg fun hlargeA => hlarge (lt_of_lt_of_le hlargeA hraw)]
      exact ⟨_, rfl, roundExact_mono hraw⟩

end

/-- **Merging, or one more visitor, lowers no estimate, unless linear counting is left.** -/
theorem estimate_never_falls (a b : Sketch) :
    (∀ n, exactEstimate (merge a b) = some n →
      ((ExactSmallRange a → ExactSmallRange (merge a b)) → ∃ k, exactEstimate a = some k ∧ k ≤ n) ∧
      ((ExactSmallRange b → ExactSmallRange (merge a b)) → ∃ k, exactEstimate b = some k ∧ k ≤ n)) ∧
    ∀ hashHex a', addHashed a hashHex = some a' → (ExactSmallRange a → ExactSmallRange a') →
      ∀ n, exactEstimate a' = some n → ∃ k, exactEstimate a = some k ∧ k ≤ n := by
  refine ⟨fun n hn => ⟨fun hregime => ?_, fun hregime => ?_⟩, fun hashHex a' hadd hregime n hn => ?_⟩
  · refine exactEstimate_mono ?_ hregime hn
    rw [merge_eq_sup]
    exact le_sup_left
  · refine exactEstimate_mono ?_ hregime hn
    rw [merge_eq_sup]
    exact le_sup_right
  · exact exactEstimate_mono (le_of_addHashed hadd) hregime hn

/-! ### The last register -/

/-- Every register but the first is at rank 1. -/
def butOne : Sketch := fun i => if i.val = 0 then 0 else 1

/-- Every register is at rank 1. -/
def allOnes : Sketch := fun _ => 1

theorem addHashed_butOne : addHashed butOne "00020000000000000000000000000000" = some allOnes := by
  have hhash : hashHexTo32Bit "00020000000000000000000000000000" = some 0x00020000#32 := by
    decide +kernel
  rw [addHashed, hhash, Option.map_some, addValue_eq]
  refine congrArg some (funext fun i => ?_)
  have hregister : registerOf 0x00020000#32 = ⟨0, by decide⟩ := by decide +kernel
  have hrank : rankOf 0x00020000#32 = 1 := by decide +kernel
  rw [Pi.sup_apply, sketchOf, hregister, hrank, butOne, allOnes]
  by_cases hi : i.val = 0
  · rw [if_pos hi, if_pos (Fin.ext hi)]
    rfl
  · rw [if_neg hi, if_neg fun h => hi (congrArg Fin.val h)]
    rfl

theorem zeroRegisters_butOne : (zeroRegisters butOne).card = 1 := by
  rw [Finset.card_eq_one]
  refine ⟨⟨0, by decide⟩, Finset.ext fun i => ?_⟩
  rw [zeroRegisters, Finset.mem_filter, Finset.mem_singleton, butOne]
  by_cases hi : i.val = 0
  · rw [if_pos hi]
    exact iff_of_true ⟨Finset.mem_univ i, rfl⟩ (Fin.ext hi)
  · rw [if_neg hi]
    exact iff_of_false (fun h => one_ne_zero h.2) fun h => hi (congrArg Fin.val h)

theorem rankSum_allOnes : rankSum allOnes = 8192 := by
  rw [rankSum]
  simp only [allOnes, pow_one]
  rw [Finset.sum_const, Finset.card_univ, Fintype.card_fin, nsmul_eq_mul, cast_registerCount]
  norm_num

theorem exactRaw_allOnes : exactRaw allOnes ≤ 23635 := by
  rw [exactRaw_eq, rankSum_allOnes]
  norm_num

/-- Linear counting makes more than 150000 of one register at zero. -/
theorem estimate_butOne : ∃ n, exactEstimate butOne = some n ∧ 150000 ≤ n := by
  have hle : butOne ≤ allOnes := fun i => by
    rw [butOne, allOnes]
    split
    · exact Nat.zero_le _
    · exact le_rfl
  have hsmall : ExactSmallRange butOne := by
    refine ⟨(exactRaw_mono hle).trans (exactRaw_allOnes.trans ?_), ?_⟩
    · rw [cast_registerCount_real]
      norm_num
    · rw [zeroRegisters_butOne]
      exact one_pos
  rw [exactEstimate, if_pos hsmall, zeroRegisters_butOne, cast_registerCount_real]
  refine ⟨_, rfl, ?_⟩
  have hlog : Real.log (16384 / (1 : ℕ)) = 14 * Real.log 2 := by
    rw [Nat.cast_one, div_one, ← Real.log_rpow (by norm_num)]
    norm_num
  have htwo := Real.log_two_gt_d9
  rw [hlog, roundExact]
  have hfloor : (150000 : ℤ) ≤ ⌊(16384 : ℝ) * (14 * Real.log 2) + 1 / 2⌋ := by
    rw [Int.le_floor]
    norm_num at htwo ⊢
    linarith
  omega

/-- The raw estimator makes far less of all registers at rank 1. -/
theorem estimate_allOnes : ∃ n, exactEstimate allOnes = some n ∧ n ≤ 23635 := by
  have hzeros : ¬ ExactSmallRange allOnes := fun h => by
    have hnone : zeroRegisters allOnes = ∅ :=
      Finset.filter_eq_empty_iff.mpr fun _ _ h => one_ne_zero h
    rw [ExactSmallRange, hnone] at h
    exact absurd h.2 (lt_irrefl 0)
  have hraw := exactRaw_allOnes
  rw [exactEstimate, if_neg hzeros, if_neg (by norm_num at hraw ⊢; linarith)]
  refine ⟨_, rfl, ?_⟩
  have hfloor : ⌊exactRaw allOnes + 1 / 2⌋ < 23636 := by
    rw [Int.floor_lt]
    push_cast
    linarith
  rw [roundExact]
  omega

/-- **One more visitor, and the estimate falls.** -/
theorem estimate_falls :
    ¬ ∀ (a a' : Sketch) (hashHex : String), Reachable a → addHashed a hashHex = some a' →
      ∀ n k, exactEstimate a = some n → exactEstimate a' = some k → n ≤ k := by
  intro h
  have hreach : Reachable butOne := reachable_iff.mpr fun i => by
    rw [butOne]
    split <;> decide
  obtain ⟨n, hn, hmany⟩ := estimate_butOne
  obtain ⟨k, hk, hfew⟩ := estimate_allOnes
  have hle := h butOne allOnes _ hreach addHashed_butOne n k hn hk
  omega

end SnapUrl.Domain
