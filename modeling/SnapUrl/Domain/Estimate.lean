import Mathlib.Analysis.SpecialFunctions.Log.Deriv
import Mathlib.Analysis.SpecialFunctions.Trigonometric.DerivHyp
import SnapUrl.Domain.Hll

/-!
# The estimate of a sketch

`estimate` of `packages/domain/src/hll.ts`, over any double arithmetic.  A double is a
rational number; the sum of the ranks and the products with powers of two are exact, and
the other results are near the real ones (`Doubles`).

* `Covered`: so many visits are as many as the estimators make of the registers.
* `estimate_le`: **the estimate of a sketch stays within a number of visits that covers it.**
* `lt_estimate_of_linear`: it passes one that linear counting passes, and so `lt_estimate`:
  130 set registers are more than 130 visitors.
-/

namespace SnapUrl.Domain

/-- Double arithmetic where a result is rounded: the nearest double, and `Math.log`, whose
last digits are up to the runtime. -/
structure Doubles where
  round : ℚ → ℚ
  log : ℚ → ℚ
  round_near : ∀ x, 1 / 2 ^ 20 ≤ x → x ≤ 2 ^ 40 → |round x - x| ≤ x / 2 ^ 50
  log_near : ∀ x : ℚ, 1 / 2 ^ 40 ≤ x → x ≤ 2 ^ 20 → |(log x : ℝ) - Real.log x| ≤ 1 / 2 ^ 40

/-- `alpha_m`, the bias correction of the raw estimator. -/
def ALPHA_M (d : Doubles) : ℚ :=
  d.round (d.round 0.7213 / d.round (1 + d.round (d.round 1.079 / hllRegisterCount)))

/-- The registers that some visitor has set. -/
def setRegisters (sketch : Sketch) : Finset (Fin hllRegisterCount) :=
  Finset.univ.filter fun i => sketch i ≠ 0

/-- The registers at rank 0. -/
def zeroRegisters (sketch : Sketch) : Finset (Fin hllRegisterCount) :=
  Finset.univ.filter fun i => sketch i = 0

/-- The sum of `2 ** -rank`. -/
def rankSum (sketch : Sketch) : ℚ := ∑ i, (1 / 2) ^ sketch i

/-- `Math.max(0, Math.round(e))`. -/
def roundCount (e : ℚ) : ℕ := ⌊e + 1 / 2⌋.toNat

/-- The raw estimator, before it is rounded. -/
def rawCount (d : Doubles) (sketch : Sketch) : ℚ :=
  ALPHA_M d * hllRegisterCount * hllRegisterCount / rankSum sketch

/-- `none` where the result is not a finite number. -/
def estimate (d : Doubles) (sketch : Sketch) : Option ℕ :=
  let m : ℚ := hllRegisterCount
  let zeros := (zeroRegisters sketch).card
  let e := d.round (rawCount d sketch)
  if e ≤ 5 / 2 * m ∧ 0 < zeros then
    -- small range: linear counting
    some (roundCount (m * d.log (d.round (m / zeros))))
  else if d.round (2 ^ 32 / 30) < e then
    -- large range: the collisions of 32 bits are undone
    if e < 2 ^ 32 then some (roundCount (-2 ^ 32 * d.log (d.round (1 - e / 2 ^ 32)))) else none
  else some (roundCount e)

/-! ### Registers -/

section Registers

theorem hllRegisterCount_eq : hllRegisterCount = 16384 := rfl

theorem cast_registerCount : (hllRegisterCount : ℚ) = 16384 := by
  rw [hllRegisterCount_eq]
  norm_num

theorem card_registers (sketch : Sketch) :
    (setRegisters sketch).card + (zeroRegisters sketch).card = hllRegisterCount := by
  have h := Finset.card_filter_add_card_filter_not (s := Finset.univ) fun i => sketch i = 0
  rw [Finset.card_univ, Fintype.card_fin] at h
  rw [setRegisters, zeroRegisters, add_comm]
  exact h

theorem zeros_le_rankSum (sketch : Sketch) :
    ((zeroRegisters sketch).card : ℚ) ≤ rankSum sketch := by
  have hzero : ∑ i ∈ zeroRegisters sketch, ((1 : ℚ) / 2) ^ sketch i =
      (zeroRegisters sketch).card := by
    rw [Finset.sum_congr rfl fun i hi => by rw [(Finset.mem_filter.mp hi).2, pow_zero],
      Finset.sum_const, nsmul_eq_mul, mul_one]
  rw [← hzero, rankSum]
  exact Finset.sum_le_sum_of_subset_of_nonneg (Finset.subset_univ _) fun i _ _ => by positivity

theorem rankSum_pos (sketch : Sketch) : 0 < rankSum sketch :=
  Finset.sum_pos (fun _ _ => by positivity) ⟨⟨0, by decide⟩, Finset.mem_univ _⟩

theorem rankSum_le (sketch : Sketch) : rankSum sketch ≤ hllRegisterCount := by
  calc rankSum sketch ≤ ∑ _i : Fin hllRegisterCount, (1 : ℚ) :=
        Finset.sum_le_sum fun i _ => pow_le_one₀ (by norm_num) (by norm_num)
    _ = hllRegisterCount := by simp

end Registers

/-! ### Rounded results -/

section Rounding

variable (d : Doubles)

/-- Rounding moves a number by a small part of it. -/
theorem Doubles.round_bounds {x : ℚ} (hlow : 1 / 2 ^ 20 ≤ x) (hhigh : x ≤ 2 ^ 40) :
    x * (1 - 1 / 2 ^ 50) ≤ d.round x ∧ d.round x ≤ x * (1 + 1 / 2 ^ 50) := by
  have h := abs_le.mp (d.round_near x hlow hhigh)
  constructor
  · linarith [h.1]
  · linarith [h.2]

theorem alpha_bounds : 0.7 ≤ ALPHA_M d ∧ ALPHA_M d ≤ 0.73 := by
  obtain ⟨hnum₁, hnum₂⟩ := d.round_bounds (x := 0.7213) (by norm_num) (by norm_num)
  obtain ⟨hbias₁, hbias₂⟩ := d.round_bounds (x := 1.079) (by norm_num) (by norm_num)
  rw [ALPHA_M, cast_registerCount]
  set num := d.round 0.7213
  set bias := d.round 1.079
  have hquot : 1.07 / 16384 ≤ bias / 16384 ∧ bias / 16384 ≤ 1.08 / 16384 := by
    constructor
    · refine div_le_div_of_nonneg_right ?_ (by norm_num)
      norm_num at hbias₁
      linarith
    · refine div_le_div_of_nonneg_right ?_ (by norm_num)
      norm_num at hbias₂
      linarith
  obtain ⟨hpart₁, hpart₂⟩ := d.round_bounds (x := bias / 16384)
    (le_trans (by norm_num) hquot.1) (le_trans hquot.2 (by norm_num))
  set part := d.round (bias / 16384)
  have hpart : 0 ≤ part ∧ part ≤ 0.001 := by
    constructor
    · refine le_trans (mul_nonneg (le_trans (by norm_num) hquot.1) (by norm_num)) hpart₁
    · refine hpart₂.trans ((mul_le_mul_of_nonneg_right hquot.2 (by norm_num)).trans ?_)
      norm_num
  obtain ⟨hsum₁, hsum₂⟩ := d.round_bounds (x := 1 + part)
    (by norm_num; linarith [hpart.1]) (by norm_num; linarith [hpart.2])
  set sum := d.round (1 + part)
  have hsum : 0.999 ≤ sum ∧ sum ≤ 1.002 := by
    constructor
    · refine le_trans ?_ hsum₁
      norm_num
      linarith [hpart.1]
    · refine hsum₂.trans ?_
      norm_num
      linarith [hpart.2]
  have hnum : 0.721 ≤ num ∧ num ≤ 0.722 := by
    norm_num at hnum₁ hnum₂
    constructor <;> norm_num <;> linarith
  have hpos : 0 < sum := lt_of_lt_of_le (by norm_num) hsum.1
  have hratio : 0.71 ≤ num / sum ∧ num / sum ≤ 0.725 := by
    constructor
    · rw [le_div_iff₀ hpos]
      linarith [hsum.2, hnum.1]
    · rw [div_le_iff₀ hpos]
      linarith [hsum.1, hnum.2]
  obtain ⟨hround₁, hround₂⟩ := d.round_bounds (x := num / sum)
    (le_trans (by norm_num) hratio.1) (le_trans hratio.2 (by norm_num))
  constructor
  · refine le_trans ?_ hround₁
    norm_num
    linarith [hratio.1]
  · refine hround₂.trans ?_
    norm_num
    linarith [hratio.2]

/-- The raw estimator is at least a fraction of the registers. -/
theorem one_le_rawCount (sketch : Sketch) : 1 ≤ rawCount d sketch := by
  obtain ⟨halpha, -⟩ := alpha_bounds d
  have hsum := rankSum_le sketch
  rw [cast_registerCount] at hsum
  rw [rawCount, cast_registerCount, le_div_iff₀ (rankSum_pos sketch)]
  norm_num at halpha
  linarith

/-- Where all but a few registers are at zero it is about three quarters of them. -/
theorem rawCount_le {sketch : Sketch} (hzeros : 16000 ≤ (zeroRegisters sketch).card) :
    rawCount d sketch ≤ 12500 := by
  obtain ⟨-, halpha⟩ := alpha_bounds d
  have hsum : (16000 : ℚ) ≤ rankSum sketch :=
    le_trans (by exact_mod_cast hzeros) (zeros_le_rankSum sketch)
  rw [rawCount, cast_registerCount, div_le_iff₀ (rankSum_pos sketch)]
  norm_num at halpha
  linarith

end Rounding

/-! ### Linear counting -/

section LinearCounting

variable (d : Doubles) {sketch : Sketch}

/-- The rounded logarithm is near the real one. -/
theorem log_round_near {V : ℕ} (hpos : 0 < V) (hle : V ≤ hllRegisterCount) :
    |(d.log (d.round (hllRegisterCount / V)) : ℝ) - Real.log (16384 / V)| ≤ 1 / 2 ^ 39 := by
  have hV : (0 : ℚ) < V := by exact_mod_cast hpos
  have hratio₁ : (1 : ℚ) ≤ 16384 / V := by
    rw [le_div_iff₀ hV, one_mul]
    exact_mod_cast hle
  have hratio₂ : (16384 : ℚ) / V ≤ 16384 := by
    rw [div_le_iff₀ hV]
    have hone : (1 : ℚ) ≤ V := by exact_mod_cast hpos
    linarith
  rw [cast_registerCount]
  obtain ⟨hround₁, hround₂⟩ := d.round_bounds (le_trans (by norm_num) hratio₁)
    (hratio₂.trans (by norm_num))
  set x := d.round (16384 / V) with hx
  have hx₁ : (1 : ℚ) / 2 ^ 40 ≤ x := by
    refine le_trans ?_ hround₁
    norm_num
    linarith
  have hx₂ : x ≤ 2 ^ 20 := by
    refine hround₂.trans ?_
    norm_num
    linarith
  have hlog := abs_le.mp (d.log_near x hx₁ hx₂)
  have hxpos : (0 : ℝ) < x := by exact_mod_cast lt_of_lt_of_le (by norm_num) hx₁
  have hVpos : (0 : ℝ) < 16384 / V := by positivity
  have hreal₁ : (16384 / V : ℝ) * (1 - 1 / 2 ^ 50) ≤ x := by
    have h := (Rat.cast_le (K := ℝ)).mpr hround₁
    push_cast at h
    exact h
  have hreal₂ : (x : ℝ) ≤ 16384 / V * (1 + 1 / 2 ^ 50) := by
    have h := (Rat.cast_le (K := ℝ)).mpr hround₂
    push_cast at h
    exact h
  -- the logarithm moves by no more than the ratio does
  have hup : Real.log x ≤ Real.log (16384 / V) + 1 / 2 ^ 50 := by
    refine (Real.log_le_log hxpos hreal₂).trans ?_
    rw [Real.log_mul hVpos.ne' (by norm_num)]
    have h := Real.log_le_sub_one_of_pos (x := 1 + 1 / 2 ^ 50) (by norm_num)
    linarith
  have hdown : Real.log (16384 / V) - 1 / 2 ^ 49 ≤ Real.log x := by
    refine le_trans ?_ (Real.log_le_log (mul_pos hVpos (by norm_num)) hreal₁)
    rw [Real.log_mul hVpos.ne' (by norm_num)]
    have h := Real.one_sub_inv_le_log_of_pos (x := 1 - 1 / 2 ^ 50) (by norm_num)
    norm_num at h ⊢
    linarith
  rw [abs_le]
  constructor
  · norm_num at hlog hdown ⊢
    linarith [hlog.1]
  · norm_num at hlog hup ⊢
    linarith [hlog.2]

/-- A logarithm is at most the hyperbolic sine of itself. -/
theorem log_le_half {u : ℝ} (h : 1 ≤ u) : Real.log u ≤ (u - u⁻¹) / 2 := by
  rw [← Real.sinh_log (lt_of_lt_of_le one_pos h)]
  exact Real.self_le_sinh_iff.mpr (Real.log_nonneg h)

/-- Linear counting over `m` registers of which `zeros` are at zero. -/
noncomputable def linearCount (zeros : ℕ) : ℝ := 16384 * Real.log (16384 / zeros)

theorem roundCount_lt {x : ℚ} {n : ℕ} (h : (x : ℝ) < n + 1 / 2) : roundCount x ≤ n := by
  have hfloor : ⌊x + 1 / 2⌋ < (n : ℤ) + 1 := by
    rw [Int.floor_lt]
    refine (Rat.cast_lt (K := ℝ)).mp ?_
    push_cast
    linarith
  rw [roundCount]
  omega

theorem lt_roundCount {x : ℚ} {n : ℕ} (h : (n : ℝ) + 1 / 2 ≤ x) : n < roundCount x := by
  have hfloor : (n : ℤ) + 1 ≤ ⌊x + 1 / 2⌋ := by
    rw [Int.le_floor]
    refine (Rat.cast_le (K := ℝ)).mp ?_
    push_cast
    linarith
  rw [roundCount]
  omega

/-- What linear counting gives is near its real value. -/
theorem linear_near {V : ℕ} (hpos : 0 < V) (hle : V ≤ hllRegisterCount) :
    |((hllRegisterCount * d.log (d.round (hllRegisterCount / V)) : ℚ) : ℝ) - linearCount V| ≤
      1 / 2 ^ 25 := by
  have h := abs_le.mp (log_round_near d hpos hle)
  rw [linearCount, cast_registerCount] at *
  push_cast
  rw [abs_le]
  constructor
  · norm_num at h ⊢
    linarith [h.1]
  · norm_num at h ⊢
    linarith [h.2]

theorem roundCount_linear_le {V clicks : ℕ} (hpos : 0 < V) (hle : V ≤ hllRegisterCount)
    (h : linearCount V ≤ clicks + 1 / 2 - 1 / 2 ^ 20) :
    roundCount (hllRegisterCount * d.log (d.round (hllRegisterCount / V))) ≤ clicks := by
  have hnear := (abs_le.mp (linear_near d hpos hle)).2
  refine roundCount_lt ?_
  norm_num at hnear h ⊢
  linarith

theorem lt_roundCount_linear {V clicks : ℕ} (hpos : 0 < V) (hle : V ≤ hllRegisterCount)
    (h : (clicks : ℝ) + 1 / 2 + 1 / 2 ^ 20 ≤ linearCount V) :
    clicks < roundCount (hllRegisterCount * d.log (d.round (hllRegisterCount / V))) := by
  have hnear := (abs_le.mp (linear_near d hpos hle)).1
  refine lt_roundCount ?_
  norm_num at hnear h ⊢
  linarith

end LinearCounting

/-! ### Covered registers -/

section Covered

/-- **So many visits are as many as the estimators make of the registers**, with a margin
that the rounding of their results stays within. -/
structure Covered (d : Doubles) (sketch : Sketch) (clicks : ℕ) : Prop where
  /-- In the small range it is the registers at zero that count. -/
  linear : 0 < (zeroRegisters sketch).card →
    rawCount d sketch ≤ 5 / 2 * hllRegisterCount * (1 + 1 / 2 ^ 40) →
      linearCount (zeroRegisters sketch).card ≤ clicks + 1 / 2 - 1 / 2 ^ 20
  /-- Above it, and with no register at zero, it is the ranks. -/
  raw : (zeroRegisters sketch).card = 0 ∨
      5 / 2 * hllRegisterCount * (1 - 1 / 2 ^ 40) ≤ rawCount d sketch →
    rawCount d sketch * (1 + 1 / 2 ^ 40) < clicks + 1 / 2
  /-- In the large range the collisions of 32 bits are undone. -/
  large : 2 ^ 32 / 30 * (1 - 1 / 2 ^ 40) ≤ rawCount d sketch →
    1 / 2 ^ 20 ≤ 1 - rawCount d sketch * (1 + 1 / 2 ^ 40) / 2 ^ 32 ∧
      -2 ^ 32 * Real.log ((1 - rawCount d sketch * (1 + 1 / 2 ^ 40) / 2 ^ 32 : ℚ) : ℝ) ≤
        clicks + 1 / 2 - 1 / 2 ^ 7

variable (d : Doubles) {sketch : Sketch} {clicks : ℕ}

theorem Covered.rawCount_le (h : Covered d sketch clicks) : rawCount d sketch ≤ 2 ^ 32 := by
  by_contra hmore
  rw [not_le] at hmore
  have hlarge := (h.large (le_trans (by norm_num) hmore.le)).1
  norm_num at hlarge hmore
  linarith

/-- The last rounding of the raw estimator. -/
theorem Covered.round_rawCount (h : Covered d sketch clicks) :
    rawCount d sketch * (1 - 1 / 2 ^ 50) ≤ d.round (rawCount d sketch) ∧
      d.round (rawCount d sketch) ≤ rawCount d sketch * (1 + 1 / 2 ^ 50) :=
  d.round_bounds (le_trans (by norm_num) (one_le_rawCount d sketch))
    (h.rawCount_le.trans (by norm_num))

theorem largeCount_le (h : Covered d sketch clicks)
    (hlarge : 2 ^ 32 / 30 * (1 - 1 / 2 ^ 40) ≤ rawCount d sketch) :
    d.round (rawCount d sketch) < 2 ^ 32 ∧
      roundCount (-2 ^ 32 * d.log (d.round (1 - d.round (rawCount d sketch) / 2 ^ 32))) ≤
        clicks := by
  obtain ⟨hroom, hcount⟩ := h.large hlarge
  obtain ⟨hround₁, hround₂⟩ := h.round_rawCount
  have hone := one_le_rawCount d sketch
  set raw := rawCount d sketch
  set e := d.round raw
  set y := 1 - raw * (1 + 1 / 2 ^ 40) / 2 ^ 32 with hy
  have hye : y ≤ 1 - e / 2 ^ 32 := by
    norm_num at hround₂ ⊢
    linarith
  have hepos : 0 ≤ e := le_trans (mul_nonneg (by linarith) (by norm_num)) hround₁
  have hmost : 1 - e / 2 ^ 32 ≤ 1 := by linarith
  refine ⟨by norm_num at hroom hye ⊢; linarith, roundCount_lt ?_⟩
  obtain ⟨hpart₁, hpart₂⟩ := d.round_bounds (hroom.trans hye) (hmost.trans (by norm_num))
  set part := d.round (1 - e / 2 ^ 32)
  have hypos : (0 : ℚ) < y := lt_of_lt_of_le (by norm_num) hroom
  have hcut : y * (1 - 1 / 2 ^ 50) ≤ part :=
    (mul_le_mul_of_nonneg_right hye (by norm_num)).trans hpart₁
  have hlog := abs_le.mp (d.log_near part (by norm_num at hroom hcut ⊢; linarith)
    (hpart₂.trans (by norm_num; linarith)))
  have hreal : (y : ℝ) * (1 - 1 / 2 ^ 50) ≤ part := by
    have hcast := (Rat.cast_le (K := ℝ)).mpr hcut
    push_cast at hcast
    exact hcast
  have hyreal : (0 : ℝ) < y := by exact_mod_cast hypos
  -- the logarithm of what is left moves by no more than the part cut off
  have hdown : Real.log y - 1 / 2 ^ 49 ≤ Real.log part := by
    refine le_trans ?_ (Real.log_le_log (mul_pos hyreal (by norm_num)) hreal)
    rw [Real.log_mul hyreal.ne' (by norm_num)]
    have hcutlog := Real.one_sub_inv_le_log_of_pos (x := 1 - 1 / 2 ^ 50) (by norm_num)
    norm_num at hcutlog ⊢
    linarith
  push_cast
  norm_num at hlog hdown hcount ⊢
  linarith [hlog.1]

/-- **The estimate of a sketch stays within a number of visits that covers it.** -/
theorem estimate_le (h : Covered d sketch clicks) :
    ∃ n, estimate d sketch = some n ∧ n ≤ clicks := by
  obtain ⟨hround₁, hround₂⟩ := h.round_rawCount
  have hone := one_le_rawCount d sketch
  have hcard := card_registers sketch
  rw [estimate]
  split
  · rename_i hsmall
    refine ⟨_, rfl, roundCount_linear_le d hsmall.2 (by omega) (h.linear hsmall.2 ?_)⟩
    have hle := hround₁.trans hsmall.1
    rw [cast_registerCount] at hle ⊢
    norm_num at hle ⊢
    linarith
  · rename_i hsmall
    have hraw := h.raw (by
      rcases Nat.eq_zero_or_pos (zeroRegisters sketch).card with hzero | hpos
      · exact Or.inl hzero
      · have hlt := lt_of_lt_of_le (not_le.mp fun hle => hsmall ⟨hle, hpos⟩) hround₂
        refine Or.inr ?_
        rw [cast_registerCount] at hlt ⊢
        norm_num at hlt ⊢
        linarith)
    split
    · rename_i hlarge
      obtain ⟨hfinite, hle⟩ := largeCount_le d h (by
        have hbound := (d.round_bounds (x := 2 ^ 32 / 30) (by norm_num) (by norm_num)).1
        have hlt := (hbound.trans_lt hlarge).trans_le hround₂
        norm_num at hlt ⊢
        linarith)
      exact ⟨_, if_pos hfinite, hle⟩
    · refine ⟨_, rfl, roundCount_lt ?_⟩
      have hless : d.round (rawCount d sketch) < (clicks : ℚ) + 1 / 2 := by
        refine lt_of_le_of_lt (hround₂.trans ?_) hraw
        norm_num
        linarith
      have hcast := (Rat.cast_lt (K := ℝ)).mpr hless
      push_cast at hcast
      exact hcast

/-- Where linear counting passes the visits, so does the estimate. -/
theorem lt_estimate_of_linear (hzeros : 0 < (zeroRegisters sketch).card)
    (hsmall : rawCount d sketch ≤ 5 / 2 * hllRegisterCount * (1 - 1 / 2 ^ 40))
    (h : (clicks : ℝ) + 1 / 2 + 1 / 2 ^ 20 ≤ linearCount (zeroRegisters sketch).card) :
    ∃ n, estimate d sketch = some n ∧ clicks < n := by
  have hcard := card_registers sketch
  have hone := one_le_rawCount d sketch
  rw [cast_registerCount] at hsmall
  have hround := (d.round_bounds (le_trans (by norm_num) hone)
    (hsmall.trans (by norm_num))).2
  have hrange : d.round (rawCount d sketch) ≤ 5 / 2 * hllRegisterCount := by
    rw [cast_registerCount]
    norm_num at hround hsmall ⊢
    linarith
  exact ⟨_, if_pos ⟨hrange, hzeros⟩, lt_roundCount_linear d hzeros (by omega) h⟩

/-- The raw estimator is far below the end of the small range where few registers are set. -/
theorem rawCount_of_few (hfew : (setRegisters sketch).card ≤ 384) :
    rawCount d sketch < 5 / 2 * hllRegisterCount * (1 - 1 / 2 ^ 40) ∧
      rawCount d sketch < 2 ^ 32 / 30 * (1 - 1 / 2 ^ 40) := by
  have hcard : (setRegisters sketch).card + (zeroRegisters sketch).card = 16384 :=
    card_registers sketch
  have hle : rawCount d sketch ≤ 12500 := rawCount_le d (by omega)
  rw [cast_registerCount]
  constructor
  · exact hle.trans_lt (by norm_num)
  · exact hle.trans_lt (by norm_num)

/-- Linear counting is at most this fraction of the registers. -/
theorem linearCount_le {V : ℕ} (hpos : 0 < V) (hle : V ≤ 16384) :
    linearCount V ≤ (16384 ^ 2 - V ^ 2) / (2 * V) := by
  have hV : (0 : ℝ) < V := by exact_mod_cast hpos
  have hV' : (V : ℝ) ≤ 16384 := by exact_mod_cast hle
  have hhalf : Real.log (16384 / V) ≤ ((16384 / V : ℝ) - (16384 / V : ℝ)⁻¹) / 2 := by
    refine log_le_half ?_
    rw [le_div_iff₀ hV]
    linarith
  calc linearCount V ≤ 16384 * (((16384 / V : ℝ) - (16384 / V : ℝ)⁻¹) / 2) :=
        mul_le_mul_of_nonneg_left hhalf (by norm_num)
    _ = (16384 ^ 2 - V ^ 2) / (2 * V) := by field_simp

/-- **Up to 127 registers are covered by a visit each.** -/
theorem covered_of_few (hfew : (setRegisters sketch).card ≤ 127)
    (hclicks : (setRegisters sketch).card ≤ clicks) : Covered d sketch clicks := by
  have hcard : (setRegisters sketch).card + (zeroRegisters sketch).card = 16384 :=
    card_registers sketch
  obtain ⟨hsmall, hlarge⟩ := rawCount_of_few d (hfew.trans (by norm_num))
  refine ⟨fun hpos _ => ?_, fun h => ?_, fun h => absurd h (not_le.mpr hlarge)⟩
  · generalize (setRegisters sketch).card = k at *
    generalize (zeroRegisters sketch).card = V at *
    refine (linearCount_le hpos (by omega)).trans ?_
    have hV : (0 : ℝ) < V := by exact_mod_cast hpos
    have hsum : (k : ℝ) + V = 16384 := by exact_mod_cast hcard
    have hk : (k : ℝ) ≤ 127 := by exact_mod_cast hfew
    have hk' : (k : ℝ) ≤ clicks := by exact_mod_cast hclicks
    have hkpos : (0 : ℝ) ≤ k := Nat.cast_nonneg k
    rw [div_le_iff₀ (by linarith)]
    rw [show (V : ℝ) = 16384 - k by linarith]
    -- the excess of `k` registers is about `k ^ 2 / (2 * 16384)`
    have hexcess : (k : ℝ) * k ≤ 127 * k := mul_le_mul_of_nonneg_right hk hkpos
    have hmost : (16384 : ℝ) ^ 2 - (16384 - (k : ℝ)) ^ 2 ≤
        ((k : ℝ) + 1 / 2 - 1 / 2 ^ 20) * (2 * (16384 - k)) := by
      norm_num
      linarith
    exact hmost.trans (mul_le_mul_of_nonneg_right (by linarith) (by linarith))
  · rcases h with hzero | hraw
    · omega
    · exact absurd hraw (not_le.mpr hsmall)

/-- **130 set registers are estimated as more than 130 visitors.** -/
theorem lt_estimate (h : (setRegisters sketch).card = 130) :
    ∃ n, estimate d sketch = some n ∧ 130 < n := by
  have hcard : (setRegisters sketch).card + (zeroRegisters sketch).card = 16384 :=
    card_registers sketch
  have hzeros : (zeroRegisters sketch).card = 16254 := by omega
  refine lt_estimate_of_linear d (by omega) (rawCount_of_few d (by omega)).1.le ?_
  rw [hzeros, linearCount]
  -- two terms of the series of the logarithm
  have hseries := Real.abs_log_sub_add_sum_range_le (x := 130 / 16384)
    (by rw [abs_of_pos (by norm_num)]; norm_num) 2
  have hinv : Real.log (16384 / (16254 : ℕ)) = -Real.log (1 - 130 / 16384) := by
    rw [← Real.log_inv]
    norm_num
  rw [abs_of_pos (show (0 : ℝ) < 130 / 16384 by norm_num)] at hseries
  norm_num [Finset.sum_range_succ] at hseries
  have hbelow := (abs_le.mp hseries).2
  rw [hinv]
  norm_num at hbelow ⊢
  linarith

end Covered

/-! ### Visitors -/

section Visitors

variable {sketch : Sketch}

theorem rankOf_pos (x : BitVec 32) : 0 < rankOf x := by
  rw [rankOf]
  split
  · exact Nat.succ_pos _
  · exact Nat.succ_pos _

/-- A visitor sets its register. -/
theorem setRegisters_addValue (x : BitVec 32) :
    setRegisters (addValue sketch x) = insert (registerOf x) (setRegisters sketch) := by
  ext i
  have hpos := rankOf_pos x
  simp only [setRegisters, Finset.mem_filter, Finset.mem_univ, true_and, Finset.mem_insert]
  rw [addValue_eq, Pi.sup_apply, sketchOf]
  by_cases hi : i = registerOf x
  · rw [if_pos hi]
    have hmax := le_max_right (sketch i) (rankOf x)
    exact iff_of_true (by omega) (Or.inl hi)
  · rw [if_neg hi, sup_eq_left.mpr (Nat.zero_le _)]
    simp [hi]

theorem setRegisters_foldl (xs : List (BitVec 32)) :
    setRegisters (xs.foldl addValue sketch) =
      setRegisters sketch ∪ (xs.map registerOf).toFinset := by
  induction xs generalizing sketch with
  | nil => simp
  | cons x xs ih =>
    rw [List.foldl_cons, ih, setRegisters_addValue, List.map_cons, List.toFinset_cons,
      Finset.insert_union, Finset.union_insert]

theorem setRegisters_createSketch : setRegisters createSketch = ∅ :=
  Finset.filter_eq_empty_iff.mpr fun _ _ h => h rfl

end Visitors

/-- Doubles that are rational numbers cut off after fifty binary places. -/
noncomputable def gridDoubles : Doubles where
  round x := x
  log x := ⌊Real.log x * 2 ^ 50⌋ / 2 ^ 50
  round_near x hx _ := by
    rw [sub_self, abs_zero]
    have hpos : 0 ≤ x := le_trans (by norm_num) hx
    positivity
  log_near x _ _ := by
    push_cast
    have hle := Int.floor_le (Real.log x * 2 ^ 50)
    have hlt := Int.lt_floor_add_one (Real.log x * 2 ^ 50)
    generalize ⌊Real.log x * 2 ^ 50⌋ = n at hle hlt
    rw [abs_le]
    constructor
    · rw [neg_le_sub_iff_le_add, ← sub_le_iff_le_add, le_div_iff₀ (by norm_num)]
      linarith
    · rw [sub_le_iff_le_add, div_le_iff₀ (by norm_num)]
      linarith

end SnapUrl.Domain
