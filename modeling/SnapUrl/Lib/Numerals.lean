import Mathlib.Data.Int.Log
import Mathlib.Data.Rat.Floor
import SnapUrl.Lib.FormUrlencoded

/-!
# Numbers in texts

Digits of a base and their value, and the nearest double of a rational number.

* `radixValue_toDigits`: the digits of a number are read back.
* `digitChar_of_mem_toDigits`: they are digits of the base.
* `roundToDouble_natCast`: a small whole number is a double.
-/

namespace SnapUrl.Lib

open FormUrlencoded

/-! ### Digits -/

/-- The value of a digit, upper or lower case. -/
def digitValue (c : Char) : Nat := (hexValue c.toNat).getD 0

def radixValue (base : Nat) (digits : List Char) : Nat :=
  digits.foldl (fun n c => n * base + digitValue c) 0

theorem digitValue_digitChar {v : Nat} (h : v < 16) : digitValue (Nat.digitChar v) = v := by
  revert v
  decide

theorem digitChar_inj {v w : Nat} (hv : v < 16) (hw : w < 16)
    (h : Nat.digitChar v = Nat.digitChar w) : v = w := by
  rw [← digitValue_digitChar hv, h, digitValue_digitChar hw]

theorem radixValue_append_singleton (base : Nat) (digits : List Char) (c : Char) :
    radixValue base (digits ++ [c]) = radixValue base digits * base + digitValue c := by
  rw [radixValue, List.foldl_append]
  rfl

section

variable {base : Nat}

/-- **Digits are read back.** -/
theorem radixValue_toDigits (hbase : 1 < base) (hsmall : base ≤ 16) (n : Nat) :
    radixValue base (Nat.toDigits base n) = n := by
  induction n using Nat.strongRecOn with
  | _ n ih =>
    rw [Nat.toDigits_eq_if hbase]
    split
    · next hlt =>
      have hdigit := radixValue_append_singleton base [] (Nat.digitChar n)
      rw [List.nil_append, digitValue_digitChar (hlt.trans_le hsmall)] at hdigit
      rw [hdigit, radixValue, List.foldl_nil, Nat.zero_mul, Nat.zero_add]
    · next hge =>
      have hdigit : n % base < 16 := (Nat.mod_lt n (by omega)).trans_le hsmall
      rw [radixValue_append_singleton, ih (n / base) (Nat.div_lt_self (by omega) hbase),
        digitValue_digitChar hdigit, Nat.div_add_mod']

theorem digitChar_of_mem_toDigits (hbase : 1 < base) {n : Nat} {c : Char}
    (h : c ∈ Nat.toDigits base n) : ∃ v < base, c = Nat.digitChar v := by
  induction n using Nat.strongRecOn with
  | _ n ih =>
    rw [Nat.toDigits_eq_if hbase] at h
    split at h
    · next hlt => exact ⟨n, hlt, List.mem_singleton.mp h⟩
    · next hge =>
      rcases List.mem_append.mp h with h | h
      · exact ih (n / base) (Nat.div_lt_self (by omega) hbase) h
      · exact ⟨n % base, Nat.mod_lt n (by omega), List.mem_singleton.mp h⟩

end

/-! ### Doubles -/

def roundHalfEven (x : ℚ) : ℤ :=
  if x - ⌊x⌋ < 1 / 2 then ⌊x⌋
  else if 1 / 2 < x - ⌊x⌋ then ⌊x⌋ + 1
  else if Even ⌊x⌋ then ⌊x⌋
  else ⌊x⌋ + 1

/-- The double nearest to a number that is not negative, where the range ends at no exponent. -/
def roundToDouble (x : ℚ) : ℚ :=
  let exponent := max (Int.log 2 x - 52) (-1074)
  roundHalfEven (x / 2 ^ exponent) * 2 ^ exponent

theorem roundHalfEven_intCast (z : ℤ) : roundHalfEven z = z := by
  rw [roundHalfEven, Int.floor_intCast, sub_self, if_pos (by norm_num)]

/-- **A whole number below `2 ^ 53` is a double.** -/
theorem roundToDouble_natCast {n : Nat} (h : n < 2 ^ 53) : roundToDouble n = n := by
  have hlog : Int.log 2 (n : ℚ) ≤ 52 := by
    rw [Int.log_natCast]
    exact_mod_cast Nat.lt_succ_iff.mp (Nat.log_lt_of_lt_pow' (by decide) h)
  obtain ⟨k, hk⟩ : ∃ k : Nat, max (Int.log 2 (n : ℚ) - 52) (-1074) = -(k : ℤ) :=
    ⟨(-max (Int.log 2 (n : ℚ) - 52) (-1074)).toNat, by omega⟩
  have hscaled : (n : ℚ) / 2 ^ (-(k : ℤ)) = ((n * 2 ^ k : ℤ) : ℚ) := by
    rw [zpow_neg, zpow_natCast, div_inv_eq_mul]
    push_cast
    rfl
  change (roundHalfEven ((n : ℚ) / 2 ^ max (Int.log 2 (n : ℚ) - 52) (-1074)) : ℚ) *
    2 ^ max (Int.log 2 (n : ℚ) - 52) (-1074) = n
  rw [hk, hscaled, roundHalfEven_intCast, zpow_neg, zpow_natCast]
  push_cast
  rw [mul_assoc, mul_inv_cancel₀ (by positivity), mul_one]

end SnapUrl.Lib
