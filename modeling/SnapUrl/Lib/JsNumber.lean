import Mathlib.Data.Nat.Digits.Defs

/-!
# Numbers as texts

`JsNumber.text` is `String(value)` of a number of JavaScript.
-/

namespace SnapUrl.Lib

/-- A number, by the decimal that it is written as: `s · 10ⁿ⁻ᵏ` for an `s` of `k` digits.
There is one for each number, the shortest that is read as it. -/
inductive JsNumber where
  | nan
  | zero
  | infinity (negative : Bool)
  | decimal (negative : Bool) (s : ℕ) (n : ℤ)
deriving DecidableEq, Repr

namespace JsNumber

def sign (negative : Bool) : List Char := if negative then ['-'] else []

/-- The digits, and zeros, a point or an exponent where the point is not behind the last one. -/
def decimalText (digits : List Char) (n : ℤ) : List Char :=
  if digits.length ≤ n ∧ n ≤ 21 then digits ++ List.replicate (n - digits.length).toNat '0'
  else if 0 < n ∧ n ≤ 21 then digits.take n.toNat ++ '.' :: digits.drop n.toNat
  else if -6 < n ∧ n ≤ 0 then '0' :: '.' :: (List.replicate (-n).toNat '0' ++ digits)
  else
    (if digits.length = 1 then digits else digits.take 1 ++ '.' :: digits.drop 1) ++
      'e' :: (if n - 1 < 0 then '-' else '+') :: Nat.toDigits 10 (n - 1).natAbs

/-- `Number::toString`. -/
def text : JsNumber → String
  | nan => "NaN"
  | zero => "0"
  | infinity negative => String.ofList (sign negative ++ "Infinity".toList)
  | decimal negative s n =>
    String.ofList (sign negative ++ decimalText (Nat.toDigits 10 s) n)

end JsNumber

end SnapUrl.Lib
