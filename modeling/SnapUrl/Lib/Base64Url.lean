import Mathlib.Tactic.IntervalCases
import Mathlib.Data.List.Basic

/-!
# Bytes written as base64url

Three bytes make four digits of six bits, and what is left over makes two or three.
There is no padding.

* `encode`, `decode`: a decoder skips the characters that are no digits, and reads the
  digits of the plain alphabet as well.
* `decode_encode`: **what was written is read back.**
-/

namespace SnapUrl.Lib.Base64Url

/-- The character of a digit below 64. -/
def digit (n : Nat) : Char :=
  Char.ofNat
    (if n < 26 then 0x41 + n
    else if n < 52 then 0x61 + (n - 26)
    else if n < 62 then 0x30 + (n - 52)
    else if n = 62 then 0x2D
    else 0x5F)

def value (c : Char) : Option Nat :=
  if 'A' ≤ c ∧ c ≤ 'Z' then some (c.toNat - 0x41)
  else if 'a' ≤ c ∧ c ≤ 'z' then some (c.toNat - 0x61 + 26)
  else if '0' ≤ c ∧ c ≤ '9' then some (c.toNat - 0x30 + 52)
  else if c = '-' ∨ c = '+' then some 62
  else if c = '_' ∨ c = '/' then some 63
  else none

/-- The digits of a sequence of bytes. -/
def sextets : List UInt8 → List Nat
  | x :: y :: z :: rest =>
    x.toNat / 4 :: (x.toNat % 4 * 16 + y.toNat / 16) :: (y.toNat % 16 * 4 + z.toNat / 64) ::
      z.toNat % 64 :: sextets rest
  | [x, y] => [x.toNat / 4, x.toNat % 4 * 16 + y.toNat / 16, y.toNat % 16 * 4]
  | [x] => [x.toNat / 4, x.toNat % 4 * 16]
  | [] => []

/-- The bytes whose bits are all there. -/
def bytes : List Nat → List UInt8
  | a :: b :: c :: d :: rest =>
    UInt8.ofNat (a * 4 + b / 16) :: UInt8.ofNat (b % 16 * 16 + c / 4) ::
      UInt8.ofNat (c % 4 * 64 + d) :: bytes rest
  | [a, b, c] => [UInt8.ofNat (a * 4 + b / 16), UInt8.ofNat (b % 16 * 16 + c / 4)]
  | [a, b] => [UInt8.ofNat (a * 4 + b / 16)]
  | _ => []

def encode (bs : List UInt8) : String := String.ofList ((sextets bs).map digit)

def decode (s : String) : List UInt8 := bytes (s.toList.filterMap value)

/-! ### Reading back -/

theorem value_digit {n : Nat} (h : n < 64) : value (digit n) = some n := by
  interval_cases n <;> rfl

theorem sextets_lt {bs : List UInt8} {n : Nat} (h : n ∈ sextets bs) : n < 64 := by
  fun_induction sextets bs with
  | case1 x y z rest ih =>
    have hx := x.toNat_lt
    have hy := y.toNat_lt
    simp only [List.mem_cons] at h
    rcases h with rfl | rfl | rfl | rfl | h
    · omega
    · omega
    · have hz := z.toNat_lt
      omega
    · omega
    · exact ih h
  | case2 x y =>
    have hx := x.toNat_lt
    have hy := y.toNat_lt
    simp only [List.mem_cons, List.not_mem_nil, or_false] at h
    omega
  | case3 x =>
    have hx := x.toNat_lt
    simp only [List.mem_cons, List.not_mem_nil, or_false] at h
    omega
  | case4 => simp at h

theorem filterMap_value_digits {ns : List Nat} (h : ∀ n ∈ ns, n < 64) :
    (ns.map digit).filterMap value = ns := by
  induction ns with
  | nil => rfl
  | cons n ns ih =>
    rw [List.map_cons, List.filterMap_cons_some (value_digit (h n List.mem_cons_self)),
      ih fun m hm => h m (List.mem_cons_of_mem _ hm)]

theorem ofNat_eq {x : UInt8} {n : Nat} (h : n = x.toNat) : UInt8.ofNat n = x := by
  rw [h, UInt8.ofNat_toNat]

theorem bytes_sextets (bs : List UInt8) : bytes (sextets bs) = bs := by
  fun_induction sextets bs with
  | case1 x y z rest ih =>
    have hx := x.toNat_lt
    have hy := y.toNat_lt
    have hz := z.toNat_lt
    rw [bytes, ih, ofNat_eq (x := x) (by omega), ofNat_eq (x := y) (by omega),
      ofNat_eq (x := z) (by omega)]
  | case2 x y =>
    have hx := x.toNat_lt
    have hy := y.toNat_lt
    rw [bytes, ofNat_eq (x := x) (by omega), ofNat_eq (x := y) (by omega)]
  | case3 x =>
    have hx := x.toNat_lt
    rw [bytes, ofNat_eq (x := x) (by omega)]
  | case4 => rfl

/-- **What was written is read back.** -/
theorem decode_encode (bs : List UInt8) : decode (encode bs) = bs := by
  rw [decode, encode, String.toList_ofList, filterMap_value_digits fun n hn => sextets_lt hn,
    bytes_sextets]

theorem encode_ne_empty {bs : List UInt8} (h : bs ≠ []) : encode bs ≠ "" := by
  intro he
  refine h ?_
  rw [← decode_encode bs, he]
  rfl

end SnapUrl.Lib.Base64Url
