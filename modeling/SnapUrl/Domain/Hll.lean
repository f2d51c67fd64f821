import Mathlib.Order.Lattice
import SnapUrl.Lib.FormUrlencoded

/-!
# HyperLogLog sketches

`packages/domain/src/hll.ts`: approximate uniques, without its estimator, which is
floating point.

* `addHashed`: one visitor raises one register to the rank of its hash.
* `merge`: the larger register of two sketches.  Adding a visitor is merging the
  sketch of that visitor (`addValue_eq`), so **what a sketch holds does not depend on
  the order of its visitors** (`addValue_right_comm`) **nor on how they were split
  between sketches** (`merge_addValue`).
-/

namespace SnapUrl.Domain

open Lib FormUrlencoded

/-- `HLL_PRECISION`. -/
def hllPrecision : Nat := 14

/-- `HLL_REGISTER_COUNT`. -/
def hllRegisterCount : Nat := 1 <<< hllPrecision

/-- One register each, a byte in the source; `rankOf_le` says that a byte is ample. -/
abbrev Sketch := Fin hllRegisterCount → Nat

/-- A fresh, empty sketch. -/
def createSketch : Sketch := fun _ => 0

/-- `parseInt(word, 16)` of eight hexadecimal digits. -/
def hexWord (digits : List Char) : BitVec 32 :=
  digits.foldl (fun word c => word * 16#32 + BitVec.ofNat 32 ((hexValue c.toNat).getD 0)) 0#32

/-- The exclusive or of the four words of a hash, `none` where the code throws. -/
def hashHexTo32Bit (hashHex : String) : Option (BitVec 32) :=
  let digits := hashHex.toList
  if digits.length = 32 ∧ digits.all (fun c => (hexValue c.toNat).isSome) = true then
    some ([0, 8, 16, 24].foldl (fun x offset => x ^^^ hexWord ((digits.drop offset).take 8)) 0#32)
  else none

/-- The top bits of a value. -/
def registerOf (x : BitVec 32) : Fin hllRegisterCount :=
  ⟨(x >>> (32 - hllPrecision)).toNat, by
    have hx := x.isLt
    simp only [hllPrecision, hllRegisterCount, BitVec.toNat_ushiftRight, Nat.shiftRight_eq_div_pow]
    omega⟩

/-- The place of the leftmost bit of the others, counting from 1. -/
def rankOf (x : BitVec 32) : Nat :=
  let tail := x <<< hllPrecision
  if tail = 0#32 then (32 - hllPrecision) + 1 else tail.clz.toNat + 1

/-- Eighteen bits are left of a value after its register, so no rank passes nineteen. -/
theorem rankOf_le (x : BitVec 32) : rankOf x ≤ 19 := by
  rw [rankOf]
  split
  · decide
  · rename_i htail
    have hlt := BitVec.toNat_lt_two_pow_sub_clz (x := x <<< hllPrecision)
    have hpos : (x <<< hllPrecision).toNat ≠ 0 := fun h => htail (BitVec.eq_of_toNat_eq h)
    have hge : 2 ^ 14 ≤ (x <<< hllPrecision).toNat := by
      have heq : (x <<< hllPrecision).toNat = x.toNat * 2 ^ 14 % 2 ^ 32 := by
        rw [BitVec.toNat_shiftLeft, Nat.shiftLeft_eq, hllPrecision]
      omega
    have hexp := (Nat.pow_lt_pow_iff_right (by decide : 1 < 2)).mp (lt_of_le_of_lt hge hlt)
    omega

def addValue (sketch : Sketch) (x : BitVec 32) : Sketch :=
  if sketch (registerOf x) < rankOf x then Function.update sketch (registerOf x) (rankOf x)
  else sketch

/-- Add one visitor to the sketch, `none` where the code throws. -/
def addHashed (sketch : Sketch) (hashHex : String) : Option Sketch :=
  (hashHexTo32Bit hashHex).map (addValue sketch)

/-- The element-wise maximum. -/
def merge (a b : Sketch) : Sketch := fun i => if b i < a i then a i else b i

/-! ### Sketches as a semilattice -/

theorem merge_eq_sup (a b : Sketch) : merge a b = a ⊔ b := by
  funext i
  rw [merge, Pi.sup_apply]
  split
  · rename_i h
    exact (max_eq_left h.le).symm
  · rename_i h
    exact (max_eq_right (not_lt.mp h)).symm

/-- The sketch of one visitor. -/
def sketchOf (x : BitVec 32) : Sketch := fun i => if i = registerOf x then rankOf x else 0

/-- **Adding a visitor is merging its sketch.** -/
theorem addValue_eq (sketch : Sketch) (x : BitVec 32) :
    addValue sketch x = sketch ⊔ sketchOf x := by
  funext i
  rw [addValue, Pi.sup_apply, sketchOf]
  by_cases hi : i = registerOf x
  · rw [if_pos hi]
    split
    · rename_i h
      rw [hi, Function.update_self]
      exact (max_eq_right h.le).symm
    · rename_i h
      rw [hi]
      exact (max_eq_left (not_lt.mp h)).symm
  · rw [if_neg hi, max_eq_left (Nat.zero_le _)]
    split
    · exact Function.update_of_ne hi _ _
    · rfl

theorem addValue_right_comm (sketch : Sketch) (x y : BitVec 32) :
    addValue (addValue sketch x) y = addValue (addValue sketch y) x := by
  simp only [addValue_eq]
  exact sup_right_comm sketch (sketchOf x) (sketchOf y)

theorem merge_addValue (a b : Sketch) (x : BitVec 32) :
    merge a (addValue b x) = addValue (merge a b) x := by
  simp only [merge_eq_sup, addValue_eq]
  exact (sup_assoc a b (sketchOf x)).symm

theorem merge_createSketch (a : Sketch) : merge a createSketch = a := by
  rw [merge_eq_sup]
  exact sup_eq_left.mpr fun i => Nat.zero_le _

end SnapUrl.Domain
