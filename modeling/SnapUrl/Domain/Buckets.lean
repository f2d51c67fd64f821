import SnapUrl.Domain.Routing

/-!
# The points of a split

`bucketOf` reduces the FNV-1a hash of a visitor key to one of ten thousand points.

* `bucketOf_singleton`: the point of a key of one character, in closed form as
  long as the 32-bit product does not wrap.
* `exists_bucketOf`: **every point is the point of some key**, of one character
  already.
-/

namespace SnapUrl.Domain

/-- The FNV basis with its lower half taken out: a key of one character, with the code
`v ^^^ 0x9dc5`, leaves `v` there before the product. -/
theorem basis_xor {v : Nat} (hv : v < 65536) :
    0x811c9dc5 ^^^ (v ^^^ 0x9dc5) = 0x811c0000 + v := by
  have hdiv : (0x811c9dc5 ^^^ (v ^^^ 0x9dc5)) / 2 ^ 16 = 0x811c := by
    rw [Nat.xor_div_two_pow, Nat.xor_div_two_pow, Nat.div_eq_of_lt (show v < 2 ^ 16 from hv)]
    decide
  have hmod : (0x811c9dc5 ^^^ (v ^^^ 0x9dc5)) % 2 ^ 16 = v := by
    rw [Nat.xor_mod_two_pow, Nat.xor_mod_two_pow, Nat.mod_eq_of_lt (show v < 2 ^ 16 from hv),
      Nat.xor_comm v, ← Nat.xor_assoc]
    exact (congrArg (· ^^^ v) (by decide)).trans (Nat.zero_xor v)
  omega

/-- A code is no surrogate unless the upper byte it was made from is one of eight. -/
theorem isValidChar_xor {a b : Nat} (ha : a < 256) (hb : b < 256) (hfree : ¬ (64 ≤ a ∧ a < 72)) :
    Nat.isValidChar ((256 * a + b) ^^^ 0x9dc5) := by
  have hlt : (256 * a + b) ^^^ 0x9dc5 < 2 ^ 16 :=
    Nat.xor_lt_two_pow (by omega) (by decide)
  have hdiv : ((256 * a + b) ^^^ 0x9dc5) / 2 ^ 11 = a / 8 ^^^ 19 := by
    rw [Nat.xor_div_two_pow, show (256 * a + b) / 2 ^ 11 = a / 8 by omega]
  have hfive : ∀ k < 32, k ≠ 8 → k ^^^ 19 ≠ 27 := by decide
  have hne : a / 8 ^^^ 19 ≠ 27 := hfive (a / 8) (by omega) (by omega)
  rw [← hdiv] at hne
  rw [Nat.isValidChar]
  omega

/-- The point of a key of one character. -/
theorem bucketOf_singleton {a b : Nat} (ha : a < 256) (hb : b < 128)
    (hfree : ¬ (64 ≤ a ∧ a < 72)) :
    bucketOf (String.ofList [Char.ofNat ((256 * a + b) ^^^ 0x9dc5)]) 10000 =
      (1058275328 + 16777619 * b + 103168 * a) % 10000 := by
  have hlt : (256 * a + b) ^^^ 0x9dc5 < 2 ^ 16 := Nat.xor_lt_two_pow (by omega) (by decide)
  have hcode : (Char.ofNat ((256 * a + b) ^^^ 0x9dc5)).toNat = (256 * a + b) ^^^ 0x9dc5 := by
    rw [Char.ofNat, dif_pos (isValidChar_xor ha (by omega) hfree)]
    rfl
  have hhash : ((0x811c9dc5 ^^^ ((256 * a + b) ^^^ 0x9dc5).toUInt32) * 0x01000193 : UInt32).toNat =
      1058275328 + 16777619 * b + 103168 * a := by
    have hunit : ((256 * a + b) ^^^ 0x9dc5).toUInt32.toNat = (256 * a + b) ^^^ 0x9dc5 :=
      UInt32.toNat_ofNat'.trans (Nat.mod_eq_of_lt (by omega))
    have hbasis : (0x811c9dc5 : UInt32).toNat = 0x811c9dc5 := rfl
    have hprime : (0x01000193 : UInt32).toNat = 0x01000193 := rfl
    rw [UInt32.toNat_mul, UInt32.toNat_xor, hunit, hbasis, hprime, basis_xor (by omega)]
    omega
  rw [bucketOf, String.toList_ofList, List.flatMap_cons, List.flatMap_nil, List.append_nil,
    utf16Units, hcode, if_pos (show _ < 0x10000 from hlt), List.foldl_cons, List.foldl_nil, hhash]

/-- The lower byte settles the point mod 16 and the upper byte mod 625.  Eight lower bytes do
for each residue mod 16, and for one of them the upper byte is free. -/
theorem exists_upper (c : Nat) :
    ∃ j < 8, (407 * c + 72 * j) % 625 < 256 ∧
      ¬ (64 ≤ (407 * c + 72 * j) % 625 ∧ (407 * c + 72 * j) % 625 < 72) := by
  have hmod (j : Nat) : (407 * c + 72 * j) % 625 = (407 * c % 625 + 72 * j) % 625 :=
    (Nat.mod_add_mod _ _ _).symm
  have hlt : 407 * c % 625 < 625 := Nat.mod_lt _ (by decide)
  simp only [hmod]
  generalize 407 * c % 625 = r at hlt
  by_cases hsmall : r < 256
  · by_cases hfree : 64 ≤ r ∧ r < 72
    · exact ⟨1, by omega, by omega, by omega⟩
    · exact ⟨0, by omega, by omega, by omega⟩
  -- the first step over 625 ends below 72, the next one below 144
  · by_cases hfree : r + 72 * ((696 - r) / 72) < 689
    · exact ⟨(696 - r) / 72, by omega, by omega, by omega⟩
    · exact ⟨(696 - r) / 72 + 1, by omega, by omega, by omega⟩

/-- **Every point is the point of some key.** -/
theorem exists_bucketOf {n : Nat} (h : n < 10000) : ∃ seed, bucketOf seed 10000 = n := by
  let low := 11 * n % 16
  let c := (n + 624 * (328 + 119 * low)) % 625
  obtain ⟨j, hj, hbyte, hfree⟩ := exists_upper c
  have hpoint := bucketOf_singleton (b := low + 16 * j) hbyte (by omega) hfree
  refine ⟨_, hpoint.trans ?_⟩
  omega

end SnapUrl.Domain
