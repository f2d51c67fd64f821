import Mathlib
import SnapUrl.Domain.Hll

/-!
# Sketches of lists

* `sketchOfHashes`: the sketch of a list of hashes, none where `addHashed` throws.
* `serialize`, `deserialize`: one byte a register.
* `Reachable`: what adding and merging can make of an empty sketch; `reachable_iff`: **all that
  ranks up to nineteen allow**.
* `sketch_laws`: **a sketch is a set of hashes**: neither order nor repetition counts, merging is
  the union, and the bytes give it back.
-/

namespace SnapUrl.Domain

open Lib FormUrlencoded

/-! ### Bytes -/

/-- `HLL_BYTE_SIZE`. -/
def hllByteSize : Nat := hllRegisterCount

def serialize (sketch : Sketch) : List UInt8 := List.ofFn fun i => UInt8.ofNat (sketch i)

/-- As many bytes as registers. -/
def registers {n : Nat} (bytes : List UInt8) (h : bytes.length = n) : Fin n → Nat :=
  fun i => (bytes.get (i.cast h.symm)).toNat

/-- `none` where the code throws. -/
def deserialize (bytes : List UInt8) : Option Sketch :=
  if h : bytes.length = hllByteSize then some (registers bytes h) else none

theorem length_serialize (sketch : Sketch) : (serialize sketch).length = hllByteSize :=
  List.length_ofFn

theorem registers_ofFn {n : Nat} (f : Fin n → Nat) (hf : ∀ i, f i < 256)
    (h : (List.ofFn fun i => UInt8.ofNat (f i)).length = n) :
    registers (List.ofFn fun i => UInt8.ofNat (f i)) h = f := by
  funext i
  rw [registers, List.get_ofFn, UInt8.toNat_ofNat']
  exact Nat.mod_eq_of_lt (hf _)

/-- **The bytes give back every sketch whose ranks are bytes.** -/
theorem deserialize_serialize {sketch : Sketch} (h : ∀ i, sketch i < 256) :
    deserialize (serialize sketch) = some sketch := by
  rw [deserialize, dif_pos (length_serialize sketch)]
  exact congrArg some (registers_ofFn sketch h (length_serialize sketch))

/-! ### Joins in any order -/

/-- A fold of joins is the join of a set. -/
theorem foldl_sup {α β : Type*} [DecidableEq α] [SemilatticeSup β] [OrderBot β] (f : α → β)
    (xs : List α) (b : β) : xs.foldl (fun b x => b ⊔ f x) b = b ⊔ xs.toFinset.sup f := by
  induction xs generalizing b with
  | nil => exact (sup_bot_eq b).symm
  | cons x xs ih => rw [List.foldl_cons, ih, List.toFinset_cons, Finset.sup_insert, sup_assoc]

theorem foldl_addValue (xs : List (BitVec 32)) (sketch : Sketch) :
    xs.foldl addValue sketch = sketch ⊔ xs.toFinset.sup sketchOf := by
  have hstep : addValue = fun sketch x => sketch ⊔ sketchOf x :=
    funext fun sketch => funext (addValue_eq sketch)
  rw [hstep, foldl_sup]

/-! ### Sketches of lists -/

/-- The sketch of a list of hashes, none where `addHashed` throws. -/
def sketchOfHashes (hashes : List String) : Option Sketch := hashes.foldlM addHashed createSketch

/-- Every hash is one that `addHashed` takes. -/
def AllHashes (hashes : List String) : Prop :=
  ∀ hash ∈ hashes, (hashHexTo32Bit hash).isSome = true

instance (hashes : List String) : Decidable (AllHashes hashes) :=
  inferInstanceAs (Decidable (∀ hash ∈ hashes, (hashHexTo32Bit hash).isSome = true))

theorem foldlM_addHashed (hashes : List String) (sketch : Sketch) :
    hashes.foldlM addHashed sketch =
      if AllHashes hashes then some ((hashes.filterMap hashHexTo32Bit).foldl addValue sketch)
      else none := by
  induction hashes generalizing sketch with
  | nil => rfl
  | cons hash hashes ih =>
    rw [List.foldlM_cons, addHashed]
    cases hx : hashHexTo32Bit hash with
    | none =>
      rw [if_neg fun hall => ?_]
      · rfl
      · have hsome := hall hash List.mem_cons_self
        rw [hx] at hsome
        cases hsome
    | some x =>
      have hiff : AllHashes (hash :: hashes) ↔ AllHashes hashes := by
        rw [AllHashes, List.forall_mem_cons, hx]
        exact and_iff_right rfl
      rw [List.filterMap_cons_some hx, List.foldl_cons]
      simp only [hiff]
      exact ih (addValue sketch x)

/-- **A list of hashes has the sketch of its set.** -/
theorem sketchOfHashes_eq (hashes : List String) :
    sketchOfHashes hashes = if AllHashes hashes then
      some ((hashes.filterMap hashHexTo32Bit).toFinset.sup sketchOf) else none := by
  rw [sketchOfHashes, foldlM_addHashed, foldl_addValue]
  have hbot : createSketch = (⊥ : Sketch) := rfl
  rw [hbot, bot_sup_eq]

theorem sketchOfHashes_congr {xs ys : List String} (h : ∀ hash, hash ∈ xs ↔ hash ∈ ys) :
    sketchOfHashes xs = sketchOfHashes ys := by
  have hall : AllHashes xs ↔ AllHashes ys := forall_congr' fun hash => by rw [h hash]
  have hset : (xs.filterMap hashHexTo32Bit).toFinset = (ys.filterMap hashHexTo32Bit).toFinset := by
    ext x
    simp only [List.mem_toFinset, List.mem_filterMap, h]
  rw [sketchOfHashes_eq, sketchOfHashes_eq, hset]
  simp only [hall]

/-- **The sketch of two lists is the two sketches merged.** -/
theorem sketchOfHashes_append (xs ys : List String) :
    sketchOfHashes (xs ++ ys) =
      (sketchOfHashes xs).bind fun a => (sketchOfHashes ys).map (merge a) := by
  have hall : AllHashes (xs ++ ys) ↔ AllHashes xs ∧ AllHashes ys := List.forall_mem_append
  rw [sketchOfHashes_eq, sketchOfHashes_eq, sketchOfHashes_eq, List.filterMap_append,
    List.toFinset_append, Finset.sup_union]
  simp only [hall]
  by_cases hxs : AllHashes xs
  · rw [if_pos hxs, Option.bind_some]
    by_cases hys : AllHashes ys
    · rw [if_pos hys, if_pos ⟨hxs, hys⟩, Option.map_some, merge_eq_sup]
    · rw [if_neg hys, if_neg fun h => hys h.2, Option.map_none]
  · rw [if_neg hxs, if_neg fun h => hxs h.1, Option.bind_none]

/-! ### What can be reached -/

/-- What adding and merging can make of an empty sketch. -/
inductive Reachable : Sketch → Prop where
  | create : Reachable createSketch
  | add {sketch sketch' : Sketch} {hashHex : String} :
    Reachable sketch → addHashed sketch hashHex = some sketch' → Reachable sketch'
  | merge {a b : Sketch} : Reachable a → Reachable b → Reachable (merge a b)

theorem sketchOf_le (x : BitVec 32) (i : Fin hllRegisterCount) : sketchOf x i ≤ 19 := by
  rw [sketchOf]
  split
  · exact rankOf_le x
  · exact Nat.zero_le _

/-- **A register holds at most one more than the bits that a hash leaves for its rank.** -/
theorem Reachable.rank_le {sketch : Sketch} (h : Reachable sketch) (i : Fin hllRegisterCount) :
    sketch i ≤ 32 - hllPrecision + 1 := by
  induction h with
  | create => exact Nat.zero_le _
  | add _ hadd ih =>
    obtain ⟨x, -, rfl⟩ := Option.map_eq_some_iff.mp hadd
    rw [addValue_eq]
    exact sup_le ih (sketchOf_le x i)
  | merge _ _ iha ihb =>
    rw [merge_eq_sup]
    exact sup_le iha ihb

/-! ### Every sketch of such ranks -/

/-- The eight digits of a value, and as many zeros for the three words after it. -/
def hashOf (x : BitVec 32) : String :=
  String.ofList ([7, 6, 5, 4, 3, 2, 1, 0].map (fun place =>
    Nat.digitChar (x.toNat / 16 ^ place % 16)) ++ List.replicate 24 '0')

theorem hexValue_digitChar {v : Nat} (h : v < 16) :
    hexValue (Nat.digitChar v).toNat = some v := by
  revert v
  decide

/-- Digits are read back as a number. -/
theorem toNat_hexWord (vs : List Nat) (hvs : ∀ v ∈ vs, v < 16) :
    hexWord (vs.map Nat.digitChar) =
      BitVec.ofNat 32 (vs.foldl (fun n v => n * 16 + v) 0) := by
  have hfold : ∀ (word : BitVec 32) (n : Nat), word = BitVec.ofNat 32 n →
      (vs.map Nat.digitChar).foldl (fun word c => word * 16#32 +
        BitVec.ofNat 32 ((hexValue c.toNat).getD 0)) word =
      BitVec.ofNat 32 (vs.foldl (fun n v => n * 16 + v) n) := by
    induction vs with
    | nil => exact fun word n h => h
    | cons v vs ih =>
      intro word n hword
      obtain ⟨hv, hvs'⟩ := List.forall_mem_cons.mp hvs
      rw [List.map_cons, List.foldl_cons, List.foldl_cons]
      refine ih hvs' _ _ ?_
      rw [hexValue_digitChar hv, hword, Option.getD_some, BitVec.ofNat_add, BitVec.ofNat_mul]
  exact hfold 0#32 0 rfl

/-- Every value has a hash. -/
theorem hashHexTo32Bit_hashOf (x : BitVec 32) : hashHexTo32Bit (hashOf x) = some x := by
  set vs := [7, 6, 5, 4, 3, 2, 1, 0].map fun place => x.toNat / 16 ^ place % 16 with hvs
  have hsmall : ∀ v ∈ vs, v < 16 := by
    intro v hv
    obtain ⟨place, -, rfl⟩ := List.mem_map.mp hv
    exact Nat.mod_lt _ (by decide)
  have hdigits : (hashOf x).toList = vs.map Nat.digitChar ++ List.replicate 24 '0' := by
    rw [hashOf, String.toList_ofList, hvs, List.map_map]
    rfl
  have hlength : (vs.map Nat.digitChar).length = 8 := rfl
  have hall : (vs.map Nat.digitChar ++ List.replicate 24 '0').all
      (fun c => (hexValue c.toNat).isSome) = true := by
    rw [List.all_append, Bool.and_eq_true, List.all_map]
    refine ⟨List.all_eq_true.mpr fun v hv => ?_, by decide⟩
    rw [Function.comp_apply, hexValue_digitChar (hsmall v hv)]
    rfl
  have hzero : hexWord (List.replicate 8 '0') = 0#32 := by decide
  have hword : hexWord (vs.map Nat.digitChar) = x := by
    rw [toNat_hexWord vs hsmall]
    refine BitVec.eq_of_toNat_eq ?_
    have hfirst : x.toNat / 16 ^ 7 % 16 = x.toNat / 16 ^ 7 :=
      Nat.mod_eq_of_lt (Nat.div_lt_of_lt_mul x.isLt)
    have hnext (k : Nat) : x.toNat / 16 ^ (k + 1) * 16 + x.toNat / 16 ^ k % 16 =
        x.toNat / 16 ^ k := by
      rw [pow_succ, ← Nat.div_div_eq_div_mul]
      exact Nat.div_add_mod' _ _
    rw [BitVec.toNat_ofNat, hvs]
    simp only [List.map_cons, List.map_nil, List.foldl_cons, List.foldl_nil]
    rw [zero_mul, zero_add, hfirst, hnext 6, hnext 5, hnext 4, hnext 3, hnext 2, hnext 1, hnext 0,
      pow_zero, Nat.div_one]
    exact Nat.mod_eq_of_lt x.isLt
  rw [hashHexTo32Bit, hdigits]
  rw [if_pos ⟨by rw [List.length_append, hlength, List.length_replicate], hall⟩]
  -- the other three words are zeros
  have hword' : ∀ k ≤ 16, hexWord (((vs.map Nat.digitChar ++ List.replicate 24 '0').drop
      (8 + k)).take 8) = 0#32 := by
    intro k hk
    rw [← hlength, List.drop_length_add_append, List.drop_replicate, List.take_replicate,
      min_eq_left (by omega)]
    exact hzero
  have hfirst : ((vs.map Nat.digitChar ++ List.replicate 24 '0').drop 0).take 8 =
      vs.map Nat.digitChar := List.take_left' hlength
  simp only [List.foldl_cons, List.foldl_nil]
  rw [hfirst, hword, hword' 0 (by decide), hword' 8 (by decide), hword' 16 (by decide)]
  simp

/-! ### One register -/

/-- A value that gives a register a rank. -/
def valueOf (i : Fin hllRegisterCount) (rank : Nat) : BitVec 32 :=
  BitVec.ofNat 32 (i.val * 2 ^ 18 + if rank ≤ 18 then 2 ^ (18 - rank) else 0)

theorem registerOf_valueOf (i : Fin hllRegisterCount) {rank : Nat} (hpos : 0 < rank) :
    registerOf (valueOf i rank) = i := by
  have hi : i.val < 16384 := i.isLt
  have hlow : (if rank ≤ 18 then 2 ^ (18 - rank) else 0) < 2 ^ 18 := by
    split
    · exact Nat.pow_lt_pow_right (by decide) (by omega)
    · decide
  refine Fin.ext ?_
  rw [registerOf, valueOf]
  generalize (if rank ≤ 18 then 2 ^ (18 - rank) else 0) = low at hlow
  simp only [hllPrecision, BitVec.toNat_ushiftRight, Nat.shiftRight_eq_div_pow, BitVec.toNat_ofNat]
  omega

theorem rankOf_valueOf (i : Fin hllRegisterCount) {rank : Nat} (hpos : 0 < rank)
    (hle : rank ≤ 19) : rankOf (valueOf i rank) = rank := by
  have hi : i.val < 16384 := i.isLt
  have htail : valueOf i rank <<< hllPrecision =
      BitVec.ofNat 32 (if rank ≤ 18 then 2 ^ (32 - rank) else 0) := by
    refine BitVec.eq_of_toNat_eq ?_
    rw [valueOf, BitVec.toNat_shiftLeft, BitVec.toNat_ofNat, BitVec.toNat_ofNat,
      Nat.shiftLeft_eq, hllPrecision]
    split
    · have hpow : 2 ^ (32 - rank) = 2 ^ (18 - rank) * 2 ^ 14 := by
        rw [← pow_add]
        congr 1
        omega
      rw [hpow]
      generalize 2 ^ (18 - rank) = low
      omega
    · omega
  have hranks : ∀ rank < 20, 0 < rank →
      (if BitVec.ofNat 32 (if rank ≤ 18 then 2 ^ (32 - rank) else 0) = 0#32 then 19
        else (BitVec.ofNat 32 (if rank ≤ 18 then 2 ^ (32 - rank) else 0)).clz.toNat + 1) = rank := by
    decide +kernel
  rw [rankOf, htail]
  exact hranks rank (by omega) hpos

/-- The sketch of one register. -/
def registerSketch (i : Fin hllRegisterCount) (rank : Nat) : Sketch :=
  fun j => if j = i then rank else 0

theorem reachable_registerSketch (i : Fin hllRegisterCount) {rank : Nat} (hle : rank ≤ 19) :
    Reachable (registerSketch i rank) := by
  rcases Nat.eq_zero_or_pos rank with rfl | hpos
  · have hzero : registerSketch i 0 = createSketch := by
      funext j
      exact ite_self 0
    rw [hzero]
    exact .create
  · have hone : sketchOf (valueOf i rank) = registerSketch i rank := by
      funext j
      rw [sketchOf, registerOf_valueOf i hpos, rankOf_valueOf i hpos hle]
      rfl
    have hadd : addHashed createSketch (hashOf (valueOf i rank)) = some (registerSketch i rank) := by
      have hbot : createSketch = (⊥ : Sketch) := rfl
      rw [addHashed, hashHexTo32Bit_hashOf, Option.map_some, addValue_eq, hone, hbot, bot_sup_eq]
    exact .add .create hadd

/-- A sketch is its registers merged. -/
theorem sup_registerSketch (sketch : Sketch) :
    Finset.univ.sup (fun i => registerSketch i (sketch i)) = sketch := by
  refine le_antisymm (Finset.sup_le fun i _ j => ?_) fun j => ?_
  · rw [registerSketch]
    split
    · next hij => rw [hij]
    · exact Nat.zero_le _
  · have hle := Finset.le_sup (f := fun i => registerSketch i (sketch i)) (Finset.mem_univ j) j
    rw [registerSketch, if_pos rfl] at hle
    exact hle

/-- **A sketch can be reached exactly when no rank passes nineteen.** -/
theorem reachable_iff {sketch : Sketch} : Reachable sketch ↔ ∀ i, sketch i ≤ 19 := by
  refine ⟨fun h => h.rank_le, fun h => ?_⟩
  rw [← sup_registerSketch sketch]
  refine Finset.sup_induction Reachable.create (fun a ha b hb => ?_) fun i _ =>
    reachable_registerSketch i (h i)
  rw [← merge_eq_sup]
  exact ha.merge hb

/-! ### The laws -/

/-- **A sketch is the set of its hashes**: neither order nor repetition counts, merging is the
union and so a semilattice, no rank passes what a hash allows, and the bytes give it back. -/
theorem sketch_laws (xs ys : List String) :
    ((∀ hash, hash ∈ xs ↔ hash ∈ ys) → sketchOfHashes xs = sketchOfHashes ys) ∧
    sketchOfHashes (xs ++ ys) =
      (sketchOfHashes xs).bind (fun a => (sketchOfHashes ys).map (merge a)) ∧
    (∀ a b c : Sketch, merge a b = merge b a ∧ merge (merge a b) c = merge a (merge b c) ∧
      merge a a = a) ∧
    ∀ sketch, Reachable sketch → (∀ i, sketch i ≤ 32 - hllPrecision + 1) ∧
      deserialize (serialize sketch) = some sketch := by
  refine ⟨sketchOfHashes_congr, sketchOfHashes_append xs ys, fun a b c => ?_, fun sketch h => ?_⟩
  · simp only [merge_eq_sup]
    exact ⟨sup_comm a b, sup_assoc a b c, sup_idem a⟩
  · refine ⟨h.rank_le, deserialize_serialize fun i => ?_⟩
    exact lt_of_le_of_lt (h.rank_le i) (by decide)

end SnapUrl.Domain
