import Mathlib.Data.List.TakeWhile

/-!
# Paging with a cursor

A sorted list is read in pages of at most `limit`.  A page that is followed by more ends
in a cursor, made from its last element, and the next query finds what is `beyond` that
element.  A cursor may be coarser than the order of the list: what it is beyond of comes
later (`Cursor.later`), but not all that comes later need be beyond it.

* `walk`: the pages one after another, as long as there is a cursor.
* `walk_isSome`: **the walk ends**, after no more pages than there are elements.
* `walk_sublist`: it reads no element twice and none out of order.
* `walk_eq_iff`: **it reads all of them exactly when no page ends where its cursor
  overlooks the element that comes next.**
-/

namespace SnapUrl.Lib.Keyset

variable {α : Type*}

/-- What the query behind a cursor finds. -/
def found (beyond : α → α → Bool) (xs : List α) : Option α → List α
  | none => xs
  | some last => xs.filter (beyond last)

/-- The elements of all pages, `none` when there are more than `fuel`. -/
def walk (beyond : α → α → Bool) (limit : Nat) (xs : List α) : Nat → Option α → Option (List α)
  | 0, _ => none
  | fuel + 1, cursor =>
    let rows := found beyond xs cursor
    if limit < rows.length then
      (walk beyond limit xs fuel (rows.take limit).getLast?).map (rows.take limit ++ ·)
    else some rows

/-- A cursor over a list sorted by `r`. -/
structure Cursor (r : α → α → Prop) (beyond : α → α → Bool) (xs : List α) : Prop where
  sorted : xs.Pairwise r
  irrefl : ∀ a, ¬ r a a
  trans : ∀ a b c, r a b → r b c → r a c
  later : ∀ a b, beyond a b = true → r a b
  onward : ∀ a b c, beyond a b = true → r b c → beyond a c = true

/-- From the `m`th element on, no page ends where its cursor overlooks the next element. -/
def Exact (beyond : α → α → Bool) (limit : Nat) (xs : List α) (m : Nat) : Prop :=
  ∀ k a b, 0 < k → xs[m + k * limit - 1]? = some a → xs[m + k * limit]? = some b →
    beyond a b = true

variable {r : α → α → Prop} {beyond : α → α → Bool} {limit : Nat} {xs : List α}

/-! ### A sorted list and a condition that holds from some point on -/

/-- What meets such a condition is an end of the list. -/
theorem exists_filter_eq_drop {p : α → Bool} (hsorted : xs.Pairwise r)
    (honward : ∀ a b, p a = true → r a b → p b = true) :
    ∃ m ≤ xs.length, xs.filter p = xs.drop m ∧
      ∀ (i : Nat) (a : α), xs[i]? = some a → (m ≤ i ↔ p a = true) := by
  induction xs with
  | nil => exact ⟨0, le_rfl, rfl, by simp⟩
  | cons x xs ih =>
    obtain ⟨hx, hxs⟩ := List.pairwise_cons.mp hsorted
    by_cases hp : p x = true
    · have hall : ∀ a ∈ x :: xs, p a = true := by
        intro a ha
        rcases List.mem_cons.mp ha with rfl | ha
        · exact hp
        · exact honward x a hp (hx a ha)
      refine ⟨0, Nat.zero_le _, List.filter_eq_self.mpr hall, fun i a ha => ?_⟩
      exact iff_of_true (Nat.zero_le _) (hall a (List.mem_of_getElem? ha))
    · obtain ⟨m, hm, hdrop, hfrom⟩ := ih hxs
      refine ⟨m + 1, by rw [List.length_cons]; omega, ?_, fun i a ha => ?_⟩
      · rw [List.filter_cons_of_neg hp, hdrop, List.drop_succ_cons]
      · cases i with
        | zero =>
          obtain rfl : x = a := Option.some.inj ha
          exact iff_of_false (by omega) hp
        | succ i =>
          rw [Nat.add_le_add_iff_right]
          exact hfrom i a ha

/-- A cursor made from the `i`th element finds what comes from some later point on. -/
theorem exists_found_eq_drop (h : Cursor r beyond xs) {i : Nat} {a : α} (ha : xs[i]? = some a) :
    ∃ m, i < m ∧ m ≤ xs.length ∧ found beyond xs (some a) = xs.drop m ∧
      ∀ (j : Nat) (b : α), xs[j]? = some b → (m ≤ j ↔ beyond a b = true) := by
  obtain ⟨m, hm, hdrop, hfrom⟩ := exists_filter_eq_drop h.sorted (h.onward a)
  refine ⟨m, ?_, hm, hdrop, hfrom⟩
  by_contra hle
  exact h.irrefl a (h.later a a ((hfrom i a ha).mp (not_lt.mp hle)))

/-! ### The walk -/

section

variable {fuel m : Nat} {cursor : Option α}

/-- The last element of a page that is followed by more. -/
theorem getLast?_page (hlimit : 0 < limit) (hmore : limit < (xs.drop m).length) :
    ∃ a, xs[m + limit - 1]? = some a ∧ ((xs.drop m).take limit).getLast? = some a := by
  have hlen : m + limit - 1 < xs.length := by
    rw [List.length_drop] at hmore
    omega
  refine ⟨xs[m + limit - 1], List.getElem?_eq_getElem hlen, ?_⟩
  rw [List.getLast?_eq_getElem?, List.length_take, Nat.min_eq_left hmore.le,
    List.getElem?_take_of_lt (by omega), List.getElem?_drop,
    show m + (limit - 1) = m + limit - 1 by omega, List.getElem?_eq_getElem hlen]

theorem walk_succ_of_le (hfound : found beyond xs cursor = xs.drop m)
    (hlast : ¬ limit < (xs.drop m).length) :
    walk beyond limit xs (fuel + 1) cursor = some (xs.drop m) := by
  rw [walk, hfound]
  exact if_neg hlast

/-- A page that is followed by more, and the point from which its cursor reads on. -/
theorem walk_succ (h : Cursor r beyond xs) (hlimit : 0 < limit)
    (hfound : found beyond xs cursor = xs.drop m) (hmore : limit < (xs.drop m).length) :
    ∃ a m', xs[m + limit - 1]? = some a ∧ m + limit ≤ m' ∧ m' ≤ xs.length ∧
      found beyond xs (some a) = xs.drop m' ∧
      (∀ (j : Nat) (b : α), xs[j]? = some b → (m' ≤ j ↔ beyond a b = true)) ∧
      walk beyond limit xs (fuel + 1) cursor =
        (walk beyond limit xs fuel (some a)).map ((xs.drop m).take limit ++ ·) := by
  obtain ⟨a, ha, hgetLast⟩ := getLast?_page hlimit hmore
  obtain ⟨m', hlt, hle, hfound', hfrom⟩ := exists_found_eq_drop h ha
  refine ⟨a, m', ha, by omega, hle, hfound', hfrom, ?_⟩
  rw [walk, hfound, ← hgetLast]
  exact if_pos hmore

theorem walk_isSome_of_drop (h : Cursor r beyond xs) (hlimit : 0 < limit) (hm : m ≤ xs.length)
    (hfound : found beyond xs cursor = xs.drop m) (hfuel : xs.length < m + fuel) :
    (walk beyond limit xs fuel cursor).isSome = true := by
  induction fuel generalizing m cursor with
  | zero => omega
  | succ fuel ih =>
    by_cases hmore : limit < (xs.drop m).length
    · obtain ⟨a, m', _, hlt, hle, hfound', _, hwalk⟩ := walk_succ h hlimit hfound hmore
      rw [hwalk, Option.isSome_map]
      exact ih hle hfound' (by omega)
    · rw [walk_succ_of_le hfound hmore]
      rfl

theorem walk_sublist_of_drop (h : Cursor r beyond xs) (hlimit : 0 < limit)
    (hfound : found beyond xs cursor = xs.drop m) {ys : List α}
    (hys : walk beyond limit xs fuel cursor = some ys) : ys.Sublist (xs.drop m) := by
  induction fuel generalizing m cursor ys with
  | zero => exact absurd hys (by simp [walk])
  | succ fuel ih =>
    by_cases hmore : limit < (xs.drop m).length
    · obtain ⟨a, m', _, hlt, _, hfound', _, hwalk⟩ := walk_succ h hlimit hfound hmore
      rw [hwalk, Option.map_eq_some_iff] at hys
      obtain ⟨zs, hzs, rfl⟩ := hys
      have hrest : zs.Sublist ((xs.drop m).drop limit) := by
        rw [List.drop_drop]
        exact (ih hfound' hzs).trans (List.drop_sublist_drop_left xs hlt)
      have happend := List.Sublist.append (List.Sublist.refl ((xs.drop m).take limit)) hrest
      rwa [List.take_append_drop] at happend
    · rw [walk_succ_of_le hfound hmore, Option.some.injEq] at hys
      exact hys ▸ List.Sublist.refl _

/-- More fuel changes nothing once the walk has ended. -/
theorem walk_mono {ys : List α} (hys : walk beyond limit xs fuel cursor = some ys) {fuel' : Nat}
    (hle : fuel ≤ fuel') : walk beyond limit xs fuel' cursor = some ys := by
  induction fuel generalizing cursor ys fuel' with
  | zero => exact absurd hys (by simp [walk])
  | succ fuel ih =>
    obtain ⟨fuel', rfl⟩ := Nat.exists_eq_succ_of_ne_zero (show fuel' ≠ 0 by omega)
    rw [walk] at hys ⊢
    by_cases hmore : limit < (found beyond xs cursor).length
    · rw [if_pos hmore, Option.map_eq_some_iff] at hys
      obtain ⟨zs, hzs, rfl⟩ := hys
      rw [if_pos hmore, ih hzs (by omega), Option.map_some]
    · rw [if_neg hmore] at hys ⊢
      exact hys

/-- Where the next page begins decides whether all later pages can be exact. -/
theorem exact_succ {m' : Nat} {a : α} (ha : xs[m + limit - 1]? = some a)
    (hmore : limit < (xs.drop m).length) (hlimit : 0 < limit)
    (hfrom : ∀ (j : Nat) (b : α), xs[j]? = some b → (m' ≤ j ↔ beyond a b = true)) :
    Exact beyond limit xs m ↔ m' ≤ m + limit ∧ Exact beyond limit xs (m + limit) := by
  rw [List.length_drop] at hmore
  have hshift : ∀ k, m + limit + k * limit = m + (k + 1) * limit := by
    intro k
    rw [Nat.succ_mul]
    omega
  have hnext : xs[m + limit]? = some xs[m + limit] := List.getElem?_eq_getElem (by omega)
  constructor
  · intro hexact
    refine ⟨(hfrom _ _ hnext).mpr (hexact 1 _ _ Nat.one_pos ?_ ?_), fun k b c hk hb hc => ?_⟩
    · rwa [Nat.one_mul]
    · rwa [Nat.one_mul]
    · rw [hshift] at hb hc
      exact hexact (k + 1) b c (Nat.succ_pos k) hb hc
  · rintro ⟨hle, hexact⟩ k b c hk hb hc
    obtain ⟨k, rfl⟩ := Nat.exists_eq_succ_of_ne_zero hk.ne'
    rw [Nat.succ_eq_add_one, ← hshift] at hb hc
    rcases Nat.eq_zero_or_pos k with rfl | hpos
    · rw [Nat.zero_mul, Nat.add_zero] at hb hc
      obtain rfl : a = b := Option.some.inj (ha.symm.trans hb)
      exact (hfrom _ _ hc).mp hle
    · exact hexact k b c hpos hb hc

theorem walk_eq_drop_iff (h : Cursor r beyond xs) (hlimit : 0 < limit) (hm : m ≤ xs.length)
    (hfound : found beyond xs cursor = xs.drop m) (hfuel : xs.length < m + fuel) :
    walk beyond limit xs fuel cursor = some (xs.drop m) ↔ Exact beyond limit xs m := by
  induction fuel generalizing m cursor with
  | zero => omega
  | succ fuel ih =>
    by_cases hmore : limit < (xs.drop m).length
    · obtain ⟨a, m', ha, hlt, hle, hfound', hfrom, hwalk⟩ := walk_succ h hlimit hfound hmore
      rw [hwalk, exact_succ ha hmore hlimit hfrom]
      have hsplit : (xs.drop m).take limit ++ xs.drop (m + limit) = xs.drop m := by
        rw [← List.drop_drop, List.take_append_drop]
      constructor
      · intro hall
        obtain ⟨zs, hzs, happend⟩ := Option.map_eq_some_iff.mp hall
        obtain rfl : zs = xs.drop (m + limit) := List.append_cancel_left (happend.trans hsplit.symm)
        -- the rest of the walk begins at `m'`, so it cannot hold what stands before
        have hlen := (walk_sublist_of_drop h hlimit hfound' hzs).length_le
        rw [List.length_drop, List.length_drop] at hlen
        rw [List.length_drop] at hmore
        obtain rfl : m' = m + limit := by omega
        exact ⟨le_rfl, (ih hle hfound' (by omega)).mp hzs⟩
      · rintro ⟨hm', hexact⟩
        obtain rfl : m' = m + limit := le_antisymm hm' hlt
        rw [(ih hle hfound' (by omega)).mpr hexact, Option.map_some, hsplit]
    · rw [walk_succ_of_le hfound hmore]
      refine iff_of_true rfl fun k a b hk _ hb => ?_
      -- there is no second page
      have hlt := (List.getElem?_eq_some_iff.mp hb).1
      have hk' := Nat.le_mul_of_pos_left limit hk
      rw [List.length_drop] at hmore
      omega

end

/-- **The walk from the first page ends.** -/
theorem walk_isSome (h : Cursor r beyond xs) (hlimit : 0 < limit) (fuel : Nat)
    (hfuel : xs.length < fuel) : (walk beyond limit xs fuel none).isSome = true :=
  walk_isSome_of_drop h hlimit (Nat.zero_le _) List.drop_zero.symm (by omega)

/-- It reads no element twice and none out of order. -/
theorem walk_sublist (h : Cursor r beyond xs) (hlimit : 0 < limit) {fuel : Nat} {ys : List α}
    (hys : walk beyond limit xs fuel none = some ys) : ys.Sublist xs :=
  walk_sublist_of_drop (m := 0) h hlimit List.drop_zero.symm hys

/-- **It reads all elements exactly when no page ends where its cursor overlooks the
element that comes next.** -/
theorem walk_eq_iff (h : Cursor r beyond xs) (hlimit : 0 < limit) :
    (∃ fuel, walk beyond limit xs fuel none = some xs) ↔ Exact beyond limit xs 0 := by
  have hiff : walk beyond limit xs (xs.length + 1) none = some xs ↔ Exact beyond limit xs 0 :=
    walk_eq_drop_iff (m := 0) h hlimit (Nat.zero_le _) List.drop_zero.symm (by omega)
  rw [← hiff]
  constructor
  · rintro ⟨fuel, hall⟩
    obtain ⟨ys, hys⟩ := Option.isSome_iff_exists.mp
      (walk_isSome h hlimit (xs.length + 1) (Nat.lt_succ_self _))
    -- two walks that end read the same
    have hsame := (walk_mono hall (Nat.le_max_left fuel (xs.length + 1))).symm.trans
      (walk_mono hys (Nat.le_max_right fuel (xs.length + 1)))
    rw [hys, Option.some.inj hsame]
  · exact fun hall => ⟨_, hall⟩

end SnapUrl.Lib.Keyset
