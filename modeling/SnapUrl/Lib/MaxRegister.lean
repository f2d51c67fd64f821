import Mathlib.Order.Lattice
import Mathlib.Data.List.Induction

/-!
# Registers that keep the greatest write

Writers that race for one cell agree on what it holds when a write lands only over
what is not newer.  What counts as newer is a rank in a linear order; two writes of
one rank may differ.

* `keepGreatest`: such a write.  `IsGreatest` says what a cell holds of the writes
  that reached it, and is kept by a write that stands for several
  (`IsGreatest.append`).
* `IsGreatest.unique`: **the order of the writes and their number do not matter**,
  where a rank says what is written.
* `foldl_writeIf`: **a conditional write of the newest is all the conditional writes
  one after another**, for a condition that follows the rank.
-/

namespace SnapUrl.Lib

variable {α β : Type*} [LinearOrder β] {rank : α → β} {stored stored' : Option α} {x : α}
  {l l' : List α}

/-- A write that lands unless something newer is stored. -/
def keepGreatest (rank : α → β) (stored : Option α) (x : α) : Option α :=
  if stored.all (rank · ≤ rank x) then some x else stored

/-- A cell holds nothing before the first write, and then one that no other is newer
than. -/
def IsGreatest (rank : α → β) (stored : Option α) (l : List α) : Prop :=
  match stored with
  | none => l = []
  | some x => x ∈ l ∧ ∀ y ∈ l, rank y ≤ rank x

theorem isGreatest_none : IsGreatest rank none l ↔ l = [] := Iff.rfl

theorem isGreatest_some :
    IsGreatest rank (some x) l ↔ x ∈ l ∧ ∀ y ∈ l, rank y ≤ rank x := Iff.rfl

theorem isGreatest_singleton : IsGreatest rank (some x) [x] := by
  refine isGreatest_some.mpr ⟨List.mem_singleton_self x, fun y hy => ?_⟩
  rw [List.mem_singleton.mp hy]

/-- **A write of the greatest of some is a write of all of them.** -/
theorem IsGreatest.append (h : IsGreatest rank stored l) (h' : IsGreatest rank (some x) l') :
    IsGreatest rank (keepGreatest rank stored x) (l ++ l') := by
  obtain ⟨hx, hle⟩ := isGreatest_some.mp h'
  cases stored with
  | none =>
    obtain rfl : l = [] := isGreatest_none.mp h
    exact h'
  | some y =>
    obtain ⟨hy, hley⟩ := isGreatest_some.mp h
    by_cases hyx : rank y ≤ rank x
    · rw [keepGreatest, if_pos (by simpa using hyx)]
      refine isGreatest_some.mpr ⟨List.mem_append_right l hx, fun z hz => ?_⟩
      rcases List.mem_append.mp hz with hz | hz
      · exact le_trans (hley z hz) hyx
      · exact hle z hz
    · rw [keepGreatest, if_neg (by simpa using hyx)]
      refine isGreatest_some.mpr ⟨List.mem_append_left l' hy, fun z hz => ?_⟩
      rcases List.mem_append.mp hz with hz | hz
      · exact hley z hz
      · exact le_trans (hle z hz) (le_of_not_ge hyx)

/-- What one write adds. -/
theorem IsGreatest.concat (h : IsGreatest rank stored l) (x : α) :
    IsGreatest rank (keepGreatest rank stored x) (l ++ [x]) := h.append isGreatest_singleton

/-- **After any writes a cell holds their greatest.** -/
theorem isGreatest_foldl (rank : α → β) (l : List α) :
    IsGreatest rank (l.foldl (keepGreatest rank) none) l := by
  induction l using List.reverseRecOn with
  | nil => exact isGreatest_none.mpr rfl
  | append_singleton l x ih =>
    rw [List.foldl_append]
    exact ih.concat x

/-- Only which writes reached a cell matters. -/
theorem IsGreatest.congr (h : IsGreatest rank stored l) (hl : ∀ y, y ∈ l ↔ y ∈ l') :
    IsGreatest rank stored l' := by
  cases stored with
  | none =>
    obtain rfl : l = [] := isGreatest_none.mp h
    exact isGreatest_none.mpr (List.eq_nil_iff_forall_not_mem.mpr fun y hy =>
      List.not_mem_nil ((hl y).mpr hy))
  | some x =>
    obtain ⟨hx, hle⟩ := isGreatest_some.mp h
    exact isGreatest_some.mpr ⟨(hl x).mp hx, fun y hy => hle y ((hl y).mpr hy)⟩

/-- **Two cells that the same writes reached hold the same**, where a rank says what is
written. -/
theorem IsGreatest.unique (h : IsGreatest rank stored l) (h' : IsGreatest rank stored' l')
    (hl : ∀ y, y ∈ l ↔ y ∈ l') (hinj : ∀ y ∈ l, ∀ z ∈ l, rank y = rank z → y = z) :
    stored = stored' := by
  replace h' := h'.congr fun y => (hl y).symm
  cases stored with
  | none =>
    obtain rfl : l = [] := isGreatest_none.mp h
    cases stored' with
    | none => rfl
    | some y => exact absurd (isGreatest_some.mp h').1 List.not_mem_nil
  | some x =>
    obtain ⟨hx, hle⟩ := isGreatest_some.mp h
    cases stored' with
    | none => exact absurd (isGreatest_none.mp h' ▸ hx) List.not_mem_nil
    | some y =>
      obtain ⟨hy, hley⟩ := isGreatest_some.mp h'
      exact congrArg some (hinj x hx y hy (le_antisymm (hley x hx) (hle y hy)))

/-! ### Writes under a condition -/

/-- A write that lands when a condition on what is stored holds. -/
def writeIf (cond : α → Option α → Bool) (stored : Option α) (x : α) : Option α :=
  if cond x stored then some x else stored

/-- Over something stored, a condition that follows the rank keeps the greatest. -/
theorem writeIf_some {cond : α → Option α → Bool} {y : α}
    (hcond : cond x (some y) = true ↔ rank y ≤ rank x) :
    writeIf cond (some y) x = keepGreatest rank (some y) x := by
  rw [writeIf, keepGreatest]
  refine if_congr ?_ rfl rfl
  rw [hcond, Option.all_some, decide_eq_true_eq]

/-- **One conditional write of the newest is all the conditional writes one after
another.**  On the writes at hand the condition follows the rank, and what lands over
the stored value is an up-set. -/
theorem foldl_writeIf {cond : α → Option α → Bool} {P : α → Prop} {g : α}
    (hcond : ∀ x y, P x → P y → (cond x (some y) = true ↔ rank y ≤ rank x))
    (hup : ∀ x y, P x → P y → rank x ≤ rank y → cond x stored = true → cond y stored = true)
    (hP : ∀ x ∈ l, P x) (hg : P g) :
    ∃ g', P g' ∧ l.foldl (keepGreatest rank) (some g) = some g' ∧
      l.foldl (writeIf cond) (writeIf cond stored g) = writeIf cond stored g' := by
  induction l generalizing g with
  | nil => exact ⟨g, hg, rfl, rfl⟩
  | cons x l ih =>
    have hx : P x := hP x (List.mem_cons_self ..)
    have hl : ∀ y ∈ l, P y := fun y hy => hP y (List.mem_cons_of_mem x hy)
    rw [List.foldl_cons, List.foldl_cons]
    by_cases hgx : rank g ≤ rank x
    · have hkeep : keepGreatest rank (some g) x = some x := if_pos (by simpa using hgx)
      have hwrite : writeIf cond (writeIf cond stored g) x = writeIf cond stored x := by
        by_cases hc : cond g stored = true
        · have hland : writeIf cond stored g = some g := if_pos hc
          rw [hland, writeIf, writeIf, if_pos ((hcond x g hx hg).mpr hgx),
            if_pos (hup g x hg hx hgx hc)]
        · have hlost : writeIf cond stored g = stored := if_neg hc
          rw [hlost]
      rw [hkeep, hwrite]
      exact ih hl hx
    · have hkeep : keepGreatest rank (some g) x = some g := if_neg (by simpa using hgx)
      have hwrite : writeIf cond (writeIf cond stored g) x = writeIf cond stored g := by
        by_cases hc : cond g stored = true
        · have hland : writeIf cond stored g = some g := if_pos hc
          rw [hland, writeIf, if_neg fun h => hgx ((hcond x g hx hg).mp h)]
        · have hlost : writeIf cond stored g = stored := if_neg hc
          rw [hlost, writeIf, if_neg fun h => hc (hup x g hx hg (le_of_not_ge hgx) h)]
      rw [hkeep, hwrite]
      exact ih hl hg

end SnapUrl.Lib
