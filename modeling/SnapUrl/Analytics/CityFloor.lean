import Mathlib.Algebra.BigOperators.Group.List.Basic
import Mathlib.Data.List.Sort
import Mathlib.Data.Nat.Cast.Order.Ring

/-!
# The floor under city counts

`applyCityFloor` of `apps/api/src/analytics/analytics.service.ts`.

* `applyCityFloor_eq`: the panel is made of the cities that are kept and of one sum.
* `applyCityFloor_safe`: **no volume is lost and no small city is named**, and of the small cities
  the panel shows their sum only.
-/

namespace SnapUrl.Analytics

structure Breakdown where
  label : String
  value : Nat
  icon : Option String
deriving DecidableEq, Repr

/-- The smallest number of clicks a city may be named for. -/
def CITY_MIN_CLICKS : Int := 5

/-- What the folded remainder is called. -/
def OTHER_CITIES : String := "Other cities"

/-- A row that is named whatever is folded. -/
def named (min : Int) (row : Breakdown) : Bool := row.label = "Unknown" || min ≤ row.value

/-- One round of the loop over the rows. -/
def foldRow (min : Int) (acc : List Breakdown × Nat) (row : Breakdown) : List Breakdown × Nat :=
  if named min row then (acc.1 ++ [row], acc.2) else (acc.1, acc.2 + row.value)

/-- `named.sort((a, b) => b.value - a.value)`, which is stable. -/
def sortByValue (rows : List Breakdown) : List Breakdown :=
  rows.insertionSort fun a b => b.value ≤ a.value

def total (rows : List Breakdown) : Nat := (rows.map Breakdown.value).sum

def applyCityFloor (rows : List Breakdown) (min : Int) (limit : Nat) : List Breakdown :=
  let (cities, folded) := rows.foldl (foldRow min) ([], 0)
  let sorted := sortByValue cities
  let top := sorted.take limit
  let folded := folded + total (sorted.drop limit)
  if 0 < folded then top ++ [⟨OTHER_CITIES, folded, none⟩] else top

/-! ### What is claimed of it -/

/-- What a panel over some rows may show. -/
structure Safe (min : Int) (limit : Nat) (rows panel : List Breakdown) : Prop where
  length : panel.length ≤ limit + 1
  total : total panel = total rows
  /-- The bucket is at the end. -/
  last : ∀ row ∈ panel.dropLast, row.label ≠ OTHER_CITIES
  ordered : (panel.filter (·.label ≠ OTHER_CITIES)).Pairwise fun a b => b.value ≤ a.value
  /-- **No small city is named.** -/
  floor : ∀ row ∈ panel, row.label ≠ OTHER_CITIES →
    row ∈ rows ∧ (row.label = "Unknown" ∨ min ≤ row.value)

/-! ### The loop -/

section

variable {min : Int} {limit : Nat} {rows : List Breakdown}

theorem total_append (rows rows' : List Breakdown) :
    total (rows ++ rows') = total rows + total rows' := by
  rw [total, List.map_append, List.sum_append]
  rfl

theorem total_perm {rows' : List Breakdown} (h : rows.Perm rows') : total rows = total rows' :=
  (h.map _).sum_eq

theorem foldl_foldRow (min : Int) (rows : List Breakdown) (acc : List Breakdown × Nat) :
    rows.foldl (foldRow min) acc = (acc.1 ++ rows.filter (named min),
      acc.2 + total (rows.filter fun row => !named min row)) := by
  induction rows generalizing acc with
  | nil => rw [List.filter_nil, List.filter_nil, List.append_nil]; rfl
  | cons row rows ih =>
    rw [List.foldl_cons, ih, foldRow]
    by_cases hrow : named min row = true
    · rw [if_pos hrow, List.filter_cons_of_pos hrow, List.filter_cons_of_neg (by simp [hrow]),
        ← List.append_cons]
    · rw [if_neg hrow, List.filter_cons_of_neg hrow, List.filter_cons_of_pos (by simp [hrow]),
        total, total, List.map_cons, List.sum_cons, ← Nat.add_assoc]

/-- The panel of the rows that are named and of what is folded. -/
def panelOf (limit : Nat) (cities : List Breakdown) (folded : Nat) : List Breakdown :=
  let rest := folded + total ((sortByValue cities).drop limit)
  (sortByValue cities).take limit ++ if 0 < rest then [⟨OTHER_CITIES, rest, none⟩] else []

/-- **The rows below the floor go into the panel by their sum.** -/
theorem applyCityFloor_eq (min : Int) (limit : Nat) (rows : List Breakdown) :
    applyCityFloor rows min limit =
      panelOf limit (rows.filter (named min)) (total (rows.filter fun row => !named min row)) := by
  rw [applyCityFloor, foldl_foldRow, List.nil_append, Nat.zero_add, panelOf]
  dsimp only
  split
  · rfl
  · rw [List.append_nil]

theorem pairwise_sortByValue (rows : List Breakdown) :
    (sortByValue rows).Pairwise fun a b => b.value ≤ a.value := by
  have : Std.Total fun a b : Breakdown => b.value ≤ a.value :=
    ⟨fun a b => Nat.le_total b.value a.value⟩
  have : IsTrans Breakdown fun a b => b.value ≤ a.value :=
    ⟨fun _ _ _ hab hbc => hbc.trans hab⟩
  exact List.pairwise_insertionSort _ rows

theorem mem_sortByValue {row : Breakdown} : row ∈ sortByValue rows ↔ row ∈ rows :=
  List.mem_insertionSort _

theorem total_sortByValue (rows : List Breakdown) : total (sortByValue rows) = total rows :=
  total_perm (List.perm_insertionSort _ rows)

theorem total_panelOf (limit : Nat) (cities : List Breakdown) (folded : Nat) :
    total (panelOf limit cities folded) = total cities + folded := by
  have hsplit : total ((sortByValue cities).take limit) + total ((sortByValue cities).drop limit) =
      total cities := by
    rw [← total_append, List.take_append_drop, total_sortByValue]
  rw [panelOf, total_append]
  split
  · have hbucket : total [⟨OTHER_CITIES, folded + total ((sortByValue cities).drop limit), none⟩] =
        folded + total ((sortByValue cities).drop limit) := List.sum_singleton
    omega
  · next hzero =>
    have hnil : total ([] : List Breakdown) = 0 := rfl
    omega

/-- The floor parts the rows in two. -/
theorem total_named (min : Int) (rows : List Breakdown) :
    total (rows.filter (named min)) + total (rows.filter fun row => !named min row) =
      total rows := by
  rw [← total_append]
  exact total_perm (List.filter_append_perm (named min) rows)

/-- The rows of a panel before the bucket. -/
theorem filter_panelOf {cities : List Breakdown} (h : ∀ row ∈ cities, row.label ≠ OTHER_CITIES)
    (limit folded : Nat) :
    (panelOf limit cities folded).filter (·.label ≠ OTHER_CITIES) =
      (sortByValue cities).take limit := by
  have hcities : ((sortByValue cities).take limit).filter (·.label ≠ OTHER_CITIES) =
      (sortByValue cities).take limit := by
    rw [List.filter_eq_self]
    exact fun row hrow => decide_eq_true (h row (mem_sortByValue.mp (List.mem_of_mem_take hrow)))
  rw [panelOf, List.filter_append, hcities]
  split
  · exact List.append_nil _
  · exact List.append_nil _

theorem length_panelOf_le (limit : Nat) (cities : List Breakdown) (folded : Nat) :
    (panelOf limit cities folded).length ≤ limit + 1 := by
  have htake := List.length_take_le limit (sortByValue cities)
  rw [panelOf, List.length_append]
  split
  · exact Nat.add_le_add_right htake 1
  · exact htake.trans (Nat.le_succ limit)

theorem mem_dropLast_panelOf {cities : List Breakdown} {folded : Nat} {row : Breakdown}
    (h : row ∈ (panelOf limit cities folded).dropLast) : row ∈ cities := by
  have htake : row ∈ (sortByValue cities).take limit := by
    rw [panelOf] at h
    split at h
    · rwa [List.dropLast_concat] at h
    · rw [List.append_nil] at h
      exact (List.dropLast_sublist _).subset h
  exact mem_sortByValue.mp (List.mem_of_mem_take htake)

/-- **The panel loses no volume and names no small city**, and a panel over other rows is the same
where the rows that are named are the same and those below the floor have the same sum. -/
theorem applyCityFloor_safe (min : Int) (limit : Nat) (rows : List Breakdown)
    (h : ∀ row ∈ rows, row.label ≠ OTHER_CITIES) :
    Safe min limit rows (applyCityFloor rows min limit) ∧
      ∀ rows' : List Breakdown, rows'.filter (named min) = rows.filter (named min) →
        total (rows'.filter fun row => !named min row) =
          total (rows.filter fun row => !named min row) →
        applyCityFloor rows' min limit = applyCityFloor rows min limit := by
  have hcities : ∀ row ∈ rows.filter (named min), row.label ≠ OTHER_CITIES :=
    fun row hrow => h row (List.mem_of_mem_filter hrow)
  refine ⟨?_, fun rows' hnamed hfolded => ?_⟩
  · rw [applyCityFloor_eq]
    refine ⟨length_panelOf_le _ _ _, ?_, fun row hrow => hcities row (mem_dropLast_panelOf hrow),
      ?_, fun row hrow hlabel => ?_⟩
    · rw [total_panelOf, total_named]
    · rw [filter_panelOf hcities]
      exact (pairwise_sortByValue _).sublist (List.take_sublist _ _)
    · have hmem : row ∈ (panelOf limit (rows.filter (named min))
          (total (rows.filter fun row => !named min row))).filter (·.label ≠ OTHER_CITIES) :=
        List.mem_filter.mpr ⟨hrow, decide_eq_true hlabel⟩
      rw [filter_panelOf hcities] at hmem
      obtain ⟨hin, hkept⟩ := List.mem_filter.mp (mem_sortByValue.mp (List.mem_of_mem_take hmem))
      refine ⟨hin, ?_⟩
      rwa [named, Bool.or_eq_true, decide_eq_true_eq, decide_eq_true_eq] at hkept
  · rw [applyCityFloor_eq, applyCityFloor_eq, hnamed, hfolded]

/-- Two small cities of ten, beside a larger one. -/
def threeCities : List Breakdown :=
  [⟨"Pune", 3, none⟩, ⟨"Mumbai", 40, none⟩, ⟨"Unknown", 2, none⟩, ⟨"Nashik", 7, none⟩]

theorem applyCityFloor_threeCities :
    (∀ row ∈ threeCities, row.label ≠ OTHER_CITIES) ∧
      applyCityFloor [⟨"Mumbai", 40, none⟩, ⟨"Agra", 8, none⟩, ⟨"Unknown", 2, none⟩,
        ⟨"Goa", 2, none⟩] 10 8 = applyCityFloor threeCities 10 8 ∧
      applyCityFloor threeCities 10 8 =
        [⟨"Mumbai", 40, none⟩, ⟨"Unknown", 2, none⟩, ⟨OTHER_CITIES, 10, none⟩] :=
  have hlabels : ∀ row ∈ threeCities, row.label ≠ OTHER_CITIES := by decide
  ⟨hlabels, (applyCityFloor_safe 10 8 threeCities hlabels).2 _ (by decide) (by decide), by decide⟩

end

end SnapUrl.Analytics
