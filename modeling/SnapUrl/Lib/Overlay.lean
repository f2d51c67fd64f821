import Mathlib.Logic.Function.Basic
import Mathlib.Data.List.Basic

/-!
# Open transactions over a table

A table is a map from its primary key.  What an open transaction has written lies over it: of
each row that it has touched, what has become of the row.  A commit puts the overlay into the
table, and row locks keep two open transactions from touching one row.

* `Overlay.over`: the table as the transaction sees it, which is the table that its commit
  leaves.
* `Table.find?`: a row that meets a condition.
* `over_comm`: overlays that are apart may be committed in either order.
* `Table.Unique`, `unique_over_over`: **a unique index survives a commit** under an overlay
  whose new rows have other keys than those that were committed.
* `AllVersions`: what holds of a row in the table and in every overlay.
-/

namespace SnapUrl.Lib

variable {ρ κ : Type*}

/-- The rows of a table by their ids. -/
abbrev Table (ρ : Type*) := Nat → Option ρ

/-- What a transaction has written: nothing, or what a row has become, none where it is
deleted. -/
abbrev Overlay (ρ : Type*) := Nat → Option (Option ρ)

/-! ### Reading -/

namespace Table

/-- The first row, of those with an id below `n`, that meets the condition. -/
def find? (t : Table ρ) (n : Nat) (p : ρ → Bool) : Option (Nat × ρ) :=
  (List.range n).findSome? fun id => ((t id).filter p).map fun row => (id, row)

theorem find?_eq_some {t : Table ρ} {n : Nat} {p : ρ → Bool} {id : Nat} {row : ρ}
    (h : t.find? n p = some (id, row)) : id < n ∧ t id = some row ∧ p row = true := by
  obtain ⟨k, hk, hfound⟩ := List.exists_of_findSome?_eq_some h
  obtain ⟨row', hrow', heq⟩ := Option.map_eq_some_iff.mp hfound
  obtain ⟨hget, hp⟩ := Option.filter_eq_some_iff.mp hrow'
  obtain ⟨rfl, rfl⟩ := Prod.mk.inj heq
  exact ⟨List.mem_range.mp hk, hget, hp⟩

theorem find?_eq_none {t : Table ρ} {n : Nat} {p : ρ → Bool} (h : t.find? n p = none)
    {id : Nat} {row : ρ} (hid : id < n) (hrow : t id = some row) : p row = false := by
  have hnone := List.findSome?_eq_none_iff.mp h id (List.mem_range.mpr hid)
  rw [Option.map_eq_none_iff, hrow] at hnone
  simpa using hnone

/-- No two rows have the same key. -/
def Unique (key : ρ → κ) (t : Table ρ) : Prop :=
  ∀ a b ra rb, t a = some ra → t b = some rb → key ra = key rb → a = b

end Table

/-! ### Overlays -/

/-- The table as the transaction sees it, and as its commit leaves it. -/
def Overlay.over (w : Overlay ρ) (t : Table ρ) : Table ρ := fun id => (w id).getD (t id)

namespace Overlay

/-- Nothing is written. -/
def empty : Overlay ρ := fun _ => none

/-- The transaction writes a row, none to delete it. -/
def put (w : Overlay ρ) (id : Nat) (row : Option ρ) : Overlay ρ := Function.update w id (some row)

/-- The rows that are inserted or updated. -/
def rows (w : Overlay ρ) : Table ρ := fun id => (w id).join

/-- No row is touched by both. -/
def Apart (w w' : Overlay ρ) : Prop := ∀ id, w id = none ∨ w' id = none

theorem Apart.symm {w w' : Overlay ρ} (h : Apart w w') : Apart w' w := fun id => (h id).symm

theorem apart_empty (w : Overlay ρ) : Apart w empty := fun _ => Or.inr rfl

@[simp] theorem over_empty (t : Table ρ) : (empty : Overlay ρ).over t = t := rfl

theorem over_of_eq_none {w : Overlay ρ} {t : Table ρ} {id : Nat} (h : w id = none) :
    w.over t id = t id := by
  rw [Overlay.over, h, Option.getD_none]

theorem over_of_eq_some {w : Overlay ρ} {t : Table ρ} {id : Nat} {row : Option ρ}
    (h : w id = some row) : w.over t id = row := by
  rw [Overlay.over, h, Option.getD_some]

theorem put_self (w : Overlay ρ) (id : Nat) (row : Option ρ) : w.put id row id = some row := by
  rw [put, Function.update_self]

theorem put_of_ne {w : Overlay ρ} {id other : Nat} (row : Option ρ) (h : other ≠ id) :
    w.put id row other = w other := by
  rw [put, Function.update_of_ne h]

theorem over_put_self (w : Overlay ρ) (t : Table ρ) (id : Nat) (row : Option ρ) :
    (w.put id row).over t id = row := over_of_eq_some (put_self w id row)

theorem over_put_of_ne {w : Overlay ρ} {t : Table ρ} {id other : Nat} (row : Option ρ)
    (h : other ≠ id) : (w.put id row).over t other = w.over t other := by
  rw [Overlay.over, Overlay.over, put_of_ne row h]

/-- A transaction that touches one more row, which no other has touched. -/
theorem Apart.put {w w' : Overlay ρ} (h : Apart w w') {id : Nat} (hid : w' id = none)
    (row : Option ρ) : Apart (w.put id row) w' := by
  intro other
  by_cases hother : other = id
  · exact Or.inr (hother ▸ hid)
  · rw [put_of_ne row hother]
    exact h other

theorem over_over_of_eq_none {w w' : Overlay ρ} {t : Table ρ} {id : Nat} (h : w' id = none) :
    w.over (w'.over t) id = w.over t id := by
  rw [Overlay.over, over_of_eq_none h, Overlay.over]

/-- **Commits of overlays that are apart commute.** -/
theorem over_comm {w w' : Overlay ρ} (h : Apart w w') (t : Table ρ) :
    w.over (w'.over t) = w'.over (w.over t) := by
  funext id
  rcases h id with hid | hid
  · rw [over_of_eq_none hid, over_over_of_eq_none hid]
  · rw [over_over_of_eq_none hid, over_of_eq_none hid]

/-- A row may be written whose key no other row has. -/
theorem unique_put {key : ρ → κ} {w : Overlay ρ} {t : Table ρ} {id : Nat} {row : Option ρ}
    (h : (w.over t).Unique key)
    (hrow : ∀ r, row = some r → ∀ other r', other ≠ id → w.over t other = some r' →
      key r' ≠ key r) : ((w.put id row).over t).Unique key := by
  intro a b ra rb ha hb hkey
  by_cases hida : a = id
  · rw [hida, over_put_self] at ha
    by_cases hidb : b = id
    · rw [hida, hidb]
    · rw [over_put_of_ne row hidb] at hb
      exact absurd hkey.symm (hrow ra ha b rb hidb hb)
  · rw [over_put_of_ne row hida] at ha
    by_cases hidb : b = id
    · rw [hidb, over_put_self] at hb
      exact absurd hkey (hrow rb hb a ra hida ha)
    · rw [over_put_of_ne row hidb] at hb
      exact h a b ra rb ha hb hkey

/-- **A unique index survives a commit.** -/
theorem unique_over_over {key : ρ → κ} {w w' : Overlay ρ} {t : Table ρ}
    (hw : (w.over t).Unique key) (hw' : (w'.over t).Unique key)
    (hkeys : ∀ a b ra rb, w a = some (some ra) → w' b = some (some rb) → key ra ≠ key rb) :
    (w.over (w'.over t)).Unique key := by
  -- a row that the transaction has written, and one that it has not
  have hmixed : ∀ a b ra rb, w a = some (some ra) → w b = none → w'.over t b = some rb →
      key ra = key rb → a = b := by
    intro a b ra rb ha hb hrow hkey
    cases hb' : w' b with
    | none =>
      refine hw a b ra rb (over_of_eq_some ha) ?_ hkey
      rw [over_of_eq_none hb]
      rw [over_of_eq_none hb'] at hrow
      exact hrow
    | some row =>
      rw [over_of_eq_some hb'] at hrow
      rw [hrow] at hb'
      exact absurd hkey (hkeys a b ra rb ha hb')
  intro a b ra rb ha hb hkey
  cases hwa : w a with
  | none =>
    rw [over_of_eq_none hwa] at ha
    cases hwb : w b with
    | none =>
      rw [over_of_eq_none hwb] at hb
      exact hw' a b ra rb ha hb hkey
    | some row =>
      rw [over_of_eq_some hwb] at hb
      exact (hmixed b a rb ra (hb ▸ hwb) hwa ha hkey.symm).symm
  | some row =>
    rw [over_of_eq_some hwa] at ha
    cases hwb : w b with
    | none =>
      rw [over_of_eq_none hwb] at hb
      exact hmixed a b ra rb (ha ▸ hwa) hwb hb hkey
    | some row' =>
      rw [over_of_eq_some hwb] at hb
      exact hw a b ra rb ((over_of_eq_some hwa).trans ha) ((over_of_eq_some hwb).trans hb) hkey

end Overlay

/-! ### Versions -/

/-- Every version of a row, committed or not, meets the condition. -/
def AllVersions (t : Table ρ) (ws : List (Overlay ρ)) (id : Nat) (q : ρ → Prop) : Prop :=
  (∀ row, t id = some row → q row) ∧ ∀ w ∈ ws, ∀ row, w id = some (some row) → q row

/-- A commit makes no new version. -/
theorem AllVersions.over {t : Table ρ} {ws ws' : List (Overlay ρ)} {w : Overlay ρ} {id : Nat}
    {q : ρ → Prop} (h : AllVersions t ws id q) (hw : w ∈ ws)
    (hws : ∀ w' ∈ ws', w' ∈ ws ∨ w' = Overlay.empty) : AllVersions (w.over t) ws' id q := by
  refine ⟨fun row hrow => ?_, fun w' hw' row hrow => ?_⟩
  · cases hid : w id with
    | none =>
      rw [Overlay.over_of_eq_none hid] at hrow
      exact h.1 row hrow
    | some row' =>
      rw [Overlay.over_of_eq_some hid] at hrow
      exact h.2 w hw row (hrow ▸ hid)
  · rcases hws w' hw' with hold | rfl
    · exact h.2 w' hold row hrow
    · cases hrow

end SnapUrl.Lib
