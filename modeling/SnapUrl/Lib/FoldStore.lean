import Mathlib.Data.List.Basic

/-!
# Writes that read first

A store has a value for each key.  A write reads the store, makes a new value of what it has
read, and puts it in later: what it has read may be old by then.

* `Write.onto`: the store after a write that has read another store.
* `Write.Current`: what it has read is still there.
* `onto_eq_apply`: **a write that is current is one step of a serial order.**
* `Version`: a copy of the store, by the writes it has seen.  `Version.append`: it stays what
  it is while more writes come.
-/

namespace SnapUrl.Lib

variable {κ : Type*} {β : κ → Type*}

/-- A write by key: what it makes of a value, none for a key that it leaves alone. -/
abbrev Write (β : κ → Type*) := (k : κ) → Option (β k → β k)

namespace Write

/-- The store after a write that has read `read`. -/
def onto (w : Write β) (read store : (k : κ) → β k) : (k : κ) → β k := fun k =>
  match w k with
  | none => store k
  | some f => f (read k)

/-- The store after a write that reads what it replaces. -/
def apply (w : Write β) (store : (k : κ) → β k) : (k : κ) → β k := w.onto store store

/-- What the write has read is still in the store. -/
def Current (w : Write β) (read store : (k : κ) → β k) : Prop :=
  ∀ k, (w k).isSome = true → store k = read k

/-- **A write that is current is one step of a serial order.** -/
theorem onto_eq_apply {w : Write β} {read store : (k : κ) → β k} (h : w.Current read store) :
    w.onto read store = w.apply store := by
  funext k
  rw [apply, onto, onto]
  cases hw : w k with
  | none => rfl
  | some f => exact congrArg f (h k (by rw [hw]; rfl)).symm

end Write

/-- The store after writes in order. -/
def applyAll (ws : List (Write β)) (store : (k : κ) → β k) : (k : κ) → β k :=
  ws.foldl (fun store w => w.apply store) store

theorem applyAll_append_singleton (ws : List (Write β)) (w : Write β) (store : (k : κ) → β k) :
    applyAll (ws ++ [w]) store = w.apply (applyAll ws store) :=
  List.foldl_concat _ _ _ _

/-- `values` is the store once the first `n` of the writes were in it. -/
def Version (init : (k : κ) → β k) (ws : List (Write β)) (n : Nat) (values : (k : κ) → β k) :
    Prop :=
  n ≤ ws.length ∧ values = applyAll (ws.take n) init

variable {init values : (k : κ) → β k} {ws : List (Write β)} {n : Nat}

/-- **A version stays what it is while more writes come.** -/
theorem Version.append (h : Version init ws n values) (w : Write β) :
    Version init (ws ++ [w]) n values := by
  refine ⟨?_, ?_⟩
  · rw [List.length_append]
    exact Nat.le_add_right_of_le h.1
  · rw [List.take_append_of_le_length h.1]
    exact h.2

/-- The store is the version of all writes. -/
theorem version_length (h : values = applyAll ws init) : Version init ws ws.length values :=
  ⟨Nat.le_refl _, by rw [List.take_length, h]⟩

end SnapUrl.Lib
