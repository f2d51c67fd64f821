import Mathlib.Algebra.Order.Group.Int
import Mathlib.Data.List.Nodup
import Mathlib.Data.List.Perm.Subperm

/-!
# Caps on a rolling window

Something happens at instants, and no window of a length may hold more than so many of them.
Whoever wants to do it counts first, in a table that may not have all of them.

* `Within`: the cap is kept, in every window.
* `Tally`: what a count has found, and from which instant on.
* `Tally.Fits`: what was found, what is missing from it, and one more fit the cap.
* `within_append`: **what fits keeps the cap.**
-/

namespace SnapUrl.Lib.RollingCap

structure Event where
  id : Nat
  time : Int
deriving DecidableEq, Repr

/-- No window of a length holds more than `cap` of the events. -/
def Within (span : Int) (cap : Nat) (events : List Event) : Prop :=
  ∀ u, events.countP (fun e => u - span ≤ e.time && e.time ≤ u) ≤ cap

/-- The events a count has found, of those since an instant. -/
structure Tally where
  since : Int
  found : List Nat
deriving DecidableEq, Repr

/-- The events that a count should have found, had they all been there. -/
def Tally.missing (t : Tally) (events : List Event) : Nat :=
  events.countP fun e => t.since ≤ e.time && e.id ∉ t.found

/-- What was found, what is missing, and one more. -/
def Tally.Fits (t : Tally) (cap : Nat) (events : List Event) : Prop :=
  t.found.length + t.missing events + 1 ≤ cap

instance (t : Tally) (cap : Nat) (events : List Event) : Decidable (t.Fits cap events) :=
  inferInstanceAs (Decidable (_ ≤ _))

variable {events : List Event} {span : Int} {cap : Nat}

/-- Of things with different ids, no more are in a list than it is long. -/
theorem countP_mem_le {α : Type*} (f : α → Nat) {as : List α} (hids : (as.map f).Nodup)
    (ids : List Nat) : as.countP (fun a => f a ∈ ids) ≤ ids.length := by
  have hsub : ((as.filter fun a => f a ∈ ids).map f).Subperm ids := by
    refine List.subperm_of_subset (hids.sublist (List.filter_sublist.map f)) fun id hid => ?_
    obtain ⟨a, ha, rfl⟩ := List.mem_map.mp hid
    exact of_decide_eq_true (List.mem_filter.mp ha).2
  have hlen := hsub.length_le
  rwa [List.length_map, ← List.countP_eq_length_filter] at hlen

/-- What happened since an instant was found, or is missing. -/
theorem Tally.countP_le (t : Tally) (hids : (events.map Event.id).Nodup) :
    events.countP (fun e => t.since ≤ e.time) ≤ t.found.length + t.missing events := by
  have hsplit : ∀ es : List Event, es.countP (fun e => t.since ≤ e.time) ≤
      es.countP (fun e => e.id ∈ t.found) + t.missing es := by
    intro es
    induction es with
    | nil => exact Nat.zero_le _
    | cons e es ih =>
      rw [missing, List.countP_cons, List.countP_cons, List.countP_cons, ← missing]
      by_cases hsince : t.since ≤ e.time <;> by_cases hfound : e.id ∈ t.found <;>
        simp only [hsince, hfound, decide_true, decide_false, not_true, not_false_eq_true,
          Bool.and_true, Bool.and_false, if_true, if_false, Bool.false_eq_true] <;> omega
  exact (hsplit events).trans (Nat.add_le_add_right (countP_mem_le Event.id hids t.found) _)

/-- **What fits keeps the cap.**  A window with the new event began after the instant from which
was counted. -/
theorem within_append {t : Tally} {e : Event} (h : Within span cap events)
    (hids : (events.map Event.id).Nodup) (hsince : t.since + span ≤ e.time)
    (hfits : t.Fits cap events) : Within span cap (events ++ [e]) := by
  intro u
  rw [List.countP_append, List.countP_singleton]
  split
  · next hin =>
    have hcounted : events.countP (fun e => u - span ≤ e.time && e.time ≤ u) ≤
        events.countP fun e => t.since ≤ e.time := by
      refine List.countP_mono_left fun x _ hx => ?_
      simp only [Bool.and_eq_true, decide_eq_true_eq] at hin hx ⊢
      omega
    have hall := hcounted.trans (t.countP_le hids)
    rw [Tally.Fits] at hfits
    omega
  · exact h u

theorem within_nil : Within span cap [] := fun _ => Nat.zero_le _

end SnapUrl.Lib.RollingCap
