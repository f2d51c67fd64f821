import Mathlib.Data.Option.Basic
import SnapUrl.Cache.Contract

/-!
# Adapters that round expiries

The stamps of two adapters for one write are within a second of each other, so their answers
are the same as long as no call comes to a key in the last second of its time to live.

* `Clear`: no call of a log does.
* `answers_near`: **the answers are those of exact expiries**, and a remainder is within a
  second of the exact one.
-/

namespace SnapUrl.Cache

open Domain

/-- Expiries to the millisecond. -/
def exact : Expiry where
  stamp now ttl := now + 1000 * ttl
  live now stamp := decide (now < stamp)
  stamp_le now ttl := le_rfl
  lt_stamp now ttl := by omega
  live_of_lt := live_before
  dead_of_lt := dead_after

/-- The same value up to a second less. -/
def NearEntry {κ : Kind} (e e' : Entry κ) : Prop :=
  e.value = e'.value ∧
    Option.Rel (fun stamp stamp' => stamp ≤ stamp' ∧ stamp' < stamp + 1000) e.expiresAt e'.expiresAt

def NearReply : Reply → Reply → Prop
  | .remaining ms, .remaining ms' => |ms - ms'| < 1000
  | reply, reply' => reply = reply'

/-- **No call comes to a key in the last second of its time to live.** -/
def Clear (estimate : Sketch → Nat) (log : List Done) : Prop :=
  ∀ (before : List Done) (d : Done) (after : List Done), log = before ++ d :: after →
    ∀ e, storeAfter exact estimate before d.call.key = some e →
      ∀ stamp ∈ e.expiresAt, d.time + 1000 ≤ stamp ∨ stamp < d.time

section

variable {g : Expiry} {κ : Kind} {now : Nat}

theorem near_keep (value : Value κ) (ttl : Option Nat) :
    Option.Rel NearEntry (g.keep now value ttl) (exact.keep now value ttl) := by
  cases ttl with
  | none => exact .some ⟨rfl, .none⟩
  | some ttl =>
    rw [Expiry.keep, Expiry.keep]
    split
    · exact .none
    · refine .some ⟨rfl, .some ⟨g.stamp_le now ttl, ?_⟩⟩
      exact g.lt_stamp now ttl

theorem near_filter {e e' : Option (Entry κ)} (h : Option.Rel NearEntry e e')
    (hclear : ∀ e'', e' = some e'' → ∀ stamp ∈ e''.expiresAt,
      now + 1000 ≤ stamp ∨ stamp < now) :
    Option.Rel NearEntry (e.filter (g.alive now)) (e'.filter (exact.alive now)) := by
  cases h with
  | none => exact .none
  | @some e e' hnear =>
    obtain ⟨hvalue, hstamp⟩ := hnear
    have halive : g.alive now e = exact.alive now e' := by
      rw [Expiry.alive, Expiry.alive]
      have hclear' := hclear e' rfl
      revert hstamp hclear'
      generalize e.expiresAt = stamp
      generalize e'.expiresAt = stamp'
      rintro hstamp hclear'
      cases hstamp with
      | none => rfl
      | @some stamp stamp' hnear =>
        rw [Option.all_some, Option.all_some]
        rcases hclear' stamp' rfl with hbefore | hafter
        · rw [g.live_of_lt (by omega), exact.live_of_lt (by omega)]
        · rw [g.dead_of_lt (by omega), exact.dead_of_lt hafter]
    rw [Option.filter_some, Option.filter_some, halive]
    split
    · exact .some ⟨hvalue, hstamp⟩
    · exact .none

theorem near_remaining {e e' : Option (Entry κ)} (h : Option.Rel NearEntry e e') :
    |remaining now e - remaining now e'| < 1000 := by
  cases h with
  | none =>
    change |(-2 : Int) - -2| < 1000
    norm_num
  | @some e e' hnear =>
    have hstamp := hnear.2
    change |e.expiresAt.elim (-1) (fun stamp => (stamp : Int) - now) -
      e'.expiresAt.elim (-1) (fun stamp => (stamp : Int) - now)| < 1000
    revert hstamp
    generalize e.expiresAt = stamp
    generalize e'.expiresAt = stamp'
    intro hstamp
    cases hstamp with
    | none =>
      change |(-1 : Int) - -1| < 1000
      norm_num
    | some h =>
      rw [Option.elim_some, Option.elim_some, abs_lt]
      omega

/-- A call on entries that are near each other leaves such entries, and near answers. -/
theorem near_prescribe (estimate : Sketch → Nat) (c : Call)
    {e e' : Option (Entry c.key.kind)} (h : Option.Rel NearEntry e e') :
    Option.Rel NearEntry (prescribe g estimate now c e).1 (prescribe exact estimate now c e').1 ∧
      NearReply (prescribe g estimate now c e).2 (prescribe exact estimate now c e').2 := by
  cases c with
  | get name =>
    refine ⟨h, ?_⟩
    cases h with
    | none => rfl
    | some hnear => exact congrArg (fun value => Reply.value (some value)) hnear.1
  | set name value ttl => exact ⟨near_keep (κ := .text) value ttl, rfl⟩
  | incr name ttl =>
    cases h with
    | none => exact ⟨near_keep (κ := .count) (1 : Nat) ttl, rfl⟩
    | some hnear =>
      have hvalue := congrArg (fun n : Nat => n + 1) hnear.1
      exact ⟨.some ⟨hvalue, hnear.2⟩, congrArg Reply.count hvalue⟩
  | expire key ttl =>
    cases h with
    | none => exact ⟨.none, rfl⟩
    | @some e e' hnear =>
      refine ⟨?_, rfl⟩
      change Option.Rel NearEntry (g.keep now e.value (some ttl))
        (exact.keep now e'.value (some ttl))
      rw [hnear.1]
      exact near_keep e'.value (some ttl)
  | del key => exact ⟨.none, rfl⟩
  | pttl key => exact ⟨h, near_remaining h⟩
  | mergeSketch name sketch ttl =>
    cases h with
    | none => exact ⟨near_keep (κ := .sketch) _ ttl, rfl⟩
    | some hnear =>
      have hvalue := congrArg (fun value : Sketch => merge value sketch) hnear.1
      exact ⟨.some ⟨hvalue, hnear.2⟩,
        congrArg (fun merged => Reply.estimate (estimate merged)) hvalue⟩

end

section

variable {g : Expiry} {estimate : Sketch → Nat}

theorem Clear.left {log log' : List Done} (h : Clear estimate (log ++ log')) :
    Clear estimate log := by
  intro before d after hsplit
  exact h before d (after ++ log') (by rw [hsplit, List.append_assoc, List.cons_append])

theorem near_storeAfter {log : List Done} (hclear : Clear estimate log) (k : Key) :
    Option.Rel NearEntry (storeAfter g estimate log k) (storeAfter exact estimate log k) := by
  induction log using List.reverseRecOn generalizing k with
  | nil => exact .none
  | append_singleton log d ih =>
    have hlog : Clear estimate log := hclear.left
    rw [storeAfter_append_singleton, storeAfter_append_singleton, Store.take, Store.take]
    by_cases hk : k = d.call.key
    · subst hk
      rw [Function.update_self, Function.update_self]
      exact (near_prescribe estimate d.call
        (near_filter (ih hlog _) (hclear log d [] rfl))).1
    · rw [Function.update_of_ne hk, Function.update_of_ne hk]
      exact ih hlog k

/-- **The answers are those of exact expiries**, up to a second of a remainder. -/
theorem answers_near {log before after : List Done} {d : Done}
    (hprescribed : Prescribed g estimate log) (hclear : Clear estimate log)
    (hlog : log = before ++ d :: after) :
    NearReply d.reply (prescribed exact estimate before d) := by
  rw [hprescribed before d after hlog]
  have hbefore : Clear estimate before := by
    rw [hlog] at hclear
    exact hclear.left
  exact (near_prescribe estimate d.call
    (near_filter (near_storeAfter hbefore _) (hclear before d after hlog))).2

end

end SnapUrl.Cache
