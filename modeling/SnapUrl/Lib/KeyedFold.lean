import Mathlib.Data.List.Induction
import Mathlib.Data.List.Nodup
import Mathlib.Logic.Function.Basic

/-!
# Folds that touch one cell at a time

A statement that writes a list of rows one after another, or a program that takes
its inputs one by one, changes in every step the cell with one key.  Seen from one
cell, only the steps with its key matter.

* `view_foldl`: **a cell after the fold is the fold of the steps with its key.**
* `filter_key_of_mem`, `filter_key_of_not_mem`: which steps these are when no two of
  them have a key in common.
* `upsertBy`: such a step on a list with one entry for each key, as a program that
  coalesces its writes takes it (`find?_upsertBy`, `nodup_foldl_upsertBy`).
-/

namespace SnapUrl.Lib

variable {σ α β κ : Type*} [DecidableEq κ]

/-- One cell, where a step with another key leaves it. -/
theorem view_foldl_at (view : σ → β) {step : σ → α → σ} {key : α → κ} (upd : β → α → β) {k : κ}
    (h : ∀ s x, view (step s x) = if key x = k then upd (view s) x else view s)
    (l : List α) (s : σ) :
    view (l.foldl step s) = (l.filter fun x => key x = k).foldl upd (view s) := by
  induction l generalizing s with
  | nil => rfl
  | cons x l ih =>
    rw [List.foldl_cons, ih, h, List.filter_cons]
    by_cases hx : key x = k
    · rw [if_pos hx, if_pos (decide_eq_true hx), List.foldl_cons]
    · rw [if_neg hx, if_neg (by simpa using hx)]

/-- **A cell after the fold is the fold of the steps with its key.**  `view` reads the
cells of a state, which may hold more than them. -/
theorem view_foldl {view : σ → κ → β} {step : σ → α → σ} {key : α → κ} (upd : β → α → β)
    (h : ∀ s x k, view (step s x) k = if key x = k then upd (view s k) x else view s k)
    (l : List α) (s : σ) (k : κ) :
    view (l.foldl step s) k = (l.filter fun x => key x = k).foldl upd (view s k) :=
  view_foldl_at (fun s => view s k) upd (fun s x => h s x k) l s

/-- Where keys are unique, a key picks its own element. -/
theorem filter_key_of_mem {key : α → κ} {l : List α} (hn : (l.map key).Nodup) {x : α}
    (hx : x ∈ l) : l.filter (fun y => key y = key x) = [x] := by
  induction l with
  | nil => exact absurd hx List.not_mem_nil
  | cons y l ih =>
    obtain ⟨hy, hn⟩ := List.nodup_cons.mp hn
    rcases List.mem_cons.mp hx with rfl | hmem
    · rw [List.filter_cons, if_pos (by simp)]
      refine congrArg (x :: ·) (List.filter_eq_nil_iff.mpr fun z hz hkey => hy ?_)
      exact of_decide_eq_true hkey ▸ List.mem_map_of_mem hz
    · rw [List.filter_cons, if_neg, ih hn hmem]
      intro hkey
      exact hy (of_decide_eq_true hkey ▸ List.mem_map_of_mem hmem)

theorem filter_key_of_not_mem {key : α → κ} {l : List α} {k : κ} (hk : k ∉ l.map key) :
    l.filter (fun y => key y = k) = [] := by
  refine List.filter_eq_nil_iff.mpr fun y hy hkey => hk ?_
  exact of_decide_eq_true hkey ▸ List.mem_map_of_mem hy

theorem nodup_eraseDups {α : Type*} [BEq α] [LawfulBEq α] (l : List α) : l.eraseDups.Nodup := by
  induction hn : l.length using Nat.strongRecOn generalizing l with
  | ind n ih =>
    cases l with
    | nil => exact List.nodup_nil
    | cons x l =>
      rw [List.eraseDups_cons]
      have hlen : (l.filter fun y => !y == x).length < n :=
        hn ▸ Nat.lt_succ_of_le (List.length_filter_le _ l)
      refine List.nodup_cons.mpr ⟨fun hx => ?_, ih _ hlen _ rfl⟩
      simpa using (List.mem_filter.mp (List.mem_eraseDups.mp hx)).2

/-! ### Lists with one entry for each key -/

/-- Puts a new entry, or merges it into the one of its key. -/
def upsertBy (key : α → κ) (merge : α → α) (new : α) (l : List α) : List α :=
  if l.any fun e => key e = key new then l.map fun e => if key e = key new then merge e else e
  else l ++ [new]

section

variable {key : α → κ} {merge : α → α} {new : α} {l : List α}

theorem key_merge (hmerge : ∀ e, key e = key new → key (merge e) = key new) (e : α) :
    key (if key e = key new then merge e else e) = key e := by
  split
  · rename_i he
    rw [hmerge e he, he]
  · rfl

theorem find?_map_merge (hmerge : ∀ e, key e = key new → key (merge e) = key new) (k : κ) :
    (l.map fun e => if key e = key new then merge e else e).find? (fun e => key e = k) =
      (l.find? fun e => key e = k).map fun e => if key e = key new then merge e else e := by
  rw [List.find?_map]
  refine congrArg (Option.map _) (congrArg (List.find? · l) (funext fun e => ?_))
  simp only [Function.comp_apply, key_merge hmerge]

/-- Only the entry of the new one's key changes. -/
theorem find?_upsertBy (hmerge : ∀ e, key e = key new → key (merge e) = key new) (k : κ) :
    (upsertBy key merge new l).find? (fun e => key e = k) =
      if key new = k then some ((l.find? fun e => key e = k).elim new merge)
      else l.find? fun e => key e = k := by
  rw [upsertBy]
  split
  · rename_i hany
    rw [find?_map_merge hmerge]
    by_cases hk : key new = k
    · rw [if_pos hk]
      subst hk
      obtain ⟨e, he⟩ := Option.isSome_iff_exists.mp
        ((List.find?_isSome (p := fun e => decide (key e = key new))).mpr
          (by simpa using hany))
      have hkey : key e = key new := by simpa using List.find?_some he
      rw [he, Option.map_some, Option.elim_some, if_pos hkey]
    · rw [if_neg hk]
      cases he : l.find? fun e => key e = k with
      | none => rfl
      | some e =>
        have hkey : key e = k := by simpa using List.find?_some he
        rw [Option.map_some, if_neg fun h => hk (h.symm.trans hkey)]
  · rename_i hany
    have hnone : ∀ e ∈ l, key e ≠ key new := by simpa using hany
    rw [List.find?_append]
    by_cases hk : key new = k
    · subst hk
      have hl : (l.find? fun e => key e = key new) = none :=
        List.find?_eq_none.mpr fun e he => by simpa using hnone e he
      rw [if_pos rfl, hl, Option.elim_none, Option.none_or]
      simp
    · rw [if_neg hk]
      simp [hk]

theorem nodup_upsertBy (hmerge : ∀ e, key e = key new → key (merge e) = key new)
    (h : (l.map key).Nodup) : ((upsertBy key merge new l).map key).Nodup := by
  rw [upsertBy]
  split
  · have hkeys : (l.map fun e => if key e = key new then merge e else e).map key = l.map key := by
      rw [List.map_map]
      exact List.map_congr_left fun e _ => key_merge hmerge e
    rw [hkeys]
    exact h
  · rename_i hany
    rw [List.map_append]
    refine List.Nodup.append h (List.nodup_singleton _) fun k hk hnew => hany ?_
    obtain ⟨e, he, rfl⟩ := List.mem_map.mp hk
    rw [List.any_eq_true]
    exact ⟨e, he, by simpa using hnew⟩

/-- However many were put, a key has one entry. -/
theorem nodup_foldl_upsertBy {β : Type*} (key : α → κ) (merge : β → α → α) (new : β → α)
    (hmerge : ∀ b e, key e = key (new b) → key (merge b e) = key (new b)) (bs : List β) :
    ((bs.foldl (fun l b => upsertBy key (merge b) (new b) l) []).map key).Nodup := by
  induction bs using List.reverseRecOn with
  | nil => exact List.nodup_nil
  | append_singleton bs b ih =>
    rw [List.foldl_concat]
    exact nodup_upsertBy (hmerge b) ih

/-- An entry is the one its key finds. -/
theorem find?_key_eq_some_iff (h : (l.map key).Nodup) {e : α} {k : κ} :
    l.find? (fun e => key e = k) = some e ↔ e ∈ l ∧ key e = k := by
  constructor
  · intro he
    exact ⟨List.mem_of_find?_eq_some he, by simpa using List.find?_some he⟩
  · rintro ⟨he, rfl⟩
    rw [← List.head?_filter, filter_key_of_mem h he]
    rfl

end

end SnapUrl.Lib
