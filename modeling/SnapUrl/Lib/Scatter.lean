import Mathlib.Data.List.Nodup

/-!
# Places of a list

Work on the entries of a list is often spread over several collections that are keyed by the
place of an entry, and put together again by writing each of them into an array of results.

* `indexed f`: what `f` gives for the entries, each with its place.
* `setKey`: an entry of a map that remembers the order in which its keys came in.
* `scatter`: an array after writes at given places.  `getElem?_scatter_of_mem`: **a place holds
  what was written there**, where no place is written twice.
-/

namespace SnapUrl.Lib

variable {α β γ κ : Type*}

/-! ### Entries with their places -/

def indexed (f : α → Option β) : Nat → List α → List (Nat × β)
  | _, [] => []
  | n, a :: as => ((f a).map (n, ·)).toList ++ indexed f (n + 1) as

section

variable {f g : α → Option β} {n i : Nat} {a : α} {b : β} {as : List α}

attribute [local simp] indexed

theorem indexed_cons_some (as : List α) (h : f a = some b) :
    indexed f n (a :: as) = (n, b) :: indexed f (n + 1) as := by
  rw [indexed, h]
  rfl

theorem indexed_cons_none (as : List α) (h : f a = none) :
    indexed f n (a :: as) = indexed f (n + 1) as := by
  rw [indexed, h]
  rfl

theorem mem_indexed :
    (i, b) ∈ indexed f n as ↔ ∃ j a, as[j]? = some a ∧ i = n + j ∧ f a = some b := by
  induction as generalizing n with
  | nil => simp
  | cons a as ih =>
    rw [indexed, List.mem_append, ih]
    constructor
    · rintro (hhead | ⟨j, a', ha', rfl, hb⟩)
      · obtain ⟨b', hb', heq⟩ := Option.map_eq_some_iff.mp (Option.mem_toList.mp hhead)
        obtain ⟨rfl, rfl⟩ := Prod.mk.inj heq
        exact ⟨0, a, rfl, rfl, hb'⟩
      · exact ⟨j + 1, a', ha', by omega, hb⟩
    · rintro ⟨j, a', ha', rfl, hb⟩
      cases j with
      | zero =>
        obtain rfl : a = a' := by simpa using ha'
        exact Or.inl (by simp [hb])
      | succ j => exact Or.inr ⟨j, a', by simpa using ha', by omega, hb⟩

theorem mem_indexed_zero : (i, b) ∈ indexed f 0 as ↔ ∃ a, as[i]? = some a ∧ f a = some b := by
  rw [mem_indexed]
  constructor
  · rintro ⟨j, a, ha, rfl, hb⟩
    exact ⟨a, by rwa [Nat.zero_add], hb⟩
  · rintro ⟨a, ha, hb⟩
    exact ⟨i, a, ha, (Nat.zero_add i).symm, hb⟩

theorem le_of_mem_indexed {x : Nat × β} (h : x ∈ indexed f n as) : n ≤ x.1 := by
  obtain ⟨j, a, -, hi, -⟩ := mem_indexed.mp h
  omega

theorem nodup_indexed (f : α → Option β) (n : Nat) (as : List α) :
    ((indexed f n as).map (·.1)).Nodup := by
  induction as generalizing n with
  | nil => exact List.nodup_nil
  | cons a as ih =>
    cases hf : f a with
    | none => rw [indexed_cons_none as hf]; exact ih (n + 1)
    | some b =>
      rw [indexed_cons_some as hf, List.map_cons, List.nodup_cons]
      refine ⟨fun hmem => ?_, ih (n + 1)⟩
      obtain ⟨x, hx, heq⟩ := List.mem_map.mp hmem
      have := le_of_mem_indexed hx
      omega

theorem length_indexed (f : α → Option β) (n : Nat) (as : List α) :
    (indexed f n as).length = as.countP fun a => (f a).isSome := by
  induction as generalizing n with
  | nil => rfl
  | cons a as ih =>
    cases hf : f a with
    | none => rw [indexed_cons_none as hf, ih, List.countP_cons_of_neg (by simp [hf])]
    | some b =>
      rw [indexed_cons_some as hf, List.length_cons, ih, List.countP_cons_of_pos (by simp [hf])]

theorem map_snd_indexed (f : α → Option β) (n : Nat) (as : List α) :
    (indexed f n as).map (·.2) = as.filterMap f := by
  induction as generalizing n with
  | nil => rfl
  | cons a as ih =>
    cases hf : f a with
    | none => rw [indexed_cons_none as hf, ih, List.filterMap_cons_none hf]
    | some b => rw [indexed_cons_some as hf, List.map_cons, ih, List.filterMap_cons_some hf]

/-- An entry of one kind is at no place of another kind. -/
theorem notMem_indexed {h : α → Option γ} (hdisjoint : ∀ a, (f a).isSome = true → h a = none)
    {x : Nat × β} (hx : x ∈ indexed f n as) : x.1 ∉ (indexed h n as).map (·.1) := by
  intro hmem
  obtain ⟨y, hy, heq⟩ := List.mem_map.mp hmem
  obtain ⟨j, a, ha, hj, hfa⟩ := mem_indexed.mp hx
  obtain ⟨k, a', ha', hk, hha⟩ := mem_indexed.mp hy
  obtain rfl : j = k := by omega
  obtain rfl : a = a' := Option.some.inj (ha.symm.trans ha')
  rw [hdisjoint a (by rw [hfa]; rfl)] at hha
  cases hha

end

/-! ### Maps -/

/-- `map.set(key, value)`. -/
def setKey [DecidableEq κ] (m : List (κ × β)) (key : κ) (value : β) : List (κ × β) :=
  if key ∈ m.map (·.1) then m.map fun entry => if entry.1 = key then (key, value) else entry
  else m ++ [(key, value)]

theorem setKey_of_notMem [DecidableEq κ] {m : List (κ × β)} {key : κ} (value : β)
    (h : key ∉ m.map (·.1)) : setKey m key value = m ++ [(key, value)] := if_neg h

/-- Keys that are new come in one after another. -/
theorem foldl_setKey [DecidableEq κ] {m : List (κ × β)} {entries : List (κ × β)}
    (hnodup : (entries.map (·.1)).Nodup) (hnew : ∀ entry ∈ entries, entry.1 ∉ m.map (·.1)) :
    entries.foldl (fun m entry => setKey m entry.1 entry.2) m = m ++ entries := by
  induction entries generalizing m with
  | nil => exact (List.append_nil m).symm
  | cons entry entries ih =>
    obtain ⟨hout, hrest⟩ := List.nodup_cons.mp hnodup
    rw [List.foldl_cons, setKey_of_notMem _ (hnew entry List.mem_cons_self), ih hrest,
      List.append_assoc, List.singleton_append]
    intro other hother
    rw [List.map_append, List.mem_append, not_or]
    refine ⟨hnew other (List.mem_cons_of_mem _ hother), fun heq => hout ?_⟩
    rw [List.map_singleton, List.mem_singleton] at heq
    exact List.mem_map.mpr ⟨other, hother, heq⟩

/-! ### Writes -/

/-- `results[i] = b` for each entry. -/
def scatter (results : List (Option β)) (writes : List (Nat × β)) : List (Option β) :=
  writes.foldl (fun results entry => results.set entry.1 (some entry.2)) results

section

variable {results : List (Option β)} {writes : List (Nat × β)} {i : Nat}

@[simp] theorem length_scatter (results : List (Option β)) (writes : List (Nat × β)) :
    (scatter results writes).length = results.length := by
  induction writes generalizing results with
  | nil => rfl
  | cons entry writes ih => exact (ih _).trans (by rw [List.length_set])

theorem getElem?_scatter_of_notMem (h : i ∉ writes.map (·.1)) :
    (scatter results writes)[i]? = results[i]? := by
  induction writes generalizing results with
  | nil => rfl
  | cons entry writes ih =>
    rw [List.map_cons, List.mem_cons, not_or] at h
    exact (ih h.2).trans (List.getElem?_set_ne (Ne.symm h.1))

theorem getElem?_scatter_of_mem (hnodup : (writes.map (·.1)).Nodup) {b : β}
    (hmem : (i, b) ∈ writes) (hi : i < results.length) :
    (scatter results writes)[i]? = some (some b) := by
  induction writes generalizing results with
  | nil => cases hmem
  | cons entry writes ih =>
    obtain ⟨hout, hrest⟩ := List.nodup_cons.mp hnodup
    rcases List.mem_cons.mp hmem with rfl | hmem
    · exact (getElem?_scatter_of_notMem hout).trans (List.getElem?_set_self hi)
    · exact ih hrest hmem (by rwa [List.length_set])

end

end SnapUrl.Lib
