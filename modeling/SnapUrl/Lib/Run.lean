import Mathlib.Data.List.Basic

/-!
# Runs of a step function

A concurrent program is given as a step function `step : σ → α → Option σ`: the
actions in `α` name who moves and what the outside answers, and `none` says the
action is not enabled.  An interleaving is then a list of actions, and a run is
what the list does to a state.

* `run`: the state a list of actions leads to.
* `Guarded G`: every step of the run is taken in a state that meets `G`.
* `invariant_of_guarded`: **the invariant rule**, what every guarded step keeps
  holds after every guarded run.  `invariant_of_run` is the rule with no guard.
* `guarded_iff_holds_throughout`: a guard that is exact at each step is exact over runs.
* `guarded_iff_holds_throughout_of_invariant`, `guarded_iff_holds_throughout_of_enabled`: the same
  beside an invariant of all runs, and for steps that are not always enabled.
* `holds_iff_of_guarded`: the same under a second guard that every step meets.
* `guarded_congr`: guards that agree in every state that is reached.
* `guarded_append`: a guarded run cut in two, so that a statement about every
  guarded run is a statement about every state it passes through.
* `guarded_iff_forall_steps`: the guard holds wherever the run takes a step.
* `exists_split_of_getElem?`, `mem_or_eq_of_mem_modify`, `countP_set_succ`, `filterMap_set_perm`,
  `pairwise_others`, `pairwise_set`: one actor of many, for a step that changes one entry of a list.
-/

namespace SnapUrl.Lib

variable {σ α : Type*}

/-- The state a list of actions leads to, `none` when one of them is not enabled. -/
def run (step : σ → α → Option σ) : σ → List α → Option σ
  | s, [] => some s
  | s, a :: as => (step s a).bind fun s' => run step s' as

/-- Every step of the run is taken in a state that meets `G`. -/
def Guarded (step : σ → α → Option σ) (G : σ → α → Prop) : σ → List α → Prop
  | _, [] => True
  | s, a :: as => G s a ∧ ∀ s', step s a = some s' → Guarded step G s' as

variable {step : σ → α → Option σ} {G : σ → α → Prop}

@[simp] theorem run_nil (s : σ) : run step s [] = some s := rfl

theorem run_cons (s : σ) (a : α) (as : List α) :
    run step s (a :: as) = (step s a).bind fun s' => run step s' as := rfl

theorem run_cons_eq_some {s t : σ} {a : α} {as : List α} :
    run step s (a :: as) = some t ↔ ∃ s', step s a = some s' ∧ run step s' as = some t := by
  rw [run_cons, Option.bind_eq_some_iff]

theorem run_append (s : σ) (as bs : List α) :
    run step s (as ++ bs) = (run step s as).bind fun t => run step t bs := by
  induction as generalizing s with
  | nil => rfl
  | cons a as ih =>
    rw [List.cons_append, run_cons, run_cons, Option.bind_assoc]
    exact Option.bind_congr fun s' _ => ih s'

@[simp] theorem guarded_nil (s : σ) : Guarded step G s [] := trivial

theorem guarded_cons {s : σ} {a : α} {as : List α} :
    Guarded step G s (a :: as) ↔ G s a ∧ ∀ s', step s a = some s' → Guarded step G s' as :=
  Iff.rfl

/-- A guarded run is guarded up to any point of it, and from there on. -/
theorem guarded_append {as bs : List α} {s : σ} :
    Guarded step G s (as ++ bs) ↔
      Guarded step G s as ∧ ∀ t, run step s as = some t → Guarded step G t bs := by
  induction as generalizing s with
  | nil => simp [Guarded]
  | cons a as ih =>
    rw [List.cons_append, guarded_cons, guarded_cons, and_assoc]
    refine and_congr_right fun _ => ?_
    constructor
    · intro h
      refine ⟨fun s' hs' => (ih.mp (h s' hs')).1, fun t ht => ?_⟩
      obtain ⟨s', hs', hr⟩ := run_cons_eq_some.mp ht
      exact (ih.mp (h s' hs')).2 t hr
    · rintro ⟨h1, h2⟩ s' hs'
      exact ih.mpr ⟨h1 s' hs', fun t ht => h2 t (run_cons_eq_some.mpr ⟨s', hs', ht⟩)⟩

/-- A run is guarded when the guard is met wherever the run takes a step. -/
theorem guarded_iff_forall_steps {as : List α} {s : σ} :
    Guarded step G s as ↔
      ∀ pre a post t, as = pre ++ a :: post → run step s pre = some t → G t a := by
  constructor
  · rintro hguarded pre a post t rfl hrun
    exact ((guarded_append.mp hguarded).2 t hrun).1
  · intro hall
    induction as generalizing s with
    | nil => exact trivial
    | cons a as ih =>
      refine ⟨hall [] a as s rfl rfl, fun s' hs' => ih fun pre b post t hsplit hrun => ?_⟩
      refine hall (a :: pre) b post t (by rw [hsplit]; rfl) ?_
      rw [run_cons, hs']
      exact hrun

/-- Whether a run is guarded can be computed when the guard can. -/
instance Guarded.decidable (step : σ → α → Option σ) (G : σ → α → Prop)
    [∀ s a, Decidable (G s a)] : ∀ (s : σ) (as : List α), Decidable (Guarded step G s as)
  | _, [] => isTrue trivial
  | s, a :: as =>
    match hs : step s a with
    | none => decidable_of_iff (G s a) (by simp [Guarded, hs])
    | some s' =>
      have : Decidable (Guarded step G s' as) := Guarded.decidable step G s' as
      decidable_of_iff (G s a ∧ Guarded step G s' as) (by simp [Guarded, hs])

/-- **The invariant rule.**  What every guarded step keeps holds after every guarded run. -/
theorem invariant_of_guarded {I : σ → Prop}
    (hstep : ∀ s a s', I s → G s a → step s a = some s' → I s') :
    ∀ (as : List α) (s t : σ), I s → Guarded step G s as → run step s as = some t → I t := by
  intro as
  induction as with
  | nil =>
    intro s t hs _ hr
    rw [run_nil, Option.some.injEq] at hr
    exact hr ▸ hs
  | cons a as ih =>
    intro s t hs hg hr
    obtain ⟨s', hs', hr'⟩ := run_cons_eq_some.mp hr
    exact ih s' t (hstep s a s' hs hg.1 hs') (hg.2 s' hs') hr'

/-- The invariant rule for steps that need no guard. -/
theorem invariant_of_run {I : σ → Prop} (hstep : ∀ s a s', I s → step s a = some s' → I s')
    (as : List α) (s t : σ) (hs : I s) (hr : run step s as = some t) : I t :=
  invariant_of_guarded (G := fun _ _ => True) (fun s a s' h _ => hstep s a s' h) as s t hs
    (guarded_iff_forall_steps.mpr fun _ _ _ _ _ _ => trivial) hr

/-- A step that leaves the state where it is not enabled. -/
theorem eq_some_or_of_getD {o : Option σ} {s t : σ} (h : some (o.getD s) = some t) :
    o = some t ∨ (o = none ∧ t = s) := by
  obtain rfl := Option.some.inj h
  cases o with
  | none => exact Or.inr ⟨rfl, rfl⟩
  | some u => exact Or.inl rfl

/-- A guard that says exactly when a step keeps a property, given an invariant of all runs.  It is
not asked of steps that are not enabled. -/
theorem guarded_iff_holds_throughout_of_enabled {I P : σ → Prop}
    (hnone : ∀ s a, step s a = none → G s a) (hinv : ∀ s a s', I s → step s a = some s' → I s')
    (hstep : ∀ s a s', I s → P s → step s a = some s' → (P s' ↔ G s a)) {as : List α} {s : σ}
    (hI : I s) (hP : P s) :
    Guarded step G s as ↔ ∀ pre post t, as = pre ++ post → run step s pre = some t → P t := by
  constructor
  · rintro hguarded pre post t rfl hrun
    have hboth : ∀ s a s', I s ∧ P s → G s a → step s a = some s' → I s' ∧ P s' :=
      fun s a s' h hg hs' => ⟨hinv s a s' h.1 hs', (hstep s a s' h.1 h.2 hs').mpr hg⟩
    exact (invariant_of_guarded hboth pre s t ⟨hI, hP⟩ (guarded_append.mp hguarded).1 hrun).2
  · intro hall
    induction as generalizing s with
    | nil => exact trivial
    | cons a as ih =>
      cases hs' : step s a with
      | none =>
        refine ⟨hnone s a hs', fun s' heq => ?_⟩
        rw [hs'] at heq
        cases heq
      | some s' =>
        have hP' : P s' := hall [a] as s' rfl (by rw [run_cons, hs']; rfl)
        refine ⟨(hstep s a s' hI hP hs').mp hP', fun u hu => ?_⟩
        obtain rfl := Option.some.inj (hs'.symm.trans hu)
        refine ih (hinv s a s' hI hs') hP' fun pre post t hsplit hrun =>
          hall (a :: pre) post t (by rw [hsplit]; rfl) ?_
        rw [run_cons, hs']
        exact hrun

/-- The same where every step is enabled. -/
theorem guarded_iff_holds_throughout_of_invariant {I P : σ → Prop}
    (hsome : ∀ s a, (step s a).isSome = true) (hinv : ∀ s a s', I s → step s a = some s' → I s')
    (hstep : ∀ s a s', I s → P s → step s a = some s' → (P s' ↔ G s a)) {as : List α} {s : σ}
    (hI : I s) (hP : P s) :
    Guarded step G s as ↔ ∀ pre post t, as = pre ++ post → run step s pre = some t → P t :=
  guarded_iff_holds_throughout_of_enabled
    (fun s a hnone => absurd (hsome s a) (by rw [hnone]; exact Bool.false_ne_true)) hinv hstep hI hP

/-- **A guard that says exactly when a step keeps a property.**  A run keeps the
property in every state it passes through exactly when it is guarded. -/
theorem guarded_iff_holds_throughout {P : σ → Prop} (hsome : ∀ s a, (step s a).isSome = true)
    (hstep : ∀ s a s', P s → step s a = some s' → (P s' ↔ G s a)) {as : List α} {s : σ}
    (hs : P s) :
    Guarded step G s as ↔ ∀ pre post t, as = pre ++ post → run step s pre = some t → P t :=
  guarded_iff_holds_throughout_of_invariant (I := fun _ => True) hsome (fun _ _ _ _ _ => trivial)
    (fun s a s' _ => hstep s a s') trivial hs

/-- What a guarded step keeps exactly under a second guard, a guarded run keeps exactly when it
meets the second guard throughout. -/
theorem holds_iff_of_guarded {H : σ → α → Prop} {I P : σ → Prop}
    (hinv : ∀ s a s', I s → G s a → step s a = some s' → I s')
    (hstep : ∀ s a s', I s → G s a → step s a = some s' → (P s' ↔ P s ∧ H s a))
    {as : List α} {s t : σ} (hs : I s) (hguard : Guarded step G s as)
    (hrun : run step s as = some t) : P t ↔ P s ∧ Guarded step H s as := by
  induction as generalizing s with
  | nil =>
    obtain rfl := Option.some.inj hrun
    exact (and_iff_left trivial).symm
  | cons a as ih =>
    obtain ⟨s', hs', hrun'⟩ := run_cons_eq_some.mp hrun
    rw [ih (hinv s a s' hs hguard.1 hs') (hguard.2 s' hs') hrun', hstep s a s' hs hguard.1 hs',
      and_assoc]
    refine and_congr_right fun _ => and_congr_right fun _ => ?_
    rw [hs']
    exact ⟨fun h u hu => Option.some.inj hu ▸ h, fun h => h s' rfl⟩

/-- Guards that agree under an invariant of all runs agree on a run. -/
theorem guarded_congr {H : σ → α → Prop} {I : σ → Prop}
    (hinv : ∀ s a s', I s → step s a = some s' → I s') (h : ∀ s a, I s → (G s a ↔ H s a))
    {as : List α} {s : σ} (hs : I s) : Guarded step G s as ↔ Guarded step H s as := by
  induction as generalizing s with
  | nil => exact Iff.rfl
  | cons a as ih =>
    exact and_congr (h s a hs) (forall₂_congr fun s' hs' => ih (hinv s a s' hs hs'))

/-! ### One of many actors -/

/-- **An actor of a list, and the list without it.**  Changing the actor at a place
leaves what stands before and after it. -/
theorem exists_split_of_getElem? {as : List α} {i : Nat} {a : α} (h : as[i]? = some a) :
    ∃ pre post, as = pre ++ a :: post ∧ ∀ b, as.set i b = pre ++ b :: post := by
  obtain ⟨hi, rfl⟩ := List.getElem?_eq_some_iff.mp h
  refine ⟨as.take i, as.drop (i + 1), ?_, fun b => List.set_eq_take_append_cons_drop ▸ if_pos hi⟩
  rw [← List.drop_eq_getElem_cons hi, List.take_append_drop]

/-- Who stands in a list after one actor was changed. -/
theorem eq_or_mem_eraseIdx_of_mem_set {as : List α} {i : Nat} {a b : α} (h : b ∈ as.set i a) :
    b = a ∨ b ∈ as.eraseIdx i := by
  by_cases hi : i < as.length
  · rw [List.set_eq_take_append_cons_drop, if_pos hi, List.mem_append, List.mem_cons] at h
    rw [List.eraseIdx_eq_take_drop_succ, List.mem_append]
    rcases h with h | h | h
    · exact Or.inr (Or.inl h)
    · exact Or.inl h
    · exact Or.inr (Or.inr h)
  · rw [List.set_eq_of_length_le (Nat.le_of_not_lt hi)] at h
    rw [List.eraseIdx_of_length_le (Nat.le_of_not_lt hi)]
    exact Or.inr h

/-- Who stood in a list stands there still, unless it was the one that was changed. -/
theorem eq_or_mem_set_of_mem {as : List α} {i : Nat} {a c : α} (ha : as[i]? = some a) (b : α)
    (h : c ∈ as) : c = a ∨ c ∈ as.set i b := by
  obtain ⟨pre, post, rfl, hset⟩ := exists_split_of_getElem? ha
  rw [hset, List.mem_append, List.mem_cons]
  rcases List.mem_append.mp h with hpre | hpost
  · exact Or.inr (Or.inl hpre)
  · exact (List.mem_cons.mp hpost).imp_right fun hpost => Or.inr (Or.inr hpost)

/-- Who stands in a list after one actor has moved. -/
theorem mem_or_eq_of_mem_modify {as : List α} {i : Nat} {f : α → α} {b : α}
    (h : b ∈ as.modify i f) : b ∈ as ∨ ∃ a, as[i]? = some a ∧ b = f a := by
  obtain ⟨j, hj⟩ := List.mem_iff_getElem?.mp h
  rw [List.getElem?_modify] at hj
  obtain ⟨a, ha, rfl⟩ := Option.map_eq_some_iff.mp hj
  split
  · next hij => exact Or.inr ⟨a, hij ▸ ha, rfl⟩
  · exact Or.inl (List.mem_of_getElem? ha)

/-- How many pass a test does not change when one that passes it becomes another. -/
theorem countP_set_of_eq {p : α → Bool} {as : List α} {i : Nat} {a b : α} (ha : as[i]? = some a)
    (h : p b = p a) : (as.set i b).countP p = as.countP p := by
  obtain ⟨pre, post, rfl, hset⟩ := exists_split_of_getElem? ha
  rw [hset, List.countP_append, List.countP_append, List.countP_cons, List.countP_cons, h]

/-- One more passes a test. -/
theorem countP_set_succ {p : α → Bool} {as : List α} {i : Nat} {a b : α} (ha : as[i]? = some a)
    (hbefore : p a = false) (hafter : p b = true) :
    (as.set i b).countP p = as.countP p + 1 := by
  obtain ⟨pre, post, rfl, hset⟩ := exists_split_of_getElem? ha
  rw [hset, List.countP_append, List.countP_append, List.countP_cons_of_pos hafter,
    List.countP_cons_of_neg (by rw [hbefore]; exact Bool.false_ne_true), Nat.add_assoc]

/-- What is collected of the actors does not change when one is changed for another that gives the
same. -/
theorem filterMap_set_of_eq {β : Type*} {f : α → Option β} {as : List α} {i : Nat} {a b : α}
    (ha : as[i]? = some a) (h : f b = f a) : (as.set i b).filterMap f = as.filterMap f := by
  obtain ⟨pre, post, rfl, hset⟩ := exists_split_of_getElem? ha
  rw [hset, List.filterMap_append, List.filterMap_append, List.filterMap_cons, List.filterMap_cons,
    h]

/-- One more gives something. -/
theorem filterMap_set_perm {β : Type*} {f : α → Option β} {as : List α} {i : Nat} {a b : α} {y : β}
    (ha : as[i]? = some a) (hbefore : f a = none) (hafter : f b = some y) :
    (as.filterMap f ++ [y]).Perm ((as.set i b).filterMap f) := by
  obtain ⟨pre, post, rfl, hset⟩ := exists_split_of_getElem? ha
  rw [hset, List.filterMap_append, List.filterMap_append, List.filterMap_cons_none hbefore,
    List.filterMap_cons_some hafter, List.append_assoc]
  exact (List.perm_append_singleton y _).append_left _

section Pairwise

variable {R : α → α → Prop} {as : List α} {i : Nat} {a : α}

/-- What holds between any two holds between one and all others. -/
theorem pairwise_others (hsymm : ∀ {x y}, R x y → R y x) (h : as.Pairwise R)
    (ha : as[i]? = some a) : ∀ b ∈ as.eraseIdx i, R a b := by
  obtain ⟨hi, rfl⟩ := List.getElem?_eq_some_iff.mp ha
  have hsplit : as.take i ++ as[i] :: as.drop (i + 1) = as := by
    rw [← List.drop_eq_getElem_cons hi, List.take_append_drop]
  rw [← hsplit, List.pairwise_middle hsymm] at h
  rw [List.eraseIdx_eq_take_drop_succ]
  exact (List.pairwise_cons.mp h).1

/-- One actor may be changed for one that agrees with all others. -/
theorem pairwise_set (hsymm : ∀ {x y}, R x y → R y x) (h : as.Pairwise R)
    (ha : ∀ b ∈ as.eraseIdx i, R a b) : (as.set i a).Pairwise R := by
  by_cases hi : i < as.length
  · rw [List.set_eq_take_append_cons_drop, if_pos hi, List.pairwise_middle hsymm,
      List.pairwise_cons, ← List.eraseIdx_eq_take_drop_succ]
    exact ⟨ha, h.sublist (List.eraseIdx_sublist as i)⟩
  · rw [List.set_eq_of_length_le (Nat.le_of_not_lt hi)]
    exact h

end Pairwise

end SnapUrl.Lib
