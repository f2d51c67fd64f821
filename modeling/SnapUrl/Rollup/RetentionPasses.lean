import SnapUrl.Rollup.Partitions

/-!
# Retention passes that overlap

`pruneRetention` of `apps/worker/src/jobs/rollup.ts`, one statement after another, with any
number of other passes, of rollups and of clicks in between.  The lease holds passes apart
only until it runs out, so nothing here rests on it.

* `Pass.statement`: the next statement of a pass, and what its answer leaves the pass with.
* `Orderly`: what holds of a pass wherever it is, while other passes take days from it.
* `overlapping_passes`: **no pending click goes; a pass keeps to its budget, the age pass to
  days before the cutoff; the cap goes from the oldest day on and stops for a reason; the
  `DELETE` takes what is past its window and nothing else.**
-/

namespace SnapUrl.Rollup.Retention.Passes

open Lib IsoDate

/-! ### A pass, statement by statement -/

/-- What a pass sends next. -/
inductive Phase where
  /-- The list of spent partitions, as the pass has its cutoff. -/
  | listing
  /-- A drop of the age pass, or the list of attached days after the last one. -/
  | aging (todo : List Int)
  /-- A drop of the cap, with the days it has not looked at and how many are over it. -/
  | capping (todo : List Int) (overCap : Int)
  | deleting
  | finished (rowsDeleted : Nat)
deriving DecidableEq, Repr

structure Pass where
  cutoff : Int
  phase : Phase
  outcomes : Outcomes
  /-- What the age pass attempted and what it was answered, in order. -/
  aged : List (Int × DropOutcome)
  /-- The same for the cap. -/
  capped : List (Int × DropOutcome)
  /-- The attached days, as the cap was told. -/
  listed : List Int
deriving DecidableEq, Repr

/-- `attemptDrop`, called by the age pass. -/
def Pass.age (contended : Bool) (w : World) (p : Pass) (d : Int) (rest : List Int) :
    World × Pass :=
  let r := dropPartition contended w d
  (r.1,
    { p with
      phase := .aging rest
      outcomes := p.outcomes.add r.2
      aged := p.aged ++ [(d, r.2)] })

/-- `attemptDrop`, called by the cap. -/
def Pass.cap (contended : Bool) (w : World) (p : Pass) (d : Int) (rest : List Int)
    (overCap : Int) : World × Pass :=
  let r := dropPartition contended w d
  (r.1,
    { p with
      phase := .capping rest (if r.2 = .dropped then overCap - 1 else overCap)
      outcomes := p.outcomes.add r.2
      capped := p.capped ++ [(d, r.2)] })

/-- The list of attached days, for a pass that has drops left. -/
def Pass.list (st : Settings) (w : World) (p : Pass) : Pass :=
  if 0 < st.maxDropsPerPass - p.outcomes.dropped then
    let attached := attachedDays w
    { p with
      phase := .capping attached (attached.length - st.maxRetainedDays)
      listed := attached }
  else { p with phase := .deleting }

/-- The next statement of a pass. -/
def Pass.statement (st : Settings) (contended : Bool) (w : World) (p : Pass) : World × Pass :=
  match p.phase with
  | .listing =>
    (w, { p with phase := .aging ((spentPartitions p.cutoff w).take st.maxDropsPerPass) })
  | .aging [] => (w, p.list st w)
  | .aging (d :: rest) => p.age contended w d rest
  | .capping [] _ => (w, { p with phase := .deleting })
  | .capping (d :: rest) overCap =>
    if overCap ≤ 0 ∨ st.maxDropsPerPass ≤ p.outcomes.dropped then (w, { p with phase := .deleting })
    else p.cap contended w d rest overCap
  | .deleting => (w.sweep st, { p with phase := .finished (w.rows.filter (swept st w)).length })
  | .finished _ => (w, p)

/-! ### Overlap -/

structure Overlap where
  world : World
  passes : List Pass

inductive Action where
  | tick (elapsed : Nat)
  /-- A click is recorded. -/
  | click (r : Row)
  /-- A rollup marks some clicks. -/
  | rollup (ids : List String)
  | setRetention (workspaceId : String) (years : Int)
  /-- A pass takes its cutoff. -/
  | begins
  /-- A pass sends its next statement, which may wait for a lock in vain. -/
  | statement (i : Nat) (contended : Bool)

/-- A pass that has taken its cutoff. -/
def Pass.first (st : Settings) (w : World) : Pass :=
  ⟨w.cutoff st, .listing, ⟨0, 0, 0, 0⟩, [], [], []⟩

def act (st : Settings) (s : Overlap) : Action → Overlap
  | .tick elapsed => { s with world := { s.world with now := s.world.now + elapsed } }
  | .click r =>
    { s with world := { s.world with rows := s.world.rows ++ [{ r with rolledUp := false }] } }
  | .rollup ids =>
    { s with
      world := { s.world with
        rows := s.world.rows.map fun r =>
          if r.id ∈ ids then { r with rolledUp := true } else r } }
  | .setRetention workspaceId years =>
    { s with
      world := { s.world with retention := Function.update s.world.retention workspaceId years } }
  | .begins => { s with passes := s.passes ++ [.first st s.world] }
  | .statement i contended =>
    match s.passes[i]? with
    | none => s
    | some p =>
      { world := (p.statement st contended s.world).1
        passes := s.passes.set i (p.statement st contended s.world).2 }

def step (st : Settings) (s : Overlap) (a : Action) : Option Overlap := some (act st s a)

/-- The days a pass dropped. -/
def Pass.drops (p : Pass) : List Int :=
  ((p.aged ++ p.capped).filter fun x => x.2 = .dropped).map Prod.fst

/-- The pass is through with the cap. -/
def Phase.pastCap : Phase → Bool
  | .deleting | .finished _ => true
  | _ => false

/-- **Why the cap stopped**: few enough days are attached, the pass has dropped as many as it
may, or every day that is left was found pinned or contended. -/
def Ended (st : Settings) (w : World) (p : Pass) : Prop :=
  w.attached.card ≤ st.maxRetainedDays ∨
    st.maxDropsPerPass ≤ p.drops.length ∨
    ∀ d ∈ w.attached, (d, .pinned) ∈ p.capped ∨ (d, .contended) ∈ p.capped

/-! ### What a statement does to the table -/

section Statement

variable {st : Settings} {contended : Bool} {w w' : World} {p : Pass} {d : Int} {rest : List Int}
  {overCap : Int}

theorem dropPartition_cases (contended : Bool) (w : World) (d : Int) :
    (d ∈ w.attached ∧ w.pinned d = false ∧ dropPartition contended w d = (w.drop d, .dropped)) ∨
      dropPartition contended w d = (w, .pinned) ∨
      dropPartition contended w d = (w, .contended) ∨
      (d ∉ w.attached ∧ dropPartition contended w d = (w, .missing)) := by
  rw [dropPartition]
  by_cases hcontended : contended = true
  · rw [if_pos hcontended]
    exact Or.inr (Or.inr (Or.inl rfl))
  rw [if_neg hcontended]
  by_cases hattached : d ∈ w.attached
  · rw [if_neg (not_not.mpr hattached)]
    cases hpinned : w.pinned d with
    | true => exact Or.inr (Or.inl (if_pos rfl))
    | false => exact Or.inl ⟨hattached, rfl, if_neg Bool.false_ne_true⟩
  · rw [if_pos hattached]
    exact Or.inr (Or.inr (Or.inr ⟨hattached, rfl⟩))

theorem mem_drops {e : Int} :
    e ∈ p.drops ↔ (e, DropOutcome.dropped) ∈ p.aged ∨ (e, DropOutcome.dropped) ∈ p.capped := by
  rw [Pass.drops, List.mem_map, ← List.mem_append]
  constructor
  · rintro ⟨⟨e', o⟩, hmem, rfl⟩
    obtain ⟨hmem, ho⟩ := List.mem_filter.mp hmem
    rwa [← of_decide_eq_true ho]
  · exact fun h => ⟨_, List.mem_filter.mpr ⟨h, decide_eq_true rfl⟩, rfl⟩

theorem length_drops (p : Pass) : p.drops.length =
    (p.aged.countP fun x => x.2 = .dropped) + p.capped.countP fun x => x.2 = .dropped := by
  rw [Pass.drops, List.length_map, ← List.countP_eq_length_filter, List.countP_append]

/-- A statement leaves the table, drops a day that has no pending click, or sweeps. -/
theorem statement_world (st : Settings) (contended : Bool) (w : World) (p : Pass) :
    (p.statement st contended w).1 = w ∨
      (∃ d ∈ w.attached, w.pinned d = false ∧ (p.statement st contended w).1 = w.drop d ∧
        d ∈ (p.statement st contended w).2.drops) ∨
      (p.statement st contended w).1 = w.sweep st := by
  rw [Pass.statement.eq_def]
  rcases p.phase with _ | (_ | ⟨d, rest⟩) | ⟨(_ | ⟨d, rest⟩), overCap⟩ | _ | n
  · exact Or.inl rfl
  · exact Or.inl rfl
  · rcases dropPartition_cases contended w d with ⟨hmem, hpinned, h⟩ | h | h | ⟨-, h⟩
    · refine Or.inr (Or.inl ⟨d, hmem, hpinned, ?_, mem_drops.mpr (Or.inl ?_)⟩)
      · exact congrArg Prod.fst h
      · simp [Pass.age, h]
    all_goals exact Or.inl (congrArg Prod.fst h)
  · exact Or.inl rfl
  · dsimp only
    split
    · exact Or.inl rfl
    · rcases dropPartition_cases contended w d with ⟨hmem, hpinned, h⟩ | h | h | ⟨-, h⟩
      · refine Or.inr (Or.inl ⟨d, hmem, hpinned, ?_, mem_drops.mpr (Or.inr ?_)⟩)
        · exact congrArg Prod.fst h
        · simp [Pass.cap, h]
      all_goals exact Or.inl (congrArg Prod.fst h)
  · exact Or.inr (Or.inr rfl)
  · exact Or.inl rfl

/-- A statement leaves the pending clicks. -/
theorem pending_statement {r : Row} (hr : r ∈ w.rows) (hpending : r.rolledUp = false) :
    r ∈ (p.statement st contended w).1.rows := by
  rcases statement_world st contended w p with h | ⟨d, -, hpinned, h, -⟩ | h
  · rwa [h]
  · rw [h]
    refine List.mem_filter.mpr ⟨hr, decide_eq_true fun hday => ?_⟩
    have hfree := List.any_eq_false.mp hpinned r hr
    simp [hday, hpending] at hfree
  · rw [h]
    refine List.mem_filter.mpr ⟨hr, ?_⟩
    simp [swept, hpending]

/-- The same clock or a later one, over days of which some are gone. -/
structure Later (w w' : World) : Prop where
  attached : w'.attached ⊆ w.attached
  now : w.now ≤ w'.now

theorem Later.refl (w : World) : Later w w := ⟨subset_rfl, le_rfl⟩

theorem later_statement (st : Settings) (contended : Bool) (w : World) (p : Pass) :
    Later w (p.statement st contended w).1 := by
  rcases statement_world st contended w p with h | ⟨d, -, -, h, -⟩ | h
  · rw [h]
    exact .refl w
  · rw [h]
    exact ⟨Finset.erase_subset _ _, le_rfl⟩
  · rw [h]
    exact ⟨subset_rfl, le_rfl⟩

theorem Later.cutoff (h : Later w w') : w.cutoff st ≤ w'.cutoff st :=
  minusYears_mono (Int.ediv_le_ediv (by decide) h.now) _

/-- An answer that says a day is gone is right. -/
theorem gone_of_dropPartition
    (h : (dropPartition contended w d).2 = .dropped ∨ (dropPartition contended w d).2 = .missing) :
    d ∉ (dropPartition contended w d).1.attached := by
  rcases dropPartition_cases contended w d with ⟨-, -, heq⟩ | heq | heq | ⟨hgone, heq⟩
  · rw [heq]
    exact Finset.notMem_erase _ _
  · rw [heq] at h
    simp at h
  · rw [heq] at h
    simp at h
  · rwa [heq]

theorem later_dropPartition (contended : Bool) (w : World) (d : Int) :
    Later w (dropPartition contended w d).1 := by
  rcases dropPartition_cases contended w d with ⟨-, -, h⟩ | h | h | ⟨-, h⟩
  · rw [h]
    exact ⟨Finset.erase_subset _ _, le_rfl⟩
  all_goals
    rw [h]
    exact .refl w

end Statement

/-! ### A pass on its way -/

/-- What a phase says of the days. -/
def PhaseOk (st : Settings) (w : World) (p : Pass) : Phase → Prop
  | .listing => p.aged = [] ∧ p.capped = [] ∧ p.listed = []
  | .aging todo =>
    p.drops.length + todo.length ≤ st.maxDropsPerPass ∧ (∀ d ∈ todo, d + 1 ≤ p.cutoff) ∧
      p.capped = [] ∧ p.listed = []
  | .capping todo overCap =>
    p.listed = p.capped.map Prod.fst ++ todo ∧ (∀ d ∈ w.attached, d ∈ p.listed) ∧
      overCap = p.listed.length - st.maxRetainedDays - p.capped.countP fun x => x.2 = .dropped
  | .deleting | .finished _ => p.capped.map Prod.fst <+: p.listed ∧ Ended st w p

/-- **What holds of a pass wherever it is.** -/
structure Orderly (st : Settings) (w : World) (p : Pass) : Prop where
  cutoff : p.cutoff ≤ w.cutoff st
  count : p.outcomes.dropped = p.drops.length
  budget : p.drops.length ≤ st.maxDropsPerPass
  aged : ∀ x ∈ p.aged, x.1 + 1 ≤ p.cutoff
  sorted : p.listed.Pairwise (· < ·)
  gone : ∀ d, d ∈ p.drops ∨ (d, .missing) ∈ p.capped → d ∉ w.attached
  phase : PhaseOk st w p p.phase

section Orderly

variable {st : Settings} {contended : Bool} {w w' : World} {p : Pass} {d : Int} {rest : List Int}
  {overCap : Int}

theorem Ended.later (h : Ended st w p) (hlater : Later w w') : Ended st w' p := by
  rcases h with hcard | hbudget | hleft
  · have hle := Finset.card_le_card hlater.attached
    exact Or.inl (by omega)
  · exact Or.inr (Or.inl hbudget)
  · exact Or.inr (Or.inr fun d hd => hleft d (hlater.attached hd))

theorem PhaseOk.later {phase : Phase} (h : PhaseOk st w p phase) (hlater : Later w w') :
    PhaseOk st w' p phase := by
  cases phase with
  | listing => exact h
  | aging todo => exact h
  | capping todo overCap => exact ⟨h.1, fun d hd => h.2.1 d (hlater.attached hd), h.2.2⟩
  | deleting => exact ⟨h.1, h.2.later hlater⟩
  | finished n => exact ⟨h.1, h.2.later hlater⟩

/-- The cap leaves out none of the days before the one it is at. -/
theorem PhaseOk.inOrder {phase : Phase} (h : PhaseOk st w p phase) :
    p.capped.map Prod.fst <+: p.listed := by
  cases phase with
  | listing =>
    rw [h.2.1]
    exact List.nil_prefix
  | aging todo =>
    rw [h.2.2.1]
    exact List.nil_prefix
  | capping todo overCap =>
    rw [h.1]
    exact List.prefix_append _ _
  | deleting => exact h.1
  | finished n => exact h.1

theorem PhaseOk.ended {phase : Phase} (h : PhaseOk st w p phase) (hpast : phase.pastCap = true) :
    Ended st w p := by
  cases phase with
  | deleting => exact h.2
  | finished n => exact h.2
  | _ => exact absurd hpast Bool.false_ne_true

/-- **Nothing another pass does disturbs a pass.** -/
theorem Orderly.later (h : Orderly st w p) (hlater : Later w w') : Orderly st w' p where
  cutoff := h.cutoff.trans hlater.cutoff
  count := h.count
  budget := h.budget
  aged := h.aged
  sorted := h.sorted
  gone := fun d hd hmem => h.gone d hd (hlater.attached hmem)
  phase := h.phase.later hlater

theorem orderly_first (st : Settings) (w : World) : Orderly st w (.first st w) where
  cutoff := le_rfl
  count := rfl
  budget := Nat.zero_le _
  aged := by simp [Pass.first]
  sorted := List.Pairwise.nil
  gone := by simp [Pass.first, Pass.drops]
  phase := ⟨rfl, rfl, rfl⟩

/-- The spent days that are listed are behind the cutoff. -/
theorem Orderly.spent (h : Orderly st w p) (hphase : p.phase = .listing) :
    Orderly st w { p with
      phase := .aging ((spentPartitions p.cutoff w).take st.maxDropsPerPass) } where
  cutoff := h.cutoff
  count := h.count
  budget := h.budget
  aged := h.aged
  sorted := h.sorted
  gone := h.gone
  phase := by
    have hphase' := h.phase
    rw [hphase] at hphase'
    obtain ⟨haged, hcapped, hlisted⟩ := hphase'
    refine ⟨?_, fun d hd => ?_, hcapped, hlisted⟩
    · change p.drops.length + _ ≤ _
      rw [length_drops, haged, hcapped, List.length_take]
      simp
    · exact (mem_spentPartitions.mp (List.mem_of_mem_take hd)).2.1

theorem Orderly.age (h : Orderly st w p) (hphase : p.phase = .aging (d :: rest)) :
    Orderly st (p.age contended w d rest).1 (p.age contended w d rest).2 := by
  have hlater := later_dropPartition contended w d
  have hphase' := h.phase
  rw [hphase] at hphase'
  obtain ⟨hbudget, hpast, hcapped, hlisted⟩ := hphase'
  have hdrops : (p.age contended w d rest).2.drops.length =
      p.drops.length + if (dropPartition contended w d).2 = .dropped then 1 else 0 := by
    rw [length_drops, length_drops]
    change (p.aged ++ [_]).countP _ + p.capped.countP _ = _
    rw [List.countP_append, List.countP_singleton]
    simp only [decide_eq_true_eq]
    omega
  have hle : p.drops.length + (if (dropPartition contended w d).2 = .dropped then 1 else 0) +
      rest.length ≤ st.maxDropsPerPass := by
    rw [List.length_cons] at hbudget
    split <;> omega
  exact
    { cutoff := h.cutoff.trans hlater.cutoff
      count := by
        change (p.outcomes.add _).dropped = _
        rw [dropped_add, h.count, hdrops]
      budget := by omega
      aged := by
        intro x hx
        rcases List.mem_append.mp hx with hx | hx
        · exact h.aged x hx
        · rw [List.mem_singleton.mp hx]
          exact hpast d List.mem_cons_self
      sorted := h.sorted
      gone := by
        intro e he hmem
        rw [mem_drops] at he
        change (_ ∈ p.aged ++ [_] ∨ _ ∈ p.capped) ∨ _ ∈ p.capped at he
        rw [hcapped, List.mem_append, List.mem_singleton, Prod.mk.injEq] at he
        simp only [List.not_mem_nil, or_false] at he
        rcases he with he | ⟨rfl, ho⟩
        · exact h.gone e (Or.inl (mem_drops.mpr (Or.inl he))) (hlater.attached hmem)
        · exact gone_of_dropPartition (Or.inl ho.symm) hmem
      phase := by
        refine ⟨?_, fun e he => hpast e (List.mem_cons_of_mem _ he), hcapped, hlisted⟩
        rw [hdrops]
        exact hle }

/-- The cap is told every attached day, oldest first. -/
theorem Orderly.list (h : Orderly st w p) (hphase : p.phase = .aging []) :
    Orderly st w (p.list st w) := by
  have hphase' := h.phase
  rw [hphase] at hphase'
  obtain ⟨-, -, hcapped, hlisted⟩ := hphase'
  rw [Pass.list]
  split
  · exact
      { cutoff := h.cutoff
        count := h.count
        budget := h.budget
        aged := h.aged
        sorted := (Finset.sortedLT_sort _).pairwise
        gone := h.gone
        phase := by
          refine ⟨?_, fun d hd => (Finset.mem_sort _).mpr hd, ?_⟩
          · change _ = List.map Prod.fst p.capped ++ _
            rw [hcapped]
            rfl
          · change _ = _ - _ - ((List.countP _ p.capped : Nat) : Int)
            rw [hcapped]
            simp }
  · rename_i hspent
    exact
      { cutoff := h.cutoff
        count := h.count
        budget := h.budget
        aged := h.aged
        sorted := h.sorted
        gone := h.gone
        phase := by
          refine ⟨?_, Or.inr (Or.inl ?_)⟩
          · change List.map Prod.fst p.capped <+: p.listed
            rw [hcapped]
            exact List.nil_prefix
          · change _ ≤ p.drops.length
            rw [← h.count]
            omega }

/-- **How many days are over the cap stays right over every answer.** -/
theorem Orderly.cap (h : Orderly st w p) (hphase : p.phase = .capping (d :: rest) overCap)
    (hbudget : p.drops.length < st.maxDropsPerPass) :
    Orderly st (p.cap contended w d rest overCap).1 (p.cap contended w d rest overCap).2 := by
  have hlater := later_dropPartition contended w d
  have hphase' := h.phase
  rw [hphase] at hphase'
  obtain ⟨hlisted, hattached, hover⟩ := hphase'
  have hcount : ((p.cap contended w d rest overCap).2.capped.countP fun x => x.2 = .dropped) =
      (p.capped.countP fun x => x.2 = .dropped) +
        if (dropPartition contended w d).2 = .dropped then 1 else 0 := by
    change (p.capped ++ [_]).countP _ = _
    rw [List.countP_append, List.countP_singleton]
    simp only [decide_eq_true_eq]
  have hdrops : (p.cap contended w d rest overCap).2.drops.length =
      p.drops.length + if (dropPartition contended w d).2 = .dropped then 1 else 0 := by
    rw [length_drops, length_drops, hcount, add_assoc]
    rfl
  exact
    { cutoff := h.cutoff.trans hlater.cutoff
      count := by
        change (p.outcomes.add _).dropped = _
        rw [dropped_add, h.count, hdrops]
      budget := by
        rw [hdrops]
        split <;> omega
      aged := h.aged
      sorted := h.sorted
      gone := by
        intro e he hmem
        rw [mem_drops] at he
        change (_ ∈ p.aged ∨ _ ∈ p.capped ++ [_]) ∨ _ ∈ p.capped ++ [_] at he
        simp only [List.mem_append, List.mem_singleton, Prod.mk.injEq] at he
        rcases he with (he | he | ⟨rfl, ho⟩) | he | ⟨rfl, ho⟩
        · exact h.gone e (Or.inl (mem_drops.mpr (Or.inl he))) (hlater.attached hmem)
        · exact h.gone e (Or.inl (mem_drops.mpr (Or.inr he))) (hlater.attached hmem)
        · exact gone_of_dropPartition (Or.inl ho.symm) hmem
        · exact h.gone e (Or.inr he) (hlater.attached hmem)
        · exact gone_of_dropPartition (Or.inr ho.symm) hmem
      phase := by
        refine ⟨?_, fun e he => hattached e (hlater.attached he), ?_⟩
        · change p.listed = (p.capped ++ [_]).map Prod.fst ++ rest
          rw [hlisted, List.map_append, List.append_assoc]
          rfl
        · rw [hcount]
          change (if (dropPartition contended w d).2 = .dropped then overCap - 1 else overCap) =
            (p.listed.length : Int) - st.maxRetainedDays - _
          rw [hover]
          split
          · push_cast
            omega
          · simp }

/-- **The cap stops for a reason.** -/
theorem Orderly.ended {todo : List Int} (h : Orderly st w p)
    (hphase : p.phase = .capping todo overCap)
    (hstop : todo = [] ∨ overCap ≤ 0 ∨ st.maxDropsPerPass ≤ p.outcomes.dropped) :
    Ended st w p := by
  have hphase' := h.phase
  rw [hphase] at hphase'
  obtain ⟨hlisted, hattached, hover⟩ := hphase'
  rcases hstop with rfl | hfew | hspent
  · -- every listed day has an answer
    refine Or.inr (Or.inr fun d hd => ?_)
    have hmem := hattached d hd
    rw [hlisted, List.append_nil, List.mem_map] at hmem
    obtain ⟨⟨e, o⟩, hanswer, rfl⟩ := hmem
    cases o with
    | pinned => exact Or.inl hanswer
    | contended => exact Or.inr hanswer
    | dropped => exact absurd hd (h.gone _ (Or.inl (mem_drops.mpr (Or.inr hanswer))))
    | missing => exact absurd hd (h.gone _ (Or.inr hanswer))
  · -- what the cap dropped was listed and is not attached any more
    refine Or.inl ?_
    set dropped := (p.capped.filter fun x => x.2 = .dropped).map Prod.fst with hdropped
    have hsub : dropped.Sublist p.listed := by
      rw [hlisted]
      exact (List.filter_sublist.map _).trans (List.sublist_append_left _ _)
    have hnodup : dropped.Nodup := (h.sorted.imp fun hlt => ne_of_lt hlt).sublist hsub
    have hlength : dropped.length = p.capped.countP fun x => x.2 = .dropped := by
      rw [hdropped, List.length_map, List.countP_eq_length_filter]
    have hdisjoint : Disjoint w.attached dropped.toFinset := by
      refine Finset.disjoint_left.mpr fun d hd hmem => ?_
      obtain ⟨⟨e, o⟩, hanswer, rfl⟩ := List.mem_map.mp (List.mem_toFinset.mp hmem)
      obtain ⟨hanswer, ho⟩ := List.mem_filter.mp hanswer
      refine h.gone _ (Or.inl (mem_drops.mpr (Or.inr ?_))) hd
      rwa [← of_decide_eq_true ho]
    have hcover : w.attached ∪ dropped.toFinset ⊆ p.listed.toFinset := by
      refine Finset.union_subset (fun d hd => List.mem_toFinset.mpr (hattached d hd)) ?_
      exact fun d hd => List.mem_toFinset.mpr (hsub.subset (List.mem_toFinset.mp hd))
    have hcard := (Finset.card_le_card hcover).trans (List.toFinset_card_le _)
    rw [Finset.card_union_of_disjoint hdisjoint, List.toFinset_card_of_nodup hnodup, hlength]
      at hcard
    omega
  · exact Or.inr (Or.inl (h.count ▸ hspent))

theorem Orderly.ends {todo : List Int} (h : Orderly st w p)
    (hphase : p.phase = .capping todo overCap)
    (hstop : todo = [] ∨ overCap ≤ 0 ∨ st.maxDropsPerPass ≤ p.outcomes.dropped) :
    Orderly st w { p with phase := .deleting } where
  cutoff := h.cutoff
  count := h.count
  budget := h.budget
  aged := h.aged
  sorted := h.sorted
  gone := h.gone
  phase := by
    have hphase' := h.phase
    rw [hphase] at hphase'
    refine ⟨?_, h.ended hphase hstop⟩
    change p.capped.map Prod.fst <+: p.listed
    rw [hphase'.1]
    exact List.prefix_append _ _

theorem Orderly.finish (h : Orderly st w p) (hphase : p.phase = .deleting) (n : Nat) :
    Orderly st w { p with phase := .finished n } where
  cutoff := h.cutoff
  count := h.count
  budget := h.budget
  aged := h.aged
  sorted := h.sorted
  gone := h.gone
  phase := by
    have hphase' := h.phase
    rw [hphase] at hphase'
    exact hphase'

/-- **A pass that sends a statement stays orderly.** -/
theorem Orderly.statement (h : Orderly st w p) (contended : Bool) :
    Orderly st (p.statement st contended w).1 (p.statement st contended w).2 := by
  have hlater := later_statement st contended w p
  rw [Pass.statement.eq_def] at hlater ⊢
  cases hphase : p.phase with
  | listing => exact h.spent hphase
  | aging todo =>
    cases todo with
    | nil => exact h.list hphase
    | cons d rest => exact h.age hphase
  | capping todo overCap =>
    cases todo with
    | nil => exact h.ends hphase (Or.inl rfl)
    | cons d rest =>
      dsimp only
      split
      · rename_i hstop
        exact h.ends hphase (Or.inr hstop)
      · rename_i hgo
        refine h.cap hphase ?_
        rw [← h.count]
        omega
  | deleting =>
    rw [hphase] at hlater
    exact (h.later hlater).finish hphase _
  | finished n => exact h

end Orderly

/-! ### Steps and runs -/

section Runs

variable {st : Settings} {s s' t : Overlap}

theorem later_act (st : Settings) (s : Overlap) (a : Action) :
    Later s.world (act st s a).world := by
  cases a with
  | tick elapsed => exact ⟨subset_rfl, by simp [act]⟩
  | statement i contended =>
    rw [act]
    cases hp : s.passes[i]? with
    | none => exact .refl _
    | some p => exact later_statement st contended s.world p
  | _ => exact ⟨subset_rfl, le_rfl⟩

/-- What a step makes of the passes: one more, or one of them moved. -/
theorem mem_passes_act {a : Action} {p : Pass} (h : p ∈ (act st s a).passes) :
    p ∈ s.passes ∨ p = .first st s.world ∨ ∃ q ∈ s.passes, ∃ contended,
      (act st s a).world = (q.statement st contended s.world).1 ∧
        p = (q.statement st contended s.world).2 := by
  cases a with
  | begins =>
    rcases List.mem_append.mp h with h | h
    · exact Or.inl h
    · exact Or.inr (Or.inl (List.mem_singleton.mp h))
  | statement i contended =>
    rw [act] at h ⊢
    cases hq : s.passes[i]? with
    | none =>
      rw [hq] at h
      exact Or.inl h
    | some q =>
      rw [hq] at h
      rcases List.mem_or_eq_of_mem_set h with h | h
      · exact Or.inl h
      · exact Or.inr (Or.inr ⟨q, List.mem_of_getElem? hq, contended, rfl, h⟩)
  | _ => exact Or.inl h

theorem orderly_act (h : ∀ p ∈ s.passes, Orderly st s.world p) (a : Action) :
    ∀ p ∈ (act st s a).passes, Orderly st (act st s a).world p := by
  intro p hp
  rcases mem_passes_act hp with hold | rfl | ⟨q, hq, contended, hworld, rfl⟩
  · exact (h p hold).later (later_act st s a)
  · exact (orderly_first st s.world).later (later_act st s a)
  · rw [hworld]
    exact (h q hq).statement contended

/-- A pending click stays, or a rollup takes it. -/
theorem pending_act {r : Row} (hr : r ∈ s.world.rows) (hpending : r.rolledUp = false)
    (a : Action) :
    r ∈ (act st s a).world.rows ∨ ∃ ids, a = .rollup ids ∧ r.id ∈ ids := by
  cases a with
  | click r' => exact Or.inl (List.mem_append_left _ hr)
  | rollup ids =>
    by_cases hid : r.id ∈ ids
    · exact Or.inr ⟨ids, rfl, hid⟩
    · exact Or.inl (List.mem_map.mpr ⟨r, hr, if_neg hid⟩)
  | statement i contended =>
    rw [act]
    cases hp : s.passes[i]? with
    | none => exact Or.inl hr
    | some p => exact Or.inl (pending_statement hr hpending)
  | _ => exact Or.inl hr

theorem pending_run {r : Row} {as : List Action} (hr : r ∈ s.world.rows)
    (hpending : r.rolledUp = false) (hrun : run (step st) s as = some t) :
    r ∈ t.world.rows ∨ ∃ ids, .rollup ids ∈ as ∧ r.id ∈ ids := by
  induction as generalizing s with
  | nil => exact Or.inl (Option.some.inj hrun ▸ hr)
  | cons a as ih =>
    obtain ⟨s', hstep, hrest⟩ := run_cons_eq_some.mp hrun
    obtain rfl := Option.some.inj hstep
    rcases pending_act hr hpending a with hkept | ⟨ids, rfl, hid⟩
    · refine (ih hkept hrest).imp_right ?_
      rintro ⟨ids, hmem, hid⟩
      exact ⟨ids, List.mem_cons_of_mem _ hmem, hid⟩
    · exact Or.inr ⟨ids, List.mem_cons_self, hid⟩

/-- A pass keeps the drops it has. -/
theorem drops_statement {p : Pass} {d : Int} (hd : d ∈ p.drops) (contended : Bool) (w : World) :
    d ∈ (p.statement st contended w).2.drops := by
  rw [Pass.statement.eq_def]
  rcases p.phase with _ | (_ | ⟨e, rest⟩) | ⟨(_ | ⟨e, rest⟩), overCap⟩ | _ | n
  · exact hd
  · dsimp only
    rw [Pass.list]
    split <;> exact hd
  · rw [mem_drops] at hd ⊢
    exact hd.imp_left (List.mem_append_left _)
  · exact hd
  · dsimp only
    split
    · exact hd
    · rw [mem_drops] at hd ⊢
      exact hd.imp_right (List.mem_append_left _)
  · exact hd
  · exact hd

/-- A day is attached, or one of the passes dropped it. -/
def Accounted (s : Overlap) (d : Int) : Prop := d ∈ s.world.attached ∨ ∃ p ∈ s.passes, d ∈ p.drops

theorem accounted_act {d : Int} (h : Accounted s d) (a : Action) : Accounted (act st s a) d := by
  cases a with
  | begins =>
    refine h.imp_right ?_
    rintro ⟨p, hp, hd⟩
    exact ⟨p, List.mem_append_left _ hp, hd⟩
  | statement i contended =>
    rw [act]
    cases hq : s.passes[i]? with
    | none => exact h
    | some q =>
      have hlt : i < s.passes.length := (List.getElem?_eq_some_iff.mp hq).1
      have hmoved : (q.statement st contended s.world).2 ∈
          s.passes.set i (q.statement st contended s.world).2 := List.mem_set hlt _
      change d ∈ (q.statement st contended s.world).1.attached ∨ ∃ p ∈ s.passes.set i _, _
      rcases h with hattached | ⟨p, hp, hd⟩
      · rcases statement_world st contended s.world q with h | ⟨e, -, -, h, he⟩ | h
        · rw [h]
          exact Or.inl hattached
        · by_cases hde : d = e
          · exact Or.inr ⟨_, hmoved, hde ▸ he⟩
          · rw [h]
            exact Or.inl (Finset.mem_erase.mpr ⟨hde, hattached⟩)
        · rw [h]
          exact Or.inl hattached
      · refine Or.inr ?_
        obtain ⟨j, hj⟩ := List.mem_iff_getElem?.mp hp
        by_cases hij : i = j
        · subst hij
          obtain rfl := Option.some.inj (hq.symm.trans hj)
          exact ⟨_, hmoved, drops_statement hd contended s.world⟩
        · refine ⟨p, List.mem_of_getElem? (i := j) ?_, hd⟩
          rwa [List.getElem?_set_ne hij]
  | _ => exact h

theorem swept_iff {w : World} {r : Row} : swept st w r = true ↔
    r.rolledUp = true ∧
      (w.retention r.workspaceId < st.retentionYears ∨ r.day ∉ w.attached) ∧
      r.occurredAt <
        minusYearsTime dayMicros w.now (min (w.retention r.workspaceId) st.retentionYears) := by
  rw [swept, Bool.and_eq_true, Bool.and_eq_true, Bool.or_eq_true, and_assoc]
  exact and_congr_right fun _ => and_congr
    (or_congr decide_eq_true_iff decide_eq_true_iff) decide_eq_true_iff

/-- What the `DELETE` of a pass leaves. -/
theorem rows_deleting {i : Nat} {p : Pass} (hp : s.passes[i]? = some p)
    (hphase : p.phase = .deleting) (contended : Bool) (r : Row) :
    r ∈ (act st s (.statement i contended)).world.rows ↔
      r ∈ s.world.rows ∧ swept st s.world r = false := by
  rw [act, hp]
  change r ∈ (p.statement st contended s.world).1.rows ↔ _
  rw [Pass.statement, hphase]
  change r ∈ s.world.rows.filter _ ↔ _
  rw [List.mem_filter, Bool.not_eq_true']

end Runs

/-- **Retention passes that overlap keep what they promise.**  Over any table, and any number
of passes whose statements come in any order among clicks and rollups, where any drop may
fail to get its lock:

* a click stays until a rollup has taken it;
* a day that is no longer attached was dropped by a pass;
* a pass drops no more days than it may, and its age pass none that is not behind its cutoff,
  which is not behind the present one;
* the cap attempts the days it was told from the oldest on, none left out, and stops as it
  should;
* the `DELETE` takes the rolled-up clicks that are past the lesser window, where their
  workspace keeps less than the install or no day is attached for them. -/
theorem overlapping_passes (st : Settings) (w : World) (as bs : List Action) (s t : Overlap)
    (hs : run (step st) ⟨w, []⟩ as = some s) (ht : run (step st) s bs = some t) :
    (∀ r ∈ s.world.rows, r.rolledUp = false →
      r ∈ t.world.rows ∨ ∃ ids, .rollup ids ∈ bs ∧ r.id ∈ ids) ∧
    (∀ d ∈ w.attached, d ∉ t.world.attached → ∃ p ∈ t.passes, d ∈ p.drops) ∧
    (∀ p ∈ t.passes,
      p.drops.length ≤ st.maxDropsPerPass ∧
      (∀ x ∈ p.aged, x.1 + 1 ≤ p.cutoff) ∧ p.cutoff ≤ t.world.cutoff st ∧
      p.listed.Pairwise (· < ·) ∧ p.capped.map Prod.fst <+: p.listed ∧
      (p.phase.pastCap = true → Ended st t.world p)) ∧
    ∀ i p contended, t.passes[i]? = some p → p.phase = .deleting → ∀ r ∈ t.world.rows,
      (r ∉ (act st t (.statement i contended)).world.rows ↔
        r.rolledUp = true ∧
          (t.world.retention r.workspaceId < st.retentionYears ∨ r.day ∉ t.world.attached) ∧
          r.occurredAt < minusYearsTime dayMicros t.world.now
            (min (t.world.retention r.workspaceId) st.retentionYears)) := by
  have hwhole : run (step st) ⟨w, []⟩ (as ++ bs) = some t := by
    rw [run_append, hs, Option.bind_some, ht]
  refine ⟨fun r hr hpending => pending_run hr hpending ht, fun d hd hgone => ?_, fun p hp => ?_, ?_⟩
  · have haccounted : Accounted t d := by
      refine invariant_of_run (I := fun u => Accounted u d) (fun u a u' h hstep => ?_) _ _ _
        (Or.inl hd) hwhole
      exact Option.some.inj hstep ▸ accounted_act h a
    exact haccounted.resolve_left hgone
  · have horderly : ∀ p ∈ t.passes, Orderly st t.world p := by
      refine invariant_of_run (I := fun u => ∀ p ∈ u.passes, Orderly st u.world p)
        (fun u a u' h hstep => ?_) _ _ _ (by simp) hwhole
      exact Option.some.inj hstep ▸ orderly_act h a
    have h := horderly p hp
    exact ⟨h.budget, h.aged, h.cutoff, h.sorted, h.phase.inOrder, h.phase.ended⟩
  · intro i p contended hp hphase r hr
    rw [rows_deleting hp hphase, ← swept_iff]
    simp [hr]

/-- A click of yesterday that is not rolled up, on an install that keeps a year. -/
def pendingClick : Row := ⟨"pending", "workspace", 20453 * dayMicros, false⟩

def crowdedTable : World :=
  .install (20454 * dayMicros) {19000, 20000, 20453} [pendingClick] fun _ => 1

/-- The second pass begins before the first one drops the day both were told of. -/
def twoPasses : List Action :=
  [.begins, .statement 0 false, .begins, .statement 1 false, .statement 0 false,
    .statement 1 false, .statement 1 false, .statement 1 false, .statement 1 false,
    .statement 1 false, .statement 1 false]

/-- Two passes that may keep no day leave the click. -/
theorem overlapping_passes_twoPasses :
    ∃ t, run (step ⟨14, 7, 2, 0, 1⟩) ⟨crowdedTable, []⟩ twoPasses = some t ∧
      pendingClick ∈ t.world.rows := by
  refine ⟨_, rfl, ?_⟩
  have hkept := (overlapping_passes ⟨14, 7, 2, 0, 1⟩ crowdedTable [] twoPasses _ _ rfl rfl).1
    pendingClick List.mem_cons_self rfl
  refine hkept.resolve_right ?_
  rintro ⟨ids, hmem, -⟩
  simp [twoPasses] at hmem

end SnapUrl.Rollup.Retention.Passes
