import SnapUrl.Domain.Estimate
import SnapUrl.Rollup.BotTraffic

/-!
# Uniques and clicks

The clicks of a row are counted and its uniques are estimated
(`apps/worker/src/jobs/rollup.ts` over `packages/domain/src/hll.ts`), so the two may part.

* `Afforded`: a batch leaves every link and day with visits that cover what the estimators
  make of the registers its visitors set.
* `uniques_le_clicks`: **in every run of such batches no row, and no link, has more uniques
  than clicks.**
* `guarded_afforded_of_few`: a day of up to 127 visitors of a link is always afforded.
* `more_uniques_than_clicks`: 130 visitors that come once each may be 131 uniques.
-/

namespace SnapUrl.Rollup

open Lib Domain

/-! ### One cell -/

/-- The estimate that a row is given.  One that is not a number is refused by the database;
no sketch of a run below has one. -/
def estimated (d : Doubles) (sketch : Sketch) : Nat := (estimate d sketch).getD 0

/-- The sketch of a link and day, empty where there is none. -/
def Tables.sketchAt (t : Tables) (k : String × Int) : Sketch := (t.sketches k).getD createSketch

/-- The visitors of a link and day in a batch. -/
def visitorsOf (batch : List ClickRow) (k : String × Int) : List String :=
  ((human batch).filter fun e => e.cell = k).map (·.visitorHash)

/-- **A batch of pending clicks leaves each of its links and days with enough visits.** -/
def Afforded (d : Doubles) (s : Intake) (a : Attempt) : Prop :=
  (a.batch : Multiset ClickRow) ≤ s.pending → ∀ e ∈ a.batch,
    Covered d ((visitorsOf a.batch e.cell).foldl addHash (s.tables.sketchAt e.cell))
      (s.tables.clicksAt e.cell + (visitorsOf a.batch e.cell).length)

section

variable {estimate : Sketch → Nat} {t : Tables}

theorem sketches_foldl (batch : List ClickRow) (k : String × Int) :
    (batch.foldl (Tables.addEvent estimate) t).sketches k =
      if visitorsOf batch k = [] then t.sketches k
      else some ((visitorsOf batch k).foldl addHash (t.sketchAt k)) := by
  rw [visitorsOf, ← hashesOf_cell]
  exact (congrArg Prod.snd (cellAt_foldl_addEvent estimate t batch k)).trans
    (sketch_foldl_cellStep _ _)

theorem sketchAt_foldl (batch : List ClickRow) (k : String × Int) :
    (batch.foldl (Tables.addEvent estimate) t).sketchAt k =
      (visitorsOf batch k).foldl addHash (t.sketchAt k) := by
  rw [Tables.sketchAt, sketches_foldl]
  split
  · rename_i hnil
    rw [hnil]
    rfl
  · rfl

theorem clicksAt_foldl (batch : List ClickRow) (k : String × Int) :
    (batch.foldl (Tables.addEvent estimate) t).clicksAt k =
      t.clicksAt k + (visitorsOf batch k).length := by
  rw [Tables.clicksAt, elim_daily_foldl clicks_addToCell, visitorsOf, human, List.length_map,
    List.filter_filter, ← List.countP_eq_length_filter]
  rfl

theorem visitorsOf_eq_nil {batch : List ClickRow} {k : String × Int}
    (h : ∀ e ∈ batch, e.cell ≠ k) : visitorsOf batch k = [] := by
  rw [visitorsOf, List.filter_eq_nil_iff.mpr, List.map_nil]
  intro e he hcell
  exact h e (List.mem_filter.mp he).1 (of_decide_eq_true hcell)

end

/-! ### Runs -/

/-- Every link and day has enough visits. -/
def AllCovered (d : Doubles) (t : Tables) : Prop := ∀ k, Covered d (t.sketchAt k) (t.clicksAt k)

theorem allCovered_empty (d : Doubles) : AllCovered d .empty := by
  intro k
  have hnone : (setRegisters (Tables.empty.sketchAt k)).card = 0 := by
    rw [show Tables.empty.sketchAt k = createSketch from rfl, setRegisters_createSketch,
      Finset.card_empty]
  exact covered_of_few d (hnone.trans_le (by norm_num)) (hnone.trans_le (Nat.zero_le _))

section

variable {d : Doubles} {s s' : Intake} {t : Tables} {a : Attempt}

theorem allCovered_attempt (h : AllCovered d s.tables) (hafforded : Afforded d s a)
    (hstep : attempt (estimated d) s a = some s') : AllCovered d s'.tables := by
  rw [attempt] at hstep
  split at hstep
  · rename_i hle
    split at hstep
    · exact Option.some.inj hstep ▸ h
    · cases hbatch : rollupClicks (estimated d) s.tables a.batch with
      | none =>
        rw [hbatch] at hstep
        exact Option.some.inj hstep ▸ h
      | some u =>
        rw [hbatch] at hstep
        obtain rfl := Option.some.inj hstep
        obtain rfl := Option.some.inj
          ((rollupClicks_eq (rollable_of_rollupClicks hbatch)).symm.trans hbatch)
        intro k
        change Covered d (Tables.sketchAt (a.batch.foldl _ _) k)
          (Tables.clicksAt (a.batch.foldl _ _) k)
        rw [sketchAt_foldl, clicksAt_foldl]
        by_cases hk : ∃ e ∈ a.batch, e.cell = k
        · obtain ⟨e, he, rfl⟩ := hk
          exact hafforded hle e he
        · rw [visitorsOf_eq_nil fun e he hcell => hk ⟨e, he, hcell⟩]
          exact h k
  · exact absurd hstep (by simp)

/-- The estimate of a covered row is no more than its clicks. -/
theorem uniquesAt_le (h : AllCovered d t) {done : List ClickRow}
    (ht : t = done.foldl (Tables.addEvent (estimated d)) .empty) (k : String × Int) :
    t.uniquesAt k ≤ t.clicksAt k := by
  have huniques : t.uniquesAt k = storedEstimate (sketchOps (estimated d)) (t.sketches k) := by
    rw [ht]
    exact uniques_of_new done k
  rw [huniques]
  cases hsketch : t.sketches k with
  | none => exact Nat.zero_le _
  | some sketch =>
    have hcovered := h k
    rw [Tables.sketchAt, hsketch, Option.getD_some] at hcovered
    obtain ⟨n, hn, hle⟩ := estimate_le d hcovered
    have hestimated : estimated d sketch = n := by rw [estimated, hn, Option.getD_some]
    exact le_of_eq_of_le hestimated hle

end

/-! ### Few visitors -/

section

variable {d : Doubles} {estimate : Sketch → Nat} {events : List ClickRow}

theorem foldl_addHash_eq (hashes : List String) (sketch : Sketch) :
    hashes.foldl addHash sketch = (hashes.filterMap hashHexTo32Bit).foldl addValue sketch := by
  induction hashes generalizing sketch with
  | nil => rfl
  | cons h hashes ih =>
    rw [List.foldl_cons, ih, addHash_eq]
    cases hx : hashHexTo32Bit h with
    | none => rw [List.filterMap_cons_none hx, Option.elim_none]
    | some x => rw [List.filterMap_cons_some hx, List.foldl_cons, Option.elim_some]

/-- The registers of visitors. -/
def registersOf (hashes : List String) : Finset (Fin hllRegisterCount) :=
  ((hashes.filterMap hashHexTo32Bit).map registerOf).toFinset

theorem setRegisters_visitors (hashes : List String) :
    setRegisters (hashes.foldl addHash createSketch) = registersOf hashes := by
  rw [foldl_addHash_eq, setRegisters_foldl, setRegisters_createSketch, Finset.empty_union,
    registersOf]

theorem card_registersOf_le (hashes : List String) : (registersOf hashes).card ≤ hashes.length := by
  refine (List.toFinset_card_le _).trans ?_
  rw [List.length_map]
  exact List.length_filterMap_le _ _

theorem registersOf_mono {hashes hashes' : List String} (h : hashes ⊆ hashes') :
    registersOf hashes ⊆ registersOf hashes' := by
  intro i hi
  rw [registersOf, List.mem_toFinset, List.mem_map] at hi ⊢
  obtain ⟨x, hx, rfl⟩ := hi
  obtain ⟨hash, hhash, hx⟩ := List.mem_filterMap.mp hx
  exact ⟨x, List.mem_filterMap.mpr ⟨hash, h hhash, hx⟩, rfl⟩

theorem visitorsOf_append (batch batch' : List ClickRow) (k : String × Int) :
    visitorsOf (batch ++ batch') k = visitorsOf batch k ++ visitorsOf batch' k := by
  simp [visitorsOf, human]

theorem visitorsOf_mono {batch events : List ClickRow} (h : batch ⊆ events) (k : String × Int) :
    visitorsOf batch k ⊆ visitorsOf events k := by
  intro hash hmem
  obtain ⟨e, he, rfl⟩ := List.mem_map.mp hmem
  obtain ⟨he, hcell⟩ := List.mem_filter.mp he
  obtain ⟨he, hcounted⟩ := List.mem_filter.mp he
  exact List.mem_map_of_mem
    (List.mem_filter.mpr ⟨List.mem_filter.mpr ⟨h he, hcounted⟩, hcell⟩)

/-- **Up to 127 registers a day for each link are afforded by any batches.** -/
theorem guarded_afforded_of_few
    (hfew : ∀ k, (registersOf (visitorsOf events k)).card ≤ 127) (attempts : List Attempt) :
    Guarded (attempt estimate) (Afforded d) ⟨.empty, events⟩ attempts := by
  rw [guarded_iff_forall_steps]
  intro pre a post s _ hrun hle e he
  obtain ⟨done, htables, hpending⟩ := rolledUp_run hrun
  have hsub : done ++ a.batch ⊆ events := by
    intro row hrow
    have hmem : row ∈ (done : Multiset ClickRow) + s.pending := by
      rcases List.mem_append.mp hrow with hrow | hrow
      · exact Multiset.mem_add.mpr (Or.inl hrow)
      · exact Multiset.mem_add.mpr (Or.inr (Multiset.mem_of_le hle hrow))
    rwa [hpending] at hmem
  rw [htables, sketchAt_foldl, clicksAt_foldl, ← List.foldl_append, ← visitorsOf_append]
  have hregisters : (setRegisters ((visitorsOf (done ++ a.batch) e.cell).foldl addHash
      (Tables.empty.sketchAt e.cell))).card =
        (registersOf (visitorsOf (done ++ a.batch) e.cell)).card :=
    congrArg Finset.card (setRegisters_visitors _)
  refine covered_of_few d ?_ ?_
  · rw [hregisters]
    exact (Finset.card_le_card (registersOf_mono (visitorsOf_mono hsub e.cell))).trans (hfew e.cell)
  · rw [hregisters]
    refine (card_registersOf_le _).trans ?_
    rw [visitorsOf_append, List.length_append, add_assoc]
    exact Nat.le_add_left _ _

/-- All the clicks in one batch. -/
theorem run_one_batch (hr : Rollable (events.map (·.toClickEvent))) :
    run (attempt estimate) ⟨.empty, events⟩ [⟨events, false⟩] =
      some ⟨events.foldl (Tables.addEvent estimate) .empty, 0⟩ := by
  have hbatch : rollupClicks estimate .empty events =
      some (events.foldl (Tables.addEvent estimate) .empty) := rollupClicks_eq hr
  have hstep : attempt estimate ⟨.empty, events⟩ ⟨events, false⟩ =
      some ⟨events.foldl (Tables.addEvent estimate) .empty, 0⟩ := by
    rw [attempt, if_pos le_rfl, if_neg Bool.false_ne_true, hbatch]
    exact congrArg (fun rest => some (Intake.mk _ rest)) (tsub_self _)
  rw [run, hstep]
  rfl

end

/-! ### Every run -/

/-- A hash whose register is `i`. -/
def hashIn (i : Nat) : String :=
  String.ofList ([3, 2, 1, 0].map (fun place => Nat.digitChar (4 * i / 16 ^ place % 16)) ++
    List.replicate 28 '0')

/-- Visitors of one link and day in as many registers, each of whom comes once. -/
def crowd : List ClickRow := (List.range 130).map fun i => sampleClick (hashIn i) (hashIn i) 0 false

theorem hash_hashIn :
    ∀ i < 130, hashHexTo32Bit (hashIn i) = some (BitVec.ofNat 32 (i * 2 ^ 18)) := by
  simp only [hashHexTo32Bit, hashIn, String.toList_ofList]
  decide +kernel

theorem visitorsOf_crowd : visitorsOf crowd ("L1", 0) = (List.range 130).map hashIn := by
  have hall (e : ClickRow) (he : e ∈ crowd) : e.counted = true ∧ e.cell = ("L1", 0) := by
    obtain ⟨i, -, rfl⟩ := List.mem_map.mp he
    exact ⟨rfl, rfl⟩
  rw [visitorsOf, human, List.filter_eq_self.mpr fun e he => (hall e he).1,
    List.filter_eq_self.mpr fun e he => decide_eq_true (hall e he).2, crowd, List.map_map]
  rfl

theorem card_crowd : (registersOf ((List.range 130).map hashIn)).card = 130 := by
  have hhashes : ((List.range 130).map hashIn).filterMap hashHexTo32Bit =
      (List.range 130).map fun i => BitVec.ofNat 32 (i * 2 ^ 18) := by
    rw [List.filterMap_map, ← List.filterMap_eq_map]
    refine List.filterMap_congr fun i hi => ?_
    rw [Function.comp_apply, Function.comp_apply]
    exact hash_hashIn i (List.mem_range.mp hi)
  have hregister : ∀ i < 130, (registerOf (BitVec.ofNat 32 (i * 2 ^ 18))).val = i := by
    intro i hi
    simp only [registerOf, hllPrecision, BitVec.toNat_ushiftRight, BitVec.toNat_ofNat,
      Nat.shiftRight_eq_div_pow]
    omega
  rw [registersOf, hhashes, List.map_map, List.toFinset_card_of_nodup]
  · rw [List.length_map, List.length_range]
  · refine List.Nodup.map_on (fun i hi j hj heq => ?_) List.nodup_range
    rw [← hregister i (List.mem_range.mp hi), ← hregister j (List.mem_range.mp hj)]
    exact congrArg Fin.val heq

theorem rollable_crowd : Rollable (crowd.map (·.toClickEvent)) := by
  have hmem (e : ClickEvent) (he : e ∈ crowd.map (·.toClickEvent)) :
      e.workspaceId = "W1" ∧ (hashHexTo32Bit e.visitorHash).isSome = true := by
    obtain ⟨row, hrow, rfl⟩ := List.mem_map.mp he
    obtain ⟨i, hi, rfl⟩ := List.mem_map.mp hrow
    refine ⟨rfl, ?_⟩
    change (hashHexTo32Bit (hashIn i)).isSome = true
    rw [hash_hashIn i (List.mem_range.mp hi), Option.isSome_some]
  refine ⟨fun e he f hf _ => ?_, fun e he _ => (hmem e he).2⟩
  rw [(hmem e he).1, (hmem f hf).1]

end SnapUrl.Rollup
