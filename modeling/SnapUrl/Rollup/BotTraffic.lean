import SnapUrl.Rollup.Panels

/-!
# Bot traffic in the rollups

Bots are kept among the clicks but are meant to be excluded from every rollup
(`apps/worker/src/jobs/rollup.ts`).  Every statement of `rollupClicks` leaves them out but
the count of blocked visits, which asks for a reason only.

* `sketches_of_human`, `breakdown_of_human`: these tables depend on the human, unblocked
  clicks alone.
* `sameAggregates_iff`: **bots change no aggregate exactly when none of them was blocked.**
* `blocked_bot_is_counted`: a crawler on an expired link is a blocked visit of it.
-/

namespace SnapUrl.Rollup

open Lib Domain

/-! ### Columns -/

/-- The columns of a row, zero where there is no row. -/
def Tables.uniquesAt (t : Tables) (k : String × Int) : Nat := (t.daily k).elim 0 (·.uniques)

def Tables.blockedAt (t : Tables) (k : String × Int) : Nat := (t.daily k).elim 0 (·.blocked)

/-- **Every value of every aggregate is the same**, where a missing row is one of zeros. -/
structure SameAggregates (t u : Tables) : Prop where
  clicks : ∀ k, t.clicksAt k = u.clicksAt k
  uniques : ∀ k, t.uniquesAt k = u.uniquesAt k
  scans : ∀ k, t.scansAt k = u.scansAt k
  blocked : ∀ k, t.blockedAt k = u.blockedAt k
  sketches : ∀ k, t.sketches k = u.sketches k
  breakdown : ∀ key, t.breakdown key = u.breakdown key
  counters : ∀ l, t.counters l = u.counters l

section

variable {estimate : Sketch → Nat} {t u : Tables}

/-- The sums of a link do not see rows of zeros. -/
theorem total_eq_of_columns (hclicks : ∀ k, t.clicksAt k = u.clicksAt k)
    (huniques : ∀ k, t.uniquesAt k = u.uniquesAt k) (l : String) : t.total l = u.total l := by
  have hsum {f g : String × Int → Nat} (hfg : ∀ k, f k = g k) (hf : ∀ k ∉ t.keys, f k = 0)
      (hg : ∀ k ∉ u.keys, g k = 0) :
      ∑ k ∈ t.keys with k.1 = l, f k = ∑ k ∈ u.keys with k.1 = l, g k := by
    have hleft : ∑ k ∈ t.keys with k.1 = l, f k = ∑ k ∈ t.keys ∪ u.keys with k.1 = l, f k := by
      refine Finset.sum_subset (Finset.filter_subset_filter _ Finset.subset_union_left) ?_
      intro k hk hnot
      refine hf k fun hmem => hnot (Finset.mem_filter.mpr ⟨hmem, (Finset.mem_filter.mp hk).2⟩)
    have hright : ∑ k ∈ u.keys with k.1 = l, g k = ∑ k ∈ t.keys ∪ u.keys with k.1 = l, g k := by
      refine Finset.sum_subset (Finset.filter_subset_filter _ Finset.subset_union_right) ?_
      intro k hk hnot
      refine hg k fun hmem => hnot (Finset.mem_filter.mpr ⟨hmem, (Finset.mem_filter.mp hk).2⟩)
    rw [hleft, hright]
    exact Finset.sum_congr rfl fun k _ => hfg k
  have hnone (v : Tables) (k : String × Int) (hk : k ∉ v.keys) : v.daily k = none := by
    rwa [v.mem_keys, Option.not_isSome_iff_eq_none] at hk
  rw [Tables.total, Tables.total]
  congr 1
  · refine hsum hclicks (fun k hk => ?_) fun k hk => ?_
    · rw [hnone t k hk, Option.elim_none]
    · rw [hnone u k hk, Option.elim_none]
  · refine hsum huniques (fun k hk => ?_) fun k hk => ?_
    · rw [hnone t k hk, Option.elim_none]
    · rw [hnone u k hk, Option.elim_none]

/-! ### New tables -/

/-- Every counter of new tables is the sum over the rows of its link. -/
theorem counters_of_new (done : List ClickRow) (l : String) :
    (done.foldl (Tables.addEvent estimate) .empty).counters l =
      (done.foldl (Tables.addEvent estimate) .empty).total l := by
  rw [counters_foldl_addEvent]
  split
  · rfl
  · rename_i hnone
    -- a link with no click has no row
    have hkeys : ((done.foldl (Tables.addEvent estimate) .empty).keys.filter fun k => k.1 = l) =
        ∅ := by
      refine Finset.filter_eq_empty_iff.mpr fun k hk hl => ?_
      rw [Tables.mem_keys] at hk
      have hcell := congrArg Prod.fst (cellAt_foldl_addEvent estimate .empty done k)
      change (done.foldl (Tables.addEvent estimate) .empty).daily k = _ at hcell
      rw [hcell, List.filter_eq_nil_iff.mpr] at hk
      · exact absurd hk Bool.false_ne_true
      · intro e he hcell
        obtain ⟨row, hrow, rfl⟩ := List.mem_map.mp he
        refine hnone (List.mem_map.mpr ⟨row, hrow, ?_⟩)
        rw [← hl, ← of_decide_eq_true hcell]
        rfl
    rw [Tables.total, hkeys, Finset.sum_empty, Finset.sum_empty]
    rfl

theorem uniques_of_new (done : List ClickRow) (k : String × Int) :
    (done.foldl (Tables.addEvent estimate) .empty).uniquesAt k =
      storedEstimate (sketchOps estimate)
        ((done.foldl (Tables.addEvent estimate) .empty).sketches k) := by
  have hempty : UniquesDerived estimate .empty := by
    refine fun k => ⟨fun h => absurd h Bool.false_ne_true, fun row hrow => ?_⟩
    exact absurd hrow (by simp [Tables.empty])
  have hderived := uniquesDerived_foldl hempty done k
  rw [Tables.uniquesAt]
  cases hrow : (done.foldl (Tables.addEvent estimate) .empty).daily k with
  | some row => exact hderived.2 row hrow
  | none =>
    rw [hrow] at hderived
    have hsketch := Option.not_isSome_iff_eq_none.mp fun h => absurd (hderived.1 h) (by simp)
    rw [hsketch]
    rfl

/-- The sketch of a cell after a list of clicks. -/
theorem sketch_foldl_cellStep (events : List ClickEvent)
    (cell : Option DailyRow × Option Sketch) :
    (events.foldl (cellStep estimate) cell).2 =
      if hashesOf events = [] then cell.2
      else some ((hashesOf events).foldl addHash (cell.2.getD createSketch)) := by
  induction events generalizing cell with
  | nil => rfl
  | cons e events ih =>
    rw [List.foldl_cons, ih, hashesOf_cons]
    cases hc : e.counted with
    | false =>
      have hstep : (cellStep estimate cell e).2 = cell.2 := by simp [cellStep, addToCell, hc]
      rw [hstep]
      rfl
    | true =>
      have hstep : (cellStep estimate cell e).2 =
          some (addHash (cell.2.getD createSketch) e.visitorHash) := by
        simp [cellStep, addToCell, hc]
      rw [hstep, if_pos rfl, if_neg (List.cons_ne_nil _ _), List.foldl_cons]
      split
      · rename_i hnil
        rw [hnil]
        rfl
      · rfl

/-! ### Human traffic -/

/-- The human clicks that were let through. -/
def human (clicks : List ClickRow) : List ClickRow := clicks.filter fun e => e.counted

theorem hashesOf_cell (done : List ClickRow) (k : String × Int) :
    hashesOf ((done.map (·.toClickEvent)).filter fun e => e.cell = k) =
      ((human done).filter fun e => e.cell = k).map (·.visitorHash) := by
  rw [hashesOf, human, List.filter_filter, List.filter_map, List.map_map, List.filter_filter]
  refine congrArg (List.map _) (List.filter_congr fun e _ => ?_)
  exact Bool.and_comm _ _

theorem sketches_of_human (estimate : Sketch → Nat) {done done' : List ClickRow} (h : (human done).Perm (human done'))
    (k : String × Int) :
    (done.foldl (Tables.addEvent estimate) .empty).sketches k =
      (done'.foldl (Tables.addEvent estimate) .empty).sketches k := by
  have hsketch (done : List ClickRow) :
      (done.foldl (Tables.addEvent estimate) .empty).sketches k =
        if ((human done).filter fun e => e.cell = k).map (·.visitorHash) = [] then none
        else some ((((human done).filter fun e => e.cell = k).map (·.visitorHash)).foldl addHash
          createSketch) := by
    rw [← hashesOf_cell]
    exact (congrArg Prod.snd (cellAt_foldl_addEvent estimate .empty done k)).trans
      (sketch_foldl_cellStep _ _)
  have hhashes := (h.filter fun e => e.cell = k).map fun e => e.visitorHash
  have hfold : ∀ s,
      (((human done).filter fun e => e.cell = k).map (·.visitorHash)).foldl addHash s =
        (((human done').filter fun e => e.cell = k).map (·.visitorHash)).foldl addHash s :=
    hhashes.foldl_eq' fun _ _ _ _ s => addHash_right_comm s _ _
  have hnil : ((human done).filter fun e => e.cell = k).map (·.visitorHash) = [] ↔
      ((human done').filter fun e => e.cell = k).map (·.visitorHash) = [] :=
    ⟨fun hn => List.Perm.eq_nil (hn ▸ hhashes.symm), fun hn => List.Perm.eq_nil (hn ▸ hhashes)⟩
  rw [hsketch, hsketch, hfold]
  exact if_congr hnil rfl rfl

theorem breakdown_of_human {done done' : List ClickRow} (h : (human done).Perm (human done'))
    (key : BreakdownKey) :
    (done.foldl (Tables.addEvent estimate) .empty).breakdown key =
      (done'.foldl (Tables.addEvent estimate) .empty).breakdown key := by
  rw [breakdown_foldl_addEvent, breakdown_foldl_addEvent, tally, tally]
  refine congrArg (_ + ·) (congrArg List.sum (List.map_congr_left fun dimension _ => ?_))
  exact h.countP_eq _

/-- A column that counts human clicks only. -/
theorem column_of_human {column : DailyRow → Nat} (flag : ClickEvent → Bool)
    (hcolumn : ∀ cell e, column (addToCell estimate cell e).1 =
      cell.1.elim 0 column + (e.counted && flag e).toNat)
    {done done' : List ClickRow} (h : (human done).Perm (human done')) (k : String × Int) :
    ((done.foldl (Tables.addEvent estimate) .empty).daily k).elim 0 column =
      ((done'.foldl (Tables.addEvent estimate) .empty).daily k).elim 0 column := by
  have hcount (done : List ClickRow) :
      (done.countP fun e => e.cell = k && (e.counted && flag e.toClickEvent)) =
        (human done).countP fun e => e.cell = k && flag e.toClickEvent := by
    rw [human, List.countP_filter]
    refine List.countP_congr fun e _ => ?_
    simp only [Bool.and_eq_true]
    tauto
  rw [elim_daily_foldl hcolumn, elim_daily_foldl hcolumn, hcount, hcount, h.countP_eq]

end

/-! ### Bots among the clicks -/

section

variable {estimate : Sketch → Nat} {events bots done done' : List ClickRow}

theorem human_bots (hbots : ∀ b ∈ bots, b.isBot = true) : human bots = [] :=
  List.filter_eq_nil_iff.mpr fun b hb => by simp [ClickEvent.counted, hbots b hb]

/-- What is counted is the same, as bots are not. -/
theorem human_perm (hbots : ∀ b ∈ bots, b.isBot = true) (hdone : done.Perm events)
    (hdone' : done'.Perm (events ++ bots)) : (human done).Perm (human done') := by
  refine (hdone.filter _).trans (List.Perm.trans ?_ (hdone'.filter _).symm)
  rw [List.filter_append, show bots.filter _ = [] from human_bots hbots, List.append_nil]

theorem blockedAt_foldl (k : String × Int) :
    (done.foldl (Tables.addEvent estimate) .empty).blockedAt k =
      done.countP fun e => e.cell = k && e.blockedReason.isSome := by
  rw [Tables.blockedAt, elim_daily_foldl blocked_addToCell]
  exact Nat.zero_add _

/-- Blocked bots are counted as blocked visits. -/
theorem blockedAt_bots (estimate : Sketch → Nat) (hdone : done.Perm events) (hdone' : done'.Perm (events ++ bots))
    (k : String × Int) :
    (done'.foldl (Tables.addEvent estimate) .empty).blockedAt k =
      (done.foldl (Tables.addEvent estimate) .empty).blockedAt k +
        bots.countP fun b => b.cell = k && b.blockedReason.isSome := by
  rw [blockedAt_foldl, blockedAt_foldl, hdone'.countP_eq, hdone.countP_eq, List.countP_append]

theorem run_done {attempts : List Attempt} {s : Intake}
    (hrun : run (attempt estimate) ⟨.empty, events⟩ attempts = some s) (hzero : s.pending = 0) :
    ∃ done : List ClickRow, s.tables = done.foldl (Tables.addEvent estimate) .empty ∧
      done.Perm events := by
  obtain ⟨done, htables, hpending⟩ := rolledUp_run hrun
  rw [hzero, add_zero] at hpending
  exact ⟨done, htables, Multiset.coe_eq_coe.mp hpending⟩

end

/-- **Bots change no aggregate exactly when none of them was blocked.**  The same clicks are
rolled up with some bots among them and without, in any batches. -/
theorem sameAggregates_iff (estimate : Sketch → Nat) (events bots : List ClickRow)
    (hbots : ∀ b ∈ bots, b.isBot = true) (as bs : List Attempt) (s t : Intake)
    (hs : run (attempt estimate) ⟨.empty, events⟩ as = some s)
    (ht : run (attempt estimate) ⟨.empty, (events ++ bots : List ClickRow)⟩ bs = some t)
    (hszero : s.pending = 0) (htzero : t.pending = 0) :
    SameAggregates s.tables t.tables ↔ ∀ b ∈ bots, b.blockedReason = none := by
  obtain ⟨done, hstables, hdone⟩ := run_done hs hszero
  obtain ⟨done', httables, hdone'⟩ := run_done ht htzero
  have hhuman := human_perm hbots hdone hdone'
  have hblocked (k : String × Int) := blockedAt_bots estimate hdone hdone' k
  rw [hstables, httables]
  constructor
  · intro h b hb
    have hcount := hblocked b.cell
    rw [← h.blocked b.cell, Nat.left_eq_add, List.countP_eq_zero] at hcount
    by_contra hreason
    exact hcount b hb (by simp [Option.isSome_iff_ne_none.mpr hreason])
  · intro h
    have hclicks : ∀ k, (done.foldl (Tables.addEvent estimate) .empty).clicksAt k =
        (done'.foldl (Tables.addEvent estimate) .empty).clicksAt k :=
      column_of_human (fun _ => true)
        (fun cell e => by rw [clicks_addToCell, Bool.and_true]) hhuman
    have hsketches := sketches_of_human estimate hhuman
    have huniques (k : String × Int) :
        (done.foldl (Tables.addEvent estimate) .empty).uniquesAt k =
          (done'.foldl (Tables.addEvent estimate) .empty).uniquesAt k := by
      rw [uniques_of_new, uniques_of_new, hsketches]
    exact
      { clicks := hclicks
        uniques := huniques
        scans := column_of_human _ (fun cell e => scans_addToCell cell e) hhuman
        blocked := by
          intro k
          rw [hblocked k, List.countP_eq_zero.mpr, add_zero]
          intro b hb
          simp [h b hb]
        sketches := hsketches
        breakdown := breakdown_of_human hhuman
        counters := by
          intro l
          rw [counters_of_new, counters_of_new]
          exact total_eq_of_columns hclicks huniques l }

/-- A crawler of the links, which an expired link turned away when there is a reason. -/
def crawler (blockedReason : Option String) : ClickRow :=
  { sampleClick "bot" "crawler" 0 true with blockedReason := blockedReason }

/-- A crawler that was let through changes nothing. -/
theorem sameAggregates_crawler :
    ∃ s t, run (attempt estimateFew) ⟨.empty, sampleClicks⟩ [⟨sampleClicks, false⟩] = some s ∧
      run (attempt estimateFew) ⟨.empty, (sampleClicks ++ [crawler none] : List ClickRow)⟩
        [⟨[crawler none], false⟩, ⟨sampleClicks, false⟩] = some t ∧
      SameAggregates s.tables t.tables := by
  have hone : (run (attempt estimateFew) ⟨.empty, sampleClicks⟩ [⟨sampleClicks, false⟩]).any
      (fun s => decide (s.pending = 0)) = true := by
    decide +kernel
  have htwo : (run (attempt estimateFew) ⟨.empty, (sampleClicks ++ [crawler none] : List ClickRow)⟩
      [⟨[crawler none], false⟩, ⟨sampleClicks, false⟩]).any
        (fun s => decide (s.pending = 0)) = true := by
    decide +kernel
  obtain ⟨s, hs, hszero⟩ := (Option.any_eq_true _ _).mp hone
  obtain ⟨t, ht, htzero⟩ := (Option.any_eq_true _ _).mp htwo
  exact ⟨s, t, hs, ht, (sameAggregates_iff estimateFew sampleClicks [crawler none]
    (by simp [crawler, sampleClick]) _ _ s t hs ht (of_decide_eq_true hszero)
    (of_decide_eq_true htzero)).mpr (by simp [crawler])⟩

/-- **A crawler on an expired link is counted as a blocked visit of it.** -/
theorem blocked_bot_is_counted :
    ¬ ∀ (estimate : Sketch → Nat) (events bots : List ClickRow) (as bs : List Attempt)
      (s t : Intake), (∀ b ∈ bots, b.isBot = true) →
      run (attempt estimate) ⟨.empty, events⟩ as = some s →
      run (attempt estimate) ⟨.empty, (events ++ bots : List ClickRow)⟩ bs = some t →
      s.pending = 0 → t.pending = 0 → SameAggregates s.tables t.tables := by
  intro h
  have hrun : (run (attempt estimateFew) ⟨.empty, ([] ++ [crawler (some "expired")] :
      List ClickRow)⟩ [⟨[crawler (some "expired")], false⟩]).any
        (fun t => decide (t.pending = 0 ∧ t.tables.blockedAt ("L1", 0) = 1)) = true := by
    decide +kernel
  obtain ⟨t, ht, hboth⟩ := (Option.any_eq_true _ _).mp hrun
  obtain ⟨hzero, hone⟩ := of_decide_eq_true hboth
  have hsame := (h estimateFew [] [crawler (some "expired")] [] _ ⟨.empty, 0⟩ t
    (by simp [crawler, sampleClick]) rfl ht rfl hzero).blocked ("L1", 0)
  rw [hone] at hsame
  exact absurd hsame (by decide)

end SnapUrl.Rollup
