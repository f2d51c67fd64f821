import SnapUrl.Rollup.Statements

/-!
# The counters of concurrent rollups

The last statement of a rollup sets the counters of a link to the sums over its
days, as they were when the statement started.

* `Exact`: the counters of every link are the sum of its clicks and of what its
  stored sketches estimate.
* `Own`: what a running transaction has done so far, `Apart`: what two of them have
  to do with each other.  `own_exec`, `own_view` and `consistent_view` say what a
  statement and a commit keep.
* `guarded_exact`: **the counters are exact in every state of a run in which no
  transaction sums up a link that another one, past its own sums, has yet to
  commit**.
* `concurrent_rollups_lose_clicks`: two batches on different days of one link.
-/

namespace SnapUrl.Rollup

open Lib

variable {Sketch : Type}

/-- What a stored sketch stands for. -/
def storedEstimate (ops : SketchOps Sketch) (stored : Option Sketch) : Nat :=
  stored.elim 0 ops.estimate

/-- **The counters are what the tables add up to.** -/
def Exact (ops : SketchOps Sketch) (db : Database Sketch) : Prop :=
  ∀ l, (db.counters l).clicks =
      ((db.days l).map fun d => (db.daily l d).elim 0 (·.clicks)).sum ∧
    (db.counters l).uniqueClicks =
      ((db.days l).map fun d => storedEstimate ops (db.sketches l d)).sum

/-- A database between transactions. -/
structure Consistent (ops : SketchOps Sketch) (db : Database Sketch) : Prop where
  days_iff : ∀ l d, d ∈ db.days l ↔ (db.daily l d).isSome = true
  nodup : ∀ l, (db.days l).Nodup
  covered : ∀ l d, (db.sketches l d).isSome = true → (db.daily l d).isSome = true
  uniques : ∀ l d row, db.daily l d = some row →
    row.uniques = storedEstimate ops (db.sketches l d)
  counters : ∀ l, db.counters l = db.total l

/-- What the code holds in the middle of a group. -/
def PhaseHolds (db : Database Sketch) (t : RollupTx Sketch) (g : VisitorGroup Sketch) : Prop :=
  match t.phase with
  | .seed => True
  | .lock => ((t.view db).sketches g.linkId g.day).isSome = true
  | .update _ => (t.sketches g.linkId g.day).isSome = true
  | .uniques merged => t.sketches g.linkId g.day = some merged

/-- What a running transaction has done so far. -/
structure Own (ops : SketchOps Sketch) (db : Database Sketch) (t : RollupTx Sketch) : Prop where
  touched_iff : ∀ l d, d ∈ t.touched l ↔ (t.rows l d).isSome = true
  touched_nodup : ∀ l, (t.touched l).Nodup
  rows_links : ∀ l d, (t.rows l d).isSome = true → l ∈ t.links
  counters_links : ∀ l, (t.counters l).isSome = true → l ∈ t.links
  sketches_rows : ∀ l d, (t.sketches l d).isSome = true → (t.rows l d).isSome = true
  daily_links : ∀ x ∈ t.daily, x.linkId ∈ t.links
  links_rows : ∀ l ∈ t.links,
    (∃ x ∈ t.daily, x.linkId = l) ∨ ∃ d, (t.rows l d).isSome = true
  groups_rows : ∀ g ∈ t.groups,
    (∃ x ∈ t.daily, x.linkId = g.linkId ∧ x.day = g.day) ∨ (t.rows g.linkId g.day).isSome = true
  phase : ∀ g rest, t.groups = g :: rest → PhaseHolds db t g
  -- the uniques of a row are those of its sketch once its group is through
  uniques : ∀ l d row, t.rows l d = some row →
    (∃ g ∈ t.groups, g.linkId = l ∧ g.day = d) ∨
      row.uniques = storedEstimate ops ((t.view db).sketches l d)
  sums : ∀ rest, t.sums = some rest → t.daily = [] ∧ t.groups = [] ∧
    (∀ x ∈ rest, x.1 ∈ t.links ∧ x.2 = (t.view db).total x.1) ∧
    ∀ l ∈ t.links, (∃ x ∈ rest, x.1 = l) ∨ t.counters l = some ((t.view db).total l)

/-- No row of `click_daily` is locked by both, and no link is summed up by both. -/
structure Apart (t u : RollupTx Sketch) : Prop where
  rows : ∀ l d, (t.rows l d).isSome = true → (u.rows l d).isSome = true → False
  sums : t.sums.isSome = true → u.sums.isSome = true → ∀ l ∈ t.links, l ∉ u.links

theorem Apart.symm {t u : RollupTx Sketch} (h : Apart t u) : Apart u t where
  rows l d hu ht := h.rows l d ht hu
  sums hu ht l hl hlt := h.sums ht hu l hlt hl

/-- **What every state of a run keeps.** -/
structure Inv (ops : SketchOps Sketch) (s : Store Sketch) : Prop where
  consistent : Consistent ops s.db
  own : ∀ t ∈ s.active, Own ops s.db t
  apart : s.active.Pairwise Apart

section

variable {ops : SketchOps Sketch} {db : Database Sketch} {t t' u : RollupTx Sketch}
  {others : List (RollupTx Sketch)}

/-! ### Small facts -/

theorem Consistent.exact (h : Consistent ops db) : Exact ops db := by
  intro l
  rw [h.counters l]
  refine ⟨rfl, congrArg List.sum (List.map_congr_left fun d hd => ?_)⟩
  obtain ⟨row, hrow⟩ := Option.isSome_iff_exists.mp ((h.days_iff l d).mp hd)
  rw [hrow, Option.elim_some]
  exact h.uniques l d row hrow

theorem rowFree_iff {l : String} {d : Int} :
    rowFree others l d = true ↔ ∀ u ∈ others, (u.rows l d).isSome = false := by
  simp [rowFree]

/-! ### A transaction that begins -/

theorem exists_dailyDelta {batch : List ClickEvent} {e : ClickEvent} (he : e ∈ batch) :
    ∃ x ∈ dailyDeltas batch, x.linkId = e.linkId ∧ x.day = e.day := by
  have hkey : (e.linkId, e.workspaceId, e.day) ∈
      (batch.map fun e => (e.linkId, e.workspaceId, e.day)).dedup :=
    List.mem_dedup.mpr (List.mem_map_of_mem (f := fun e : ClickEvent =>
      (e.linkId, e.workspaceId, e.day)) he)
  exact ⟨_, List.mem_map_of_mem hkey, rfl, rfl⟩

theorem event_of_dailyDelta {batch : List ClickEvent} {x : DailyDelta}
    (hx : x ∈ dailyDeltas batch) : ∃ e ∈ batch, e.linkId = x.linkId := by
  obtain ⟨⟨l, w, d⟩, hkey, rfl⟩ := List.mem_map.mp hx
  obtain ⟨e, he, heq⟩ := List.mem_map.mp (List.mem_dedup.mp hkey)
  rw [Prod.mk.injEq] at heq
  exact ⟨e, he, heq.1⟩

theorem event_of_visitorGroup {batch : List ClickEvent} {g : VisitorGroup Sketch}
    (hg : g ∈ visitorGroups ops batch) : ∃ e ∈ batch, e.linkId = g.linkId ∧ e.day = g.day := by
  obtain ⟨⟨l, d⟩, hkey, rfl⟩ := List.mem_map.mp hg
  obtain ⟨e, he, heq⟩ := List.mem_map.mp (List.mem_eraseDups.mp hkey)
  rw [Prod.mk.injEq] at heq
  exact ⟨e, (List.mem_filter.mp he).1, heq.1, heq.2⟩

theorem own_ofBatch (batch : List ClickEvent) : Own ops db (RollupTx.ofBatch ops batch) where
  touched_iff := by simp [RollupTx.ofBatch]
  touched_nodup := by simp [RollupTx.ofBatch]
  rows_links := by simp [RollupTx.ofBatch]
  counters_links := by simp [RollupTx.ofBatch]
  sketches_rows := by simp [RollupTx.ofBatch]
  daily_links := fun x hx => mem_links.mpr (event_of_dailyDelta hx)
  links_rows := by
    intro l hl
    obtain ⟨e, he, rfl⟩ := mem_links.mp hl
    obtain ⟨x, hx, hlink, _⟩ := exists_dailyDelta he
    exact Or.inl ⟨x, hx, hlink⟩
  groups_rows := by
    intro g hg
    obtain ⟨e, he, hlink, hday⟩ := event_of_visitorGroup hg
    obtain ⟨x, hx, hlink', hday'⟩ := exists_dailyDelta he
    exact Or.inl ⟨x, hx, hlink'.trans hlink, hday'.trans hday⟩
  phase := fun _ _ _ => trivial
  uniques := by simp [RollupTx.ofBatch]
  sums := by simp [RollupTx.ofBatch]

/-! ### The statements -/

/-- A cell that is not locked has no sketch of the transaction's own. -/
theorem Own.sketch_of_unlocked (hown : Own ops db t) {l : String} {d : Int}
    (h : t.rows l d = none) : t.sketches l d = none := by
  rw [← Option.not_isSome_iff_eq_none]
  intro hsome
  have hlocked := hown.sketches_rows l d hsome
  rw [h] at hlocked
  exact absurd hlocked (by simp)

/-- A day without a row has no sketch. -/
theorem Consistent.sketch_of_none (hdb : Consistent ops db) {l : String} {d : Int}
    (h : db.daily l d = none) : db.sketches l d = none := by
  rw [← Option.not_isSome_iff_eq_none]
  intro hsome
  have hrow := hdb.covered l d hsome
  rw [h] at hrow
  exact absurd hrow (by simp)

/-- An upserted row has the uniques of its sketch. -/
theorem uniques_upserted (hdb : Consistent ops db) (x : DailyDelta) :
    (db.upserted x).uniques = storedEstimate ops (db.sketches x.linkId x.day) := by
  rw [Database.upserted]
  cases hrow : db.daily x.linkId x.day with
  | none =>
    rw [hdb.sketch_of_none hrow]
    rfl
  | some row => exact hdb.uniques _ _ row hrow

/-- A write locks its row and no other one. -/
theorem isSome_rows_writeRow (t : RollupTx Sketch) (linkId : String) (day : Int) (row : DailyRow)
    (l : String) (d : Int) : ((t.writeRow linkId day row).rows l d).isSome = true ↔
      (t.rows l d).isSome = true ∨ l = linkId ∧ d = day := by
  rw [rows_writeRow]
  split
  · rename_i hcell
    exact iff_of_true rfl (Or.inr hcell)
  · rename_i hcell
    exact (or_iff_left hcell).symm

theorem touched_iff_writeRow (hown : Own ops db t) (linkId : String) (day : Int) (row : DailyRow)
    (l : String) (d : Int) : d ∈ (t.writeRow linkId day row).touched l ↔
      ((t.writeRow linkId day row).rows l d).isSome = true := by
  rw [mem_touched_writeRow, isSome_rows_writeRow, hown.touched_iff]

theorem own_upsertDaily (hdb : Consistent ops db) (hown : Own ops db t) {x : DailyDelta}
    {rest : List DailyDelta} (hdaily : t.daily = x :: rest)
    (hunlocked : t.rows x.linkId x.day = none) :
    Own ops db { t.writeRow x.linkId x.day (db.upserted x) with daily := rest } := by
  have hlink : x.linkId ∈ t.links := hown.daily_links x (by rw [hdaily]; exact List.mem_cons_self)
  have hnoSums : t.sums = none := by
    by_contra hsome
    obtain ⟨sums, hsums⟩ := Option.ne_none_iff_exists'.mp hsome
    exact absurd (hown.sums sums hsums).1 (by simp [hdaily])
  have hgrows : ∀ l d, (t.rows l d).isSome = true →
      ((t.writeRow x.linkId x.day (db.upserted x)).rows l d).isSome = true :=
    fun l d hlocked => (isSome_rows_writeRow t _ _ _ l d).mpr (Or.inl hlocked)
  constructor
  · exact touched_iff_writeRow hown x.linkId x.day (db.upserted x)
  · exact fun l => nodup_touched_writeRow hown.touched_nodup x.linkId l x.day (db.upserted x)
  · intro l d hlocked
    rcases (isSome_rows_writeRow t _ _ _ l d).mp hlocked with hlocked | hcell
    · exact hown.rows_links l d hlocked
    · exact hcell.1 ▸ hlink
  · exact hown.counters_links
  · exact fun l d hsome => hgrows l d (hown.sketches_rows l d hsome)
  · exact fun y hy => hown.daily_links y (by rw [hdaily]; exact List.mem_cons_of_mem _ hy)
  · intro l hl
    rcases hown.links_rows l hl with ⟨y, hy, rfl⟩ | ⟨d, hlocked⟩
    · rw [hdaily] at hy
      rcases List.mem_cons.mp hy with rfl | hy
      · exact Or.inr ⟨y.day, by simp [rows_writeRow]⟩
      · exact Or.inl ⟨y, hy, rfl⟩
    · exact Or.inr ⟨d, hgrows l d hlocked⟩
  · intro g hg
    rcases hown.groups_rows g hg with ⟨y, hy, hcell⟩ | hlocked
    · rw [hdaily] at hy
      rcases List.mem_cons.mp hy with rfl | hy
      · exact Or.inr (by simp [rows_writeRow, hcell])
      · exact Or.inl ⟨y, hy, hcell⟩
    · exact Or.inr (hgrows _ _ hlocked)
  · exact hown.phase
  · intro l d row hrow
    change (t.writeRow x.linkId x.day (db.upserted x)).rows l d = some row at hrow
    rw [rows_writeRow] at hrow
    split at hrow
    · rename_i hcell
      obtain rfl := Option.some.inj hrow
      refine Or.inr ((uniques_upserted hdb x).trans ?_)
      show _ = storedEstimate ops ((t.sketches l d).or (db.sketches l d))
      rw [hcell.1, hcell.2, hown.sketch_of_unlocked hunlocked, Option.none_or]
    · exact hown.uniques l d row hrow
  · intro sums hsums
    exact absurd (hsums.symm.trans hnoSums) (by simp)

/-- The first three statements of a group touch nothing but its sketch. -/
theorem own_setSketch (hown : Own ops db t) (hdaily : t.daily = []) {g : VisitorGroup Sketch}
    {rest : List (VisitorGroup Sketch)} (hgroups : t.groups = g :: rest) {o : Option Sketch}
    {phase : GroupPhase Sketch}
    (hphase : PhaseHolds db
      { t with phase := phase, sketches := setCell t.sketches g.linkId g.day o } g) :
    Own ops db { t with phase := phase, sketches := setCell t.sketches g.linkId g.day o } := by
  have hg : g ∈ t.groups := by rw [hgroups]; exact List.mem_cons_self
  have hlocked : (t.rows g.linkId g.day).isSome = true := by
    rcases hown.groups_rows g hg with ⟨x, hx, _⟩ | hlocked
    · exact absurd hx (by simp [hdaily])
    · exact hlocked
  refine { hown with sketches_rows := ?_, phase := ?_, uniques := ?_, sums := ?_ }
  · intro l d hsome
    change (setCell t.sketches g.linkId g.day o l d).isSome = true at hsome
    rw [setCell_apply] at hsome
    split at hsome
    · rename_i hcell
      rw [hcell.1, hcell.2]
      exact hlocked
    · exact hown.sketches_rows l d hsome
  · intro g' rest' hgroups'
    obtain rfl : g = g' := (List.cons.inj (hgroups.symm.trans hgroups')).1
    exact hphase
  · intro l d row hrow
    by_cases hcell : l = g.linkId ∧ d = g.day
    · exact Or.inl ⟨g, hg, hcell.1.symm, hcell.2.symm⟩
    · refine (hown.uniques l d row hrow).imp_right fun h => ?_
      rw [h, view_sketches, view_sketches]
      show _ = storedEstimate ops ((setCell t.sketches g.linkId g.day o l d).or _)
      rw [setCell_apply, if_neg hcell]
  · intro sums hsums
    exact absurd (hown.sums sums hsums).2.1 (by simp [hgroups])

/-- A group ends with the uniques of its row recomputed from the merged sketch. -/
theorem own_writeUniques (hown : Own ops db t) {g : VisitorGroup Sketch}
    {rest : List (VisitorGroup Sketch)} (hgroups : t.groups = g :: rest) {merged : Sketch}
    (hmerged : t.sketches g.linkId g.day = some merged) {row : DailyRow}
    (hrow : row.uniques = ops.estimate merged) :
    Own ops db { t.writeRow g.linkId g.day row with groups := rest, phase := .seed } := by
  have hlocked : (t.rows g.linkId g.day).isSome = true :=
    hown.sketches_rows _ _ (by rw [hmerged]; rfl)
  have hsame : ∀ l d, ((t.writeRow g.linkId g.day row).rows l d).isSome = true ↔
      (t.rows l d).isSome = true := by
    intro l d
    rw [isSome_rows_writeRow, or_iff_left_of_imp]
    rintro ⟨rfl, rfl⟩
    exact hlocked
  constructor
  · exact touched_iff_writeRow hown g.linkId g.day row
  · exact fun l => nodup_touched_writeRow hown.touched_nodup g.linkId l g.day row
  · exact fun l d h => hown.rows_links l d ((hsame l d).mp h)
  · exact hown.counters_links
  · exact fun l d h => (hsame l d).mpr (hown.sketches_rows l d h)
  · exact hown.daily_links
  · intro l hl
    rcases hown.links_rows l hl with h | ⟨d, h⟩
    · exact Or.inl h
    · exact Or.inr ⟨d, (hsame l d).mpr h⟩
  · intro g' hg'
    have hmem : g' ∈ t.groups := by rw [hgroups]; exact List.mem_cons_of_mem _ hg'
    rcases hown.groups_rows g' hmem with h | h
    · exact Or.inl h
    · exact Or.inr ((hsame _ _).mpr h)
  · exact fun _ _ _ => trivial
  · intro l d row' hrow'
    change (t.writeRow g.linkId g.day row).rows l d = some row' at hrow'
    rw [rows_writeRow] at hrow'
    split at hrow'
    · rename_i hcell
      obtain rfl := Option.some.inj hrow'
      refine Or.inr ?_
      show row.uniques = storedEstimate ops ((t.sketches l d).or (db.sketches l d))
      rw [hcell.1, hcell.2, hmerged, hrow]
      rfl
    · rename_i hcell
      rcases hown.uniques l d row' hrow' with ⟨g', hg', hkey⟩ | h
      · rw [hgroups] at hg'
        rcases List.mem_cons.mp hg' with rfl | hg'
        · exact absurd ⟨hkey.1.symm, hkey.2.symm⟩ hcell
        · exact Or.inl ⟨g', hg', hkey⟩
      · exact Or.inr h
  · intro sums hsums
    exact absurd (hown.sums sums hsums).2.1 (by simp [hgroups])

/-- What the snapshot sums up is what the transaction sees. -/
theorem own_takeSnapshot (hown : Own ops db t) (hdaily : t.daily = []) (hgroups : t.groups = []) :
    Own ops db (t.takeSnapshot db) := by
  refine { hown with sums := ?_ }
  intro rest hrest
  obtain rfl := Option.some.inj hrest
  refine ⟨hdaily, hgroups, ?_, ?_⟩
  · intro x hx
    obtain ⟨l, hl, rfl⟩ := List.mem_map.mp hx
    exact ⟨(List.mem_filter.mp hl).1, rfl⟩
  · intro l hl
    -- every link of the batch has a row by now, of this transaction's own
    rcases hown.links_rows l hl with ⟨x, hx, _⟩ | ⟨d, hlocked⟩
    · exact absurd hx (by simp [hdaily])
    · have hday : d ∈ (t.view db).days l :=
        mem_view_days.mpr (Or.inr ((hown.touched_iff l d).mpr hlocked))
      have hne : (t.view db).days l ≠ [] := List.ne_nil_of_mem hday
      refine Or.inl ⟨_, List.mem_map_of_mem (List.mem_filter.mpr ⟨hl, ?_⟩), rfl⟩
      exact decide_eq_true hne

theorem own_writeCounter (hown : Own ops db t) {x : String × Counter}
    {rest : List (String × Counter)} (hsums : t.sums = some (x :: rest)) :
    Own ops db { t with
      sums := some rest
      counters := Function.update t.counters x.1 (some x.2) } := by
  obtain ⟨hdaily, hgroups, htotals, hlinks⟩ := hown.sums (x :: rest) hsums
  obtain ⟨hlink, htotal⟩ := htotals x List.mem_cons_self
  refine { hown with counters_links := ?_, sums := ?_ }
  · intro l hsome
    by_cases hl : l = x.1
    · exact hl ▸ hlink
    · change (Function.update t.counters x.1 (some x.2) l).isSome = true at hsome
      rw [Function.update_of_ne hl] at hsome
      exact hown.counters_links l hsome
  · intro rest' hrest'
    obtain rfl : rest = rest' := Option.some.inj hrest'
    refine ⟨hdaily, hgroups, fun y hy => htotals y (List.mem_cons_of_mem _ hy), fun l hl => ?_⟩
    by_cases heq : l = x.1
    · subst heq
      refine Or.inr ?_
      show Function.update t.counters x.1 (some x.2) x.1 = some ((t.view db).total x.1)
      rw [Function.update_self, htotal]
    · refine (hlinks l hl).imp ?_ fun hcounter => ?_
      · rintro ⟨y, hy, rfl⟩
        rcases List.mem_cons.mp hy with rfl | hy
        · exact absurd rfl heq
        · exact ⟨y, hy, rfl⟩
      · show Function.update t.counters x.1 (some x.2) l = some ((t.view db).total l)
        rw [Function.update_of_ne heq]
        exact hcounter

theorem own_mergeGroup (hown : Own ops db t) (hdaily : t.daily = []) {g : VisitorGroup Sketch}
    {rest : List (VisitorGroup Sketch)} (hgroups : t.groups = g :: rest)
    (h : t.mergeGroup ops db others g rest = some t') : Own ops db t' := by
  have hphase := hown.phase g rest hgroups
  rw [PhaseHolds] at hphase
  rw [RollupTx.mergeGroup] at h
  cases hnext : t.phase with
  | seed =>
    simp only [hnext] at h
    split at h
    · rename_i hstored
      obtain rfl := Option.some.inj h
      rw [← setCell_self t.sketches g.linkId g.day]
      exact own_setSketch hown hdaily hgroups (by rw [setCell_self]; exact hstored)
    · split at h
      · obtain rfl := Option.some.inj h
        refine own_setSketch hown hdaily hgroups ?_
        show ((setCell t.sketches g.linkId g.day (some ops.createSketch) g.linkId g.day).or
          _).isSome = true
        rw [setCell_apply, if_pos ⟨rfl, rfl⟩]
        rfl
      · exact absurd h (by simp)
  | lock =>
    simp only [hnext] at h hphase
    split at h
    · obtain rfl := Option.some.inj h
      refine own_setSketch hown hdaily hgroups ?_
      show (setCell t.sketches g.linkId g.day _ g.linkId g.day).isSome = true
      rw [setCell_apply, if_pos ⟨rfl, rfl⟩]
      exact hphase
    · exact absurd h (by simp)
  | update merged =>
    simp only [hnext] at h hphase
    have hstored : ((t.view db).sketches g.linkId g.day).isSome = true := by
      rw [view_sketches, Option.isSome_or, hphase, Bool.true_or]
    rw [if_pos hstored] at h
    obtain rfl := Option.some.inj h
    refine own_setSketch hown hdaily hgroups ?_
    show setCell t.sketches g.linkId g.day (some merged) g.linkId g.day = some merged
    rw [setCell_apply, if_pos ⟨rfl, rfl⟩]
  | uniques merged =>
    simp only [hnext] at h hphase
    split at h
    · obtain rfl := Option.some.inj h
      have hlocked : (t.rows g.linkId g.day).isSome = true :=
        hown.sketches_rows _ _ (by rw [hphase]; rfl)
      obtain ⟨row, hrow⟩ := Option.isSome_iff_exists.mp hlocked
      rw [view_daily, hrow, Option.some_or]
      exact own_writeUniques hown hgroups hphase rfl
    · exact absurd h (by simp)

/-- What a transaction executes next. -/
theorem exec_cases (h : t.exec ops db others = some t') :
    (∃ x rest, t.daily = x :: rest ∧ t.upsertDaily db others x rest = some t') ∨
    (∃ g rest, t.daily = [] ∧ t.groups = g :: rest ∧
      t.mergeGroup ops db others g rest = some t') ∨
    (t.AtSnapshot ∧ t' = t.takeSnapshot db) ∨
    ∃ x rest, t.sums = some (x :: rest) ∧ t.writeCounter others x rest = some t' := by
  rw [RollupTx.exec] at h
  split at h
  · rename_i x rest hdaily
    exact Or.inl ⟨x, rest, hdaily, h⟩
  · rename_i g rest hdaily hgroups
    exact Or.inr (Or.inl ⟨g, rest, hdaily, hgroups, h⟩)
  · rename_i hdaily hgroups hsums
    exact Or.inr (Or.inr (Or.inl ⟨⟨hdaily, List.isEmpty_iff.mpr hgroups, hsums⟩,
      (Option.some.inj h).symm⟩))
  · rename_i x rest _ _ hsums
    exact Or.inr (Or.inr (Or.inr ⟨x, rest, hsums, h⟩))
  · exact absurd h (by simp)

theorem upsertDaily_eq_some {x : DailyDelta} {rest : List DailyDelta}
    (h : t.upsertDaily db others x rest = some t') :
    t.rows x.linkId x.day = none ∧ rowFree others x.linkId x.day = true ∧
      t' = { t.writeRow x.linkId x.day (db.upserted x) with daily := rest } := by
  rw [RollupTx.upsertDaily] at h
  split at h
  · rename_i hfree
    exact ⟨Option.isNone_iff_eq_none.mp hfree.1, hfree.2, (Option.some.inj h).symm⟩
  · exact absurd h (by simp)

theorem writeCounter_eq_some {x : String × Counter} {rest : List (String × Counter)}
    (h : t.writeCounter others x rest = some t') :
    t' = { t with
      sums := some rest
      counters := Function.update t.counters x.1 (some x.2) } := by
  rw [RollupTx.writeCounter] at h
  split at h
  · exact (Option.some.inj h).symm
  · exact absurd h (by simp)

/-- **A statement keeps what its transaction has done.** -/
theorem own_exec (hdb : Consistent ops db) (hown : Own ops db t)
    (h : t.exec ops db others = some t') : Own ops db t' := by
  rcases exec_cases h with ⟨x, rest, hdaily, hstep⟩ | ⟨g, rest, hdaily, hgroups, hstep⟩ |
    ⟨⟨hdaily, hgroups, _⟩, rfl⟩ | ⟨x, rest, hsums, hstep⟩
  · obtain ⟨hunlocked, _, rfl⟩ := upsertDaily_eq_some hstep
    exact own_upsertDaily hdb hown hdaily hunlocked
  · exact own_mergeGroup hown hdaily hgroups hstep
  · exact own_takeSnapshot hown hdaily (List.isEmpty_iff.mp hgroups)
  · obtain rfl := writeCounter_eq_some hstep
    exact own_writeCounter hown hsums

/-! ### Two transactions -/

/-- A group changes no batch, starts no counters statement, and locks no row that is
not free. -/
theorem mergeGroup_frame {g : VisitorGroup Sketch} {rest : List (VisitorGroup Sketch)}
    (h : t.mergeGroup ops db others g rest = some t') :
    t'.batch = t.batch ∧ t'.sums = t.sums ∧ ∀ l d, (t'.rows l d).isSome = true →
      (t.rows l d).isSome = true ∨ rowFree others l d = true := by
  rw [RollupTx.mergeGroup] at h
  cases hnext : t.phase with
  | seed =>
    simp only [hnext] at h
    split at h
    · obtain rfl := Option.some.inj h
      exact ⟨rfl, rfl, fun _ _ => Or.inl⟩
    split at h
    · obtain rfl := Option.some.inj h
      exact ⟨rfl, rfl, fun _ _ => Or.inl⟩
    · exact absurd h (by simp)
  | lock =>
    simp only [hnext] at h
    split at h
    · obtain rfl := Option.some.inj h
      exact ⟨rfl, rfl, fun _ _ => Or.inl⟩
    · exact absurd h (by simp)
  | update merged =>
    simp only [hnext] at h
    obtain rfl := Option.some.inj h
    exact ⟨rfl, rfl, fun _ _ => Or.inl⟩
  | uniques merged =>
    simp only [hnext] at h
    split at h
    · rename_i hfree
      obtain rfl := Option.some.inj h
      cases hrow : (t.view db).daily g.linkId g.day with
      | none => exact ⟨rfl, rfl, fun _ _ => Or.inl⟩
      | some row =>
        refine ⟨rfl, rfl, fun l d hlocked => ?_⟩
        by_cases hcell : l = g.linkId ∧ d = g.day
        · rw [hcell.1, hcell.2]
          exact Or.inr hfree
        · change ((t.writeRow g.linkId g.day _).rows l d).isSome = true at hlocked
          rw [rows_writeRow, if_neg hcell] at hlocked
          exact Or.inl hlocked
    · exact absurd h (by simp)

/-- **A statement keeps its transaction apart from another one**, if it does not sum up
a link that the other one has summed up. -/
theorem apart_exec (h : t.exec ops db others = some t') (hu : u ∈ others) (hapart : Apart t u)
    (halone : t.AtSnapshot → u.sums.isSome = true → ∀ l ∈ t.links, l ∉ u.links) :
    Apart t' u := by
  have hlocks : ∀ l d, rowFree others l d = true → (u.rows l d).isSome = true → False :=
    fun l d hfree hlocked => absurd hlocked (by simp [rowFree_iff.mp hfree u hu])
  rcases exec_cases h with ⟨x, rest, _, hstep⟩ | ⟨g, rest, _, _, hstep⟩ | ⟨hat, rfl⟩ |
    ⟨x, rest, hsums, hstep⟩
  · obtain ⟨_, hfree, rfl⟩ := upsertDaily_eq_some hstep
    refine ⟨fun l d hlocked => ?_, hapart.sums⟩
    change ((t.writeRow x.linkId x.day _).rows l d).isSome = true at hlocked
    by_cases hcell : l = x.linkId ∧ d = x.day
    · rw [hcell.1, hcell.2]
      exact hlocks _ _ hfree
    · rw [rows_writeRow, if_neg hcell] at hlocked
      exact hapart.rows l d hlocked
  · obtain ⟨hbatch, hsums, hrows⟩ := mergeGroup_frame hstep
    refine ⟨fun l d hlocked => ?_, ?_⟩
    · rcases hrows l d hlocked with hold | hfree
      · exact hapart.rows l d hold
      · exact hlocks l d hfree
    · rw [hsums, RollupTx.links, hbatch]
      exact hapart.sums
  · exact ⟨hapart.rows, fun _ hstarted => halone hat hstarted⟩
  · obtain rfl := writeCounter_eq_some hstep
    refine ⟨hapart.rows, fun _ hstarted => hapart.sums ?_ hstarted⟩
    rw [hsums]
    rfl

/-! ### Commits -/

/-- Where a transaction has no rows of a link, it sees the link as it is stored. -/
theorem view_of_no_rows (hown : Own ops db t) {l : String} (h : ∀ d, t.rows l d = none) :
    (t.view db).days l = db.days l ∧ ∀ d, (t.view db).daily l d = db.daily l d := by
  have htouched : t.touched l = [] := by
    refine List.eq_nil_iff_forall_not_mem.mpr fun d hd => ?_
    have hlocked := (hown.touched_iff l d).mp hd
    rw [h d] at hlocked
    exact absurd hlocked (by simp)
  constructor
  · rw [RollupTx.view]
    simp [htouched]
  · intro d
    rw [view_daily, h d, Option.none_or]

theorem total_congr {db' : Database Sketch} {l : String} (hdays : db'.days l = db.days l)
    (hdaily : ∀ d, db'.daily l d = db.daily l d) : db'.total l = db.total l := by
  simp only [Database.total, hdays, hdaily]

theorem no_rows_of_not_mem_links (hown : Own ops db t) {l : String} (hl : l ∉ t.links) (d : Int) :
    t.rows l d = none := by
  rw [← Option.not_isSome_iff_eq_none]
  exact fun hlocked => hl (hown.rows_links l d hlocked)

/-- **A commit leaves a consistent database**, once every row of the counters statement
is written. -/
theorem consistent_view (hdb : Consistent ops db) (hown : Own ops db t)
    (hsums : t.sums = some []) : Consistent ops (t.view db) := by
  obtain ⟨_, hgroups, _, hlinks⟩ := hown.sums [] hsums
  constructor
  · intro l d
    rw [mem_view_days, view_daily, Option.isSome_or, Bool.or_eq_true, hdb.days_iff,
      hown.touched_iff, or_comm]
  · intro l
    refine List.Nodup.append (hdb.nodup l) ((hown.touched_nodup l).filter _) ?_
    intro d hd hd'
    exact absurd hd (by simpa using (List.mem_filter.mp hd').2)
  · intro l d hsome
    rw [view_sketches, Option.isSome_or, Bool.or_eq_true] at hsome
    rw [view_daily, Option.isSome_or, Bool.or_eq_true]
    exact hsome.imp (hown.sketches_rows l d) (hdb.covered l d)
  · intro l d row hrow
    rw [view_daily] at hrow
    cases hlocked : t.rows l d with
    | some own =>
      rw [hlocked, Option.some_or, Option.some.injEq] at hrow
      subst hrow
      refine (hown.uniques l d own hlocked).resolve_left ?_
      rintro ⟨g, hg, _⟩
      exact absurd hg (by simp [hgroups])
    | none =>
      rw [hlocked, Option.none_or] at hrow
      rw [view_sketches, hown.sketch_of_unlocked hlocked, Option.none_or]
      exact hdb.uniques l d row hrow
  · intro l
    by_cases hl : l ∈ t.links
    · have hcounter := (hlinks l hl).resolve_left (by simp)
      show (t.counters l).getD (db.counters l) = _
      rw [hcounter, Option.getD_some]
    · have hcounter : t.counters l = none := by
        rw [← Option.not_isSome_iff_eq_none]
        exact fun hsome => hl (hown.counters_links l hsome)
      obtain ⟨hdays, hdaily⟩ := view_of_no_rows hown (no_rows_of_not_mem_links hown hl)
      show (t.counters l).getD (db.counters l) = _
      rw [hcounter, Option.getD_none, hdb.counters l, total_congr hdays hdaily]

/-- **A commit changes nothing of what another transaction has done.** -/
theorem own_view (hown : Own ops db t) (hu : Own ops db u) (hapart : Apart t u)
    (hsums : t.sums = some []) : Own ops (t.view db) u := by
  refine { hu with phase := ?_, uniques := ?_, sums := ?_ }
  · intro g rest hgroups
    have hphase := hu.phase g rest hgroups
    rw [PhaseHolds] at hphase ⊢
    cases hnext : u.phase with
    | seed => trivial
    | lock =>
      rw [hnext] at hphase
      simp only [view_sketches, Option.isSome_or, Bool.or_eq_true] at hphase ⊢
      exact hphase.imp_right Or.inr
    | update merged =>
      rw [hnext] at hphase
      exact hphase
    | uniques merged =>
      rw [hnext] at hphase
      exact hphase
  · intro l d row hrow
    refine (hu.uniques l d row hrow).imp_right fun h => ?_
    have hunlocked : t.rows l d = none := by
      rw [← Option.not_isSome_iff_eq_none]
      exact fun hlocked => hapart.rows l d hlocked (by rw [hrow]; rfl)
    rw [h, view_sketches, view_sketches, view_sketches, hown.sketch_of_unlocked hunlocked,
      Option.none_or]
  · intro rest hrest
    obtain ⟨hdaily, hgroups, htotals, hlinks⟩ := hu.sums rest hrest
    have hstill : ∀ l ∈ u.links, (u.view (t.view db)).total l = (u.view db).total l := by
      intro l hl
      have hnot : l ∉ t.links := fun ht =>
        hapart.sums (by rw [hsums]; rfl) (by rw [hrest]; rfl) l ht hl
      obtain ⟨hdays, hrows⟩ := view_of_no_rows hown (no_rows_of_not_mem_links hown hnot)
      refine total_congr ?_ fun d => ?_
      · show (t.view db).days l ++ (u.touched l).filter (fun d => d ∉ (t.view db).days l) =
          db.days l ++ (u.touched l).filter (fun d => d ∉ db.days l)
        simp only [hdays]
      · rw [view_daily, hrows d, view_daily]
    refine ⟨hdaily, hgroups, fun x hx => ?_, fun l hl => ?_⟩
    · obtain ⟨hlink, htotal⟩ := htotals x hx
      exact ⟨hlink, htotal.trans (hstill x.1 hlink).symm⟩
    · rw [hstill l hl]
      exact hlinks l hl

end

/-! ### Runs -/

/-- A transaction that is about to sum up its links finds none of them summed up by
another one that has yet to commit. -/
def SumsAlone (others : List (RollupTx Sketch)) (t : RollupTx Sketch) : Prop :=
  t.AtSnapshot → ∀ u ∈ others, u.sums.isSome = true → ∀ l ∈ t.links, l ∉ u.links

instance (others : List (RollupTx Sketch)) (t : RollupTx Sketch) : Decidable (SumsAlone others t) :=
  inferInstanceAs (Decidable (_ → _))

def Alone (s : Store Sketch) : Action → Prop
  | .exec i => ∀ t, s.active[i]? = some t → SumsAlone (s.active.eraseIdx i) t
  | _ => True

instance (s : Store Sketch) : ∀ a : Action, Decidable (Alone s a)
  | .begins _ => isTrue trivial
  | .exec i =>
    decidable_of_iff ((s.active[i]?).all (fun t => SumsAlone (s.active.eraseIdx i) t) = true)
      (by cases h : s.active[i]? <;> simp [Alone, h])
  | .commits _ => isTrue trivial
  | .aborts _ => isTrue trivial

section

variable {ops : SketchOps Sketch} {s s' : Store Sketch}

theorem inv_begins (hi : Inv ops s) {batch : List ClickEvent}
    (h : step ops s (.begins batch) = some s') : Inv ops s' := by
  obtain ⟨_, rfl⟩ := step_begins h
  refine ⟨hi.consistent, ?_, List.pairwise_append.mpr ⟨hi.apart, List.pairwise_singleton _ _, ?_⟩⟩
  · intro t ht
    rcases List.mem_append.mp ht with ht | ht
    · exact hi.own t ht
    · rw [List.mem_singleton.mp ht]
      exact own_ofBatch batch
  · intro t _ u hu
    rw [List.mem_singleton.mp hu]
    exact ⟨fun _ _ _ hlocked => absurd hlocked (by simp [RollupTx.ofBatch]),
      fun _ hstarted => absurd hstarted (by simp [RollupTx.ofBatch])⟩

theorem inv_exec (hi : Inv ops s) {i : Nat} (halone : Alone s (.exec i))
    (h : step ops s (.exec i) = some s') : Inv ops s' := by
  obtain ⟨t, t', ht, hexec, rfl⟩ := step_exec h
  have hother := pairwise_others (fun h => Apart.symm h) hi.apart ht
  refine ⟨hi.consistent, ?_, ?_⟩
  · intro u hu
    rcases eq_or_mem_eraseIdx_of_mem_set hu with rfl | hu
    · exact own_exec hi.consistent (hi.own t (List.mem_of_getElem? ht)) hexec
    · exact hi.own u (List.mem_of_mem_eraseIdx hu)
  · refine pairwise_set (fun h => Apart.symm h) hi.apart fun u hu => ?_
    exact apart_exec hexec hu (hother u hu) fun hat => halone t ht hat u hu

theorem inv_commits (hi : Inv ops s) {i : Nat} (h : step ops s (.commits i) = some s') :
    Inv ops s' := by
  obtain ⟨t, ht, _, _, hsums, rfl⟩ := step_commits h
  have hown := hi.own t (List.mem_of_getElem? ht)
  have hother := pairwise_others (fun h => Apart.symm h) hi.apart ht
  refine ⟨consistent_view hi.consistent hown hsums, fun u hu => ?_,
    hi.apart.sublist (List.eraseIdx_sublist _ i)⟩
  exact own_view hown (hi.own u (List.mem_of_mem_eraseIdx hu)) (hother u hu) hsums

theorem inv_aborts (hi : Inv ops s) {i : Nat} (h : step ops s (.aborts i) = some s') :
    Inv ops s' := by
  obtain rfl := step_aborts h
  exact ⟨hi.consistent, fun u hu => hi.own u (List.mem_of_mem_eraseIdx hu),
    hi.apart.sublist (List.eraseIdx_sublist _ i)⟩

theorem inv_step (hi : Inv ops s) {a : Action} (halone : Alone s a)
    (h : step ops s a = some s') : Inv ops s' := by
  cases a with
  | begins batch => exact inv_begins hi h
  | exec i => exact inv_exec hi halone h
  | commits i => exact inv_commits hi h
  | aborts i => exact inv_aborts hi h

end

/-- **Counters are exact in every state of a run** in which links are summed up by one
uncommitted transaction at a time. -/
theorem guarded_exact (ops : SketchOps Sketch) (db : Database Sketch) (as : List Action)
    (t : Store Sketch) (hdb : Consistent ops db)
    (hguarded : Guarded (step ops) Alone (Store.start db) as)
    (hrun : run (step ops) (Store.start db) as = some t) : Exact ops t.db := by
  have hstart : Inv ops (Store.start db) :=
    ⟨hdb, fun _ h => absurd h (by simp [Store.start]), List.Pairwise.nil⟩
  have hfinal := invariant_of_guarded (fun s a s' hi halone hstep => inv_step hi halone hstep)
    as (Store.start db) t hstart hguarded hrun
  exact hfinal.consistent.exact

/-! ### Two batches of one link -/

/-- Sketches that keep the hashes apart, as large ones do. -/
def hashOps : SketchOps (List String) where
  createSketch := []
  addHashed sketch hash := sketch.insert hash
  merge a b := a.foldr List.insert b
  estimate := List.length

def emptyDatabase : Database (List String) where
  days _ := []
  daily _ _ := none
  sketches _ _ := none
  counters _ := ⟨0, 0⟩

theorem consistent_emptyDatabase : Consistent hashOps emptyDatabase where
  days_iff := by simp [emptyDatabase]
  nodup := by simp [emptyDatabase]
  covered := by simp [emptyDatabase]
  uniques := by simp [emptyDatabase]
  counters _ := rfl

/-- A click on one link. -/
def clickOn (day : Int) (id visitorHash : String) : ClickEvent where
  id := id
  linkId := "link"
  workspaceId := "workspace"
  occurredAt := day * 86400000
  visitorHash := visitorHash
  isBot := false
  blockedReason := none
  isQr := false

/-- Two batches on different days, of which the second sums up after the first has
committed. -/
def serialRun : List Action :=
  [Action.begins [clickOn 1 "click_1" "0a"], .begins [clickOn 2 "click_2" "0b"]] ++
    List.replicate 5 (Action.exec 1) ++ List.replicate 7 (Action.exec 0) ++ [Action.commits 0] ++
    List.replicate 2 (Action.exec 0) ++ [Action.commits 0]

theorem exact_serialRun :
    ∃ t, run (step hashOps) (Store.start emptyDatabase) serialRun = some t ∧
      Exact hashOps t.db := by
  have hrun : (run (step hashOps) (Store.start emptyDatabase) serialRun).isSome = true := by
    decide +kernel
  obtain ⟨t, ht⟩ := Option.isSome_iff_exists.mp hrun
  exact ⟨t, ht, guarded_exact hashOps emptyDatabase serialRun t consistent_emptyDatabase
    (by decide +kernel) ht⟩

/-- The same two batches, of which the second sums up while the first is running. -/
def overlappingRun : List Action :=
  [Action.begins [clickOn 1 "click_1" "0a"], .begins [clickOn 2 "click_2" "0b"]] ++
    List.replicate 7 (Action.exec 0) ++ List.replicate 6 (Action.exec 1) ++
    [Action.commits 0, .exec 0, .commits 0]

/-- **Two rollups on different days of one link lose a click**: the counters statement
of the second one started before the first one had committed. -/
theorem concurrent_rollups_lose_clicks :
    ¬ ∀ (ops : SketchOps (List String)) (db : Database (List String)) (as : List Action)
        (t : Store (List String)), Consistent ops db →
      run (step ops) (Store.start db) as = some t → t.active = [] → Exact ops t.db := by
  intro h
  have hrun : (run (step hashOps) (Store.start emptyDatabase) overlappingRun).isSome = true := by
    decide +kernel
  have hends : (run (step hashOps) (Store.start emptyDatabase) overlappingRun).all (fun t =>
      t.active.isEmpty && (t.db.counters "link").clicks = 1 &&
        ((t.db.days "link").map fun d =>
          (t.db.daily "link" d).elim 0 (·.clicks)).sum = 2) = true := by
    decide +kernel
  obtain ⟨t, ht⟩ := Option.isSome_iff_exists.mp hrun
  rw [ht, Option.all_some, Bool.and_eq_true, Bool.and_eq_true, decide_eq_true_eq,
    decide_eq_true_eq] at hends
  have hexact := (h hashOps emptyDatabase overlappingRun t consistent_emptyDatabase ht
    (List.isEmpty_iff.mp hends.1.1) "link").1
  rw [hends.1.2, hends.2] at hexact
  exact absurd hexact (by simp)

end SnapUrl.Rollup
