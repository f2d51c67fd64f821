import Mathlib.Algebra.BigOperators.Group.Finset.Basic
import Mathlib.Algebra.BigOperators.Group.Finset.Piecewise
import SnapUrl.Domain.Hll
import SnapUrl.Lib.KeyedFold
import SnapUrl.Rollup.Counters

/-!
# Any batching counts the same

`rollupClicks` of `apps/worker/src/jobs/rollup.ts` with every table it writes, for
batches that are rolled up one after another: `click_daily`, `click_daily_uniques`,
`breakdown_daily` and `link_counters`.

* `Tables.addEvent`: what one click is to the tables.
* `foldl_addToCell`: the row and the sketch of a link and day after a list of clicks,
  and `foldl_addEvent_perm`: their order does not matter.
* `rollupClicks_eq`: **a batch leaves what its clicks leave one by one.**
* `clicks_of_rollupClicks`: a batch adds its counted clicks of a link to its counter.
* `attempts_agree`: **any division into batches leaves the tables of one single batch.**
-/

namespace SnapUrl.Rollup

open Lib Domain

/-! ### Rows and tables -/

/-- A click with the columns the breakdowns read. -/
structure ClickRow extends ClickEvent where
  country : Option String
  city : Option String
  device : Option String
  browser : Option String
  referrerHost : Option String
deriving DecidableEq, Repr

/-- The key of `breakdown_daily`. -/
structure BreakdownKey where
  workspaceId : String
  linkId : String
  day : Int
  dimension : String
  value : String
deriving DecidableEq, Repr

/-- The dimensions and their columns. -/
def dimensions : List (String × (ClickRow → Option String)) :=
  [("country", ClickRow.country), ("city", ClickRow.city), ("device", ClickRow.device),
    ("browser", ClickRow.browser), ("referrer", ClickRow.referrerHost)]

def ClickRow.breakdownKey (e : ClickRow) (dimension : String × (ClickRow → Option String)) :
    BreakdownKey where
  workspaceId := e.workspaceId
  linkId := e.linkId
  day := e.day
  dimension := dimension.1
  value := (dimension.2 e).getD "Unknown"

/-- The link and day of a click, the key of `click_daily`. -/
def ClickEvent.cell (e : ClickEvent) : String × Int := (e.linkId, e.day)

def DailyDelta.cell (x : DailyDelta) : String × Int := (x.linkId, x.day)

def VisitorGroup.cell {S : Type} (g : VisitorGroup S) : String × Int := (g.linkId, g.day)

/-- The four tables, by their keys.  `keys` are those of `click_daily`, and a
breakdown is zero where there is no row. -/
structure Tables where
  daily : String × Int → Option DailyRow
  keys : Finset (String × Int)
  mem_keys : ∀ k, k ∈ keys ↔ (daily k).isSome = true
  sketches : String × Int → Option Sketch
  breakdown : BreakdownKey → Nat
  counters : String → Counter

/-- The tables of a new database. -/
def Tables.empty : Tables where
  daily _ := none
  keys := ∅
  mem_keys _ := by simp
  sketches _ := none
  breakdown _ := 0
  counters _ := ⟨0, 0⟩

def Tables.writeRow (t : Tables) (k : String × Int) (row : DailyRow) : Tables where
  daily := Function.update t.daily k (some row)
  keys := insert k t.keys
  mem_keys l := by
    rw [Finset.mem_insert, t.mem_keys, Function.update_apply]
    split
    · simp [*]
    · simp [*]
  sketches := t.sketches
  breakdown := t.breakdown
  counters := t.counters

/-- The sums over all days of a link. -/
def Tables.total (t : Tables) (linkId : String) : Counter where
  clicks := ∑ k ∈ t.keys with k.1 = linkId, (t.daily k).elim 0 (·.clicks)
  uniqueClicks := ∑ k ∈ t.keys with k.1 = linkId, (t.daily k).elim 0 (·.uniques)

/-! ### The statements -/

/-- `addHashed` where it does not throw. -/
def addHash (sketch : Sketch) (hashHex : String) : Sketch := (addHashed sketch hashHex).getD sketch

/-- The operations of the domain package; the estimator is floating point. -/
def sketchOps (estimate : Sketch → Nat) : SketchOps Sketch where
  createSketch := createSketch
  addHashed := addHash
  merge := merge
  estimate := estimate

/-- `insert into click_daily … on conflict do update`, for one row. -/
def Tables.upsertDaily (t : Tables) (x : DailyDelta) : Tables :=
  t.writeRow x.cell <|
    match t.daily x.cell with
    | none => ⟨x.workspaceId, x.clicks, 0, x.scans, x.blocked⟩
    | some row =>
      { row with
        clicks := row.clicks + x.clicks
        scans := row.scans + x.scans
        blocked := row.blocked + x.blocked }

/-- The statements of one group of visitors. -/
def Tables.mergeGroup (estimate : Sketch → Nat) (t : Tables) (g : VisitorGroup Sketch) : Tables :=
  -- the row is inserted empty where it is missing, and then locked
  let stored := (t.sketches g.cell).getD createSketch
  let merged := merge stored g.sketch
  let t' := { t with sketches := Function.update t.sketches g.cell (some merged) }
  match t.daily g.cell with
  | none => t'
  | some row => t'.writeRow g.cell { row with uniques := estimate merged }

/-- The rows one dimension of a batch gives. -/
def breakdownRows (batch : List ClickRow) (dimension : String × (ClickRow → Option String)) :
    List (BreakdownKey × Nat) :=
  let keys := (batch.filter fun e => e.counted).map (·.breakdownKey dimension)
  keys.dedup.map fun key => (key, keys.count key)

/-- `insert into breakdown_daily … on conflict do update`, for one row. -/
def Tables.upsertBreakdown (t : Tables) (x : BreakdownKey × Nat) : Tables :=
  { t with breakdown := Function.update t.breakdown x.1 (t.breakdown x.1 + x.2) }

/-- The counters statement, over the links of the batch that have rows. -/
def Tables.recount (t : Tables) (batch : List ClickRow) : Tables :=
  { t with
    counters := fun linkId =>
      if linkId ∈ batch.map (·.linkId) ∧ ∃ k ∈ t.keys, k.1 = linkId then t.total linkId
      else t.counters linkId }

/-- The whole transaction, `none` where it raises: an upsert may not meet a row twice,
and a visitor hash has to be one. -/
def rollupClicks (estimate : Sketch → Nat) (t : Tables) (batch : List ClickRow) : Option Tables :=
  if batch = [] then some t
  else
    let events := batch.map (·.toClickEvent)
    let deltas := dailyDeltas events
    if (deltas.map (·.cell)).Nodup ∧
        ∀ e ∈ events, e.counted = true → (hashHexTo32Bit e.visitorHash).isSome = true then
      let t := deltas.foldl Tables.upsertDaily t
      let t := (visitorGroups (sketchOps estimate) events).foldl (Tables.mergeGroup estimate) t
      let t := (dimensions.flatMap (breakdownRows batch)).foldl Tables.upsertBreakdown t
      some (t.recount batch)
    else none

/-! ### One click -/

/-- What one click is to the row and the sketch of its link and day. -/
def addToCell (estimate : Sketch → Nat) (cell : Option DailyRow × Option Sketch)
    (e : ClickEvent) : DailyRow × Option Sketch :=
  let row := cell.1.getD ⟨e.workspaceId, 0, 0, 0, 0⟩
  let sketch := addHash (cell.2.getD createSketch) e.visitorHash
  ({ row with
      clicks := row.clicks + e.counted.toNat
      uniques := if e.counted then estimate sketch else row.uniques
      scans := row.scans + (e.counted && e.isQr).toNat
      blocked := row.blocked + e.blockedReason.isSome.toNat },
    if e.counted then some sketch else cell.2)

def Tables.cellAt (t : Tables) (k : String × Int) : Option DailyRow × Option Sketch :=
  (t.daily k, t.sketches k)

/-- **What one click is to the tables**: one more in its row, in its sketch and in its
five breakdowns, and the sums of its link after that. -/
def Tables.addEvent (estimate : Sketch → Nat) (t : Tables) (e : ClickRow) : Tables :=
  let (row, sketch) := addToCell estimate (t.cellAt e.cell) e.toClickEvent
  let t' := t.writeRow e.cell row
  { t' with
    sketches := Function.update t.sketches e.cell sketch
    breakdown := fun key =>
      t.breakdown key + if e.counted then dimensions.countP (e.breakdownKey · = key) else 0
    counters := Function.update t.counters e.linkId (t'.total e.linkId) }

/-! ### Batches one after another -/

/-- The tables, and the clicks that are not rolled up yet. -/
structure Intake where
  tables : Tables
  pending : Multiset ClickRow

structure Attempt where
  batch : List ClickRow
  /-- The transaction is aborted from outside. -/
  aborts : Bool

/-- One transaction over some of the pending clicks.  One that raises is rolled back,
and its clicks stay pending. -/
def attempt (estimate : Sketch → Nat) (s : Intake) (a : Attempt) : Option Intake :=
  if (a.batch : Multiset ClickRow) ≤ s.pending then
    if a.aborts then some s
    else
      match rollupClicks estimate s.tables a.batch with
      | none => some s
      | some t => some ⟨t, s.pending - a.batch⟩
  else none

/-! ### Tables and cells -/

section

variable {estimate : Sketch → Nat} {t u : Tables}

theorem tables_ext (hcell : ∀ k, t.cellAt k = u.cellAt k)
    (hbreakdown : ∀ key, t.breakdown key = u.breakdown key)
    (hcounters : ∀ l, t.counters l = u.counters l) : t = u := by
  have hdaily : t.daily = u.daily := funext fun k => congrArg Prod.fst (hcell k)
  have hkeys : t.keys = u.keys := by
    ext k
    rw [t.mem_keys, u.mem_keys, hdaily]
  have hsketches : t.sketches = u.sketches := funext fun k => congrArg Prod.snd (hcell k)
  have hb : t.breakdown = u.breakdown := funext hbreakdown
  have hc : t.counters = u.counters := funext hcounters
  cases t
  cases u
  simp_all

/-- The sums of a link read its own rows only. -/
theorem tables_total_congr {l : String} (h : ∀ d, t.daily (l, d) = u.daily (l, d)) :
    t.total l = u.total l := by
  have hdaily : ∀ k : String × Int, k.1 = l → t.daily k = u.daily k := by
    rintro ⟨_, d⟩ rfl
    exact h d
  have hkeys : (t.keys.filter fun k => k.1 = l) = u.keys.filter fun k => k.1 = l := by
    ext k
    rw [Finset.mem_filter, Finset.mem_filter, t.mem_keys, u.mem_keys]
    exact and_congr_left fun hk => by rw [hdaily k hk]
  rw [Tables.total, Tables.total, hkeys]
  congr 1
  · exact Finset.sum_congr rfl fun k hk => by rw [hdaily k (Finset.mem_filter.mp hk).2]
  · exact Finset.sum_congr rfl fun k hk => by rw [hdaily k (Finset.mem_filter.mp hk).2]

theorem daily_writeRow (k l : String × Int) (row : DailyRow) :
    (t.writeRow k row).daily l = if k = l then some row else t.daily l := by
  change Function.update t.daily k (some row) l = _
  rw [Function.update_apply]
  exact if_congr eq_comm rfl rfl

theorem cellAt_addEvent (estimate : Sketch → Nat) (t : Tables) (e : ClickRow) (k : String × Int) :
    (t.addEvent estimate e).cellAt k =
      if e.cell = k then (some (addToCell estimate (t.cellAt k) e.toClickEvent).1,
        (addToCell estimate (t.cellAt k) e.toClickEvent).2)
      else t.cellAt k := by
  by_cases hk : e.cell = k
  · subst hk
    rw [if_pos rfl, Tables.cellAt, Tables.addEvent]
    simp [daily_writeRow]
  · rw [if_neg hk]
    simp [Tables.cellAt, Tables.addEvent, daily_writeRow, hk, Function.update_of_ne (Ne.symm hk)]

theorem total_addEvent_of_ne {e : ClickRow} {l : String} (h : e.linkId ≠ l) :
    (t.addEvent estimate e).total l = t.total l := by
  refine tables_total_congr fun d => ?_
  have hcell := cellAt_addEvent estimate t e (l, d)
  rw [if_neg fun hkey => h (congrArg Prod.fst hkey)] at hcell
  exact congrArg Prod.fst hcell

/-- The clicks of a row, none where there is no row. -/
def Tables.clicksAt (t : Tables) (k : String × Int) : Nat := (t.daily k).elim 0 (·.clicks)

theorem clicksAt_addEvent (e : ClickRow) (k : String × Int) :
    (t.addEvent estimate e).clicksAt k =
      t.clicksAt k + if e.cell = k then e.counted.toNat else 0 := by
  have hdaily : (t.addEvent estimate e).daily k = _ :=
    congrArg Prod.fst (cellAt_addEvent estimate t e k)
  rw [Tables.clicksAt, Tables.clicksAt, hdaily]
  by_cases hk : e.cell = k
  · rw [if_pos hk, if_pos hk, Option.elim_some, addToCell]
    change ((t.daily k).getD _).clicks + _ = _
    cases t.daily k with
    | none => rfl
    | some row => rfl
  · rw [if_neg hk, if_neg hk, add_zero]
    rfl

theorem keys_addEvent (e : ClickRow) : (t.addEvent estimate e).keys = insert e.cell t.keys := rfl

theorem clicks_total (l : String) : (t.total l).clicks = ∑ k ∈ t.keys with k.1 = l, t.clicksAt k :=
  rfl

/-- **A counted click of a link is one more in its sum, and no other click is.** -/
theorem clicks_total_addEvent (e : ClickRow) (l : String) :
    ((t.addEvent estimate e).total l).clicks =
      (t.total l).clicks + if e.linkId = l then e.counted.toNat else 0 := by
  by_cases hl : e.linkId = l
  · subst hl
    have hrows : ∑ k ∈ insert e.cell t.keys with k.1 = e.linkId, t.clicksAt k =
        ∑ k ∈ t.keys with k.1 = e.linkId, t.clicksAt k := by
      refine (Finset.sum_subset
        (Finset.filter_subset_filter _ (Finset.subset_insert _ _)) fun k hk hnew => ?_).symm
      -- a row that is not there yet has no clicks
      have hnone : k ∉ t.keys :=
        fun hmem => hnew (Finset.mem_filter.mpr ⟨hmem, (Finset.mem_filter.mp hk).2⟩)
      rw [t.mem_keys, Option.not_isSome_iff_eq_none] at hnone
      rw [Tables.clicksAt, hnone, Option.elim_none]
    have hcell : e.cell ∈ (insert e.cell t.keys).filter fun k => k.1 = e.linkId :=
      Finset.mem_filter.mpr ⟨Finset.mem_insert_self _ _, rfl⟩
    rw [clicks_total, keys_addEvent, Finset.sum_congr rfl fun k _ => clicksAt_addEvent e k,
      Finset.sum_add_distrib, hrows, Finset.sum_ite_eq, if_pos hcell, if_pos rfl, clicks_total]
  · rw [total_addEvent_of_ne hl, if_neg hl, add_zero]

theorem counters_addEvent (e : ClickRow) (l : String) :
    (t.addEvent estimate e).counters l =
      if e.linkId = l then (t.addEvent estimate e).total l else t.counters l := by
  by_cases hl : e.linkId = l
  · subst hl
    rw [if_pos rfl]
    exact Function.update_self ..
  · rw [if_neg hl]
    exact Function.update_of_ne (Ne.symm hl) _ _

end

/-! ### A list of clicks, seen from one cell -/

section

variable {estimate : Sketch → Nat}

/-- The visitors a list of clicks adds to a sketch. -/
def hashesOf (events : List ClickEvent) : List String :=
  (events.filter (·.counted)).map (·.visitorHash)

theorem hashesOf_cons (e : ClickEvent) (events : List ClickEvent) :
    hashesOf (e :: events) = if e.counted then e.visitorHash :: hashesOf events
      else hashesOf events := by
  rw [hashesOf, List.filter_cons]
  split
  · rfl
  · rfl

theorem hashesOf_eq_nil {events : List ClickEvent} (h : events.any (·.counted) = false) :
    hashesOf events = [] := by
  rw [hashesOf, List.filter_eq_nil_iff.mpr, List.map_nil]
  intro e he
  exact List.any_eq_false.mp h e he

theorem countP_cons_toNat (p : ClickEvent → Bool) (e : ClickEvent) (events : List ClickEvent) :
    (e :: events).countP p = (p e).toNat + events.countP p := by
  rw [List.countP_cons, add_comm]
  cases p e
  · rfl
  · rfl

theorem addHash_eq (sketch : Sketch) (h : String) :
    addHash sketch h = (hashHexTo32Bit h).elim sketch (addValue sketch) := by
  rw [addHash, addHashed]
  rcases hashHexTo32Bit h with _ | x
  · rw [Option.map_none, Option.getD_none, Option.elim_none]
  · rw [Option.map_some, Option.getD_some, Option.elim_some]

theorem addHash_right_comm (sketch : Sketch) (h h' : String) :
    addHash (addHash sketch h) h' = addHash (addHash sketch h') h := by
  simp only [addHash_eq]
  rcases hashHexTo32Bit h with _ | x
  · simp only [Option.elim_none]
  · rcases hashHexTo32Bit h' with _ | y
    · simp only [Option.elim_none, Option.elim_some]
    · simp only [Option.elim_some]
      exact addValue_right_comm sketch x y

theorem merge_addHash (a b : Sketch) (h : String) :
    merge a (addHash b h) = addHash (merge a b) h := by
  simp only [addHash_eq]
  rcases hashHexTo32Bit h with _ | x
  · simp only [Option.elim_none]
  · simp only [Option.elim_some]
    exact merge_addValue a b x

theorem merge_foldl_addHash (a b : Sketch) (hashes : List String) :
    merge a (hashes.foldl addHash b) = hashes.foldl addHash (merge a b) := by
  induction hashes generalizing b with
  | nil => rfl
  | cons h hashes ih => rw [List.foldl_cons, ih, merge_addHash, List.foldl_cons]

/-- The cell after one click, `addToCell` as a step on cells. -/
def cellStep (estimate : Sketch → Nat) (cell : Option DailyRow × Option Sketch)
    (e : ClickEvent) : Option DailyRow × Option Sketch :=
  (some (addToCell estimate cell e).1, (addToCell estimate cell e).2)

/-- **The row and the sketch of a link and day after a list of its clicks**: sums over
the clicks, one sketch of all the visitors, and its estimate. -/
theorem foldl_addToCell {events : List ClickEvent} {w : String}
    (hw : ∀ e ∈ events, e.workspaceId = w) (hne : events ≠ [])
    (cell : Option DailyRow × Option Sketch) :
    events.foldl (cellStep estimate) cell =
      let row := cell.1.getD ⟨w, 0, 0, 0, 0⟩
      let sketch := (hashesOf events).foldl addHash (cell.2.getD createSketch)
      (some
        { row with
          clicks := row.clicks + events.countP (·.counted)
          uniques := if events.any (·.counted) then estimate sketch else row.uniques
          scans := row.scans + events.countP fun e => e.counted && e.isQr
          blocked := row.blocked + events.countP (·.blockedReason.isSome) },
        if events.any (·.counted) then some sketch else cell.2) := by
  induction events generalizing cell with
  | nil => exact absurd rfl hne
  | cons e events ih =>
    have hwe : e.workspaceId = w := hw e List.mem_cons_self
    have hrest : ∀ e' ∈ events, e'.workspaceId = w :=
      fun e' he' => hw e' (List.mem_cons_of_mem e he')
    rw [List.foldl_cons]
    by_cases hnil : events = []
    · subst hnil
      cases hc : e.counted with
      | false => simp [cellStep, addToCell, countP_cons_toNat, -List.countP_singleton, hc, hwe]
      | true =>
        simp [cellStep, addToCell, hashesOf, countP_cons_toNat, -List.countP_singleton, hc, hwe]
    · rw [ih hrest hnil]
      cases hc : e.counted with
      | false => simp [cellStep, addToCell, hashesOf, countP_cons_toNat, hc, hwe, add_assoc]
      | true =>
        cases ha : events.any (·.counted) with
        | false =>
          simp [cellStep, addToCell, hashesOf_cons, hashesOf_eq_nil ha, countP_cons_toNat, hc, ha,
            hwe,
            add_assoc]
          omega
        | true =>
          simp [cellStep, addToCell, hashesOf_cons, countP_cons_toNat, hc, ha, hwe, add_assoc]
          omega

end

/-! ### A batch, seen from one cell -/

section

variable {estimate : Sketch → Nat} {t : Tables} {events : List ClickEvent}

/-- A row of the first statement, as a step on cells. -/
def deltaStep (cell : Option DailyRow × Option Sketch) (x : DailyDelta) :
    Option DailyRow × Option Sketch :=
  let row := cell.1.getD ⟨x.workspaceId, 0, 0, 0, 0⟩
  (some
    { row with
      clicks := row.clicks + x.clicks
      scans := row.scans + x.scans
      blocked := row.blocked + x.blocked },
    cell.2)

/-- The statements of one group of visitors, as a step on cells. -/
def groupStep (estimate : Sketch → Nat) (cell : Option DailyRow × Option Sketch)
    (g : VisitorGroup Sketch) : Option DailyRow × Option Sketch :=
  let merged := merge (cell.2.getD createSketch) g.sketch
  (cell.1.map fun row => { row with uniques := estimate merged }, some merged)

theorem cellAt_upsertDaily (t : Tables) (x : DailyDelta) (k : String × Int) :
    (t.upsertDaily x).cellAt k = if x.cell = k then deltaStep (t.cellAt k) x else t.cellAt k := by
  by_cases hk : x.cell = k
  · subst hk
    rw [if_pos rfl]
    change ((t.writeRow _ _).daily _, t.sketches _) = _
    rw [daily_writeRow, if_pos rfl, deltaStep, Tables.cellAt]
    cases t.daily x.cell with
    | none => simp
    | some row => rfl
  · rw [if_neg hk]
    change ((t.writeRow _ _).daily _, t.sketches _) = _
    rw [daily_writeRow, if_neg hk, Tables.cellAt]

theorem cellAt_mergeGroup (t : Tables) (g : VisitorGroup Sketch) (k : String × Int) :
    (t.mergeGroup estimate g).cellAt k =
      if g.cell = k then groupStep estimate (t.cellAt k) g else t.cellAt k := by
  by_cases hk : g.cell = k
  · subst hk
    rw [if_pos rfl, groupStep, Tables.mergeGroup, Tables.cellAt, Tables.cellAt]
    cases hrow : t.daily g.cell with
    | none => simp [hrow]
    | some row => simp [Tables.writeRow]
  · rw [if_neg hk, Tables.mergeGroup, Tables.cellAt, Tables.cellAt]
    cases hrow : t.daily g.cell with
    | none => simp [Function.update_of_ne (Ne.symm hk)]
    | some row => simp [Tables.writeRow, Function.update_of_ne (Ne.symm hk)]

/-- The row a key of a batch gives. -/
def dailyDelta (events : List ClickEvent) (key : String × String × Int) : DailyDelta :=
  let group := events.filter fun e => e.linkId = key.1 ∧ e.workspaceId = key.2.1 ∧ e.day = key.2.2
  { linkId := key.1
    workspaceId := key.2.1
    day := key.2.2
    clicks := group.countP (·.counted)
    scans := group.countP fun e => e.counted && e.isQr
    blocked := group.countP (·.blockedReason.isSome) }

theorem dailyDeltas_eq : dailyDeltas events =
    (events.map fun e => (e.linkId, e.workspaceId, e.day)).dedup.map (dailyDelta events) := rfl

theorem dailyDelta_mem {e : ClickEvent} (he : e ∈ events) :
    dailyDelta events (e.linkId, e.workspaceId, e.day) ∈ dailyDeltas events := by
  rw [dailyDeltas_eq]
  exact List.mem_map_of_mem (List.mem_dedup.mpr (List.mem_map_of_mem he))

theorem mem_cells_dailyDeltas {k : String × Int} :
    k ∈ (dailyDeltas events).map (·.cell) ↔ ∃ e ∈ events, e.cell = k := by
  rw [dailyDeltas_eq, List.map_map, List.mem_map]
  constructor
  · rintro ⟨key, hkey, rfl⟩
    obtain ⟨e, he, rfl⟩ := List.mem_map.mp (List.mem_dedup.mp hkey)
    exact ⟨e, he, rfl⟩
  · rintro ⟨e, he, rfl⟩
    exact ⟨_, List.mem_dedup.mpr (List.mem_map_of_mem he), rfl⟩

/-- No two rows of a batch have a link and day in common exactly when all its clicks of
a link and day are of one workspace. -/
theorem nodup_cells_iff : ((dailyDeltas events).map (·.cell)).Nodup ↔
    ∀ e ∈ events, ∀ f ∈ events, e.cell = f.cell → e.workspaceId = f.workspaceId := by
  constructor
  · intro hn e he f hf hcell
    exact congrArg (·.workspaceId)
      (List.inj_on_of_nodup_map hn (dailyDelta_mem he) (dailyDelta_mem hf) hcell)
  · intro h
    rw [dailyDeltas_eq, List.map_map]
    refine List.Nodup.map_on ?_ (List.nodup_dedup _)
    intro x hx y hy hxy
    obtain ⟨e, he, rfl⟩ := List.mem_map.mp (List.mem_dedup.mp hx)
    obtain ⟨f, hf, rfl⟩ := List.mem_map.mp (List.mem_dedup.mp hy)
    have hw := h e he f hf hxy
    have hl : e.linkId = f.linkId := congrArg Prod.fst hxy
    have hd : e.day = f.day := congrArg Prod.snd hxy
    rw [hw, hl, hd]

/-- Where the workspaces agree, the group of a row is all clicks of its link and day. -/
theorem dailyDelta_filter (hn : ((dailyDeltas events).map (·.cell)).Nodup) {e : ClickEvent}
    (he : e ∈ events) :
    (events.filter fun f => f.linkId = e.linkId ∧ f.workspaceId = e.workspaceId ∧ f.day = e.day) =
      events.filter fun f => f.cell = e.cell := by
  refine List.filter_congr fun f hf => decide_eq_decide.mpr ?_
  rw [ClickEvent.cell, ClickEvent.cell, Prod.mk.injEq]
  constructor
  · rintro ⟨hl, -, hd⟩
    exact ⟨hl, hd⟩
  · rintro ⟨hl, hd⟩
    exact ⟨hl, nodup_cells_iff.mp hn f hf e he (Prod.ext hl hd), hd⟩

/-- The groups of visitors, with one key each. -/
def visitorGroup (events : List ClickEvent) (key : String × Int) : VisitorGroup Sketch where
  linkId := key.1
  day := key.2
  sketch := (hashesOf (events.filter fun e => e.cell = key)).foldl addHash createSketch

theorem visitorGroups_eq : visitorGroups (sketchOps estimate) events =
    ((events.filter (·.counted)).map (·.cell)).eraseDups.map (visitorGroup events) := by
  refine List.map_congr_left fun key _ => ?_
  have hgroup : ((events.filter (·.counted)).filter fun e => e.linkId = key.1 ∧ e.day = key.2) =
      (events.filter fun e => e.cell = key).filter (·.counted) := by
    rw [List.filter_filter, List.filter_filter]
    refine List.filter_congr fun e _ => ?_
    rw [Bool.and_comm]
    exact congrArg _ (decide_eq_decide.mpr (Prod.ext_iff (x := e.cell) (y := key)).symm)
  rw [visitorGroup, hashesOf, ← hgroup, List.foldl_map]
  rfl

theorem mem_cells_visitorGroups (estimate : Sketch → Nat) {k : String × Int} :
    k ∈ (visitorGroups (sketchOps estimate) events).map (·.cell) ↔
      (events.filter fun e => e.cell = k).any (·.counted) = true := by
  rw [visitorGroups_eq, List.map_map, List.any_eq_true]
  constructor
  · intro h
    obtain ⟨key, hkey, rfl⟩ := List.mem_map.mp h
    obtain ⟨e, he, rfl⟩ := List.mem_map.mp (List.mem_eraseDups.mp hkey)
    obtain ⟨he, hc⟩ := List.mem_filter.mp he
    exact ⟨e, List.mem_filter.mpr ⟨he, decide_eq_true rfl⟩, hc⟩
  · rintro ⟨e, he, hc⟩
    obtain ⟨he, hcell⟩ := List.mem_filter.mp he
    refine List.mem_map.mpr ⟨e.cell, ?_, of_decide_eq_true hcell⟩
    exact List.mem_eraseDups.mpr (List.mem_map_of_mem (List.mem_filter.mpr ⟨he, hc⟩))

theorem nodup_cells_visitorGroups :
    ((visitorGroups (sketchOps estimate) events).map (·.cell)).Nodup := by
  rw [visitorGroups_eq, List.map_map]
  exact (nodup_eraseDups _).map fun x y h => h

/-- The first statement, at the cell of a click. -/
theorem cellAt_deltas (hn : ((dailyDeltas events).map (·.cell)).Nodup) {e : ClickEvent}
    (he : e ∈ events) :
    ((dailyDeltas events).foldl Tables.upsertDaily t).cellAt e.cell =
      let own := events.filter fun f => f.cell = e.cell
      let row := (t.cellAt e.cell).1.getD ⟨e.workspaceId, 0, 0, 0, 0⟩
      (some
        { row with
          clicks := row.clicks + own.countP (·.counted)
          scans := row.scans + own.countP fun f => f.counted && f.isQr
          blocked := row.blocked + own.countP (·.blockedReason.isSome) },
        (t.cellAt e.cell).2) := by
  rw [view_foldl deltaStep cellAt_upsertDaily]
  have hown := filter_key_of_mem hn (dailyDelta_mem he)
  rw [show (dailyDelta events (e.linkId, e.workspaceId, e.day)).cell = e.cell from rfl] at hown
  rw [hown, List.foldl_cons, List.foldl_nil]
  simp only [deltaStep, dailyDelta, dailyDelta_filter hn he]

/-- The statements of the visitors, at one cell. -/
theorem cellAt_groups (k : String × Int) :
    ((visitorGroups (sketchOps estimate) events).foldl (Tables.mergeGroup estimate) t).cellAt k =
      let own := events.filter fun f => f.cell = k
      if own.any (·.counted) then
        (let sketch := (hashesOf own).foldl addHash ((t.cellAt k).2.getD createSketch)
        ((t.cellAt k).1.map fun row => { row with uniques := estimate sketch }, some sketch))
      else t.cellAt k := by
  rw [view_foldl (groupStep estimate) cellAt_mergeGroup]
  by_cases hk : (events.filter fun f => f.cell = k).any (·.counted) = true
  · have hmem : visitorGroup events k ∈ visitorGroups (sketchOps estimate) events := by
      obtain ⟨g, hg, hcell⟩ := List.mem_map.mp ((mem_cells_visitorGroups estimate).mpr hk)
      rw [visitorGroups_eq] at hg ⊢
      obtain ⟨key, hkey, rfl⟩ := List.mem_map.mp hg
      exact List.mem_map.mpr ⟨key, hkey, congrArg _ hcell⟩
    have hown := filter_key_of_mem nodup_cells_visitorGroups hmem
    rw [show (visitorGroup events k).cell = k from rfl] at hown
    rw [hown, List.foldl_cons, List.foldl_nil]
    simp only [if_pos hk, groupStep, visitorGroup, merge_foldl_addHash, merge_createSketch]
  · rw [filter_key_of_not_mem fun hmem => hk ((mem_cells_visitorGroups estimate).mp hmem),
      List.foldl_nil]
    exact (if_neg hk).symm

/-- **A batch does to a cell what its clicks do one by one.** -/
theorem cellAt_batch (hn : ((dailyDeltas events).map (·.cell)).Nodup) (k : String × Int) :
    ((visitorGroups (sketchOps estimate) events).foldl (Tables.mergeGroup estimate)
        ((dailyDeltas events).foldl Tables.upsertDaily t)).cellAt k =
      (events.filter fun e => e.cell = k).foldl (cellStep estimate) (t.cellAt k) := by
  rw [cellAt_groups]
  by_cases hk : ∃ e ∈ events, e.cell = k
  · obtain ⟨e, he, rfl⟩ := hk
    have hw : ∀ f ∈ events.filter (fun f => f.cell = e.cell), f.workspaceId = e.workspaceId := by
      intro f hf
      obtain ⟨hf, hcell⟩ := List.mem_filter.mp hf
      exact nodup_cells_iff.mp hn f hf e he (of_decide_eq_true hcell)
    have hne : events.filter (fun f => f.cell = e.cell) ≠ [] :=
      List.ne_nil_of_mem (List.mem_filter.mpr ⟨he, decide_eq_true rfl⟩)
    rw [foldl_addToCell hw hne, cellAt_deltas hn he]
    cases ha : (events.filter fun f => f.cell = e.cell).any (·.counted) with
    | false => simp [ha]
    | true => simp [ha]
  · have hown : events.filter (fun f => f.cell = k) = [] :=
      filter_key_of_not_mem fun hmem => hk (by simpa using hmem)
    rw [hown, view_foldl deltaStep cellAt_upsertDaily,
      filter_key_of_not_mem fun hmem => hk (mem_cells_dailyDeltas.mp hmem)]
    rfl

end

/-! ### Breakdowns and counters -/

section

variable {estimate : Sketch → Nat} {t : Tables}

/-- How often the counted clicks of a batch fall under a key. -/
def tally (batch : List ClickRow) (key : BreakdownKey) : Nat :=
  (dimensions.map fun dimension =>
    (batch.filter fun e => e.counted).countP (·.breakdownKey dimension = key)).sum

theorem tally_cons (e : ClickRow) (batch : List ClickRow) (key : BreakdownKey) :
    tally (e :: batch) key =
      (if e.counted then dimensions.countP (e.breakdownKey · = key) else 0) + tally batch key := by
  rw [tally, tally, List.filter_cons]
  split
  · simp only [List.countP_cons, dimensions, List.map_cons, List.map_nil,
      List.sum_cons, List.sum_nil, List.countP_nil]
    omega
  · rw [Nat.zero_add]

theorem tally_perm {batch batch' : List ClickRow} (h : batch.Perm batch') (key : BreakdownKey) :
    tally batch key = tally batch' key := by
  refine congrArg List.sum (List.map_congr_left fun dimension _ => ?_)
  exact (h.filter _).countP_eq _

theorem breakdown_foldl_addEvent (batch : List ClickRow) (key : BreakdownKey) :
    (batch.foldl (Tables.addEvent estimate) t).breakdown key =
      t.breakdown key + tally batch key := by
  induction batch generalizing t with
  | nil => rfl
  | cons e batch ih =>
    rw [List.foldl_cons, ih, tally_cons, ← Nat.add_assoc]
    rfl

/-- The statement of one dimension adds its share of the tally. -/
theorem breakdown_upsert (batch : List ClickRow)
    (dimension : String × (ClickRow → Option String)) (key : BreakdownKey) :
    ((breakdownRows batch dimension).foldl Tables.upsertBreakdown t).breakdown key =
      t.breakdown key +
        (batch.filter fun e => e.counted).countP (·.breakdownKey dimension = key) := by
  have hstep : ∀ (t : Tables) (x : BreakdownKey × Nat) (k : BreakdownKey),
      (t.upsertBreakdown x).breakdown k =
        if x.1 = k then t.breakdown k + x.2 else t.breakdown k := by
    intro t x k
    change Function.update t.breakdown x.1 _ k = _
    by_cases hk : x.1 = k
    · subst hk
      rw [if_pos rfl, Function.update_self]
    · rw [if_neg hk, Function.update_of_ne (Ne.symm hk)]
  have hcount : (batch.filter fun e => e.counted).countP (·.breakdownKey dimension = key) =
      ((batch.filter fun e => e.counted).map (·.breakdownKey dimension)).count key := by
    rw [List.count, List.countP_map]
    exact List.countP_congr fun e _ => by simp
  have hn : ((breakdownRows batch dimension).map Prod.fst).Nodup := by
    rw [breakdownRows, List.map_map]
    exact (List.nodup_dedup _).map fun x y h => h
  rw [view_foldl (fun n (x : BreakdownKey × Nat) => n + x.2) hstep, hcount]
  by_cases hk : key ∈ (batch.filter fun e => e.counted).map (·.breakdownKey dimension)
  · have hmem : (key,
      ((batch.filter fun e => e.counted).map (·.breakdownKey dimension)).count key) ∈
        breakdownRows batch dimension := List.mem_map_of_mem (List.mem_dedup.mpr hk)
    rw [filter_key_of_mem hn hmem]
    rfl
  · rw [filter_key_of_not_mem, List.count_eq_zero_of_not_mem hk]
    · rfl
    · rw [breakdownRows, List.map_map]
      simpa using hk

theorem breakdown_upserts (batch : List ClickRow) (key : BreakdownKey) :
    ((dimensions.flatMap (breakdownRows batch)).foldl Tables.upsertBreakdown t).breakdown key =
      t.breakdown key + tally batch key := by
  rw [tally]
  induction dimensions generalizing t with
  | nil => rfl
  | cons dimension rest ih =>
    rw [List.flatMap_cons, List.foldl_append, ih, breakdown_upsert, List.map_cons, List.sum_cons,
      Nat.add_assoc]

theorem cellAt_upsertBreakdowns (rows : List (BreakdownKey × Nat)) (k : String × Int) :
    (rows.foldl Tables.upsertBreakdown t).cellAt k = t.cellAt k := by
  induction rows generalizing t with
  | nil => rfl
  | cons x rows ih => exact ih

theorem cellAt_foldl_addEvent (estimate : Sketch → Nat) (t : Tables) (batch : List ClickRow)
    (k : String × Int) :
    (batch.foldl (Tables.addEvent estimate) t).cellAt k =
      ((batch.map (·.toClickEvent)).filter fun e => e.cell = k).foldl (cellStep estimate)
        (t.cellAt k) := by
  rw [view_foldl (fun cell (e : ClickRow) => cellStep estimate cell e.toClickEvent)
    fun t e k => cellAt_addEvent estimate t e k, List.filter_map, List.foldl_map]
  rfl

/-- The counters of a link are summed up after its last click. -/
theorem counters_foldl_addEvent (batch : List ClickRow) (l : String) :
    (batch.foldl (Tables.addEvent estimate) t).counters l =
      if l ∈ batch.map (·.linkId) then (batch.foldl (Tables.addEvent estimate) t).total l
      else t.counters l := by
  induction batch using List.reverseRecOn with
  | nil => rfl
  | append_singleton batch e ih =>
    rw [List.foldl_append, List.foldl_cons, List.foldl_nil, counters_addEvent, ih]
    by_cases hl : e.linkId = l
    · rw [if_pos hl, if_pos (by simp [hl])]
    · rw [if_neg hl, total_addEvent_of_ne hl]
      refine if_congr ?_ rfl rfl
      simp [Ne.symm hl]

end

/-! ### Batches and single clicks -/

/-- A batch a rollup takes: the clicks of a link and day are of one workspace, and the
visitors of counted clicks have a hash. -/
def Rollable (events : List ClickEvent) : Prop :=
  (∀ e ∈ events, ∀ f ∈ events, e.cell = f.cell → e.workspaceId = f.workspaceId) ∧
    ∀ e ∈ events, e.counted = true → (hashHexTo32Bit e.visitorHash).isSome = true

theorem Rollable.mono {events events' : List ClickEvent} (h : Rollable events)
    (hsub : events' ⊆ events) : Rollable events' :=
  ⟨fun e he f hf => h.1 e (hsub he) f (hsub hf), fun e he => h.2 e (hsub he)⟩

section

variable {estimate : Sketch → Nat} {t u : Tables}

theorem foldl_cellStep_perm {events events' : List ClickEvent} (h : events.Perm events')
    (hw : ∀ e ∈ events, ∀ f ∈ events, e.workspaceId = f.workspaceId)
    (cell : Option DailyRow × Option Sketch) :
    events.foldl (cellStep estimate) cell = events'.foldl (cellStep estimate) cell := by
  rcases events with _ | ⟨e, rest⟩
  · rw [h.nil_eq]
  · have hw' : ∀ f ∈ e :: rest, f.workspaceId = e.workspaceId :=
      fun f hf => hw f hf e List.mem_cons_self
    have hany : (e :: rest).any (·.counted) = events'.any (·.counted) := h.any_eq
    have hhashes : ∀ s,
        (hashesOf (e :: rest)).foldl addHash s = (hashesOf events').foldl addHash s :=
      ((h.filter _).map _).foldl_eq' fun _ _ _ _ s => addHash_right_comm s _ _
    rw [foldl_addToCell hw' (List.cons_ne_nil e rest), hhashes, hany, h.countP_eq, h.countP_eq,
      h.countP_eq, foldl_addToCell (fun f hf => hw' f (h.mem_iff.mpr hf)) fun hnil => ?_]
    exact List.cons_ne_nil e rest (List.Perm.eq_nil (hnil ▸ h))

/-- **The order of clicks does not matter.** -/
theorem foldl_addEvent_perm {batch batch' : List ClickRow} (h : batch.Perm batch')
    (hr : Rollable (batch.map (·.toClickEvent))) :
    batch.foldl (Tables.addEvent estimate) t = batch'.foldl (Tables.addEvent estimate) t := by
  have hcell : ∀ k, (batch.foldl (Tables.addEvent estimate) t).cellAt k =
      (batch'.foldl (Tables.addEvent estimate) t).cellAt k := by
    intro k
    rw [cellAt_foldl_addEvent, cellAt_foldl_addEvent]
    refine foldl_cellStep_perm ((h.map _).filter _) ?_ _
    intro e he f hf
    obtain ⟨he, hek⟩ := List.mem_filter.mp he
    obtain ⟨hf, hfk⟩ := List.mem_filter.mp hf
    exact hr.1 e he f hf ((of_decide_eq_true hek).trans (of_decide_eq_true hfk).symm)
  have htotal : ∀ l, (batch.foldl (Tables.addEvent estimate) t).total l =
      (batch'.foldl (Tables.addEvent estimate) t).total l :=
    fun l => tables_total_congr fun d => congrArg Prod.fst (hcell (l, d))
  refine tables_ext hcell (fun key => ?_) fun l => ?_
  · rw [breakdown_foldl_addEvent, breakdown_foldl_addEvent, tally_perm h]
  · rw [counters_foldl_addEvent, counters_foldl_addEvent, htotal]
    exact if_congr (h.map _).mem_iff rfl rfl

theorem frame_groups (gs : List (VisitorGroup Sketch)) :
    (gs.foldl (Tables.mergeGroup estimate) t).breakdown = t.breakdown ∧
      (gs.foldl (Tables.mergeGroup estimate) t).counters = t.counters := by
  induction gs generalizing t with
  | nil => exact ⟨rfl, rfl⟩
  | cons g gs ih =>
    have hg : (t.mergeGroup estimate g).breakdown = t.breakdown ∧
        (t.mergeGroup estimate g).counters = t.counters := by
      rw [Tables.mergeGroup]
      cases t.daily g.cell with
      | none => exact ⟨rfl, rfl⟩
      | some row => exact ⟨rfl, rfl⟩
    rw [List.foldl_cons, ih.1, ih.2]
    exact hg

theorem frame_deltas (xs : List DailyDelta) :
    (xs.foldl Tables.upsertDaily t).breakdown = t.breakdown ∧
      (xs.foldl Tables.upsertDaily t).counters = t.counters := by
  induction xs generalizing t with
  | nil => exact ⟨rfl, rfl⟩
  | cons x xs ih => exact ih

theorem frame_breakdowns (rows : List (BreakdownKey × Nat)) :
    (rows.foldl Tables.upsertBreakdown t).counters = t.counters := by
  induction rows generalizing t with
  | nil => rfl
  | cons x rows ih => exact ih

theorem isSome_foldl_cellStep {events : List ClickEvent} {cell : Option DailyRow × Option Sketch}
    (h : cell.1.isSome = true ∨ events ≠ []) :
    (events.foldl (cellStep estimate) cell).1.isSome = true := by
  induction events generalizing cell with
  | nil => exact h.resolve_right fun hne => hne rfl
  | cons e events ih => exact ih (Or.inl rfl)

/-- Every link of a batch has a row once the batch is through. -/
theorem links_have_rows {batch : List ClickRow} {l : String} (hl : l ∈ batch.map (·.linkId)) :
    ∃ k ∈ (batch.foldl (Tables.addEvent estimate) t).keys, k.1 = l := by
  obtain ⟨e, he, rfl⟩ := List.mem_map.mp hl
  refine ⟨e.cell, (Tables.mem_keys _ _).mpr ?_, rfl⟩
  have hcell := cellAt_foldl_addEvent estimate t batch e.cell
  have hmem : e.toClickEvent ∈ (batch.map (·.toClickEvent)).filter fun f => f.cell = e.cell :=
    List.mem_filter.mpr ⟨List.mem_map_of_mem he, decide_eq_true rfl⟩
  rw [← show _ = (batch.foldl (Tables.addEvent estimate) t).daily e.cell from
    congrArg Prod.fst hcell.symm]
  exact isSome_foldl_cellStep (Or.inr (List.ne_nil_of_mem hmem))

/-- **A batch leaves what its clicks leave one by one.** -/
theorem rollupClicks_eq {batch : List ClickRow} (hr : Rollable (batch.map (·.toClickEvent))) :
    rollupClicks estimate t batch = some (batch.foldl (Tables.addEvent estimate) t) := by
  rw [rollupClicks]
  by_cases hnil : batch = []
  · rw [if_pos hnil, hnil]
    rfl
  · have hn := nodup_cells_iff.mpr hr.1
    rw [if_neg hnil, if_pos ⟨hn, hr.2⟩]
    refine congrArg some ?_
    -- the tables before the counters statement
    set before := (dimensions.flatMap (breakdownRows batch)).foldl Tables.upsertBreakdown
      ((visitorGroups (sketchOps estimate) (batch.map (·.toClickEvent))).foldl
        (Tables.mergeGroup estimate)
        ((dailyDeltas (batch.map (·.toClickEvent))).foldl Tables.upsertDaily t)) with hbefore
    have hcell : ∀ k, before.cellAt k = (batch.foldl (Tables.addEvent estimate) t).cellAt k := by
      intro k
      rw [hbefore, cellAt_upsertBreakdowns, cellAt_batch hn, cellAt_foldl_addEvent]
    have hdaily : before.daily = (batch.foldl (Tables.addEvent estimate) t).daily :=
      funext fun k => congrArg Prod.fst (hcell k)
    refine tables_ext hcell (fun key => ?_) fun l => ?_
    · rw [breakdown_foldl_addEvent]
      change before.breakdown key = _
      rw [hbefore, breakdown_upserts, (frame_groups _).1, (frame_deltas _).1]
    · rw [counters_foldl_addEvent]
      have htotal : before.total l = (batch.foldl (Tables.addEvent estimate) t).total l :=
        tables_total_congr fun d => congrFun hdaily (l, d)
      have hcounters : before.counters l = t.counters l := by
        rw [hbefore, frame_breakdowns, (frame_groups _).2, (frame_deltas _).2]
      have hkeys : before.keys = (batch.foldl (Tables.addEvent estimate) t).keys := by
        ext k
        rw [before.mem_keys, Tables.mem_keys, hdaily]
      change (if _ ∧ ∃ k ∈ before.keys, k.1 = l then before.total l else before.counters l) = _
      rw [htotal, hcounters, hkeys]
      refine if_congr (and_iff_left_iff_imp.mpr fun hl => ?_) rfl rfl
      exact links_have_rows hl

theorem rollable_of_rollupClicks {batch : List ClickRow}
    (h : rollupClicks estimate t batch = some u) :
    Rollable (batch.map (·.toClickEvent)) := by
  rw [rollupClicks] at h
  split at h
  · rename_i hnil
    rw [hnil]
    exact ⟨by simp, by simp⟩
  · dsimp only at h
    split at h
    · rename_i hgood
      exact ⟨nodup_cells_iff.mp hgood.1, hgood.2⟩
    · exact absurd h (by simp)

theorem clicks_total_foldl (batch : List ClickRow) (l : String) :
    ((batch.foldl (Tables.addEvent estimate) t).total l).clicks =
      (t.total l).clicks + batch.countP fun e => e.linkId = l ∧ e.counted = true := by
  induction batch generalizing t with
  | nil => rfl
  | cons e batch ih =>
    rw [List.foldl_cons, ih, clicks_total_addEvent, List.countP_cons, add_assoc, add_comm (ite _ _ _)]
    congr 2
    by_cases hl : e.linkId = l <;> cases e.counted <;> simp [hl]

/-- **A batch adds its counted clicks of a link to the link's counter.** -/
theorem clicks_of_rollupClicks {batch : List ClickRow} {l : String}
    (h : rollupClicks estimate t batch = some u)
    (hsummed : (t.counters l).clicks = (t.total l).clicks) :
    (u.counters l).clicks = (u.total l).clicks ∧
      (u.counters l).clicks =
        (t.counters l).clicks + batch.countP fun e => e.linkId = l ∧ e.counted = true := by
  obtain rfl := Option.some.inj ((rollupClicks_eq (rollable_of_rollupClicks h)).symm.trans h)
  have hcounter : ((batch.foldl (Tables.addEvent estimate) t).counters l).clicks =
      ((batch.foldl (Tables.addEvent estimate) t).total l).clicks := by
    rw [counters_foldl_addEvent]
    split
    · rfl
    · rename_i hnone
      rw [hsummed, clicks_total_foldl, List.countP_eq_zero.mpr, add_zero]
      intro e he hcounted
      exact hnone (List.mem_map.mpr ⟨e, he, (of_decide_eq_true hcounted).1⟩)
  exact ⟨hcounter, by rw [hcounter, clicks_total_foldl, hsummed]⟩

end

/-! ### Any batching -/

/-- The uniques of every row are what its stored sketch estimates. -/
def UniquesDerived (estimate : Sketch → Nat) (t : Tables) : Prop :=
  ∀ k, ((t.sketches k).isSome = true → (t.daily k).isSome = true) ∧
    ∀ row, t.daily k = some row →
      row.uniques = storedEstimate (sketchOps estimate) (t.sketches k)

section

variable {estimate : Sketch → Nat} {t u : Tables}

theorem uniquesDerived_addEvent (h : UniquesDerived estimate t) (e : ClickRow) :
    UniquesDerived estimate (t.addEvent estimate e) := by
  intro k
  have hcell := cellAt_addEvent estimate t e k
  by_cases hk : e.cell = k
  · rw [if_pos hk] at hcell
    have hdaily : (t.addEvent estimate e).daily k = _ := congrArg Prod.fst hcell
    have hsketch : (t.addEvent estimate e).sketches k = _ := congrArg Prod.snd hcell
    rw [hdaily, hsketch]
    refine ⟨fun _ => rfl, fun row hrow => ?_⟩
    rw [← Option.some.inj hrow, addToCell]
    cases hc : e.counted with
    | true => rfl
    | false =>
      change ((t.daily k).getD _).uniques = storedEstimate _ (t.sketches k)
      cases hd : t.daily k with
      | none =>
        have hnone : t.sketches k = none := by
          rw [← Option.not_isSome_iff_eq_none]
          intro hsome
          exact absurd ((h k).1 hsome) (by simp [hd])
        rw [hnone]
        rfl
      | some old => exact (h k).2 old hd
  · rw [if_neg hk] at hcell
    have hdaily : (t.addEvent estimate e).daily k = t.daily k := congrArg Prod.fst hcell
    have hsketch : (t.addEvent estimate e).sketches k = t.sketches k := congrArg Prod.snd hcell
    rw [hdaily, hsketch]
    exact h k

theorem uniquesDerived_foldl (h : UniquesDerived estimate t) (batch : List ClickRow) :
    UniquesDerived estimate (batch.foldl (Tables.addEvent estimate) t) := by
  induction batch generalizing t with
  | nil => exact h
  | cons e batch ih => exact ih (uniquesDerived_addEvent h e)

/-- What is rolled up at some point of a run, batch after batch. -/
def RolledUp (estimate : Sketch → Nat) (t : Tables) (events : List ClickRow) (s : Intake) : Prop :=
  ∃ done : List ClickRow, s.tables = done.foldl (Tables.addEvent estimate) t ∧
    (done : Multiset ClickRow) + s.pending = events

theorem rollable_of_le {batch events : List ClickRow} (hr : Rollable (events.map (·.toClickEvent)))
    (h : (batch : Multiset ClickRow) ≤ events) : Rollable (batch.map (·.toClickEvent)) := by
  refine hr.mono fun e he => ?_
  obtain ⟨row, hrow, rfl⟩ := List.mem_map.mp he
  exact List.mem_map_of_mem (Multiset.mem_of_le h hrow)

/-- One attempt rolls up its whole batch or nothing. -/
theorem rolledUp_attempt {events : List ClickRow} {s s' : Intake} {a : Attempt}
    (h : attempt estimate s a = some s') (hs : RolledUp estimate t events s) :
    RolledUp estimate t events s' := by
  obtain ⟨done, htables, hpending⟩ := hs
  rw [attempt] at h
  split at h
  · rename_i hle
    split at h
    · exact Option.some.inj h ▸ ⟨done, htables, hpending⟩
    · cases hbatch : rollupClicks estimate s.tables a.batch with
      | none =>
        rw [hbatch] at h
        exact Option.some.inj h ▸ ⟨done, htables, hpending⟩
      | some u =>
        rw [hbatch] at h
        rw [rollupClicks_eq (rollable_of_rollupClicks hbatch)] at hbatch
        rw [← Option.some.inj h, ← Option.some.inj hbatch]
        refine ⟨done ++ a.batch, ?_, ?_⟩
        · rw [List.foldl_append, htables]
        · rw [← Multiset.coe_add, add_assoc, add_tsub_cancel_of_le hle, hpending]
  · exact absurd h (by simp)

/-- **After any attempts the tables hold the clicks that are not pending any more**, also
where some of the batches raise. -/
theorem rolledUp_run {events : List ClickRow} {attempts : List Attempt} {s : Intake}
    (hrun : run (attempt estimate) ⟨t, events⟩ attempts = some s) :
    RolledUp estimate t events s :=
  invariant_of_run (fun _ _ _ hs h => rolledUp_attempt h hs) attempts ⟨t, events⟩ s
    ⟨[], rfl, by simp⟩ hrun

/-- **Any division into batches leaves the tables of one single batch.**  The clicks
are taken off the pending ones batch by batch, and a transaction that is aborted takes
none.  No transaction raises on the way, and when no click is left, the tables are
those of one rollup of them all, in which each click is counted once, and every unique
count is the estimate of its sketch. -/
theorem attempts_agree (estimate : Sketch → Nat) {t u : Tables} {events : List ClickRow}
    (hone : rollupClicks estimate t events = some u) {attempts : List Attempt} {s : Intake}
    (hrun : run (attempt estimate) ⟨t, events⟩ attempts = some s) :
    (∀ batch : List ClickRow, (batch : Multiset ClickRow) ≤ s.pending →
        (rollupClicks estimate s.tables batch).isSome = true) ∧
      (s.pending = 0 → s.tables = u ∧ u = events.foldl (Tables.addEvent estimate) t ∧
        (UniquesDerived estimate t → UniquesDerived estimate u)) := by
  have hr := rollable_of_rollupClicks hone
  have hu : u = events.foldl (Tables.addEvent estimate) t :=
    Option.some.inj (hone.symm.trans (rollupClicks_eq hr))
  obtain ⟨done, htables, hpending⟩ := rolledUp_run hrun
  constructor
  · intro batch hle
    rw [rollupClicks_eq (rollable_of_le hr (hle.trans (hpending ▸ Multiset.le_add_left _ _)))]
    rfl
  · intro hzero
    have hperm : done.Perm events := by
      rw [hzero, add_zero] at hpending
      exact Multiset.coe_eq_coe.mp hpending
    refine ⟨?_, hu, fun ht => hu ▸ uniquesDerived_foldl ht events⟩
    rw [htables, hu]
    exact (foldl_addEvent_perm hperm.symm hr).symm

end

/-- A click from a phone. -/
def sampleClick (id visitorHash : String) (occurredAt : Int) (isBot : Bool) : ClickRow where
  id := id
  linkId := "L1"
  workspaceId := "W1"
  occurredAt := occurredAt
  visitorHash := visitorHash
  isBot := isBot
  blockedReason := none
  isQr := false
  country := some "IN"
  city := none
  device := some "mobile"
  browser := some "Chrome"
  referrerHost := none

def sampleClicks : List ClickRow :=
  [sampleClick "e1" "0123456789abcdef0123456789abcdef" 0 false,
    sampleClick "e2" "ffff000000000000000000000000abcd" 5 false,
    sampleClick "e3" "0123456789abcdef0123456789abcdef" 90000000 true]

/-- `estimate` of a sketch of a few visitors, where linear counting counts the registers
that are set. -/
def estimateFew (sketch : Sketch) : Nat :=
  (List.finRange hllRegisterCount).countP fun i => sketch i ≠ 0

/-- A day of one link that is split between two batches, the second tried twice. -/
theorem attempts_agree_split_day :
    ∃ s u, rollupClicks estimateFew .empty sampleClicks = some u ∧
      run (attempt estimateFew) ⟨.empty, sampleClicks⟩
        [⟨sampleClicks.drop 1, true⟩, ⟨sampleClicks.take 1, false⟩, ⟨sampleClicks.drop 1, false⟩] =
          some s ∧
      s.tables = u := by
  have hone : (rollupClicks estimateFew .empty sampleClicks).isSome = true := by decide +kernel
  have hrun : (run (attempt estimateFew) ⟨.empty, sampleClicks⟩
      [⟨sampleClicks.drop 1, true⟩, ⟨sampleClicks.take 1, false⟩,
        ⟨sampleClicks.drop 1, false⟩]).any (fun s => decide (s.pending = 0)) = true := by
    decide +kernel
  obtain ⟨u, hu⟩ := Option.isSome_iff_exists.mp hone
  obtain ⟨s, hs, hzero⟩ := (Option.any_eq_true _ _).mp hrun
  exact ⟨s, u, hu, hs, ((attempts_agree _ hu hs).2 (of_decide_eq_true hzero)).1⟩

end SnapUrl.Rollup
