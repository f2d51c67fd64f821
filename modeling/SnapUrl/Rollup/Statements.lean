import Mathlib.Algebra.GroupWithZero.Nat
import Mathlib.Data.List.Dedup
import Mathlib.Logic.Function.Basic
import SnapUrl.Lib.Run

/-!
# The click rollup, statement by statement

`rollupClicks` of `apps/worker/src/jobs/rollup.ts`: one transaction that folds a
claimed batch of clicks into `click_daily`, merges the visitors into the sketches
of `click_daily_uniques`, and recomputes `link_counters` from `click_daily`.

Any number of these transactions run at a time, under READ COMMITTED:

* a statement reads what is committed when it starts, with the transaction's own
  writes over it (`RollupTx.view`);
* a row that is written or selected for update stays locked until the transaction
  ends, and a statement that needs the row waits, row by row;
* a row of an upsert is recomputed from the latest committed version once its lock
  is there, and what the statement *selected* before is not.
-/

namespace SnapUrl.Rollup

open Lib

/-! ### Rows -/

structure ClickEvent where
  id : String
  linkId : String
  workspaceId : String
  occurredAt : Int
  visitorHash : String
  isBot : Bool
  blockedReason : Option String
  isQr : Bool
deriving DecidableEq, Repr

/-- `(occurred_at at time zone 'UTC')::date`, in days since the epoch. -/
def ClickEvent.day (e : ClickEvent) : Int := e.occurredAt / 86400000

/-- The clicks a dashboard counts. -/
def ClickEvent.counted (e : ClickEvent) : Bool := !e.isBot && e.blockedReason.isNone

/-- A row of `click_daily`, without its key. -/
structure DailyRow where
  workspaceId : String
  clicks : Nat
  uniques : Nat
  scans : Nat
  blocked : Nat
deriving DecidableEq, Repr

/-- The counters of a link, zero where there is no row. -/
structure Counter where
  clicks : Nat
  uniqueClicks : Nat
deriving DecidableEq, Repr

/-- The sketch operations of the domain package. -/
structure SketchOps (Sketch : Type) where
  createSketch : Sketch
  addHashed : Sketch → String → Sketch
  merge : Sketch → Sketch → Sketch
  estimate : Sketch → Nat

/-- The three tables, by their keys.  `days` are the days a link has rows for. -/
structure Database (Sketch : Type) where
  days : String → List Int
  daily : String → Int → Option DailyRow
  sketches : String → Int → Option Sketch
  counters : String → Counter

variable {Sketch : Type}

/-- The sums over all days of a link. -/
def Database.total (db : Database Sketch) (linkId : String) : Counter where
  clicks := ((db.days linkId).map fun d => (db.daily linkId d).elim 0 (·.clicks)).sum
  uniqueClicks := ((db.days linkId).map fun d => (db.daily linkId d).elim 0 (·.uniques)).sum

/-! ### A batch -/

/-- A row of the first statement. -/
structure DailyDelta where
  linkId : String
  workspaceId : String
  day : Int
  clicks : Nat
  scans : Nat
  blocked : Nat
deriving DecidableEq, Repr

/-- `group by link_id, workspace_id, day`. -/
def dailyDeltas (batch : List ClickEvent) : List DailyDelta :=
  (batch.map fun e => (e.linkId, e.workspaceId, e.day)).dedup.map fun (linkId, workspaceId, day) =>
    let group := batch.filter fun e =>
      e.linkId = linkId ∧ e.workspaceId = workspaceId ∧ e.day = day
    { linkId := linkId
      workspaceId := workspaceId
      day := day
      clicks := group.countP (·.counted)
      scans := group.countP fun e => e.counted && e.isQr
      blocked := group.countP (·.blockedReason.isSome) }

structure VisitorGroup (Sketch : Type) where
  linkId : String
  day : Int
  sketch : Sketch
deriving Repr

/-- One incoming sketch per link and day. -/
def visitorGroups (ops : SketchOps Sketch) (batch : List ClickEvent) :
    List (VisitorGroup Sketch) :=
  let visitorRows := batch.filter (·.counted)
  (visitorRows.map fun e => (e.linkId, e.day)).eraseDups.map fun (linkId, day) =>
    let group := visitorRows.filter fun e => e.linkId = linkId ∧ e.day = day
    { linkId := linkId
      day := day
      sketch := group.foldl (fun sketch e => ops.addHashed sketch e.visitorHash) ops.createSketch }

/-! ### A transaction -/

/-- Which statement of a group comes next, with what the code holds by then. -/
inductive GroupPhase (Sketch : Type) where
  | seed
  | lock
  | update (merged : Sketch)
  | uniques (merged : Sketch)

/-- A running transaction: what it has still to do, and its own row versions, each
of them a lock. -/
structure RollupTx (Sketch : Type) where
  batch : List ClickEvent
  daily : List DailyDelta
  groups : List (VisitorGroup Sketch)
  phase : GroupPhase Sketch
  /-- The rows of the counters statement still to be upserted, once it has started. -/
  sums : Option (List (String × Counter))
  rows : String → Int → Option DailyRow
  touched : String → List Int
  sketches : String → Int → Option Sketch
  counters : String → Option Counter

def RollupTx.ofBatch (ops : SketchOps Sketch) (batch : List ClickEvent) : RollupTx Sketch where
  batch := batch
  daily := dailyDeltas batch
  groups := visitorGroups ops batch
  phase := .seed
  sums := none
  rows _ _ := none
  touched _ := []
  sketches _ _ := none
  counters _ := none

/-- `select distinct link_id from rollup_batch`. -/
def RollupTx.links (t : RollupTx Sketch) : List String := (t.batch.map (·.linkId)).dedup

/-- The database as a statement of the transaction sees it. -/
def RollupTx.view (db : Database Sketch) (t : RollupTx Sketch) : Database Sketch where
  days linkId := db.days linkId ++ (t.touched linkId).filter fun d => d ∉ db.days linkId
  daily linkId d := (t.rows linkId d).or (db.daily linkId d)
  sketches linkId d := (t.sketches linkId d).or (db.sketches linkId d)
  counters linkId := (t.counters linkId).getD (db.counters linkId)

/-- A table with one cell changed. -/
def setCell {α : Type} (table : String → Int → α) (linkId : String) (day : Int) (value : α) :
    String → Int → α :=
  fun l d => if l = linkId ∧ d = day then value else table l d

def RollupTx.writeRow (t : RollupTx Sketch) (linkId : String) (day : Int) (row : DailyRow) :
    RollupTx Sketch :=
  { t with
    rows := setCell t.rows linkId day (some row)
    touched :=
      if day ∈ t.touched linkId then t.touched
      else Function.update t.touched linkId (t.touched linkId ++ [day]) }

def rowFree (others : List (RollupTx Sketch)) (linkId : String) (day : Int) : Bool :=
  others.all fun u => (u.rows linkId day).isNone

def sketchFree (others : List (RollupTx Sketch)) (linkId : String) (day : Int) : Bool :=
  others.all fun u => (u.sketches linkId day).isNone

def counterFree (others : List (RollupTx Sketch)) (linkId : String) : Bool :=
  others.all fun u => (u.counters linkId).isNone

/-- The row an upsert leaves: the row of the batch, or the stored one with it added. -/
def Database.upserted (db : Database Sketch) (x : DailyDelta) : DailyRow :=
  match db.daily x.linkId x.day with
  | none => ⟨x.workspaceId, x.clicks, 0, x.scans, x.blocked⟩
  | some row =>
    { row with
      clicks := row.clicks + x.clicks
      scans := row.scans + x.scans
      blocked := row.blocked + x.blocked }

/-- `insert into click_daily … on conflict do update`, for one row.  A statement
cannot affect a row twice. -/
def RollupTx.upsertDaily (db : Database Sketch) (others : List (RollupTx Sketch))
    (t : RollupTx Sketch) (x : DailyDelta) (rest : List DailyDelta) : Option (RollupTx Sketch) :=
  if (t.rows x.linkId x.day).isNone ∧ rowFree others x.linkId x.day then
    some { t.writeRow x.linkId x.day (db.upserted x) with daily := rest }
  else none

/-- The next statement of a group of visitors. -/
def RollupTx.mergeGroup (ops : SketchOps Sketch) (db : Database Sketch)
    (others : List (RollupTx Sketch)) (t : RollupTx Sketch) (g : VisitorGroup Sketch)
    (rest : List (VisitorGroup Sketch)) : Option (RollupTx Sketch) :=
  let stored := (t.view db).sketches g.linkId g.day
  match t.phase with
  | .seed =>
    -- on conflict do nothing: only the insert of a row that is not there waits
    if stored.isSome then some { t with phase := .lock }
    else if sketchFree others g.linkId g.day then
      some { t with
        phase := .lock
        sketches := setCell t.sketches g.linkId g.day (some ops.createSketch) }
    else none
  | .lock =>
    if sketchFree others g.linkId g.day then
      some { t with
        phase := .update (stored.elim g.sketch fun s => ops.merge s g.sketch)
        sketches := setCell t.sketches g.linkId g.day stored }
    else none
  | .update merged =>
    some { t with
      phase := .uniques merged
      sketches :=
        if stored.isSome then setCell t.sketches g.linkId g.day (some merged) else t.sketches }
  | .uniques merged =>
    if rowFree others g.linkId g.day then
      let t' :=
        match (t.view db).daily g.linkId g.day with
        | none => t
        | some row => t.writeRow g.linkId g.day { row with uniques := ops.estimate merged }
      some { t' with groups := rest, phase := .seed }
    else none

/-- The counters statement starts: its `select` is evaluated. -/
def RollupTx.takeSnapshot (db : Database Sketch) (t : RollupTx Sketch) : RollupTx Sketch :=
  let links := t.links.filter fun linkId => (t.view db).days linkId ≠ []
  { t with sums := some (links.map fun linkId => (linkId, (t.view db).total linkId)) }

/-- `on conflict do update set clicks = excluded.clicks`, for one row. -/
def RollupTx.writeCounter (others : List (RollupTx Sketch)) (t : RollupTx Sketch)
    (x : String × Counter) (rest : List (String × Counter)) : Option (RollupTx Sketch) :=
  if counterFree others x.1 then
    some { t with
      sums := some rest
      counters := Function.update t.counters x.1 (some x.2) }
  else none

/-- The counters statement is the next one. -/
def RollupTx.AtSnapshot (t : RollupTx Sketch) : Prop :=
  t.daily = [] ∧ t.groups.isEmpty = true ∧ t.sums = none

instance (t : RollupTx Sketch) : Decidable t.AtSnapshot := inferInstanceAs (Decidable (_ ∧ _ ∧ _))

/-- The next statement, or the next row of one. -/
def RollupTx.exec (ops : SketchOps Sketch) (db : Database Sketch) (others : List (RollupTx Sketch))
    (t : RollupTx Sketch) : Option (RollupTx Sketch) :=
  match t.daily, t.groups, t.sums with
  | x :: rest, _, _ => t.upsertDaily db others x rest
  | [], g :: rest, _ => t.mergeGroup ops db others g rest
  | [], [], none => some (t.takeSnapshot db)
  | [], [], some (x :: rest) => t.writeCounter others x rest
  | [], [], some [] => none

/-! ### The store -/

structure Store (Sketch : Type) where
  db : Database Sketch
  active : List (RollupTx Sketch)
  /-- The clicks that are marked as rolled up. -/
  rolledUp : List String

inductive Action where
  /-- A transaction claims a batch. -/
  | begins (batch : List ClickEvent)
  | exec (i : Nat)
  | commits (i : Nat)
  /-- A transaction fails, at any point. -/
  | aborts (i : Nat)

def Store.start (db : Database Sketch) : Store Sketch := ⟨db, [], []⟩

/-- The rows of the batch are unlocked and not yet rolled up. -/
def Store.Claimable (s : Store Sketch) (batch : List ClickEvent) : Prop :=
  batch ≠ [] ∧ (batch.map (·.id)).Nodup ∧
    ∀ e ∈ batch, e.id ∉ s.rolledUp ∧ ∀ u ∈ s.active, e.id ∉ u.batch.map (·.id)

instance (s : Store Sketch) (batch : List ClickEvent) : Decidable (s.Claimable batch) :=
  inferInstanceAs (Decidable (_ ∧ _ ∧ _))

def step (ops : SketchOps Sketch) (s : Store Sketch) : Action → Option (Store Sketch)
  | .begins batch =>
    if s.Claimable batch then some { s with active := s.active ++ [RollupTx.ofBatch ops batch] }
    else none
  | .exec i => do
    let t ← s.active[i]?
    let t' ← t.exec ops s.db (s.active.eraseIdx i)
    some { s with active := s.active.set i t' }
  | .commits i => do
    let t ← s.active[i]?
    if t.daily = [] ∧ t.groups.isEmpty ∧ t.sums = some [] then
      some
        { db := t.view s.db
          active := s.active.eraseIdx i
          rolledUp := s.rolledUp ++ t.batch.map (·.id) }
    else none
  | .aborts i => do
    let _ ← s.active[i]?
    some { s with active := s.active.eraseIdx i }

/-! ### Cells and views -/

theorem setCell_apply {α : Type} (table : String → Int → α) (l l' : String) (d d' : Int) (v : α) :
    setCell table l d v l' d' = if l' = l ∧ d' = d then v else table l' d' := rfl

theorem setCell_self {α : Type} (table : String → Int → α) (l : String) (d : Int) :
    setCell table l d (table l d) = table := by
  funext l' d'
  rw [setCell_apply]
  split
  · rename_i h
    rw [h.1, h.2]
  · rfl

section

variable {db : Database Sketch} {t : RollupTx Sketch}

theorem view_daily (l : String) (d : Int) :
    (t.view db).daily l d = (t.rows l d).or (db.daily l d) := rfl

theorem view_sketches (l : String) (d : Int) :
    (t.view db).sketches l d = (t.sketches l d).or (db.sketches l d) := rfl

theorem mem_view_days {l : String} {d : Int} :
    d ∈ (t.view db).days l ↔ d ∈ db.days l ∨ d ∈ t.touched l := by
  simp only [RollupTx.view, List.mem_append, List.mem_filter, decide_eq_true_eq]
  tauto

theorem rows_writeRow (l l' : String) (d d' : Int) (row : DailyRow) :
    (t.writeRow l d row).rows l' d' = if l' = l ∧ d' = d then some row else t.rows l' d' := rfl

theorem touched_writeRow (l : String) (d : Int) (row : DailyRow) :
    (t.writeRow l d row).touched = if d ∈ t.touched l then t.touched
      else Function.update t.touched l (t.touched l ++ [d]) := rfl

theorem mem_touched_writeRow (l l' : String) (d d' : Int) (row : DailyRow) :
    d' ∈ (t.writeRow l d row).touched l' ↔ d' ∈ t.touched l' ∨ l' = l ∧ d' = d := by
  rw [touched_writeRow]
  by_cases hmem : d ∈ t.touched l
  · rw [if_pos hmem]
    constructor
    · exact Or.inl
    · rintro (h | ⟨rfl, rfl⟩)
      · exact h
      · exact hmem
  · rw [if_neg hmem]
    by_cases hl : l' = l
    · subst hl
      simp
    · simp [hl]

theorem nodup_touched_writeRow (h : ∀ l, (t.touched l).Nodup) (l l' : String) (d : Int)
    (row : DailyRow) : ((t.writeRow l d row).touched l').Nodup := by
  rw [touched_writeRow]
  by_cases hmem : d ∈ t.touched l
  · rw [if_pos hmem]
    exact h l'
  · rw [if_neg hmem]
    by_cases hl : l' = l
    · subst hl
      rw [Function.update_self]
      refine List.Nodup.append (h l') (List.nodup_singleton d) ?_
      simpa using hmem
    · rw [Function.update_of_ne hl]
      exact h l'

theorem mem_links {l : String} : l ∈ t.links ↔ ∃ e ∈ t.batch, e.linkId = l := by
  rw [RollupTx.links, List.mem_dedup, List.mem_map]

end

/-! ### Steps -/

section

variable {ops : SketchOps Sketch} {s s' : Store Sketch}

theorem step_exec {i : Nat} (h : step ops s (.exec i) = some s') :
    ∃ t t', s.active[i]? = some t ∧ t.exec ops s.db (s.active.eraseIdx i) = some t' ∧
      s' = { s with active := s.active.set i t' } := by
  obtain ⟨t, ht, h⟩ := Option.bind_eq_some_iff.mp h
  obtain ⟨t', ht', h⟩ := Option.bind_eq_some_iff.mp h
  exact ⟨t, t', ht, ht', (Option.some.inj h).symm⟩

theorem step_commits {i : Nat} (h : step ops s (.commits i) = some s') :
    ∃ t, s.active[i]? = some t ∧ t.daily = [] ∧ t.groups = [] ∧ t.sums = some [] ∧
      s' =
        { db := t.view s.db
          active := s.active.eraseIdx i
          rolledUp := s.rolledUp ++ t.batch.map (·.id) } := by
  obtain ⟨t, ht, h⟩ := Option.bind_eq_some_iff.mp h
  split at h
  · rename_i hdone
    exact ⟨t, ht, hdone.1, List.isEmpty_iff.mp hdone.2.1, hdone.2.2, (Option.some.inj h).symm⟩
  · exact absurd h (by simp)

theorem step_begins {batch : List ClickEvent} (h : step ops s (.begins batch) = some s') :
    s.Claimable batch ∧ s' = { s with active := s.active ++ [RollupTx.ofBatch ops batch] } := by
  rw [step] at h
  split at h
  · rename_i hclaim
    exact ⟨hclaim, (Option.some.inj h).symm⟩
  · exact absurd h (by simp)

theorem step_aborts {i : Nat} (h : step ops s (.aborts i) = some s') :
    s' = { s with active := s.active.eraseIdx i } := by
  obtain ⟨_, _, h⟩ := Option.bind_eq_some_iff.mp h
  exact (Option.some.inj h).symm

end

end SnapUrl.Rollup
