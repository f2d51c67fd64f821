import SnapUrl.Lib.Run
import SnapUrl.Rollup.Partitions

/-!
# Provisioning the click table beside its writers

`click_events_ensure_partition` attaches one day: it looks whether the day is attached,
tries the advisory lock, and in a block with handlers takes the locks of the parent and of
the default partition, drains the day's rows and attaches its table.
`click_events_backfill_days` does so for a chunk of the days that have rows in the default
partition, and `backfillClickPartitions` runs one chunk after another.  Inserts and drops
go on beside them.  Migrations 0014 and 0015, `apps/worker/src/jobs/rollup.ts` and
`packages/database/src/click-events.ts`.

A step is one statement.  A transaction sees its own changes over what is committed; the
lock of the default partition is waited for by inserts that have a row for it, and the one
of the parent by drops.  Drops that end as `pinned`, `contended` or `missing` change nothing.

* `step`: one statement of a session, of an insert or of a drop.
* `Moves`: what a session's statement comes to.
-/

namespace SnapUrl.Rollup.Provisioning

open Lib
open Retention (Row)

/-! ### The table -/

/-- A table with the name of a partition that is not attached. -/
structure Leftover where
  day : Int
  /-- Whether it has as many columns as `click_events`. -/
  sameColumns : Bool
  rows : List Row
deriving DecidableEq, Repr

/-- What is committed of `click_events`. -/
structure Table where
  attached : List Int
  /-- The rows of `click_events_default`. -/
  default : List Row
  /-- The rows of all dated partitions. -/
  dated : List Row
  leftovers : List Leftover
deriving DecidableEq, Repr

/-- What a transaction has changed. -/
structure Changes where
  attached : List Int
  /-- The days whose rows it deleted from the default partition. -/
  drained : List Int
  /-- The rows it inserted into the tables of these days. -/
  moved : List Row
  /-- Whether it holds the locks of the parent and of the default partition. -/
  locked : Bool
deriving DecidableEq, Repr

def Changes.empty : Changes := ⟨[], [], [], false⟩

/-- The table as a transaction sees it. -/
def Table.seenBy (t : Table) (c : Changes) : Table where
  attached := c.attached ++ t.attached
  default := t.default.filter fun r => r.day ∉ c.drained
  dated := t.dated ++ c.moved
  leftovers := t.leftovers

/-- The commit of a transaction that has dropped the tables of some days. -/
def Table.commit (t : Table) (c : Changes) (cleared : List Int) : Table :=
  { t.seenBy c with
    leftovers := t.leftovers.filter fun l => l.day ∉ c.attached ∧ l.day ∉ cleared }

/-- The distinct days with rows in the default partition and no partition of their own, oldest
first. -/
def Table.strandedDays (t : Table) : List Int :=
  ((t.default.map Row.day).filter fun d => d ∉ t.attached).dedup.insertionSort (· ≤ ·)

def Table.stranded (t : Table) : Finset Int := t.strandedDays.toFinset

/-- The days of one chunk: a size that is none or not positive is the default one. -/
def chunkLimit : Option Int → Nat
  | some chunk_size => if chunk_size < 1 then 200 else chunk_size.toNat
  | none => 200

/-- The days that a chunk selects. -/
def Table.candidates (t : Table) (chunk_size : Option Int) : List Int :=
  t.strandedDays.take (chunkLimit chunk_size)

/-! ### Sessions -/

/-- What `backfillClickPartitions` keeps. -/
structure Loop where
  chunkSize : Option Int
  provisioned : Nat
  chunks : Nat
deriving DecidableEq, Repr

/-- What a session has come to. -/
inductive Phase
  /-- The chunk's days are to be selected. -/
  | opening
  /-- The next day is to be ensured, or none is left. -/
  | called
  /-- The day was not attached. -/
  | checked
  /-- The advisory lock is held, and the block with the handlers is open. -/
  | advised
  | locked
  | drained
  | counted (remaining : Nat)
  | ended
  | failed
deriving DecidableEq, Repr

/-- One call of `click_events_ensure_partition`, or a run of `backfillClickPartitions`. -/
structure Session where
  loop : Option Loop
  phase : Phase
  /-- The days of this transaction. -/
  chunk : List Int
  /-- Those that are not ensured yet. -/
  days : List Int
  /-- What the calls of this transaction returned: a name, or none. -/
  returns : List (Int × Bool)
  /-- What the transaction has changed. -/
  own : Changes
  /-- The same when the block was opened. -/
  saved : Changes
  /-- The leftover tables it has dropped. -/
  cleared : List Int
  /-- Whether it holds the advisory lock. -/
  advisory : Bool
  /-- What the transaction had changed when the call began. -/
  atCall : Changes
  /-- What the calls of the chunks before this one returned. -/
  tried : List (Int × Bool)
  /-- The rows that were inserted since the session began. -/
  arrivals : Nat
  /-- The stranded days when it began. -/
  start : Nat
  /-- The statements it has executed. -/
  steps : Nat
deriving DecidableEq, Repr

def Session.call (d : Int) : Session :=
  ⟨none, .called, [d], [d], [], .empty, .empty, [], false, .empty, [], 0, 0, 0⟩

def Session.backfill (t : Table) (chunkSize : Option Int) : Session :=
  ⟨some ⟨chunkSize, 0, 0⟩, .opening, [], [], [], .empty, .empty, [], false, .empty, [], 0,
    t.stranded.card, 0⟩

/-- The call for a day returns, a name or none. -/
def Session.returned (s : Session) (d : Int) (rest : List Int) (name : Bool) : Session :=
  { s with phase := .called, days := rest, returns := s.returns ++ [(d, name)] }

/-- The block is undone, with what it had locked, drained and attached. -/
def Session.undone (s : Session) : Session := { s with own := s.saved }

/-- The transaction is over. -/
def Session.released (s : Session) : Session :=
  { s with
    chunk := []
    days := []
    returns := []
    own := .empty
    cleared := []
    advisory := false
    tried := s.tried ++ s.returns }

/-- The rows of a leftover table that was not dropped. -/
def Table.leftoverRows (t : Table) (cleared : List Int) (d : Int) : List Row :=
  (t.leftovers.filter fun l => l.day = d ∧ d ∉ cleared).flatMap (·.rows)

/-! ### The statements of a session -/

/-- The query of the days of a chunk. -/
def Session.opens (t : Table) (s : Session) : Option Session :=
  match s.phase, s.loop with
  | .opening, some loop =>
    some { s with
      phase := .called
      chunk := t.candidates loop.chunkSize
      days := t.candidates loop.chunkSize }
  | _, _ => none

/-- The look whether the day is attached. -/
def Session.checks (t : Table) (s : Session) : Option Session :=
  match s.phase, s.days with
  | .called, d :: rest =>
    some (if d ∈ (t.seenBy s.own).attached then s.returned d rest true
      else { s with
        phase := .checked
        atCall := s.own })
  | _, _ => none

/-- The try for the advisory lock.  A table of the day's name with other columns is dropped. -/
def Session.advises (t : Table) (free : Bool) (s : Session) : Option Session :=
  match s.phase, s.days with
  | .checked, d :: rest =>
    some (if free then
      { s with
        phase := .advised
        advisory := true
        saved := s.own
        cleared :=
          if t.leftovers.any fun l => l.day = d && !l.sameColumns then d :: s.cleared
          else s.cleared }
      else s.returned d rest false)
  | _, _ => none

/-- The table of the day is created, unless it exists, and both locks are taken. -/
def Session.locks (free : Bool) (s : Session) : Option Session :=
  match s.phase with
  | .advised =>
    if free then
      some { s with
        phase := .locked
        own := { s.own with locked := true } }
    else none
  | _ => none

/-- A lock that is not available, a deadlock, or a table that cannot be attached. -/
def Session.declines (s : Session) : Option Session :=
  match s.phase, s.days with
  | .advised, d :: rest | .locked, d :: rest | .drained, d :: rest =>
    some (s.undone.returned d rest false)
  | _, _ => none

def Session.drains (t : Table) (s : Session) : Option Session :=
  match s.phase, s.days with
  | .locked, d :: _ =>
    some { s with
      phase := .drained
      own := { s.own with
        drained := d :: s.own.drained
        moved := s.own.moved ++ (t.seenBy s.own).default.filter fun r => r.day = d } }
  | _, _ => none

/-- The table of the day becomes a partition.  When it is one, another pass has won and the
block is undone; a row of the day in the default partition undoes it too. -/
def Session.attaches (t : Table) (s : Session) : Option Session :=
  match s.phase, s.days with
  | .drained, d :: rest =>
    some (if d ∈ (t.seenBy s.own).attached then s.undone.returned d rest true
      else if (t.seenBy s.own).default.any fun r => r.day = d then s.undone.returned d rest false
      else { s with
        own := { s.own with
          attached := d :: s.own.attached
          moved := s.own.moved ++ t.leftoverRows s.cleared d } }.returned d rest true)
  | _, _ => none

/-- The recount of the days that remain. -/
def Session.counts (t : Table) (s : Session) : Option Session :=
  match s.phase, s.days, s.loop with
  | .called, [], some _ => some { s with phase := .counted (t.seenBy s.own).stranded.card }
  | _, _, _ => none

/-- The end of the transaction, and the stop rule of the loop. -/
def Session.commits (s : Session) : Option Session :=
  match s.phase, s.days, s.loop with
  | .called, [], none => some { s.released with phase := .ended }
  | .counted remaining, _, some loop =>
    some { s.released with
      loop := some ⟨loop.chunkSize, loop.provisioned + s.returns.countP (·.2), loop.chunks + 1⟩
      phase := if remaining = 0 ∨ s.returns.countP (·.2) = 0 then .ended else .opening }
  | _, _, _ => none

/-- The connection is lost, and the transaction with it. -/
def Session.aborts (s : Session) : Option Session :=
  match s.phase with
  | .ended | .failed => none
  | _ => some { s.released with phase := .failed }

inductive Move
  | opens | checks | advises | locks | declines | drains | attaches | counts | commits | aborts
deriving DecidableEq, Repr

/-- A statement of a session, by whether nobody else holds the advisory lock and whether the locks
of the tables are to be had. -/
def Session.act (t : Table) (advisoryFree lockable : Bool) (s : Session) :
    Move → Option (Table × Session)
  | .opens => (s.opens t).map fun s' => (t, s')
  | .checks => (s.checks t).map fun s' => (t, s')
  | .advises => (s.advises t advisoryFree).map fun s' => (t, s')
  | .locks => (s.locks lockable).map fun s' => (t, s')
  | .declines => s.declines.map fun s' => (t, s')
  | .drains => (s.drains t).map fun s' => (t, s')
  | .attaches => (s.attaches t).map fun s' => (t, s')
  | .counts => (s.counts t).map fun s' => (t, s')
  | .commits => s.commits.map fun s' => (t.commit s.own s.cleared, s')
  | .aborts => s.aborts.map fun s' => (t, s')

/-! ### Inserts -/

/-- A statement of `insertOnce`, with the partitions it has seen since it began. -/
inductive InsertPhase
  | waiting
  | routed (pinned : List Int)
  | written (pinned : List Int)
deriving DecidableEq, Repr

/-- A call of `insertClickEvents`. -/
structure Insert where
  rows : List Row
  phase : InsertPhase
  retried : Bool
deriving DecidableEq, Repr

/-- The rows that are routed to the default partition. -/
def toDefault (pinned : List Int) (rows : List Row) : List Row :=
  rows.filter fun r => r.day ∉ pinned

def toDated (pinned : List Int) (rows : List Row) : List Row :=
  rows.filter fun r => r.day ∈ pinned

/-- Whether the insert holds a lock of the default partition. -/
def Insert.holdsDefault (ins : Insert) : Bool :=
  match ins.phase with
  | .written pinned => !(toDefault pinned ins.rows).isEmpty
  | _ => false

/-! ### The system -/

structure World where
  table : Table
  sessions : List Session
  inserts : List Insert
  /-- Every click that was committed. -/
  committed : List Row
  /-- The clicks of the partitions that were dropped. -/
  removed : List Row
deriving DecidableEq, Repr

def World.advisoryFree (w : World) (i : Nat) : Bool := (w.sessions.eraseIdx i).all (!·.advisory)

def World.lockable (w : World) (i : Nat) : Bool :=
  ((w.sessions.eraseIdx i).all (!·.own.locked)) && w.inserts.all (!·.holdsDefault)

/-- The rows are written to the partitions they were routed to.  A row for the default partition
whose day was attached since then fails the statement, which is sent once more. -/
def World.write (w : World) (j : Nat) (ins : Insert) (pinned : List Int) : Option World :=
  if toDefault pinned ins.rows ≠ [] ∧ w.sessions.any (·.own.locked) then none
  else if (toDefault pinned ins.rows).any fun r => r.day ∈ w.table.attached then
    some { w with
      inserts :=
        if ins.retried then w.inserts.eraseIdx j
        else w.inserts.set j { ins with phase := .waiting, retried := true } }
  else some { w with inserts := w.inserts.set j { ins with phase := .written pinned } }

/-- The rows of an insert are committed. -/
def World.store (w : World) (j : Nat) (ins : Insert) (pinned : List Int) : World :=
  { w with
    table := { w.table with
      default := w.table.default ++ toDefault pinned ins.rows
      dated := w.table.dated ++ toDated pinned ins.rows }
    sessions := w.sessions.map fun s => { s with arrivals := s.arrivals + ins.rows.length }
    inserts := w.inserts.eraseIdx j
    committed := w.committed ++ ins.rows }

/-- A partition is detached and dropped. -/
def World.drop (w : World) (d : Int) : World :=
  { w with
    table := { w.table with
      attached := w.table.attached.filter (· ≠ d)
      dated := w.table.dated.filter fun r => r.day ≠ d }
    removed := w.removed ++ w.table.dated.filter fun r => r.day = d }

inductive Action
  /-- A call of `insertClickEvents`. -/
  | inserts (rows : List Row)
  /-- Its statement begins, with the partitions that are attached. -/
  | pins (j : Nat)
  | writes (j : Nat)
  | stores (j : Nat)
  /-- It fails for another reason. -/
  | fails (j : Nat)
  /-- `click_events_drop_partition` drops a day. -/
  | drops (d : Int)
  /-- `click_events_ensure_partition` is called for a day. -/
  | calls (d : Int)
  /-- `backfillClickPartitions` is called. -/
  | backfills (chunkSize : Option Int)
  | moves (i : Nat) (m : Move)
deriving DecidableEq, Repr

def step (w : World) : Action → Option World
  | .inserts rows =>
    if rows = [] then none else some { w with inserts := w.inserts ++ [⟨rows, .waiting, false⟩] }
  | .pins j =>
    match w.inserts[j]? with
    | some ⟨rows, .waiting, retried⟩ =>
      some { w with inserts := w.inserts.set j ⟨rows, .routed w.table.attached, retried⟩ }
    | _ => none
  | .writes j =>
    match w.inserts[j]? with
    | some ⟨rows, .routed pinned, retried⟩ => w.write j ⟨rows, .routed pinned, retried⟩ pinned
    | _ => none
  | .stores j =>
    match w.inserts[j]? with
    | some ⟨rows, .written pinned, retried⟩ =>
      some (w.store j ⟨rows, .written pinned, retried⟩ pinned)
    | _ => none
  | .fails j => some { w with inserts := w.inserts.eraseIdx j }
  | .drops d =>
    if (∀ ins ∈ w.inserts, ins.phase = .waiting) ∧ (∀ s ∈ w.sessions, s.own.locked = false) ∧
        d ∈ w.table.attached then
      some (w.drop d)
    else none
  | .calls d => some { w with sessions := w.sessions ++ [.call d] }
  | .backfills chunkSize =>
    some { w with sessions := w.sessions ++ [.backfill w.table chunkSize] }
  | .moves i m =>
    (w.sessions[i]?).bind fun s =>
      (s.act w.table (w.advisoryFree i) (w.lockable i) m).map fun moved =>
        { w with
          table := moved.1
          sessions := w.sessions.set i { moved.2 with steps := moved.2.steps + 1 } }

/-- A click table as its constraints have it, with leftover tables that are empty. -/
structure ClickTable extends Table where
  unattached : ∀ r ∈ default, r.day ∉ attached
  placed : ∀ r ∈ dated, r.day ∈ attached
  empty : ∀ l ∈ leftovers, l.sameColumns = true → l.rows = []

/-- Nothing is under way. -/
def World.start (t : ClickTable) : World :=
  ⟨t.toTable, [], [], t.default ++ t.dated, []⟩

/-! ### What a statement comes to -/

/-- What a session's statement does to the committed table and to the session. -/
inductive Moves (t : Table) (advisoryFree lockable : Bool) (s : Session) :
    Move → Table → Session → Prop
  | opened (loop : Loop) (hphase : s.phase = .opening) (hloop : s.loop = some loop) :
    Moves t advisoryFree lockable s .opens t { s with
      phase := .called
      chunk := t.candidates loop.chunkSize
      days := t.candidates loop.chunkSize }
  | found (d : Int) (rest : List Int) (hphase : s.phase = .called) (hdays : s.days = d :: rest)
      (h : d ∈ (t.seenBy s.own).attached) :
    Moves t advisoryFree lockable s .checks t (s.returned d rest true)
  | missing (d : Int) (rest : List Int) (hphase : s.phase = .called) (hdays : s.days = d :: rest)
      (h : d ∉ (t.seenBy s.own).attached) :
    Moves t advisoryFree lockable s .checks t { s with
      phase := .checked
      atCall := s.own }
  | advised (d : Int) (rest : List Int) (hphase : s.phase = .checked) (hdays : s.days = d :: rest)
      (hfree : advisoryFree = true) (cleared : List Int)
      (hcleared : ∀ l ∈ t.leftovers, l.day = d → l.sameColumns = true ∨ d ∈ cleared) :
    Moves t advisoryFree lockable s .advises t { s with
      phase := .advised
      advisory := true
      saved := s.own
      cleared := cleared }
  | taken (d : Int) (rest : List Int) (hphase : s.phase = .checked) (hdays : s.days = d :: rest) :
    Moves t advisoryFree lockable s .advises t (s.returned d rest false)
  | locked (hphase : s.phase = .advised) (hfree : lockable = true) :
    Moves t advisoryFree lockable s .locks t { s with
      phase := .locked
      own := { s.own with locked := true } }
  | declined (d : Int) (rest : List Int)
      (hphase : s.phase = .advised ∨ s.phase = .locked ∨ s.phase = .drained)
      (hdays : s.days = d :: rest) :
    Moves t advisoryFree lockable s .declines t (s.undone.returned d rest false)
  | drained (d : Int) (rest : List Int) (hphase : s.phase = .locked) (hdays : s.days = d :: rest) :
    Moves t advisoryFree lockable s .drains t { s with
      phase := .drained
      own := { s.own with
        drained := d :: s.own.drained
        moved := s.own.moved ++ (t.seenBy s.own).default.filter fun r => r.day = d } }
  | overtaken (d : Int) (rest : List Int) (hphase : s.phase = .drained)
      (hdays : s.days = d :: rest) (h : d ∈ (t.seenBy s.own).attached) :
    Moves t advisoryFree lockable s .attaches t (s.undone.returned d rest true)
  | strayed (d : Int) (rest : List Int) (hphase : s.phase = .drained) (hdays : s.days = d :: rest) :
    Moves t advisoryFree lockable s .attaches t (s.undone.returned d rest false)
  | attached (d : Int) (rest : List Int) (hphase : s.phase = .drained) (hdays : s.days = d :: rest)
      (h : d ∉ (t.seenBy s.own).attached)
      (hnone : ∀ r ∈ (t.seenBy s.own).default, r.day ≠ d) :
    Moves t advisoryFree lockable s .attaches t ({ s with
      own := { s.own with
        attached := d :: s.own.attached
        moved := s.own.moved ++ t.leftoverRows s.cleared d } }.returned d rest true)
  | counted (hphase : s.phase = .called) (hdays : s.days = []) (hloop : s.loop.isSome = true) :
    Moves t advisoryFree lockable s .counts t
      { s with phase := .counted (t.seenBy s.own).stranded.card }
  | closed (hphase : s.phase = .called) (hdays : s.days = []) (hloop : s.loop = none) :
    Moves t advisoryFree lockable s .commits (t.commit s.own s.cleared)
      { s.released with phase := .ended }
  | chunked (loop : Loop) (remaining : Nat) (hphase : s.phase = .counted remaining)
      (hloop : s.loop = some loop) :
    Moves t advisoryFree lockable s .commits (t.commit s.own s.cleared) { s.released with
      loop := some ⟨loop.chunkSize, loop.provisioned + s.returns.countP (·.2), loop.chunks + 1⟩
      phase := if remaining = 0 ∨ s.returns.countP (·.2) = 0 then .ended else .opening }
  | aborted (hphase : s.phase ≠ .ended ∧ s.phase ≠ .failed) :
    Moves t advisoryFree lockable s .aborts t { s.released with phase := .failed }

section

variable {t t' : Table} {advisoryFree lockable : Bool} {s s' : Session} {m : Move}

theorem eq_of_map_pair {o : Option Session} (h : (o.map fun s' => (t, s')) = some (t', s')) :
    t = t' ∧ o = some s' := by
  obtain ⟨_, ho, heq⟩ := Option.map_eq_some_iff.mp h
  cases heq
  exact ⟨rfl, ho⟩

theorem moves_of_act (h : s.act t advisoryFree lockable m = some (t', s')) :
    Moves t advisoryFree lockable s m t' s' := by
  cases m with
  | opens =>
    obtain ⟨rfl, ho⟩ := eq_of_map_pair h
    rw [Session.opens] at ho
    split at ho
    · next hphase hloop =>
      cases ho
      exact .opened _ hphase hloop
    · cases ho
  | checks =>
    obtain ⟨rfl, ho⟩ := eq_of_map_pair h
    rw [Session.checks] at ho
    split at ho
    · next d rest hphase hdays =>
      cases ho
      split
      · next hin => exact .found d rest hphase hdays hin
      · next hout => exact .missing d rest hphase hdays hout
    · cases ho
  | advises =>
    obtain ⟨rfl, ho⟩ := eq_of_map_pair h
    rw [Session.advises] at ho
    split at ho
    · next d rest hphase hdays =>
      cases ho
      split
      · next hfree =>
        refine .advised d rest hphase hdays hfree _ fun l hl hday => ?_
        cases hsame : l.sameColumns with
        | true => exact Or.inl rfl
        | false =>
          refine Or.inr ?_
          rw [if_pos (List.any_eq_true.mpr ⟨l, hl, by simp [hday, hsame]⟩)]
          exact List.mem_cons_self
      · exact .taken d rest hphase hdays
    · cases ho
  | locks =>
    obtain ⟨rfl, ho⟩ := eq_of_map_pair h
    rw [Session.locks] at ho
    split at ho
    · next hphase =>
      split at ho
      · next hfree =>
        cases ho
        exact .locked hphase hfree
      · cases ho
    · cases ho
  | declines =>
    obtain ⟨rfl, ho⟩ := eq_of_map_pair h
    rw [Session.declines] at ho
    split at ho
    · next d rest hphase hdays =>
      cases ho
      exact .declined d rest (Or.inl hphase) hdays
    · next d rest hphase hdays =>
      cases ho
      exact .declined d rest (Or.inr (Or.inl hphase)) hdays
    · next d rest hphase hdays =>
      cases ho
      exact .declined d rest (Or.inr (Or.inr hphase)) hdays
    · cases ho
  | drains =>
    obtain ⟨rfl, ho⟩ := eq_of_map_pair h
    rw [Session.drains] at ho
    split at ho
    · next d rest hphase hdays =>
      cases ho
      exact .drained d rest hphase hdays
    · cases ho
  | attaches =>
    obtain ⟨rfl, ho⟩ := eq_of_map_pair h
    rw [Session.attaches] at ho
    split at ho
    · next d rest hphase hdays =>
      cases ho
      split
      · next hin => exact .overtaken d rest hphase hdays hin
      · next hout =>
        split
        · exact .strayed d rest hphase hdays
        · next hnone =>
          refine .attached d rest hphase hdays hout fun r hr hday => hnone ?_
          exact List.any_eq_true.mpr ⟨r, hr, decide_eq_true hday⟩
    · cases ho
  | counts =>
    obtain ⟨rfl, ho⟩ := eq_of_map_pair h
    rw [Session.counts] at ho
    split at ho
    · next hphase hdays hloop =>
      cases ho
      exact .counted hphase hdays (by rw [hloop]; rfl)
    · cases ho
  | commits =>
    obtain ⟨rfl, ho⟩ := eq_of_map_pair h
    rw [Session.commits] at ho
    split at ho
    · next hphase hdays hloop =>
      cases ho
      exact .closed hphase hdays hloop
    · next hphase hloop =>
      cases ho
      exact .chunked _ _ hphase hloop
    · cases ho
  | aborts =>
    obtain ⟨rfl, ho⟩ := eq_of_map_pair h
    rw [Session.aborts] at ho
    split at ho
    · cases ho
    · cases ho
    · next hended hfailed =>
      cases ho
      exact .aborted ⟨hended, hfailed⟩

end

end SnapUrl.Rollup.Provisioning
