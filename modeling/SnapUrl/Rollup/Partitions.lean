import Mathlib.Data.Finset.Sort
import SnapUrl.Lib.Run
import SnapUrl.Lib.YearShift

/-!
# The partitions of the click table

`click_events` has one partition for each UTC day, and a default one for the days that
have none.  An hourly pass provisions the days around today, and another one expires
clicks: by whole days behind the install's retention, by a cap on the number of days
that are attached, and row by row for the workspaces that keep less.
`apps/worker/src/jobs/rollup.ts` and the functions of migrations 0007 and 0014, over
sessions in UTC, where an interval of years is one of the UTC calendar.

* `ensureClickPartitions`, `pruneRetention`: the two passes, over the answers of the locks.
* `Sound`: no click was removed before its time, and the cap has taken no day.
* `guarded_quiet_iff`: **a run is sound all the way exactly when no pass finds more days
  attached than the cap allows, once the days behind the retention are gone.**
-/

namespace SnapUrl.Rollup.Retention

open Lib IsoDate

/-! ### Settings -/

def PARTITION_LOOKAHEAD_DAYS : Int := 14

def PARTITION_LOOKBACK_DAYS : Int := 7

/-- Most partitions one expiry pass will drop. -/
def MAX_PARTITION_DROPS : Nat := 20

/-- Hard ceiling on the number of retained day-partitions. -/
def MAX_RETAINED_DAYS : Int := 1100

def DEFAULT_INSTALL_RETENTION_YEARS : Int := 3

/-- The arguments of the two passes. -/
structure Settings where
  daysAhead : Int
  daysBack : Int
  maxDropsPerPass : Nat
  maxRetainedDays : Int
  retentionYears : Int
deriving DecidableEq, Repr

def shipped : Settings where
  daysAhead := PARTITION_LOOKAHEAD_DAYS
  daysBack := PARTITION_LOOKBACK_DAYS
  maxDropsPerPass := MAX_PARTITION_DROPS
  maxRetainedDays := MAX_RETAINED_DAYS
  retentionYears := DEFAULT_INSTALL_RETENTION_YEARS

/-! ### The table -/

/-- The days from one to another, both counted in. -/
def dayRange (lo hi : Int) : Finset Int :=
  ((List.range (hi + 1 - lo).toNat).map fun (i : Nat) => lo + i).toFinset

@[simp] theorem mem_dayRange {lo hi d : Int} : d ∈ dayRange lo hi ↔ lo ≤ d ∧ d ≤ hi := by
  rw [dayRange, List.mem_toFinset, List.mem_map]
  constructor
  · rintro ⟨i, hi, rfl⟩
    rw [List.mem_range] at hi
    omega
  · rintro ⟨hlo, hhi⟩
    refine ⟨(d - lo).toNat, List.mem_range.mpr ?_, ?_⟩ <;> omega

theorem card_dayRange (lo hi : Int) : (dayRange lo hi).card = (hi + 1 - lo).toNat := by
  have hnodup : ((List.range (hi + 1 - lo).toNat).map fun (i : Nat) => lo + i).Nodup :=
    List.nodup_range.map fun i j h => by omega
  rw [dayRange, List.toFinset_card_of_nodup hnodup, List.length_map, List.length_range]

/-- A day in microseconds, the unit of a timestamp. -/
def dayMicros : Int := 86400000000

structure Row where
  id : String
  workspaceId : String
  occurredAt : Int
  /-- Whether `rolled_up_at` is set. -/
  rolledUp : Bool
deriving DecidableEq, Repr

/-- The UTC day of a click, counted from 1970. -/
def Row.day (r : Row) : Int := r.occurredAt / dayMicros

/-- A click that a pass removed, with the time and what its workspace keeps by then. -/
structure Removal where
  row : Row
  now : Int
  retentionYears : Int
deriving DecidableEq, Repr

structure World where
  now : Int
  /-- The days with a partition.  A click is in the partition of its day if there is one,
  and in the default partition otherwise: attaching a day drains it. -/
  attached : Finset Int
  rows : List Row
  /-- `workspaces.retention_years`. -/
  retention : String → Int
  /-- What the passes removed so far. -/
  removed : List Removal
  /-- How many days the cap took so far. -/
  capDrops : Nat

/-- An install of any age that has removed nothing yet. -/
def World.install (now : Int) (attached : Finset Int) (rows : List Row)
    (retention : String → Int) : World :=
  ⟨now, attached, rows, retention, [], 0⟩

def World.today (s : World) : Int := s.now / dayMicros

/-- A day with clicks that are not rolled up. -/
def World.pinned (s : World) (d : Int) : Bool := s.rows.any fun r => r.day = d && !r.rolledUp

def World.removal (s : World) (r : Row) : Removal := ⟨r, s.now, s.retention r.workspaceId⟩

/-! ### Provisioning -/

structure PartitionProvisionResult where
  ready : Nat
  declined : Nat
deriving DecidableEq, Repr

/-- `click_events_ensure_partition`, which may lose against the writers. -/
def ensurePartition (declines : Int → Bool) (x : World × PartitionProvisionResult) (d : Int) :
    World × PartitionProvisionResult :=
  if d ∈ x.1.attached then (x.1, { x.2 with ready := x.2.ready + 1 })
  else if declines d then (x.1, { x.2 with declined := x.2.declined + 1 })
  else ({ x.1 with attached := insert d x.1.attached }, { x.2 with ready := x.2.ready + 1 })

/-- The window, a day at a time. -/
def provisionDays (st : Settings) (today : Int) : List Int :=
  (dayRange (today - st.daysBack) (today + st.daysAhead)).sort

def ensureClickPartitions (st : Settings) (declines : Int → Bool) (s : World) :
    World × PartitionProvisionResult :=
  (provisionDays st s.today).foldl (ensurePartition declines) (s, ⟨0, 0⟩)

/-! ### Expiry -/

inductive DropOutcome where
  | dropped
  | pinned
  | contended
  | missing
deriving DecidableEq, Repr

structure Outcomes where
  dropped : Nat
  pinned : Nat
  contended : Nat
  missing : Nat
deriving DecidableEq, Repr

def Outcomes.add (o : Outcomes) : DropOutcome → Outcomes
  | .dropped => { o with dropped := o.dropped + 1 }
  | .pinned => { o with pinned := o.pinned + 1 }
  | .contended => { o with contended := o.contended + 1 }
  | .missing => { o with missing := o.missing + 1 }

/-- A day is detached and dropped, with the clicks of it. -/
def World.drop (s : World) (d : Int) : World :=
  { s with
    attached := s.attached.erase d
    rows := s.rows.filter fun r => r.day ≠ d
    removed := s.removed ++ (s.rows.filter fun r => r.day = d).map s.removal }

/-- `click_events_drop_partition`. -/
def dropPartition (contended : Bool) (s : World) (d : Int) : World × DropOutcome :=
  if contended then (s, .contended)
  else if d ∉ s.attached then (s, .missing)
  else if s.pinned d then (s, .pinned)
  else (s.drop d, .dropped)

def attemptDrop (contended : Int → Bool) (x : World × Outcomes) (d : Int) : World × Outcomes :=
  let r := dropPartition (contended d) x.1 d
  (r.1, x.2.add r.2)

/-- `click_events_spent_partitions`: the days behind the cutoff, oldest first, as the names
of the partitions sort.  A partition covers its day up to the next one. -/
def spentPartitions (cutoff : Int) (s : World) : List Int :=
  s.attached.sort.filter fun d => d + 1 ≤ cutoff && !s.pinned d

/-- The attached days, oldest first. -/
abbrev attachedDays (s : World) : List Int := s.attached.sort

/-- The loop of the volume cap over the days that were listed. -/
def capLoop (contended : Int → Bool) (maxDropsPerPass : Nat) :
    List Int → Int → World × Outcomes → World × Outcomes
  | [], _, x => x
  | d :: rest, overCap, x =>
    if overCap ≤ 0 ∨ maxDropsPerPass ≤ x.2.dropped then x
    else
      let outcome := (dropPartition (contended d) x.1 d).2
      capLoop contended maxDropsPerPass rest (if outcome = .dropped then overCap - 1 else overCap)
        (attemptDrop contended x d)

/-- The effective retention of a click's workspace. -/
def effectiveYears (st : Settings) (s : World) (r : Row) : Int :=
  min (s.retention r.workspaceId) st.retentionYears

/-- The rows of the subtractive `DELETE`. -/
def swept (st : Settings) (s : World) (r : Row) : Bool :=
  r.rolledUp &&
    (s.retention r.workspaceId < st.retentionYears || r.day ∉ s.attached) &&
    r.occurredAt < minusYearsTime dayMicros s.now (effectiveYears st s r)

def World.sweep (st : Settings) (s : World) : World :=
  { s with
    rows := s.rows.filter fun r => !swept st s r
    removed := s.removed ++ (s.rows.filter (swept st s)).map s.removal }

structure RetentionResult where
  partitionsDropped : Nat
  rowsDeleted : Nat
  partitionsPinned : Nat
  partitionsContended : Nat
  partitionsMissing : Nat
deriving DecidableEq, Repr

/-- What a pass is answered: whether it has the lease, and which drops of the age pass and
of the cap do not get their lock in time. -/
structure Locks where
  lease : Bool
  age : Int → Bool
  cap : Int → Bool

/-- The install-wide cutoff, a date. -/
def World.cutoff (st : Settings) (s : World) : Int := minusYears s.today st.retentionYears

def agePass (st : Settings) (locks : Locks) (s : World) : World × Outcomes :=
  ((spentPartitions (s.cutoff st) s).take st.maxDropsPerPass).foldl (attemptDrop locks.age)
    (s, ⟨0, 0, 0, 0⟩)

def capPass (st : Settings) (locks : Locks) (x : World × Outcomes) : World × Outcomes :=
  if 0 < st.maxDropsPerPass - x.2.dropped then
    let attached := x.1.attached.sort
    capLoop locks.cap st.maxDropsPerPass attached (attached.length - st.maxRetainedDays) x
  else x

/-- One expiry pass, whose `DELETE` runs some time after its cutoff was taken. -/
def pruneRetention (st : Settings) (locks : Locks) (elapsed : Nat) (s : World) :
    World × RetentionResult :=
  if locks.lease then
    let aged := agePass st locks s
    let capped := capPass st locks aged
    let late := { capped.1 with
      now := s.now + elapsed
      capDrops := s.capDrops + (capped.2.dropped - aged.2.dropped) }
    (late.sweep st,
      { partitionsDropped := capped.2.dropped
        rowsDeleted := (late.rows.filter (swept st late)).length
        partitionsPinned := capped.2.pinned
        partitionsContended := capped.2.contended
        partitionsMissing := capped.2.missing })
  else ({ s with now := s.now + elapsed }, ⟨0, 0, 0, 0, 0⟩)

/-! ### Runs -/

inductive Action where
  | tick (elapsed : Nat)
  /-- A click is recorded. -/
  | click (r : Row)
  /-- The rollup marks some clicks. -/
  | rollup (ids : List String)
  | setRetention (workspaceId : String) (years : Int)
  | provision (declines : Int → Bool)
  | prune (locks : Locks) (elapsed : Nat)

def act (st : Settings) (s : World) : Action → World
  | .tick elapsed => { s with now := s.now + elapsed }
  | .click r => { s with rows := s.rows ++ [{ r with rolledUp := false }] }
  | .rollup ids =>
    { s with rows := s.rows.map fun r => if r.id ∈ ids then { r with rolledUp := true } else r }
  | .setRetention workspaceId years =>
    { s with retention := Function.update s.retention workspaceId years }
  | .provision declines => (ensureClickPartitions st declines s).1
  | .prune locks elapsed => (pruneRetention st locks elapsed s).1

def step (st : Settings) (s : World) (a : Action) : Option World := some (act st s a)

/-- The click was past its workspace's retention or the install's. -/
def Expired (st : Settings) (x : Removal) : Prop :=
  x.row.occurredAt < minusYearsTime dayMicros x.now (min x.retentionYears st.retentionYears)

/-- **No click was removed before its time, and the cap has taken no day.** -/
def Sound (st : Settings) (s : World) : Prop :=
  s.capDrops = 0 ∧ ∀ x ∈ s.removed, Expired st x

/-- The spent days whose drop gets its lock, as many as a pass attempts. -/
def taken (st : Settings) (locks : Locks) (s : World) : List Int :=
  ((spentPartitions (s.cutoff st) s).take st.maxDropsPerPass).filter fun d => !locks.age d

/-- **A pass leaves the days that are not past**: it spends its drops on days behind the
retention, or there are no more days attached than these and the cap together, or no other
day can be dropped. -/
def Quiet (st : Settings) (s : World) : Action → Prop
  | .prune locks _ =>
    locks.lease = false ∨
      st.maxDropsPerPass ≤ (taken st locks s).length ∨
      s.attached.card ≤ st.maxRetainedDays + (taken st locks s).length ∨
      ∀ d ∈ s.attached, d ∉ taken st locks s → locks.cap d = true ∨ s.pinned d = true
  | _ => True

/-! ### One drop -/

section Drops

variable {contended : Int → Bool} {s s' : World} {o : Outcomes} {d : Int}

/-- Whether an attempt on a day drops it. -/
def Droppable (contended : Int → Bool) (s : World) (d : Int) : Prop :=
  contended d = false ∧ d ∈ s.attached ∧ s.pinned d = false

theorem dropPartition_of_droppable (h : Droppable contended s d) :
    dropPartition (contended d) s d = (s.drop d, .dropped) := by
  obtain ⟨hfree, hattached, hrolled⟩ := h
  simp [dropPartition, hfree, hattached, hrolled]

theorem dropPartition_of_not_droppable (h : ¬ Droppable contended s d) :
    (dropPartition (contended d) s d).1 = s ∧ (dropPartition (contended d) s d).2 ≠ .dropped := by
  rw [dropPartition]
  split
  · simp
  split
  · simp
  split
  · simp
  · rename_i hfree hattached hpinned
    exact absurd ⟨by simpa using hfree, not_not.mp hattached, by simpa using hpinned⟩ h

theorem dropped_add (o : Outcomes) (r : DropOutcome) :
    (o.add r).dropped = o.dropped + if r = .dropped then 1 else 0 := by
  cases r <;> rfl

theorem attemptDrop_of_droppable (h : Droppable contended s d) :
    attemptDrop contended (s, o) d = (s.drop d, o.add .dropped) := by
  simp [attemptDrop, dropPartition_of_droppable h]

theorem attemptDrop_of_not_droppable (h : ¬ Droppable contended s d) :
    (attemptDrop contended (s, o) d).1 = s ∧
      (attemptDrop contended (s, o) d).2.dropped = o.dropped := by
  obtain ⟨hworld, hkept⟩ := dropPartition_of_not_droppable h
  rw [attemptDrop, dropped_add, if_neg hkept]
  exact ⟨hworld, rfl⟩

/-- A drop says nothing about the clicks of another day. -/
theorem pinned_drop {e : Int} (hne : e ≠ d) : (s.drop d).pinned e = s.pinned e := by
  simp only [World.pinned, World.drop, List.any_filter]
  refine List.any_congr rfl fun r => ?_
  by_cases hr : r.day = e <;> simp [hr, hne]

end Drops

/-! ### The age pass -/

/-- What is left of a world whose days `T` were dropped. -/
structure DropsOf (s s' : World) (T : List Int) : Prop where
  attached : s'.attached = s.attached \ T.toFinset
  rows : s'.rows = s.rows.filter fun r => r.day ∉ T
  removed : ∀ x ∈ s'.removed, x ∈ s.removed ∨ x.row.day ∈ T ∧ x.now = s.now
  now : s'.now = s.now
  retention : s'.retention = s.retention
  capDrops : s'.capDrops = s.capDrops

section AgePass

variable {st : Settings} {locks : Locks} {contended : Int → Bool} {s s' : World} {o : Outcomes}
  {d : Int} {T : List Int}

theorem DropsOf.refl (s : World) : DropsOf s s [] where
  attached := by simp
  rows := by simp
  removed := fun _ hx => Or.inl hx
  now := rfl
  retention := rfl
  capDrops := rfl

theorem DropsOf.cons (h : DropsOf (s.drop d) s' T) : DropsOf s s' (d :: T) where
  attached := by
    rw [h.attached, World.drop, List.toFinset_cons]
    ext e
    simp only [Finset.mem_sdiff, Finset.mem_erase, Finset.mem_insert]
    tauto
  rows := by
    rw [h.rows, World.drop, List.filter_filter]
    refine List.filter_congr fun r _ => ?_
    rw [Bool.eq_iff_iff]
    simp
    tauto
  removed := by
    intro x hx
    rcases h.removed x hx with hx | ⟨hday, hnow⟩
    · rcases List.mem_append.mp hx with hx | hx
      · exact Or.inl hx
      · obtain ⟨r, hr, rfl⟩ := List.mem_map.mp hx
        refine Or.inr ⟨?_, rfl⟩
        rw [show (s.removal r).row.day = d from of_decide_eq_true (List.mem_filter.mp hr).2]
        exact List.mem_cons_self
    · exact Or.inr ⟨List.mem_cons_of_mem _ hday, hnow⟩
  now := h.now
  retention := h.retention
  capDrops := h.capDrops

/-- **The age pass drops the days whose lock it gets.** -/
theorem foldl_attemptDrop {L : List Int} (hn : L.Nodup)
    (hspent : ∀ d ∈ L, d ∈ s.attached ∧ s.pinned d = false) :
    DropsOf s (L.foldl (attemptDrop contended) (s, o)).1 (L.filter fun d => !contended d) ∧
      (L.foldl (attemptDrop contended) (s, o)).2.dropped =
        o.dropped + (L.filter fun d => !contended d).length := by
  induction L generalizing s o with
  | nil => exact ⟨.refl s, rfl⟩
  | cons d L ih =>
    obtain ⟨hd, hn⟩ := List.nodup_cons.mp hn
    rw [List.foldl_cons]
    by_cases hfree : contended d = false
    · have hdrop : Droppable contended s d := ⟨hfree, hspent d List.mem_cons_self⟩
      have hrest : ∀ e ∈ L, e ∈ (s.drop d).attached ∧ (s.drop d).pinned e = false := by
        intro e he
        have hne : e ≠ d := fun heq => hd (heq ▸ he)
        obtain ⟨hattached, hrolled⟩ := hspent e (List.mem_cons_of_mem _ he)
        exact ⟨Finset.mem_erase.mpr ⟨hne, hattached⟩, (pinned_drop hne).trans hrolled⟩
      obtain ⟨hdrops, hcount⟩ := ih (o := o.add .dropped) hn hrest
      rw [attemptDrop_of_droppable hdrop, List.filter_cons_of_pos (by simp [hfree])]
      refine ⟨hdrops.cons, ?_⟩
      rw [hcount, dropped_add, if_pos rfl, List.length_cons]
      omega
    · have hkept : ¬ Droppable contended s d := fun h => hfree h.1
      obtain ⟨hworld, hcount⟩ := attemptDrop_of_not_droppable (o := o) hkept
      rw [List.filter_cons_of_neg (by simpa using hfree)]
      have hrest := ih (o := (attemptDrop contended (s, o) d).2) hn
        fun e he => hspent e (List.mem_cons_of_mem _ he)
      rw [hcount] at hrest
      rw [show attemptDrop contended (s, o) d = (s, (attemptDrop contended (s, o) d).2) from
        Prod.ext hworld rfl]
      exact hrest

theorem mem_spentPartitions {cutoff : Int} :
    d ∈ spentPartitions cutoff s ↔ d ∈ s.attached ∧ d + 1 ≤ cutoff ∧ s.pinned d = false := by
  simp [spentPartitions]

theorem nodup_spentPartitions (cutoff : Int) (s : World) : (spentPartitions cutoff s).Nodup :=
  (Finset.sort_nodup _ _).filter _

theorem mem_of_mem_taken (h : d ∈ taken st locks s) :
    d ∈ s.attached ∧ d + 1 ≤ s.cutoff st ∧ s.pinned d = false :=
  mem_spentPartitions.mp (List.mem_of_mem_take (List.mem_filter.mp h).1)

theorem nodup_taken : (taken st locks s).Nodup :=
  ((nodup_spentPartitions _ _).sublist (List.take_sublist _ _)).filter _

theorem agePass_drops : DropsOf s (agePass st locks s).1 (taken st locks s) ∧
    (agePass st locks s).2.dropped = (taken st locks s).length := by
  have hfold : DropsOf s (agePass st locks s).1 (taken st locks s) ∧
      (agePass st locks s).2.dropped = 0 + (taken st locks s).length :=
    foldl_attemptDrop ((nodup_spentPartitions _ s).sublist (List.take_sublist _ _))
      fun d hd => (mem_spentPartitions.mp (List.mem_of_mem_take hd)).imp_right And.right
  rwa [Nat.zero_add] at hfold

/-- How many days are attached once the age pass is through. -/
theorem card_agePass : (agePass st locks s).1.attached.card =
    s.attached.card - (taken st locks s).length := by
  have hsub : (taken st locks s).toFinset ⊆ s.attached :=
    fun d hd => (mem_of_mem_taken (List.mem_toFinset.mp hd)).1
  rw [agePass_drops.1.attached, Finset.card_sdiff_of_subset hsub,
    List.toFinset_card_of_nodup nodup_taken]

theorem length_taken_le : (taken st locks s).length ≤ s.attached.card := by
  rw [← List.toFinset_card_of_nodup nodup_taken]
  exact Finset.card_le_card fun d hd => (mem_of_mem_taken (List.mem_toFinset.mp hd)).1

/-- A click of a day behind the cutoff is past its workspace's retention, too. -/
theorem expired_of_day {x : Removal} (hday : x.row.day + 1 ≤ s.cutoff st) (hnow : x.now = s.now) :
    Expired st x := by
  have hbefore : x.row.occurredAt < (x.row.day + 1) * dayMicros := by
    have hparts := Int.emod_add_mul_ediv x.row.occurredAt dayMicros
    have hlt := Int.emod_lt_of_pos x.row.occurredAt (show 0 < dayMicros by decide)
    rw [Row.day, Int.add_mul, Int.one_mul, Int.mul_comm]
    omega
  have hyears : s.cutoff st ≤ minusYears s.today (min x.retentionYears st.retentionYears) :=
    minusYears_anti _ (min_le_right _ _)
  have hcutoff : (x.row.day + 1) * dayMicros ≤
      minusYears s.today (min x.retentionYears st.retentionYears) * dayMicros :=
    Int.mul_le_mul_of_nonneg_right (hday.trans hyears) (by decide)
  refine lt_minusYearsTime (by decide) ?_
  rw [hnow]
  exact hbefore.trans_le hcutoff

end AgePass

/-! ### The volume cap -/

section CapPass

variable {st : Settings} {locks : Locks} {contended : Int → Bool} {maxDrops : Nat} {s : World}
  {o : Outcomes} {overCap : Int} {days : List Int}

theorem capLoop_of_stop (h : overCap ≤ 0 ∨ maxDrops ≤ o.dropped) :
    capLoop contended maxDrops days overCap (s, o) = (s, o) := by
  cases days with
  | nil => rfl
  | cons d rest => rw [capLoop, if_pos h]

theorem capLoop_cons (d : Int) (rest : List Int) (h : ¬(overCap ≤ 0 ∨ maxDrops ≤ o.dropped)) :
    capLoop contended maxDrops (d :: rest) overCap (s, o) =
      capLoop contended maxDrops rest
        (if (dropPartition (contended d) s d).2 = .dropped then overCap - 1 else overCap)
        (attemptDrop contended (s, o) d) := by
  rw [capLoop, if_neg h]

/-- An attempt that drops nothing leaves the loop where it was. -/
theorem capLoop_cons_kept {d : Int} (rest : List Int)
    (h : ¬(overCap ≤ 0 ∨ maxDrops ≤ o.dropped)) (hkept : ¬ Droppable contended s d) :
    ∃ o', o'.dropped = o.dropped ∧
      capLoop contended maxDrops (d :: rest) overCap (s, o) =
        capLoop contended maxDrops rest overCap (s, o') := by
  obtain ⟨hworld, hcount⟩ := attemptDrop_of_not_droppable (o := o) hkept
  refine ⟨(attemptDrop contended (s, o) d).2, hcount, ?_⟩
  rw [capLoop_cons d rest h, if_neg (dropPartition_of_not_droppable hkept).2]
  rw [show attemptDrop contended (s, o) d = (s, (attemptDrop contended (s, o) d).2) from
    Prod.ext hworld rfl]

/-- **The cap takes nothing where no day can be dropped.** -/
theorem capLoop_of_kept (h : ∀ d ∈ days, ¬ Droppable contended s d) :
    (capLoop contended maxDrops days overCap (s, o)).1 = s ∧
      (capLoop contended maxDrops days overCap (s, o)).2.dropped = o.dropped := by
  induction days generalizing o with
  | nil => exact ⟨rfl, rfl⟩
  | cons d rest ih =>
    by_cases hstop : overCap ≤ 0 ∨ maxDrops ≤ o.dropped
    · rw [capLoop_of_stop hstop]
      exact ⟨rfl, rfl⟩
    · obtain ⟨o', ho, heq⟩ := capLoop_cons_kept rest hstop (h d List.mem_cons_self)
      rw [heq, ← ho]
      exact ih fun e he => h e (List.mem_cons_of_mem _ he)

theorem dropped_le_capLoop (x : World × Outcomes) :
    x.2.dropped ≤ (capLoop contended maxDrops days overCap x).2.dropped := by
  induction days generalizing overCap x with
  | nil => exact le_rfl
  | cons d rest ih =>
    rw [capLoop]
    split
    · exact le_rfl
    · refine le_trans ?_ (ih _)
      rw [attemptDrop, dropped_add]
      exact Nat.le_add_right _ _

/-- **The cap takes a day where one can be dropped.** -/
theorem dropped_lt_capLoop (hover : 0 < overCap) (hbudget : o.dropped < maxDrops)
    (h : ∃ d ∈ days, Droppable contended s d) :
    o.dropped < (capLoop contended maxDrops days overCap (s, o)).2.dropped := by
  induction days generalizing o with
  | nil => exact absurd h (by simp)
  | cons d rest ih =>
    have hgo : ¬(overCap ≤ 0 ∨ maxDrops ≤ o.dropped) := by omega
    by_cases hdrop : Droppable contended s d
    · rw [capLoop_cons d rest hgo, attemptDrop_of_droppable hdrop]
      refine lt_of_lt_of_le ?_ (dropped_le_capLoop _)
      rw [dropped_add, if_pos rfl]
      exact Nat.lt_succ_self _
    · obtain ⟨o', ho, heq⟩ := capLoop_cons_kept rest hgo hdrop
      rw [heq, ← ho]
      obtain ⟨e, he, hedrop⟩ := h
      refine ih (ho ▸ hbudget) ⟨e, ?_, hedrop⟩
      exact (List.mem_cons.mp he).resolve_left fun heq => hdrop (heq ▸ hedrop)

/-- What the age pass left can be dropped as it could before. -/
theorem droppable_agePass_iff {d : Int} :
    Droppable locks.cap (agePass st locks s).1 d ↔
      Droppable locks.cap s d ∧ d ∉ taken st locks s := by
  have hdrops : DropsOf s (agePass st locks s).1 (taken st locks s) := agePass_drops.1
  by_cases hd : d ∈ taken st locks s
  · refine iff_of_false (fun h => ?_) fun h => h.2 hd
    have hattached := h.2.1
    rw [hdrops.attached, Finset.mem_sdiff] at hattached
    exact hattached.2 (List.mem_toFinset.mpr hd)
  · have hpinned : (agePass st locks s).1.pinned d = s.pinned d := by
      rw [World.pinned, World.pinned, hdrops.rows, List.any_filter]
      refine List.any_congr rfl fun r => ?_
      by_cases hr : r.day = d
      · simp [hr, hd]
      · simp [hr]
    rw [Droppable, Droppable, hpinned, hdrops.attached, Finset.mem_sdiff, List.mem_toFinset]
    simp [hd]

/-- **The cap of a pass takes nothing exactly when the pass is quiet.** -/
theorem capPass_iff_quiet {elapsed : Nat} (hlease : locks.lease = true) :
    (capPass st locks (agePass st locks s)).2.dropped = (agePass st locks s).2.dropped ↔
      Quiet st s (.prune locks elapsed) := by
  have hcount : (agePass st locks s).2.dropped = (taken st locks s).length := agePass_drops.2
  have hcard : (agePass st locks s).1.attached.card = _ := card_agePass
  have hle : (taken st locks s).length ≤ s.attached.card := length_taken_le
  have hquiet : Quiet st s (.prune locks elapsed) ↔
      st.maxDropsPerPass ≤ (taken st locks s).length ∨
        s.attached.card ≤ st.maxRetainedDays + (taken st locks s).length ∨
        ∀ d ∈ s.attached, d ∉ taken st locks s → locks.cap d = true ∨ s.pinned d = true := by
    simp [Quiet, hlease]
  rw [hquiet, capPass]
  by_cases hbudget : st.maxDropsPerPass ≤ (taken st locks s).length
  · rw [if_neg (by omega)]
    exact iff_of_true rfl (Or.inl hbudget)
  rw [if_pos (by omega)]
  dsimp only
  rw [Finset.length_sort]
  by_cases hover : s.attached.card ≤ st.maxRetainedDays + (taken st locks s).length
  · rw [capLoop_of_stop (Or.inl (by omega))]
    exact iff_of_true rfl (Or.inr (Or.inl hover))
  by_cases hdroppable : ∃ d ∈ (agePass st locks s).1.attached.sort,
      Droppable locks.cap (agePass st locks s).1 d
  · refine iff_of_false (Nat.ne_of_gt (dropped_lt_capLoop (by omega) (by omega) hdroppable)) ?_
    rintro (h | h | h)
    · exact hbudget h
    · exact hover h
    · obtain ⟨d, _, hd⟩ := hdroppable
      obtain ⟨⟨hfree, hattached, hrolled⟩, hleft⟩ := droppable_agePass_iff.mp hd
      rcases h d hattached hleft with hcap | hpinned
      · exact absurd (hcap.symm.trans hfree) (by simp)
      · exact absurd (hpinned.symm.trans hrolled) (by simp)
  · have hkept : ∀ d ∈ (agePass st locks s).1.attached.sort,
        ¬ Droppable locks.cap (agePass st locks s).1 d := fun d hd h => hdroppable ⟨d, hd, h⟩
    refine iff_of_true (capLoop_of_kept hkept).2 (Or.inr (Or.inr fun d hd hleft => ?_))
    by_contra hfree
    rw [not_or, Bool.not_eq_true, Bool.not_eq_true] at hfree
    have hdrop := droppable_agePass_iff.mpr ⟨⟨hfree.1, hd, hfree.2⟩, hleft⟩
    exact hkept d ((Finset.mem_sort _).mpr hdrop.2.1) hdrop

/-- A cap that takes nothing leaves what the age pass left. -/
theorem capPass_of_dropped
    (h : (capPass st locks (agePass st locks s)).2.dropped = (agePass st locks s).2.dropped) :
    (capPass st locks (agePass st locks s)).1 = (agePass st locks s).1 := by
  rw [capPass] at h ⊢
  split at h
  · rename_i hbudget
    rw [if_pos hbudget]
    by_cases hover : ((agePass st locks s).1.attached.sort.length : Int) - st.maxRetainedDays ≤ 0
    · rw [capLoop_of_stop (Or.inl hover)]
    · refine (capLoop_of_kept fun d hd hdrop => ?_).1
      refine absurd h (Nat.ne_of_gt (dropped_lt_capLoop (not_le.mp hover) ?_ ⟨d, hd, hdrop⟩))
      omega
  · rename_i hbudget
    rw [if_neg hbudget]

end CapPass

/-! ### One step -/

section Step

variable {st : Settings} {locks : Locks} {s : World}

theorem dropped_le_capPass (x : World × Outcomes) :
    x.2.dropped ≤ (capPass st locks x).2.dropped := by
  rw [capPass]
  split
  · exact dropped_le_capLoop x
  · exact le_rfl

/-- The rows of the `DELETE` are past. -/
theorem removed_sweep {x : Removal} (hx : x ∈ (s.sweep st).removed) :
    x ∈ s.removed ∨ Expired st x := by
  rcases List.mem_append.mp hx with hx | hx
  · exact Or.inl hx
  · obtain ⟨r, hr, rfl⟩ := List.mem_map.mp hx
    have hswept := (List.mem_filter.mp hr).2
    simp only [swept, Bool.and_eq_true, decide_eq_true_eq] at hswept
    exact Or.inr hswept.2

/-- A quiet pass removes nothing before its time. -/
theorem removed_quiet {elapsed : Nat} (hlease : locks.lease = true)
    (hkept : (capPass st locks (agePass st locks s)).2.dropped = (agePass st locks s).2.dropped)
    {x : Removal} (hx : x ∈ (pruneRetention st locks elapsed s).1.removed) :
    x ∈ s.removed ∨ Expired st x := by
  rw [pruneRetention, if_pos hlease] at hx
  rcases removed_sweep hx with hx | hx
  · rw [show _ = (agePass st locks s).1.removed from
      congrArg World.removed (capPass_of_dropped hkept)] at hx
    rcases agePass_drops.1.removed x hx with hx | ⟨hday, hnow⟩
    · exact Or.inl hx
    · exact Or.inr (expired_of_day (mem_of_mem_taken hday).2.1 hnow)
  · exact Or.inr hx

/-- A pass adds to the days the cap took what its cap drops. -/
theorem capDrops_pruneRetention (s : World) (elapsed : Nat) (hlease : locks.lease = true) :
    (pruneRetention st locks elapsed s).1.capDrops = s.capDrops +
      ((capPass st locks (agePass st locks s)).2.dropped - (agePass st locks s).2.dropped) := by
  rw [pruneRetention, if_pos hlease]
  rfl

theorem ensureClickPartitions_logs (st : Settings) (declines : Int → Bool) (s : World) :
    (ensureClickPartitions st declines s).1.removed = s.removed ∧
      (ensureClickPartitions st declines s).1.capDrops = s.capDrops := by
  have hfold : ∀ (days : List Int) (x : World × PartitionProvisionResult),
      (days.foldl (ensurePartition declines) x).1.removed = x.1.removed ∧
        (days.foldl (ensurePartition declines) x).1.capDrops = x.1.capDrops := by
    intro days
    induction days with
    | nil => exact fun _ => ⟨rfl, rfl⟩
    | cons d days ih =>
      intro x
      obtain ⟨hremoved, hdrops⟩ := ih (ensurePartition declines x d)
      rw [List.foldl_cons, hremoved, hdrops, ensurePartition]
      split
      · exact ⟨rfl, rfl⟩
      · split <;> exact ⟨rfl, rfl⟩
  exact hfold _ (s, ⟨0, 0⟩)

/-- **A step keeps a sound world sound exactly when it is quiet.** -/
theorem sound_act_iff (h : Sound st s) (a : Action) : Sound st (act st s a) ↔ Quiet st s a := by
  cases a with
  | prune locks elapsed =>
    cases hlease : locks.lease with
    | false =>
      refine iff_of_true ?_ (Or.inl hlease)
      rw [act, pruneRetention, hlease]
      exact h
    | true =>
      rw [← capPass_iff_quiet hlease]
      have hle : _ ≤ (capPass st locks (agePass st locks s)).2.dropped :=
        dropped_le_capPass (agePass st locks s)
      have hdrops : (pruneRetention st locks elapsed s).1.capDrops = _ :=
        capDrops_pruneRetention s elapsed hlease
      constructor
      · intro hsound
        have hzero : (pruneRetention st locks elapsed s).1.capDrops = 0 := hsound.1
        omega
      · intro hkept
        refine ⟨?_, fun x hx => ?_⟩
        · change (pruneRetention st locks elapsed s).1.capDrops = 0
          rw [hdrops, h.1, hkept, Nat.sub_self]
        · exact (removed_quiet hlease hkept hx).elim (h.2 x) id
  | provision declines =>
    refine iff_of_true ?_ trivial
    obtain ⟨hremoved, hdrops⟩ := ensureClickPartitions_logs st declines s
    rw [act, Sound, hremoved, hdrops]
    exact h
  | _ => exact iff_of_true h trivial

end Step

/-- **A run of passes removes no click before its time and never uses the cap, in any state
it passes through, exactly when every one of its passes is quiet.** -/
theorem guarded_quiet_iff (st : Settings) (now : Int) (attached : Finset Int) (rows : List Row)
    (retention : String → Int) (as : List Action) :
    Guarded (step st) (Quiet st) (.install now attached rows retention) as ↔
      ∀ pre post t, as = pre ++ post →
        run (step st) (.install now attached rows retention) pre = some t → Sound st t :=
  guarded_iff_holds_throughout (fun _ _ => rfl)
    (fun _ a _ h hstep => Option.some.inj hstep ▸ sound_act_iff h a) ⟨rfl, by simp [World.install]⟩

end SnapUrl.Rollup.Retention
