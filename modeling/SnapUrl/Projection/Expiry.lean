import Mathlib.Logic.Function.Basic
import SnapUrl.Projection.Outbox

/-!
# Sweeping expired links

`sweepExpired` of `apps/worker/src/jobs/outbox.ts`: nothing happens to a link when it
expires, so a sweep enqueues the links that have, and a drain publishes them again.

* `newlyExpired`: what the sweep enqueues.  A link is left out when it has an
  unprocessed row, also when the drain has given that row up.
* `SweepPublishes`: every expired link that is not published as expired has a row a
  drain will take, one that is published as expired is not enqueued, and a second sweep
  adds nothing.
* `sweepPublishes_iff`: **when a sweep does this**, and `sweeps_publish_iff`: **when
  every sweep of a run does**.
* `sweep_skips_dead_letter`: a link whose only row is given up.
-/

namespace SnapUrl.Projection.Expiry

open Lib

/-! ### Links and the sweep -/

/-- What the sweep reads of a link. -/
structure LinkRow where
  id : String
  archived : Bool
  expiresAt : Option Int
  clickLimit : Option Int
deriving DecidableEq, Repr

structure State where
  links : List LinkRow
  /-- `link_counters`, none where there is no row. -/
  clicks : String → Option Int
  outbox : List OutboxRow
  /-- Whether a link was expired when it was last projected. -/
  published : String → Option Bool
  now : Int

/-- Past its expiry, or its click limit is reached. -/
def State.expired (s : State) (l : LinkRow) : Bool :=
  l.expiresAt.any (· ≤ s.now) || l.clickLimit.any (· ≤ (s.clicks l.id).getD 0)

/-- The link has a row that is not processed. -/
def State.queued (s : State) (linkId : String) : Bool :=
  s.outbox.any fun row => row.linkId = linkId && !row.processed

/-- The links the sweep enqueues. -/
def State.newlyExpired (s : State) : List String :=
  (s.links.filter fun l => !l.archived && s.expired l && !s.queued l.id).map (·.id)

def State.sweep (s : State) : State :=
  { s with outbox := s.outbox ++ s.newlyExpired.map fun id => .enqueued id .upsert }

/-! ### What a sweep is for -/

/-- The published link is the expired one. -/
def State.Reflects (s : State) (linkId : String) : Prop := s.published linkId = some true

/-- A drain still takes a row of the link, at once or when a claim has run out. -/
def State.Retryable (s : State) (linkId : String) : Prop :=
  ∃ row ∈ s.outbox, row.linkId = linkId ∧ row.processed = false ∧ row.attempts < maxAttempts

instance (s : State) (linkId : String) : Decidable (s.Reflects linkId) :=
  inferInstanceAs (Decidable (_ = _))

instance (s : State) (linkId : String) : Decidable (s.Retryable linkId) :=
  inferInstanceAs (Decidable (∃ row ∈ s.outbox, _))

/-- An expired link the sweep is about. -/
def State.Due (s : State) (l : LinkRow) : Prop :=
  l ∈ s.links ∧ l.archived = false ∧ s.expired l = true

/-- **What the sweep promises.** -/
structure SweepPublishes (s : State) : Prop where
  reached : ∀ l, s.sweep.Due l → ¬ s.sweep.Reflects l.id → s.sweep.Retryable l.id
  once : ∀ l, s.Due l → s.Reflects l.id → l.id ∉ s.newlyExpired
  fixed : s.sweep.sweep.outbox = s.sweep.outbox

/-- No expired link waits on rows that are all given up, and one that is published as
expired has some row waiting. -/
def Swept (s : State) : Prop :=
  ∀ l ∈ s.links, l.archived = false → s.expired l = true →
    if s.Reflects l.id then s.queued l.id = true
    else s.queued l.id = true → s.Retryable l.id

instance (s : State) : Decidable (Swept s) := inferInstanceAs (Decidable (∀ l ∈ s.links, _))

section

variable {s : State}

theorem queued_iff {linkId : String} : s.queued linkId = true ↔
    ∃ row ∈ s.outbox, row.linkId = linkId ∧ row.processed = false := by
  rw [State.queued, List.any_eq_true]
  simp only [Bool.and_eq_true, decide_eq_true_eq, Bool.not_eq_true']

theorem mem_newlyExpired {id : String} : id ∈ s.newlyExpired ↔
    ∃ l, s.Due l ∧ l.id = id ∧ s.queued id = false := by
  rw [State.newlyExpired, List.mem_map]
  constructor
  · rintro ⟨l, hl, rfl⟩
    obtain ⟨hl, hcond⟩ := List.mem_filter.mp hl
    simp only [Bool.and_eq_true, Bool.not_eq_true'] at hcond
    exact ⟨l, ⟨hl, hcond.1.1, hcond.1.2⟩, rfl, hcond.2⟩
  · rintro ⟨l, ⟨hl, harchived, hexpired⟩, rfl, hqueued⟩
    refine ⟨l, List.mem_filter.mpr ⟨hl, ?_⟩, rfl⟩
    simp [harchived, hexpired, hqueued]

/-- The rows of a link after a sweep: its own, and a new one if it is enqueued. -/
theorem mem_sweep {row : OutboxRow} : row ∈ s.sweep.outbox ↔
    row ∈ s.outbox ∨ ∃ id ∈ s.newlyExpired, .enqueued id .upsert = row := by
  rw [State.sweep, List.mem_append, List.mem_map]

/-- A link that is enqueued has a row at its first attempt. -/
theorem retryable_of_newlyExpired {id : String} (h : id ∈ s.newlyExpired) : s.sweep.Retryable id :=
  ⟨.enqueued id .upsert, mem_sweep.mpr (Or.inr ⟨id, h, rfl⟩), rfl, rfl,
    (by decide : 0 < maxAttempts)⟩

/-- The sweep does nothing for a link with an unprocessed row. -/
theorem retryable_sweep_of_queued {id : String} (h : s.queued id = true) :
    s.sweep.Retryable id ↔ s.Retryable id := by
  constructor
  · rintro ⟨row, hrow, rfl, hlive⟩
    rcases mem_sweep.mp hrow with hrow | ⟨id', hid', rfl⟩
    · exact ⟨row, hrow, rfl, hlive⟩
    · obtain ⟨l, -, -, hqueued⟩ := mem_newlyExpired.mp hid'
      exact absurd (h.symm.trans hqueued) (by simp)
  · rintro ⟨row, hrow, hlive⟩
    exact ⟨row, mem_sweep.mpr (Or.inl hrow), hlive⟩

/-- **A second sweep adds nothing.** -/
theorem newlyExpired_sweep : s.sweep.newlyExpired = [] := by
  refine List.eq_nil_iff_forall_not_mem.mpr fun id hid => ?_
  obtain ⟨l, hl, rfl, hqueued⟩ := mem_newlyExpired.mp hid
  have hnone : s.queued l.id = false := by
    rw [← Bool.not_eq_true, queued_iff]
    rintro ⟨row, hrow, hlive⟩
    rw [← Bool.not_eq_true, queued_iff] at hqueued
    exact hqueued ⟨row, mem_sweep.mpr (Or.inl hrow), hlive⟩
  have hdue : s.Due l := hl
  obtain ⟨row, hrow, hid, hlive, -⟩ :=
    retryable_of_newlyExpired (mem_newlyExpired.mpr ⟨l, hdue, rfl, hnone⟩)
  rw [← Bool.not_eq_true, queued_iff] at hqueued
  exact hqueued ⟨row, hrow, hid, hlive⟩

/-- **When a sweep keeps its promise.** -/
theorem sweepPublishes_iff : SweepPublishes s ↔ Swept s := by
  constructor
  · intro h l hl harchived hexpired
    have hdue : s.Due l := ⟨hl, harchived, hexpired⟩
    split
    · rename_i hreflects
      cases hqueued : s.queued l.id with
      | true => rfl
      | false =>
        exact absurd (mem_newlyExpired.mpr ⟨l, hdue, rfl, hqueued⟩) (h.once l hdue hreflects)
    · rename_i hreflects
      intro hqueued
      exact (retryable_sweep_of_queued hqueued).mp (h.reached l hdue hreflects)
  · intro h
    refine ⟨fun l hdue hreflects => ?_, fun l hdue hreflects hmem => ?_, ?_⟩
    · have hdue : s.Due l := hdue
      have hreflects : ¬ s.Reflects l.id := hreflects
      have hl := h l hdue.1 hdue.2.1 hdue.2.2
      rw [if_neg hreflects] at hl
      cases hqueued : s.queued l.id with
      | true => exact (retryable_sweep_of_queued hqueued).mpr (hl hqueued)
      | false => exact retryable_of_newlyExpired (mem_newlyExpired.mpr ⟨l, hdue, rfl, hqueued⟩)
    · obtain ⟨l', -, hid, hqueued⟩ := mem_newlyExpired.mp hmem
      have hl := h l hdue.1 hdue.2.1 hdue.2.2
      rw [if_pos hreflects] at hl
      exact absurd (hl.symm.trans hqueued) (by simp)
    · change s.sweep.outbox ++ s.sweep.newlyExpired.map _ = _
      rw [newlyExpired_sweep, List.map_nil, List.append_nil]

end

/-! ### Runs -/

inductive Action where
  | create (l : LinkRow)
  | update (l : LinkRow)
  | delete (linkId : String)
  /-- The rollup sets the clicks of a link. -/
  | count (linkId : String) (clicks : Int)
  | claim (rows : List Nat)
  /-- A worker projects the link of a row, as it is now. -/
  | project (r : Nat)
  | mark (r : Nat) (ok : Bool)
  /-- An administrator retries the rows that are given up. -/
  | retry
  | sweep
  | tick (ms : Nat)
deriving DecidableEq, Repr

def start : State := ⟨[], fun _ => none, [], fun _ => none, 0⟩

def State.enqueue (s : State) (linkId : String) (operation : Operation) : State :=
  { s with outbox := s.outbox ++ [.enqueued linkId operation] }

/-- What a row leaves published. -/
def State.project (s : State) (row : OutboxRow) : State :=
  match s.links.find? fun l => l.id = row.linkId with
  | none => { s with published := Function.update s.published row.linkId none }
  | some l => { s with published := Function.update s.published row.linkId (some (s.expired l)) }

/-- A dead-lettered row starts over. -/
def retried (row : OutboxRow) : OutboxRow :=
  if !row.processed ∧ maxAttempts ≤ row.attempts then { row with attempts := 0, claimedAt := none }
  else row

def step (s : State) : Action → Option State
  | .create l =>
    if l.id ∈ s.links.map (·.id) ∨ l.id ∈ s.outbox.map (·.linkId) then none
    else some ({ s with links := s.links ++ [l] }.enqueue l.id .upsert)
  | .update l =>
    if l.id ∈ s.links.map (·.id) then
      some ({ s with
        links := s.links.map fun (old : LinkRow) => if old.id = l.id then l else old }.enqueue
          l.id .upsert)
    else none
  | .delete linkId =>
    if linkId ∈ s.links.map (·.id) then
      some ({ s with links := s.links.filter fun l => l.id ≠ linkId }.enqueue linkId .delete)
    else none
  | .count linkId clicks => some { s with clicks := Function.update s.clicks linkId (some clicks) }
  | .claim rows =>
    if ∀ r ∈ rows, (s.outbox[r]?).any (·.claimable s.now) = true then
      some { s with
        outbox := s.outbox.mapIdx fun r row =>
          if r ∈ rows then { row with claimedAt := some s.now } else row }
    else none
  | .project r => do
    let row ← s.outbox[r]?
    some (s.project row)
  | .mark r ok =>
    some { s with
      outbox := s.outbox.modify r fun row => if ok then row.markProcessed else row.markFailed }
  | .retry => some { s with outbox := s.outbox.map retried }
  | .sweep => some s.sweep
  | .tick ms => some { s with now := s.now + ms }

/-- Every sweep of a run is `P`. -/
def OnSweep (P : State → Prop) (s : State) : Action → Prop
  | .sweep => P s
  | _ => True

instance (P : State → Prop) [DecidablePred P] (s : State) : ∀ a, Decidable (OnSweep P s a)
  | .sweep => inferInstanceAs (Decidable (P s))
  | .create _ | .update _ | .delete _ | .count .. | .claim _ | .project _ | .mark .. | .retry
  | .tick _ => isTrue trivial

/-- **When every sweep of a run keeps its promise.** -/
theorem sweeps_publish_iff (actions : List Action) :
    Guarded step (OnSweep SweepPublishes) start actions ↔
      Guarded step (OnSweep Swept) start actions := by
  have hsame : OnSweep SweepPublishes = OnSweep Swept := by
    funext s a
    cases a with
    | sweep => exact propext sweepPublishes_iff
    | _ => rfl
  rw [hsame]

/-- **A link whose row is given up.**  The drain failed its first row eight times before
the link expired; the sweep takes that row for a pending one and enqueues nothing. -/
theorem sweep_skips_dead_letter :
    ¬ ∀ actions : List Action, Guarded step (OnSweep SweepPublishes) start actions := by
  intro hall
  have hrun : (run step start ([.create ⟨"L1", false, some 10, none⟩] ++
      List.replicate maxAttempts (.mark 0 false) ++ [.tick 20])).any (fun s => !decide (Swept s)) =
        true := by decide +kernel
  obtain ⟨s, hs, hnot⟩ := (Option.any_eq_true _ _).mp hrun
  have hlast := (guarded_append.mp (hall (_ ++ [.sweep]))).2 s hs
  rw [Bool.not_eq_true', decide_eq_false_iff_not] at hnot
  exact hnot (sweepPublishes_iff.mp hlast.1)

end SnapUrl.Projection.Expiry
