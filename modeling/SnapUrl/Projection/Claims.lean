import SnapUrl.Projection.Outbox

/-!
# Claims on outbox rows

`drainOutbox` of `apps/worker/src/jobs/outbox.ts` as the owner of claims: a worker
claims rows, handles them for as long as it takes, and marks them one after another.
A claim is trusted for `claimLease`, then the row may be claimed by another worker,
and the first one may still come back to mark it.

`withLease` of `lease.ts` guards its release on the holder for that case; a mark is
guarded on nothing but the row's id.

* `ClaimsHold`: no row is in the hands of two workers whose claims are both trusted,
  and every row is processed, given up, or claimable after the lease.
* `Owned`: only the worker that has the current claim on a row changes it.
* `guarded_claimsHold`: **both hold in every run in which a worker marks a row only
  while the row still carries the time of that worker's claim**.
* `overrun_worker_releases_claim`: a worker that comes back late.
-/

namespace SnapUrl.Projection.Claims

open Lib

/-! ### Workers and claims -/

/-- A running drain: the number and the time of its claim, and the rows it has not
marked yet. -/
structure Worker where
  claim : Nat
  claimedAt : Int
  rows : List Nat
deriving DecidableEq, Repr

structure State where
  outbox : List OutboxRow
  workers : List Worker
  now : Int
  claims : Nat
  /-- Which claim on a row is the current one. -/
  holder : Nat → Option Nat

/-- Nobody drains; whoever claimed a row is gone. -/
def start (now : Int) (outbox : List OutboxRow) : State := ⟨outbox, [], now, 0, fun _ => none⟩

inductive Action where
  | enqueue (linkId : String) (operation : Operation)
  /-- The claiming statement returns these rows. -/
  | claim (rows : List Nat)
  /-- Worker `i` marks the first of its rows. -/
  | mark (i : Nat) (ok : Bool)
  | crash (i : Nat)
  | tick (ms : Nat)
deriving DecidableEq, Repr

/-- The rows are claimed now, by a new worker. -/
def State.claim (s : State) (rows : List Nat) : State where
  outbox := s.outbox.mapIdx fun r row =>
    if r ∈ rows then { row with claimedAt := some s.now } else row
  workers := s.workers ++ [⟨s.claims, s.now, rows⟩]
  now := s.now
  claims := s.claims + 1
  holder r := if r ∈ rows then some s.claims else s.holder r

/-- Worker `i` marks row `r` and goes on with the rest. -/
def State.mark (s : State) (i : Nat) (w : Worker) (r : Nat) (rest : List Nat) (ok : Bool) : State :=
  { s with
    outbox := s.outbox.modify r fun row => if ok then row.markProcessed else row.markFailed
    workers := s.workers.set i { w with rows := rest }
    holder := if ok then s.holder else Function.update s.holder r none }

def step (s : State) : Action → Option State
  | .enqueue linkId operation => some { s with outbox := s.outbox ++ [.enqueued linkId operation] }
  | .claim rows =>
    if rows.Nodup ∧ ∀ r ∈ rows, (s.outbox[r]?).any (·.claimable s.now) = true then
      some (s.claim rows)
    else none
  | .mark i ok => do
    let w ← s.workers[i]?
    match w.rows with
    | [] => none
    | r :: rest => some (s.mark i w r rest ok)
  | .crash i => do
    let _ ← s.workers[i]?
    some { s with workers := s.workers.eraseIdx i }
  | .tick ms => some { s with now := s.now + ms }

/-- The claim is still trusted. -/
def Worker.Trusted (w : Worker) (now : Int) : Prop := now - claimLease ≤ w.claimedAt

/-- What holds of claims in a state. -/
structure ClaimsHold (s : State) : Prop where
  exclusive : s.workers.Pairwise fun v w =>
    ∀ r ∈ v.rows, r ∈ w.rows → ¬ (v.Trusted s.now ∧ w.Trusted s.now)
  recoverable : ∀ row ∈ s.outbox, row.processed = true ∨ maxAttempts ≤ row.attempts ∨
    row.claimable (s.now + claimLease + 1) = true

/-- Who changes a row in a step: the worker that has the current claim on it, or one
that takes it over where it is claimable. -/
def Owned (s : State) (a : Action) (s' : State) : Prop :=
  ∀ r row, s.outbox[r]? = some row → s'.outbox[r]? ≠ some row →
    match a with
    | .mark i _ => ∃ w ∈ s.workers[i]?, w.rows.head? = some r ∧ s.holder r = some w.claim
    | .claim rows => r ∈ rows ∧ row.claimable s.now = true
    | _ => False

/-- A worker marks a row while the row carries the time of its claim. -/
def Stamped (s : State) : Action → Prop
  | .mark i _ => ∀ w ∈ s.workers[i]?, ∀ r ∈ w.rows.head?, ∀ row ∈ s.outbox[r]?,
      row.claimedAt = some w.claimedAt
  | _ => True

instance (s : State) : ∀ a, Decidable (Stamped s a)
  | .mark i _ => inferInstanceAs (Decidable (∀ w ∈ s.workers[i]?, ∀ r ∈ w.rows.head?,
      ∀ row ∈ s.outbox[r]?, row.claimedAt = some w.claimedAt))
  | .enqueue .. => isTrue trivial
  | .claim _ => isTrue trivial
  | .crash _ => isTrue trivial
  | .tick _ => isTrue trivial

/-! ### The invariant -/

/-- What is so of a row in a worker's hands: the worker has the current claim on it, or
its claim has run out and was overtaken. -/
def Holds (s : State) (w : Worker) (r : Nat) : Prop :=
  ∃ row, s.outbox[r]? = some row ∧
    (s.holder r = some w.claim ∧ row.claimedAt = some w.claimedAt ∧ row.processed = false ∨
      w.claimedAt < s.now - claimLease ∧ ∀ c ∈ row.claimedAt, w.claimedAt < c)

def Distinct (v w : Worker) : Prop := v.claim ≠ w.claim

structure Inv (s : State) : Prop where
  past : ∀ row ∈ s.outbox, ∀ c ∈ row.claimedAt, c ≤ s.now
  claims : ∀ w ∈ s.workers, w.claim < s.claims
  distinct : s.workers.Pairwise Distinct
  nodup : ∀ w ∈ s.workers, w.rows.Nodup
  holds : ∀ w ∈ s.workers, ∀ r ∈ w.rows, Holds s w r

section

variable {s s' : State} {i : Nat} {w : Worker}

/-- A row that may be claimed is nobody's, or its claim has run out. -/
theorem claimable_iff {row : OutboxRow} {now : Int} : row.claimable now = true ↔
    row.processed = false ∧ row.attempts < maxAttempts ∧
      ∀ c ∈ row.claimedAt, c < now - claimLease := by
  simp only [OutboxRow.claimable, Bool.and_eq_true, Bool.not_eq_true', decide_eq_true_eq,
    Option.all_eq_true, and_assoc]
  rfl

theorem Distinct.symm {v w : Worker} (h : Distinct v w) : Distinct w v := Ne.symm h

theorem claimsHold_of_inv (h : Inv s) : ClaimsHold s := by
  constructor
  · refine h.distinct.imp_of_mem fun {v w} hv hw hne r hr hr' htrusted => ?_
    obtain ⟨row, -, hrow⟩ := h.holds v hv r hr
    obtain ⟨row', -, hrow'⟩ := h.holds w hw r hr'
    have hv' := htrusted.1
    have hw' := htrusted.2
    rw [Worker.Trusted] at hv' hw'
    rcases hrow with ⟨hholder, -⟩ | ⟨hlate, -⟩
    · rcases hrow' with ⟨hholder', -⟩ | ⟨hlate', -⟩
      · exact hne (Option.some.inj (hholder.symm.trans hholder'))
      · omega
    · omega
  · intro row hrow
    cases hprocessed : row.processed with
    | true => exact Or.inl rfl
    | false =>
      refine Or.inr ?_
      by_cases hattempts : maxAttempts ≤ row.attempts
      · exact Or.inl hattempts
      · refine Or.inr ?_
        refine claimable_iff.mpr ⟨hprocessed, Nat.lt_of_not_le hattempts, fun c hc => ?_⟩
        have hpast := h.past row hrow c hc
        omega

theorem mem_of_mem_set {v w' : Worker} (hv : v ∈ s.workers.set i w') : v = w' ∨ v ∈ s.workers := by
  rcases eq_or_mem_eraseIdx_of_mem_set hv with hv | hv
  · exact Or.inl hv
  · exact Or.inr (List.mem_of_mem_eraseIdx hv)

theorem inv_enqueue (h : Inv s) (linkId : String) (operation : Operation) :
    Inv { s with outbox := s.outbox ++ [.enqueued linkId operation] } where
  past row hrow := by
    rcases List.mem_append.mp hrow with hrow | hrow
    · exact h.past row hrow
    · rw [List.mem_singleton.mp hrow]
      exact fun c hc => absurd hc (by simp [OutboxRow.enqueued])
  claims := h.claims
  distinct := h.distinct
  nodup := h.nodup
  holds v hv r hr := by
    obtain ⟨row, hrow, hholds⟩ := h.holds v hv r hr
    obtain ⟨hlt, -⟩ := List.getElem?_eq_some_iff.mp hrow
    exact ⟨row, (List.getElem?_append_left hlt).trans hrow, hholds⟩

theorem inv_tick (h : Inv s) (ms : Nat) : Inv { s with now := s.now + ms } where
  past row hrow c hc := by
    have hpast := h.past row hrow c hc
    change c ≤ s.now + ms
    omega
  claims := h.claims
  distinct := h.distinct
  nodup := h.nodup
  holds v hv r hr := by
    obtain ⟨row, hrow, hholds⟩ := h.holds v hv r hr
    refine ⟨row, hrow, hholds.imp_right fun hlate => ⟨?_, hlate.2⟩⟩
    have hlt := hlate.1
    change v.claimedAt < s.now + ms - claimLease
    omega

theorem inv_crash (h : Inv s) (i : Nat) : Inv { s with workers := s.workers.eraseIdx i } where
  past := h.past
  claims v hv := h.claims v (List.mem_of_mem_eraseIdx hv)
  distinct := h.distinct.sublist (List.eraseIdx_sublist _ i)
  nodup v hv := h.nodup v (List.mem_of_mem_eraseIdx hv)
  holds v hv := h.holds v (List.mem_of_mem_eraseIdx hv)

theorem getElem?_claim_of_mem {rows : List Nat} {r : Nat} (hr : r ∈ rows) {row : OutboxRow}
    (hrow : s.outbox[r]? = some row) :
    (s.claim rows).outbox[r]? = some { row with claimedAt := some s.now } := by
  change (s.outbox.mapIdx _)[r]? = _
  rw [List.getElem?_mapIdx, hrow, Option.map_some, if_pos hr]

theorem getElem?_claim_of_not_mem {rows : List Nat} {r : Nat} (hr : r ∉ rows) :
    (s.claim rows).outbox[r]? = s.outbox[r]? := by
  change (s.outbox.mapIdx _)[r]? = _
  rw [List.getElem?_mapIdx]
  simp [hr]

theorem getElem?_mark (r : Nat) (rest : List Nat) (ok : Bool) (q : Nat) :
    (s.mark i w r rest ok).outbox[q]? = if r = q then
      (s.outbox[q]?).map fun row => if ok then row.markProcessed else row.markFailed
      else s.outbox[q]? := by
  change (s.outbox.modify r _)[q]? = _
  rw [List.getElem?_modify]
  split
  · rfl
  · exact Option.map_id'

theorem inv_claim (h : Inv s) {rows : List Nat} (hnodup : rows.Nodup)
    (hrows : ∀ r ∈ rows, ∃ row, s.outbox[r]? = some row ∧ row.claimable s.now = true) :
    Inv (s.claim rows) where
  past row hrow := by
    obtain ⟨r, hr, rfl⟩ := List.mem_mapIdx.mp hrow
    split
    · exact fun c hc => (Option.mem_some_iff.mp hc).symm.le
    · exact h.past _ (List.getElem_mem hr)
  claims v hv := by
    rcases List.mem_append.mp hv with hv | hv
    · exact Nat.lt_succ_of_lt (h.claims v hv)
    · rw [List.mem_singleton.mp hv]
      exact Nat.lt_succ_self s.claims
  distinct := by
    refine List.pairwise_append.mpr ⟨h.distinct, List.pairwise_singleton _ _, ?_⟩
    intro v hv w hw
    exact List.mem_singleton.mp hw ▸ (h.claims v hv).ne
  nodup v hv := by
    rcases List.mem_append.mp hv with hv | hv
    · exact h.nodup v hv
    · exact List.mem_singleton.mp hv ▸ hnodup
  holds v hv r hr := by
    rcases List.mem_append.mp hv with hv | hv
    · obtain ⟨row, hrow, hholds⟩ := h.holds v hv r hr
      by_cases hmem : r ∈ rows
      · -- the claim this worker had has run out, and is taken over
        obtain ⟨row', hrow', hclaimable⟩ := hrows r hmem
        obtain rfl : row = row' := Option.some.inj (hrow.symm.trans hrow')
        have hlate : v.claimedAt < s.now - claimLease := by
          rcases hholds with ⟨-, hclaimed, -⟩ | ⟨hlate, -⟩
          · exact (claimable_iff.mp hclaimable).2.2 _ hclaimed
          · exact hlate
        refine ⟨_, getElem?_claim_of_mem hmem hrow, Or.inr ⟨hlate, fun c hc => ?_⟩⟩
        have hnow : s.now = c := Option.mem_some_iff.mp hc
        have hlease : (0 : Int) < claimLease := by decide
        omega
      · refine ⟨row, (getElem?_claim_of_not_mem hmem).trans hrow, ?_⟩
        change (if r ∈ rows then _ else s.holder r) = _ ∧ _ ∨ _
        rw [if_neg hmem]
        exact hholds
    · obtain rfl := List.mem_singleton.mp hv
      obtain ⟨row, hrow, hclaimable⟩ := hrows r hr
      exact ⟨_, getElem?_claim_of_mem hr hrow,
        Or.inl ⟨if_pos hr, rfl, (claimable_iff.mp hclaimable).1⟩⟩

/-- A worker whose claim time is on the row has the current claim. -/
theorem holder_of_stamped (h : Inv s) (hw : w ∈ s.workers) {r : Nat} (hr : r ∈ w.rows)
    (hstamped : ∀ row ∈ s.outbox[r]?, row.claimedAt = some w.claimedAt) :
    s.holder r = some w.claim := by
  obtain ⟨row, hrow, hholds⟩ := h.holds w hw r hr
  rcases hholds with ⟨hholder, -⟩ | ⟨-, hover⟩
  · exact hholder
  · exact absurd (hover _ (hstamped row hrow)) (lt_irrefl _)

theorem inv_mark (h : Inv s) (hw : s.workers[i]? = some w) {r : Nat} {rest : List Nat}
    (hrows : w.rows = r :: rest) (hholder : s.holder r = some w.claim) (ok : Bool) :
    Inv (s.mark i w r rest ok) where
  past row hrow := by
    obtain ⟨q, hq⟩ := List.mem_iff_getElem?.mp hrow
    rw [getElem?_mark] at hq
    split at hq
    · obtain ⟨row', hrow', rfl⟩ := Option.map_eq_some_iff.mp hq
      cases ok with
      | true => exact h.past row' (List.mem_of_getElem? hrow')
      | false => exact fun c hc => absurd hc (by simp [OutboxRow.markFailed])
    · exact h.past row (List.mem_of_getElem? hq)
  claims v hv := by
    rcases mem_of_mem_set hv with rfl | hv
    · exact h.claims w (List.mem_of_getElem? hw)
    · exact h.claims v hv
  distinct := by
    refine pairwise_set Distinct.symm h.distinct fun v hv => ?_
    exact pairwise_others Distinct.symm h.distinct hw v hv
  nodup v hv := by
    rcases mem_of_mem_set hv with rfl | hv
    · have hn := h.nodup w (List.mem_of_getElem? hw)
      rw [hrows] at hn
      exact hn.of_cons
    · exact h.nodup v hv
  holds v hv q hq := by
    -- the worker goes on with rows it has not marked, and any other one is not the holder of `r`
    have hkept : ∃ v' ∈ s.workers, v'.claim = v.claim ∧ v'.claimedAt = v.claimedAt ∧ q ∈ v'.rows ∧
        (q = r → v'.claim ≠ w.claim) := by
      rcases eq_or_mem_eraseIdx_of_mem_set hv with rfl | hv
      · refine ⟨w, List.mem_of_getElem? hw, rfl, rfl, hrows ▸ List.mem_cons_of_mem r hq, ?_⟩
        rintro rfl
        have hn := h.nodup w (List.mem_of_getElem? hw)
        rw [hrows] at hn
        exact absurd hq (List.nodup_cons.mp hn).1
      · refine ⟨v, List.mem_of_mem_eraseIdx hv, rfl, rfl, hq, fun _ => ?_⟩
        exact (pairwise_others Distinct.symm h.distinct hw v hv).symm
    obtain ⟨v', hv', hclaim, hclaimedAt, hq', hne⟩ := hkept
    obtain ⟨row, hrow, hholds⟩ := h.holds v' hv' q hq'
    rw [hclaim, hclaimedAt] at hholds
    by_cases hqr : q = r
    · subst hqr
      have hlate : v.claimedAt < s.now - claimLease ∧ ∀ c ∈ row.claimedAt, v.claimedAt < c := by
        refine hholds.resolve_left fun hown => hne rfl ?_
        rw [hclaim]
        exact Option.some.inj (hown.1.symm.trans hholder)
      refine ⟨if ok then row.markProcessed else row.markFailed, ?_, Or.inr ⟨hlate.1, ?_⟩⟩
      · rw [getElem?_mark, if_pos rfl, hrow, Option.map_some]
      · cases ok with
        | true => exact hlate.2
        | false => exact fun c hc => absurd hc (by simp [OutboxRow.markFailed])
    · refine ⟨row, ?_, ?_⟩
      · rw [getElem?_mark, if_neg (Ne.symm hqr)]
        exact hrow
      · cases ok with
        | true => exact hholds
        | false =>
          change (Function.update s.holder r none q = _ ∧ _) ∨ _
          rw [Function.update_of_ne hqr]
          exact hholds

/-- **What a stamped step keeps, and who changes rows in it.** -/
theorem inv_step (a : Action) (h : Inv s) (hg : Stamped s a) (hstep : step s a = some s') :
    Inv s' ∧ Owned s a s' := by
  cases a with
  | enqueue linkId operation =>
    refine Option.some.inj hstep ▸ ⟨inv_enqueue h linkId operation, fun r row hrow hne => hne ?_⟩
    obtain ⟨hlt, -⟩ := List.getElem?_eq_some_iff.mp hrow
    exact (List.getElem?_append_left hlt).trans hrow
  | claim rows =>
    rw [step] at hstep
    split at hstep
    · rename_i hcond
      have hrows : ∀ r ∈ rows, ∃ row, s.outbox[r]? = some row ∧ row.claimable s.now = true :=
        fun r hr => (Option.any_eq_true _ _).mp (hcond.2 r hr)
      refine Option.some.inj hstep ▸ ⟨inv_claim h hcond.1 hrows, fun r row hrow hne => ?_⟩
      by_cases hr : r ∈ rows
      · obtain ⟨row', hrow', hclaimable⟩ := hrows r hr
        exact ⟨hr, Option.some.inj (hrow.symm.trans hrow') ▸ hclaimable⟩
      · exact absurd ((getElem?_claim_of_not_mem hr).trans hrow) hne
    · exact absurd hstep (by simp)
  | mark i ok =>
    obtain ⟨w, hw, hstep⟩ := Option.bind_eq_some_iff.mp hstep
    rcases hrows : w.rows with _ | ⟨r, rest⟩
    · rw [hrows] at hstep
      exact absurd hstep (by simp)
    · rw [hrows] at hstep
      have hholder : s.holder r = some w.claim :=
        holder_of_stamped h (List.mem_of_getElem? hw) (hrows ▸ List.mem_cons_self)
          (hg w hw r (by rw [hrows]; rfl))
      refine Option.some.inj hstep ▸ ⟨inv_mark h hw hrows hholder ok, fun q row hrow hne => ?_⟩
      rw [getElem?_mark] at hne
      split at hne
      · rename_i hq
        exact ⟨w, hw, by rw [hrows, ← hq]; rfl, hq ▸ hholder⟩
      · exact absurd hrow hne
  | crash i =>
    obtain ⟨w, hw, hstep⟩ := Option.bind_eq_some_iff.mp hstep
    exact Option.some.inj hstep ▸ ⟨inv_crash h i, fun r row hrow hne => hne hrow⟩
  | tick ms =>
    exact Option.some.inj hstep ▸ ⟨inv_tick h ms, fun r row hrow hne => hne hrow⟩

end

/-- **Claims hold in every stamped run**, and only their holders change rows. -/
theorem guarded_claimsHold {now : Int} {outbox : List OutboxRow}
    (hpast : ∀ row ∈ outbox, ∀ c ∈ row.claimedAt, c ≤ now) {actions : List Action} {a : Action}
    {s s' : State} (hguard : Guarded step Stamped (start now outbox) (actions ++ [a]))
    (hrun : run step (start now outbox) actions = some s) (hstep : step s a = some s') :
    ClaimsHold s ∧ Owned s a s' ∧ ClaimsHold s' := by
  obtain ⟨hbefore, hlast⟩ := guarded_append.mp hguard
  have hstart : Inv (start now outbox) := by
    refine ⟨hpast, ?_, List.Pairwise.nil, ?_, ?_⟩
    · exact fun w hw => absurd hw List.not_mem_nil
    · exact fun w hw => absurd hw List.not_mem_nil
    · exact fun w hw => absurd hw List.not_mem_nil
  have hinv : Inv s :=
    invariant_of_guarded (fun _ b _ h hg hb => (inv_step b h hg hb).1) actions _ s hstart hbefore
      hrun
  obtain ⟨hinv', howned⟩ := inv_step a hinv (hlast s hrun).1 hstep
  exact ⟨claimsHold_of_inv hinv, howned, claimsHold_of_inv hinv'⟩

/-- A worker dies, and its row is claimed again and fails. -/
theorem claimsHold_deadWorker :
    ∃ s s', run step (start 0 [.enqueued "L1" .upsert]) [.claim [0], .crash 0, .tick 300001,
        .claim [0]] = some s ∧
      step s (.mark 0 false) = some s' ∧ ClaimsHold s' := by
  have hrun : (run step (start 0 [.enqueued "L1" .upsert]) [.claim [0], .crash 0, .tick 300001,
      .claim [0]]).any (fun s => (step s (.mark 0 false)).isSome) = true := by decide +kernel
  obtain ⟨s, hs, hstep⟩ := (Option.any_eq_true _ _).mp hrun
  obtain ⟨s', hs'⟩ := Option.isSome_iff_exists.mp hstep
  exact ⟨s, s', hs, hs',
    (guarded_claimsHold (by simp [OutboxRow.enqueued]) (by decide +kernel) hs hs').2.2⟩

/-- **A worker that comes back late.**  Its claim on row 0 has run out and another worker
has the row; its failed mark clears that worker's claim, so a third one claims the row
while the second is still within its lease. -/
theorem overrun_worker_releases_claim :
    ¬ ∀ (now : Int) (outbox : List OutboxRow) (actions : List Action) (s : State),
      (∀ row ∈ outbox, ∀ c ∈ row.claimedAt, c ≤ now) →
      run step (start now outbox) actions = some s → ClaimsHold s := by
  intro hall
  have hrun : (run step (start 0 [.enqueued "L1" .upsert]) [.claim [0], .tick 300001, .claim [0],
      .mark 0 false, .claim [0]]).any (fun s =>
        s.workers.tail = [⟨1, 300001, [0]⟩, ⟨2, 300001, [0]⟩] && s.now = 300001) = true := by
    decide +kernel
  obtain ⟨s, hs, hworkers⟩ := (Option.any_eq_true _ _).mp hrun
  rw [Bool.and_eq_true, decide_eq_true_eq, decide_eq_true_eq] at hworkers
  have hexclusive := (hall 0 _ _ s (by simp [OutboxRow.enqueued]) hs).exclusive
  have htail := hexclusive.sublist (List.tail_sublist _)
  rw [hworkers.1, hworkers.2] at htail
  refine (List.pairwise_cons.mp htail).1 _ List.mem_cons_self 0 (by simp) (by simp) ?_
  simp [Worker.Trusted, claimLease]

end SnapUrl.Projection.Claims
