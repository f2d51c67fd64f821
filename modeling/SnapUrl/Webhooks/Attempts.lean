import SnapUrl.Webhooks.Delivery

/-!
# Attempts of a delivery

A worker reads the attempts of a delivery with its select and writes them after the
POST, and nothing holds the row in between.

* `Accounted`: no attempt is POSTed twice, the stored attempts are the POSTs made, and
  they are at most `maxAttempts`.
* `Inv.move`, `Inv.leave`, `Inv.record`, `Inv.post`: what a worker's steps keep when no
  two workers have a row in common.
* `guarded_accounted`: **attempts are accounted for, and a delivered row stays
  delivered, in every run in which no select returns a row that another worker still
  has in hand and no worker is lost between a POST and its record.**
* `two_workers_send_twice`: two workers that select one row.
-/

namespace SnapUrl.Webhooks

open Lib

/-! ### Who owes what -/

/-- The delivery a worker has POSTed and not recorded. -/
def Worker.owes (w : Worker) : Option String :=
  match w.phase with
  | .succeeded _ | .failing _ _ _ false => w.rows.head?.map (·.id)
  | _ => none

/-- The rows a worker has not recorded yet. -/
def Worker.waiting (w : Worker) : List PendingDelivery :=
  match w.phase with
  | .ready | .succeeded _ | .failing _ _ _ false => w.rows
  | _ => w.rows.tail

/-- The row of a failure that is recorded, and that may be recorded once more. -/
def Worker.settled (w : Worker) : List PendingDelivery :=
  match w.phase with
  | .failing _ _ _ true | .unhealthy _ _ => w.rows.take 1
  | _ => []

def inFlight (workers : List Worker) (id : String) : Nat := workers.countP (·.owes = some id)

/-- The attempts of a delivery that were POSTed, in order. -/
def attemptsOf (posts : List Post) (id : String) : List Nat :=
  (posts.filter (·.delivery = id)).map (·.attempt)

/-- **Every attempt is one POST, and every POST one attempt.** -/
structure Accounted (s : World) : Prop where
  once : (s.posts.map fun p => (p.delivery, p.attempt)).Nodup
  counted : ∀ d ∈ s.deliveries,
    s.posts.countP (·.delivery = d.id) = d.attempts + inFlight s.workers d.id
  bounded : ∀ d ∈ s.deliveries, s.posts.countP (·.delivery = d.id) ≤ maxAttempts

/-- No row is in the hands of both. -/
def Apart (w w' : Worker) : Prop := ∀ r ∈ w.rows, ∀ r' ∈ w'.rows, r.id ≠ r'.id

/-- What a worker has read is still so. -/
structure Worker.Agrees (w : Worker) (deliveries : List Delivery) : Prop where
  nodup : (w.rows.map (·.id)).Nodup
  waiting : ∀ r ∈ w.waiting, ∀ d ∈ deliveries, d.id = r.id →
    d.attempts = r.attempts ∧ d.status = .pending
  settled : ∀ r ∈ w.settled, ∀ d ∈ deliveries, d.id = r.id →
    d.attempts = r.attempts + 1 ∧ d.status ≠ .delivered

/-- A row another attempt is due for has one left. -/
def Delivery.InLimit (d : Delivery) : Prop :=
  d.attempts ≤ maxAttempts ∧ (d.status = .pending → d.attempts < maxAttempts)

/-- No two workers have a row in common, and what they have read is still so. -/
structure Tidy (deliveries : List Delivery) (workers : List Worker) : Prop where
  nodup : (deliveries.map (·.id)).Nodup
  apart : workers.Pairwise Apart
  agrees : ∀ w ∈ workers, w.Agrees deliveries
  inLimit : ∀ d ∈ deliveries, d.InLimit
  held : ∀ w ∈ workers, ∀ r ∈ w.rows, r.id ∈ deliveries.map (·.id)

structure Inv (deliveries : List Delivery) (workers : List Worker) (posts : List Post) : Prop
    extends Tidy deliveries workers where
  posted : ∀ p ∈ posts, p.delivery ∈ deliveries.map (·.id)
  counted : ∀ d ∈ deliveries,
    attemptsOf posts d.id = List.range' 1 (d.attempts + inFlight workers d.id)

theorem attemptsOf_concat (posts : List Post) (p : Post) (id : String) :
    attemptsOf (posts ++ [p]) id =
      attemptsOf posts id ++ if p.delivery = id then [p.attempt] else [] := by
  rw [attemptsOf, List.filter_append, List.map_append, ← attemptsOf]
  by_cases hid : p.delivery = id
  · simp [hid]
  · simp [hid]

theorem Apart.symm {w w' : Worker} (h : Apart w w') : Apart w' w :=
  fun r hr r' hr' => (h r' hr' r hr).symm

theorem Apart.mono {w w' v : Worker} (h : Apart w v) (hrows : w'.rows ⊆ w.rows) : Apart w' v :=
  fun r hr r' hr' => h r (hrows hr) r' hr'

theorem mem_rows_of_owes {w : Worker} {id : String} (h : w.owes = some id) :
    ∃ r rest, w.rows = r :: rest ∧ r.id = id ∧ w.waiting = w.rows := by
  have hhead : w.rows.head?.map (·.id) = some id ∧ w.waiting = w.rows := by
    rw [Worker.owes] at h
    rw [Worker.waiting]
    split at h
    · rename_i hphase
      rw [hphase]
      exact ⟨h, rfl⟩
    · rename_i hphase
      rw [hphase]
      exact ⟨h, rfl⟩
    · exact absurd h (by simp)
  rcases hrows : w.rows with _ | ⟨r, rest⟩
  · rw [hrows] at hhead
    exact absurd hhead.1 (by simp)
  · rw [hrows] at hhead
    exact ⟨r, rest, rfl, by simpa using hhead.1, hhead.2⟩

theorem waiting_subset (w : Worker) : w.waiting ⊆ w.rows := by
  rw [Worker.waiting]
  split
  · exact fun _ h => h
  · exact fun _ h => h
  · exact fun _ h => h
  · exact fun _ h => List.mem_of_mem_tail h

theorem settled_subset (w : Worker) : w.settled ⊆ w.rows := by
  rw [Worker.settled]
  split
  · exact List.take_subset _ _
  · exact List.take_subset _ _
  · exact List.nil_subset _

/-! ### One worker among others -/

section

variable {deliveries : List Delivery} {workers : List Worker} {posts : List Post} {i : Nat}
  {w w' : Worker}

/-- The count of a delivery when one worker changes. -/
theorem inFlight_set (hw : workers[i]? = some w) (w' : Worker) (id : String) :
    inFlight (workers.set i w') id + (if w.owes = some id then 1 else 0) =
      inFlight workers id + if w'.owes = some id then 1 else 0 := by
  obtain ⟨pre, post, rfl, hset⟩ := exists_split_of_getElem? hw
  rw [hset, inFlight, inFlight, List.countP_append, List.countP_append, List.countP_cons,
    List.countP_cons]
  simp only [decide_eq_true_eq]
  omega

theorem inFlight_eraseIdx (hw : workers[i]? = some w) (id : String) :
    inFlight workers id =
      inFlight (workers.eraseIdx i) id + if w.owes = some id then 1 else 0 := by
  obtain ⟨hi, rfl⟩ := List.getElem?_eq_some_iff.mp hw
  have hsplit : workers.take i ++ workers[i] :: workers.drop (i + 1) = workers := by
    rw [← List.drop_eq_getElem_cons hi, List.take_append_drop]
  conv_lhs => rw [inFlight, ← hsplit, List.countP_append, List.countP_cons]
  rw [inFlight, List.eraseIdx_eq_take_drop_succ, List.countP_append]
  simp only [decide_eq_true_eq]
  omega

/-- A row that one worker has in hand is owed by no other. -/
theorem inFlight_of_mem (hapart : workers.Pairwise Apart) (hw : workers[i]? = some w)
    {r : PendingDelivery} (hr : r ∈ w.rows) :
    inFlight workers r.id = if w.owes = some r.id then 1 else 0 := by
  have hothers := pairwise_others Apart.symm hapart hw
  rw [inFlight_eraseIdx hw, Nat.add_eq_right]
  refine List.countP_eq_zero.mpr fun v hv howes => ?_
  obtain ⟨r', rest, hrows, hid, -⟩ := mem_rows_of_owes (of_decide_eq_true howes)
  exact hothers v hv r hr r' (hrows ▸ List.mem_cons_self) hid.symm

theorem apart_set (h : workers.Pairwise Apart) (hw : workers[i]? = some w)
    (hrows : w'.rows ⊆ w.rows) : (workers.set i w').Pairwise Apart :=
  pairwise_set Apart.symm h fun v hv => (pairwise_others Apart.symm h hw v hv).mono hrows

theorem Tidy.set (h : Tidy deliveries workers) (hw : workers[i]? = some w)
    (hrows : w'.rows ⊆ w.rows) (hagrees : w'.Agrees deliveries) :
    Tidy deliveries (workers.set i w') where
  nodup := h.nodup
  apart := apart_set h.apart hw hrows
  agrees v hv := by
    rcases eq_or_mem_eraseIdx_of_mem_set hv with rfl | hv
    · exact hagrees
    · exact h.agrees v (List.mem_of_mem_eraseIdx hv)
  inLimit := h.inLimit
  held v hv := by
    rcases eq_or_mem_eraseIdx_of_mem_set hv with rfl | hv
    · exact fun r hr => h.held w (List.mem_of_getElem? hw) r (hrows hr)
    · exact h.held v (List.mem_of_mem_eraseIdx hv)

/-- A worker goes on with the same row or the rest of them. -/
theorem Inv.move (h : Inv deliveries workers posts) (hw : workers[i]? = some w)
    (hrows : w'.rows ⊆ w.rows) (howes : w'.owes = w.owes) (hagrees : w'.Agrees deliveries) :
    Inv deliveries (workers.set i w') posts where
  toTidy := h.toTidy.set hw hrows hagrees
  posted := h.posted
  counted d hd := by
    have hset := inFlight_set hw w' d.id
    rw [howes] at hset
    rw [h.counted d hd, Nat.add_right_cancel hset]

/-- A worker that owes nothing ends or dies. -/
theorem Inv.leave (h : Inv deliveries workers posts) (hw : workers[i]? = some w)
    (howes : w.owes = none) : Inv deliveries (workers.eraseIdx i) posts where
  nodup := h.nodup
  apart := h.apart.sublist (List.eraseIdx_sublist _ i)
  agrees v hv := h.agrees v (List.mem_of_mem_eraseIdx hv)
  inLimit := h.inLimit
  held v hv := h.held v (List.mem_of_mem_eraseIdx hv)
  posted := h.posted
  counted d hd := by
    have hone := inFlight_eraseIdx hw d.id
    rw [howes, if_neg (by simp), Nat.add_zero] at hone
    rw [h.counted d hd, hone]

/-- A worker POSTs the first of its rows. -/
theorem Inv.post (h : Inv deliveries workers posts) (hw : workers[i]? = some w)
    {row : PendingDelivery} (hrow : row ∈ w.waiting) (hnone : w.owes = none)
    (hrows : w'.rows ⊆ w.rows) (howes : w'.owes = some row.id) (hagrees : w'.Agrees deliveries)
    {p : Post} (hp : p.delivery = row.id ∧ p.attempt = row.attempts + 1) :
    Inv deliveries (workers.set i w') (posts ++ [p]) where
  toTidy := h.toTidy.set hw hrows hagrees
  posted q hq := by
    rcases List.mem_append.mp hq with hq | hq
    · exact h.posted q hq
    · rw [List.mem_singleton.mp hq, hp.1]
      exact h.held w (List.mem_of_getElem? hw) row (waiting_subset w hrow)
  counted d hd := by
    have hset := inFlight_set hw w' d.id
    rw [hnone, howes, if_neg (by simp), Nat.add_zero] at hset
    simp only [Option.some.injEq] at hset
    rw [attemptsOf_concat, h.counted d hd, hset, hp.1]
    by_cases hid : row.id = d.id
    · have hfree := inFlight_of_mem h.apart hw (waiting_subset w hrow)
      rw [hnone, if_neg (by simp)] at hfree
      have hread := (h.agrees w (List.mem_of_getElem? hw)).waiting row hrow d hd hid.symm
      rw [if_pos hid, if_pos hid, ← hid, hfree, hread.1, hp.2, Nat.add_zero, Nat.zero_add,
        List.range'_1_concat, Nat.add_comm 1]
    · rw [if_neg hid, if_neg hid, List.append_nil, Nat.add_zero]

section

variable {id : String} {f : Delivery → Delivery} (hf : ∀ d ∈ deliveries, d.id = id → (f d).id = id)
include hf

theorem map_id_update :
    (deliveries.map fun d => if d.id = id then f d else d).map (·.id) = deliveries.map (·.id) := by
  rw [List.map_map]
  refine List.map_congr_left fun d hd => ?_
  rw [Function.comp_apply]
  split
  · rename_i hid
    exact (hf d hd hid).trans hid.symm
  · rfl

theorem mem_of_mem_update {d : Delivery}
    (hd : d ∈ deliveries.map fun d => if d.id = id then f d else d) (hid : d.id ≠ id) :
    d ∈ deliveries := by
  obtain ⟨e, he, rfl⟩ := List.mem_map.mp hd
  by_cases hid' : e.id = id
  · rw [if_pos hid'] at hid
    exact absurd (hf e he hid') hid
  · rw [if_neg hid']
    exact he

/-- A row that another worker has in hand is not touched by an update. -/
theorem Worker.Agrees.update {v : Worker} (h : v.Agrees deliveries)
    (hid : ∀ r ∈ v.rows, r.id ≠ id) :
    v.Agrees (deliveries.map fun d => if d.id = id then f d else d) where
  nodup := h.nodup
  waiting r hr d hd heq := by
    have hne : d.id ≠ id := heq ▸ hid r (waiting_subset v hr)
    exact h.waiting r hr d (mem_of_mem_update hf hd hne) heq
  settled r hr d hd heq := by
    have hne : d.id ≠ id := heq ▸ hid r (settled_subset v hr)
    exact h.settled r hr d (mem_of_mem_update hf hd hne) heq

end

/-- A worker records the outcome for the first of its rows. -/
theorem Inv.record (h : Inv deliveries workers posts) (hw : workers[i]? = some w)
    {row : PendingDelivery} (hrow : row ∈ w.rows) {f : Delivery → Delivery}
    (hf : ∀ d ∈ deliveries, d.id = row.id → (f d).id = row.id)
    (hlimit : ∀ d ∈ deliveries, d.id = row.id → (f d).InLimit)
    (hcount : ∀ d ∈ deliveries, d.id = row.id →
      (f d).attempts + (if w'.owes = some row.id then 1 else 0) =
        d.attempts + if w.owes = some row.id then 1 else 0)
    (hrows : w'.rows ⊆ w.rows) (hother : ∀ id, id ≠ row.id → (w'.owes = some id ↔ w.owes = some id))
    (hagrees : w'.Agrees (deliveries.map fun d => if d.id = row.id then f d else d)) :
    Inv (deliveries.map fun d => if d.id = row.id then f d else d) (workers.set i w') posts where
  nodup := by
    rw [map_id_update hf]
    exact h.nodup
  apart := apart_set h.apart hw hrows
  agrees v hv := by
    rcases eq_or_mem_eraseIdx_of_mem_set hv with rfl | hv
    · exact hagrees
    · refine (h.agrees v (List.mem_of_mem_eraseIdx hv)).update hf fun r hr => ?_
      exact (pairwise_others Apart.symm h.apart hw v hv row hrow r hr).symm
  inLimit d hd := by
    obtain ⟨e, he, rfl⟩ := List.mem_map.mp hd
    split
    · rename_i hid
      exact hlimit e he hid
    · exact h.inLimit e he
  held v hv := by
    rw [map_id_update hf]
    rcases eq_or_mem_eraseIdx_of_mem_set hv with rfl | hv
    · exact fun r hr => h.held w (List.mem_of_getElem? hw) r (hrows hr)
    · exact h.held v (List.mem_of_mem_eraseIdx hv)
  posted := by
    rw [map_id_update hf]
    exact h.posted
  counted d hd := by
    obtain ⟨e, he, rfl⟩ := List.mem_map.mp hd
    have hset := inFlight_set hw w' e.id
    by_cases hid : e.id = row.id
    · have hc := hcount e he hid
      rw [if_pos hid, hf e he hid, ← hid, h.counted e he]
      rw [← hid] at hc
      have htotal : e.attempts + inFlight workers e.id =
          (f e).attempts + inFlight (workers.set i w') e.id := by omega
      rw [htotal]
    · have hiff := hother e.id hid
      rw [if_neg hid, h.counted e he]
      simp only [hiff] at hset
      rw [Nat.add_right_cancel hset]

end

/-! ### A select -/

section

variable {now : Int} {deliveries : List Delivery} {webhooks : List Webhook} {batchSize : Nat}
  {skipped : List String}

/-- The deliveries a select joins with their endpoint, in their order. -/
theorem map_id_due_sublist (p : Delivery → Prop) [DecidablePred p]
    (endpoint : Delivery → Option Webhook) (deliveries : List Delivery) :
    ((deliveries.filterMap fun d => if p d then (endpoint d).map fun w => (d, w) else none).map
      (·.1)).Sublist deliveries := by
  induction deliveries with
  | nil => exact List.Sublist.slnil
  | cons d deliveries ih =>
    rw [List.filterMap_cons]
    by_cases hp : p d
    · rw [if_pos hp]
      cases endpoint d with
      | none => exact ih.cons d
      | some w => exact ih.cons_cons d
    · rw [if_neg hp]
      exact ih.cons d

/-- What a select returns is read off pending rows that are due. -/
theorem mem_selectDue {r : PendingDelivery}
    (hr : r ∈ selectDue now deliveries webhooks batchSize skipped) :
    ∃ d ∈ deliveries, d.due now = true ∧ r.id = d.id ∧ r.attempts = d.attempts := by
  obtain ⟨⟨d, w⟩, hx, rfl⟩ := List.mem_map.mp hr
  have hdue := (List.perm_insertionSort _ _).mem_iff.mp (List.mem_of_mem_take hx)
  obtain ⟨d', hd', hsome⟩ := List.mem_filterMap.mp hdue
  split at hsome
  · rename_i hp
    obtain ⟨w', -, heq⟩ := Option.map_eq_some_iff.mp hsome
    obtain ⟨rfl, rfl⟩ := Prod.mk.inj heq
    exact ⟨d', hd', hp.1, rfl, rfl⟩
  · exact absurd hsome (by simp)

theorem nodup_selectDue (h : (deliveries.map (·.id)).Nodup) :
    ((selectDue now deliveries webhooks batchSize skipped).map (·.id)).Nodup := by
  rw [selectDue, List.map_map]
  have hdue := ((map_id_due_sublist (fun d => d.due now ∧ d.id ∉ skipped)
    (fun d => webhooks.find? fun w => w.id = d.webhookId ∧ w.disabledAt.isNone) deliveries).map
      (·.id)).nodup h
  rw [List.map_map] at hdue
  have hsorted := ((List.perm_insertionSort (fun x y => x.1.createdAt ≤ y.1.createdAt) _).map
    ((fun d : Delivery => d.id) ∘ Prod.fst)).nodup_iff.mpr hdue
  exact ((List.take_sublist batchSize _).map _).nodup hsorted

end

/-! ### A run -/

/-- A statement of the worker that raises, or its death, loses the record of a POST. -/
def Worker.CannotRaise (w : Worker) : Prop :=
  match w.phase with
  | .healthy | .failing _ _ true false => True
  | _ => False

/-- A select returns no row that another worker has in hand, a worker that has POSTed does
not die before it has recorded that, and the statements that record it last do not raise. -/
def Exclusive (s : World) : Action → Prop
  | .selects batchSize skipped =>
    ∀ r ∈ selectDue s.now s.deliveries s.webhooks batchSize skipped,
      ∀ w ∈ s.workers, ∀ r' ∈ w.rows, r.id ≠ r'.id
  | .exec i (some _) => ∀ w ∈ s.workers[i]?, ¬ w.CannotRaise
  | .dies i => ∀ w ∈ s.workers[i]?, w.owes = none
  | _ => True

instance (w : Worker) : Decidable w.CannotRaise := by
  unfold Worker.CannotRaise
  split
  · exact isTrue trivial
  · exact isTrue trivial
  · exact isFalse id

instance (s : World) : ∀ a, Decidable (Exclusive s a)
  | .selects _ _ => inferInstanceAs (Decidable (∀ r ∈ selectDue _ _ _ _ _, _))
  | .exec i (some _) => inferInstanceAs (Decidable (∀ w ∈ s.workers[i]?, ¬ w.CannotRaise))
  | .dies i => inferInstanceAs (Decidable (∀ w ∈ s.workers[i]?, w.owes = none))
  | .exec _ none => isTrue trivial
  | .tick _ => isTrue trivial
  | .enqueue .. => isTrue trivial
  | .post .. => isTrue trivial

/-- What is delivered stays delivered. -/
def Kept (deliveries deliveries' : List Delivery) : Prop :=
  ∀ d ∈ deliveries, d.status = .delivered →
    ∃ d' ∈ deliveries', d'.id = d.id ∧ d'.status = .delivered

theorem Kept.refl (deliveries : List Delivery) : Kept deliveries deliveries :=
  fun d hd hs => ⟨d, hd, rfl, hs⟩

theorem Kept.trans {ds ds' ds'' : List Delivery} (h : Kept ds ds') (h' : Kept ds' ds'') :
    Kept ds ds'' := by
  intro d hd hs
  obtain ⟨d', hd', hid', hs'⟩ := h d hd hs
  obtain ⟨d'', hd'', hid'', hs''⟩ := h' d' hd' hs'
  exact ⟨d'', hd'', hid''.trans hid', hs''⟩

theorem kept_update {deliveries : List Delivery} {id : String} {f : Delivery → Delivery}
    (hf : ∀ d ∈ deliveries, d.id = id → (f d).id = id)
    (h : ∀ d ∈ deliveries, d.id = id → d.status = .delivered → (f d).status = .delivered) :
    Kept deliveries (deliveries.map fun d => if d.id = id then f d else d) := by
  intro d hd hs
  refine ⟨_, List.mem_map_of_mem hd, ?_⟩
  by_cases hid : d.id = id
  · rw [if_pos hid]
    exact ⟨(hf d hd hid).trans hid.symm, h d hd hid hs⟩
  · rw [if_neg hid]
    exact ⟨rfl, hs⟩

section

variable {deliveries : List Delivery} {workers : List Worker} {posts : List Post} {i : Nat}
  {w w' : Worker}

/-- An event is queued. -/
theorem Inv.enqueue (h : Inv deliveries workers posts) {d : Delivery}
    (hfresh : d.id ∉ deliveries.map (·.id)) (hlimit : d.InLimit) (hattempts : d.attempts = 0) :
    Inv (deliveries ++ [d]) workers posts where
  nodup := by
    rw [List.map_append]
    exact h.nodup.append (List.nodup_singleton _) (by simpa using hfresh)
  apart := h.apart
  agrees v hv := by
    have hold : ∀ r ∈ v.rows, ∀ e ∈ deliveries ++ [d], e.id = r.id → e ∈ deliveries := by
      intro r hr e he hid
      rcases List.mem_append.mp he with he | he
      · exact he
      · rw [List.mem_singleton.mp he] at hid
        exact absurd (hid ▸ h.held v hv r hr) hfresh
    refine ⟨(h.agrees v hv).nodup, fun r hr e he hid => ?_, fun r hr e he hid => ?_⟩
    · exact (h.agrees v hv).waiting r hr e (hold r (waiting_subset v hr) e he hid) hid
    · exact (h.agrees v hv).settled r hr e (hold r (settled_subset v hr) e he hid) hid
  inLimit e he := by
    rcases List.mem_append.mp he with he | he
    · exact h.inLimit e he
    · exact List.mem_singleton.mp he ▸ hlimit
  held v hv r hr := by
    rw [List.map_append]
    exact List.mem_append_left _ (h.held v hv r hr)
  posted p hp := by
    rw [List.map_append]
    exact List.mem_append_left _ (h.posted p hp)
  counted e he := by
    rcases List.mem_append.mp he with he | he
    · exact h.counted e he
    · rw [List.mem_singleton.mp he, hattempts]
      have hposts : attemptsOf posts d.id = [] := by
        rw [attemptsOf, List.filter_eq_nil_iff.mpr, List.map_nil]
        intro p hp hid
        exact hfresh (of_decide_eq_true hid ▸ h.posted p hp)
      have hflight : inFlight workers d.id = 0 := by
        refine List.countP_eq_zero.mpr fun v hv howes => ?_
        obtain ⟨r, rest, hrows, hid, -⟩ := mem_rows_of_owes (of_decide_eq_true howes)
        exact hfresh (hid ▸ h.held v hv r (hrows ▸ List.mem_cons_self))
      rw [hposts, hflight]
      rfl

/-- A job starts with what its select returns. -/
theorem Inv.selects (h : Inv deliveries workers posts) {rows : List PendingDelivery}
    (hnodup : (rows.map (·.id)).Nodup)
    (hrows : ∀ r ∈ rows, ∃ d ∈ deliveries, d.status = .pending ∧ r.id = d.id ∧
      r.attempts = d.attempts)
    (hfree : ∀ r ∈ rows, ∀ w ∈ workers, ∀ r' ∈ w.rows, r.id ≠ r'.id) :
    Inv deliveries (workers ++ [⟨rows, .ready, 0, 0⟩]) posts where
  nodup := h.nodup
  apart := by
    refine List.pairwise_append.mpr ⟨h.apart, List.pairwise_singleton _ _, ?_⟩
    intro v hv v' hv' r hr r' hr'
    rw [List.mem_singleton.mp hv'] at hr'
    exact (hfree r' hr' v hv r hr).symm
  agrees v hv := by
    rcases List.mem_append.mp hv with hv | hv
    · exact h.agrees v hv
    · rw [List.mem_singleton.mp hv]
      refine ⟨hnodup, fun r hr e he hid => ?_, fun r hr => absurd hr List.not_mem_nil⟩
      obtain ⟨d, hd, hs, hid', hattempts⟩ := hrows r hr
      have hde : e = d := List.inj_on_of_nodup_map h.nodup he hd (hid.trans hid')
      exact hde ▸ ⟨hattempts.symm, hs⟩
  inLimit := h.inLimit
  held v hv r hr := by
    rcases List.mem_append.mp hv with hv | hv
    · exact h.held v hv r hr
    · rw [List.mem_singleton.mp hv] at hr
      obtain ⟨d, hd, -, hid, -⟩ := hrows r hr
      exact hid ▸ List.mem_map_of_mem hd
  posted := h.posted
  counted d hd := by
    rw [h.counted d hd, inFlight, inFlight, List.countP_append]
    rfl

/-- The worker after its row is recorded, one way or the other. -/
theorem Worker.Agrees.recorded {row : PendingDelivery} {rest : List PendingDelivery}
    {f : Delivery → Delivery} (h : w.Agrees deliveries) (hrows : w.rows = row :: rest)
    (hf : ∀ d ∈ deliveries, d.id = row.id → (f d).id = row.id)
    (hrest : rest ⊆ w.waiting) (hrows' : w'.rows = row :: rest) (hwaiting : w'.waiting = rest)
    (hsettled : w'.settled ⊆ [row])
    (hrec : row ∈ w'.settled → ∀ d ∈ deliveries, d.id = row.id →
      (f d).attempts = row.attempts + 1 ∧ (f d).status ≠ .delivered) :
    w'.Agrees (deliveries.map fun d => if d.id = row.id then f d else d) where
  nodup := by
    rw [hrows', ← hrows]
    exact h.nodup
  waiting r hr d hd hid := by
    rw [hwaiting] at hr
    have hne : r.id ≠ row.id := by
      have hn := h.nodup
      rw [hrows, List.map_cons, List.nodup_cons] at hn
      exact fun heq => hn.1 (heq ▸ List.mem_map_of_mem hr)
    exact h.waiting r (hrest hr) d (mem_of_mem_update hf hd (hid ▸ hne)) hid
  settled r hr d hd hid := by
    obtain rfl : r = row := List.mem_singleton.mp (hsettled hr)
    obtain ⟨e, he, rfl⟩ := List.mem_map.mp hd
    by_cases heq : e.id = r.id
    · rw [if_pos heq]
      exact hrec hr e he heq
    · rw [if_neg heq] at hid
      exact absurd hid heq

end

/-! ### Steps -/

section

variable {s s' : World} {i : Nat} {w : Worker} {row : PendingDelivery} {rest : List PendingDelivery}

def World.Inv (s : World) : Prop := Webhooks.Inv s.deliveries s.workers s.posts

theorem recordFailure_inLimit {now : Int} {error : String} {code : Option Nat} (d : Delivery)
    (h : row.attempts + 1 ≤ maxAttempts) : (d.recordFailure now row error code).InLimit := by
  refine ⟨h, fun hpending => ?_⟩
  change (if maxAttempts ≤ row.attempts + 1 then DeliveryStatus.failed else .pending) = _
    at hpending
  split at hpending
  · exact absurd hpending (by simp)
  · exact Nat.lt_of_not_le ‹_›

theorem recordFailure_ne_delivered {now : Int} {error : String} {code : Option Nat} (d : Delivery) :
    (d.recordFailure now row error code).status ≠ .delivered := by
  change (if maxAttempts ≤ row.attempts + 1 then DeliveryStatus.failed else .pending) ≠ _
  split
  · simp
  · simp

/-- A worker records a POST, or records a failure once more. -/
theorem inv_recordFailure (h : s.Inv) (hw : s.workers[i]? = some w) (hrows : w.rows = row :: rest)
    {error : String} {code : Option Nat} {caught recorded : Bool}
    (hphase : w.phase = .failing error code caught recorded) :
    ((s.updateDelivery row.id (·.recordFailure s.now row error code)).setPhase i w
        (.unhealthy error caught)).Inv ∧
      Kept s.deliveries
        (s.updateDelivery row.id (·.recordFailure s.now row error code)).deliveries := by
  have hagrees := h.agrees w (List.mem_of_getElem? hw)
  have hrow : row ∈ w.rows := hrows ▸ List.mem_cons_self
  have hf : ∀ d ∈ s.deliveries, d.id = row.id →
      (d.recordFailure s.now row error code).id = row.id := fun _ _ hid => hid
  -- the attempts are what they were read as, or one more where they are recorded
  have hread : ∀ d ∈ s.deliveries, d.id = row.id →
      row.attempts + 1 = d.attempts + (if recorded then 0 else 1) ∧ d.status ≠ .delivered ∧
        row.attempts + 1 ≤ maxAttempts := by
    intro d hd hid
    cases recorded with
    | false =>
      have hwait := hagrees.waiting row (by simp [Worker.waiting, hphase, hrows]) d hd hid
      refine ⟨by rw [hwait.1]; rfl, by simp [hwait.2], ?_⟩
      exact hwait.1 ▸ (h.inLimit d hd).2 hwait.2
    | true =>
      have hsettled := hagrees.settled row (by simp [Worker.settled, hphase, hrows]) d hd hid
      exact ⟨hsettled.1.symm, hsettled.2, hsettled.1 ▸ (h.inLimit d hd).1⟩
  refine ⟨?_, kept_update hf fun d hd hid hs => absurd hs (hread d hd hid).2.1⟩
  refine Inv.record h hw hrow hf
    (fun d hd hid => recordFailure_inLimit d (hread d hd hid).2.2) (fun d hd hid => ?_)
    (List.Subset.refl _) (fun id hid => ?_) ?_
  · have hone := (hread d hd hid).1
    cases recorded with
    | false => simpa [Worker.owes, hphase, hrows, Delivery.recordFailure] using hone
    | true => simpa [Worker.owes, hphase, hrows, Delivery.recordFailure] using hone
  · cases recorded with
    | false => simp [Worker.owes, hphase, hrows, Ne.symm hid]
    | true => simp [Worker.owes, hphase]
  · refine hagrees.recorded hrows hf ?_ hrows (by simp [Worker.waiting, hrows])
      (by simp [Worker.settled, hrows]) fun _ d _ _ => ⟨rfl, recordFailure_ne_delivered d⟩
    cases recorded with
    | false => simp [Worker.waiting, hphase, hrows]
    | true => simp [Worker.waiting, hphase, hrows]

theorem inv_succeed (h : s.Inv) (hw : s.workers[i]? = some w) (hrows : w.rows = row :: rest)
    {code : Nat} (hphase : w.phase = .succeeded code) :
    ((s.updateDelivery row.id (·.succeed s.now code)).setPhase i w .healthy).Inv ∧
      Kept s.deliveries (s.updateDelivery row.id (·.succeed s.now code)).deliveries := by
  have hagrees := h.agrees w (List.mem_of_getElem? hw)
  have hrow : row ∈ w.rows := hrows ▸ List.mem_cons_self
  have hf : ∀ d ∈ s.deliveries, d.id = row.id → (d.succeed s.now code).id = row.id :=
    fun _ _ hid => hid
  refine ⟨?_, kept_update hf fun _ _ _ _ => rfl⟩
  refine Inv.record h hw hrow hf (fun d hd hid => ?_) (fun d hd hid => ?_)
    (List.Subset.refl _) (fun id hid => ?_) ?_
  · have hwait := hagrees.waiting row (by simp [Worker.waiting, hphase, hrows]) d hd hid
    exact ⟨(h.inLimit d hd).2 hwait.2, by simp [Delivery.succeed]⟩
  · simp [Worker.owes, hphase, hrows, Delivery.succeed]
  · simp [Worker.owes, hphase, hrows, Ne.symm hid]
  · exact hagrees.recorded hrows hf (by simp [Worker.waiting, hphase, hrows]) hrows
      (by simp [Worker.waiting, hrows]) (by simp [Worker.settled]) (by simp [Worker.settled])

/-- A worker goes on with its row, or with the rest of them. -/
theorem inv_setWorker (h : s.Inv) (hw : s.workers[i]? = some w) (w' : Worker)
    (hrows : w'.rows ⊆ w.rows) (hn : (w'.rows.map (·.id)).Nodup) (howes : w'.owes = w.owes)
    (hwaiting : w'.waiting ⊆ w.waiting) (hsettled : w'.settled ⊆ w.settled) :
    (s.setWorker i w').Inv ∧ Kept s.deliveries (s.setWorker i w').deliveries := by
  have hagrees := h.agrees w (List.mem_of_getElem? hw)
  refine ⟨Inv.move h hw hrows howes ?_, Kept.refl _⟩
  exact ⟨hn, fun r hr => hagrees.waiting r (hwaiting hr),
    fun r hr => hagrees.settled r (hsettled hr)⟩

/-- A statement that completes takes the worker on with its row, or with the next one. -/
theorem inv_completes (h : s.Inv) (hw : s.workers[i]? = some w) (hrows : w.rows = row :: rest)
    (hexec : s.exec i w row rest none = some s') : s'.Inv ∧ Kept s.deliveries s'.deliveries := by
  have hrest : (rest.map (·.id)).Nodup := by
    have hn := (h.agrees w (List.mem_of_getElem? hw)).nodup
    rw [hrows, List.map_cons] at hn
    exact hn.of_cons
  cases hphase : w.phase with
  | ready => simp [World.exec, hphase] at hexec
  | succeeded code =>
    simp only [World.exec, hphase, Option.some.injEq] at hexec
    exact hexec ▸ inv_succeed h hw hrows hphase
  | failing error code caught recorded =>
    simp only [World.exec, hphase, Option.some.injEq] at hexec
    exact hexec ▸ inv_recordFailure h hw hrows hphase
  | healthy =>
    simp only [World.exec, hphase, Option.some.injEq] at hexec
    refine hexec ▸ inv_setWorker h hw ⟨rest, .ready, w.sent + 1, w.failed⟩ ?_ hrest ?_ ?_ ?_
    · simp [hrows]
    · simp [Worker.owes, hphase]
    · simp [Worker.waiting, hphase, hrows]
    · simp [Worker.settled]
  | unhealthy error caught =>
    simp only [World.exec, hphase, Option.some.injEq] at hexec
    refine hexec ▸ inv_setWorker h hw ⟨rest, .ready, w.sent, w.failed + 1⟩ ?_ hrest ?_ ?_ ?_
    · simp [hrows]
    · simp [Worker.owes, hphase]
    · simp [Worker.waiting, hphase, hrows]
    · simp [Worker.settled]

/-- A statement that raises leaves the worker in its catch block, or ends it. -/
theorem inv_raises (h : s.Inv) (hw : s.workers[i]? = some w) {raised : String}
    (hkeep : ¬ w.CannotRaise) (hexec : s.exec i w row rest (some raised) = some s') :
    s'.Inv ∧ Kept s.deliveries s'.deliveries := by
  have hn := (h.agrees w (List.mem_of_getElem? hw)).nodup
  cases hphase : w.phase with
  | ready => simp [World.exec, hphase] at hexec
  | healthy => exact absurd (by simp [Worker.CannotRaise, hphase]) hkeep
  | succeeded code =>
    simp only [World.exec, hphase, Option.some.injEq] at hexec
    refine hexec ▸ inv_setWorker h hw _ (List.Subset.refl _) hn ?_ ?_ ?_
    · simp [Worker.owes, hphase]
    · simp [Worker.waiting, hphase]
    · simp [Worker.settled]
  | failing error code caught recorded =>
    cases caught with
    | false =>
      simp only [World.exec, hphase, Option.some.injEq] at hexec
      refine hexec ▸ inv_setWorker h hw _ (List.Subset.refl _) hn ?_ ?_ ?_
      · cases recorded with
        | false => simp [Worker.owes, hphase]
        | true => simp [Worker.owes, hphase]
      · cases recorded with
        | false => simp [Worker.waiting, hphase]
        | true => simp [Worker.waiting, hphase]
      · cases recorded with
        | false => simp [Worker.settled, hphase]
        | true => simp [Worker.settled, hphase]
    | true =>
      cases recorded with
      | false => exact absurd (by simp [Worker.CannotRaise, hphase]) hkeep
      | true =>
        simp only [World.exec, hphase, Option.some.injEq] at hexec
        exact hexec ▸ ⟨Inv.leave h hw (by simp [Worker.owes, hphase]), Kept.refl _⟩
  | unhealthy error caught =>
    cases caught with
    | false =>
      simp only [World.exec, hphase, Option.some.injEq] at hexec
      refine hexec ▸ inv_setWorker h hw _ (List.Subset.refl _) hn ?_ ?_ ?_
      · simp [Worker.owes, hphase]
      · simp [Worker.waiting, hphase]
      · simp [Worker.settled, hphase]
    | true =>
      simp only [World.exec, hphase, Option.some.injEq] at hexec
      exact hexec ▸ ⟨Inv.leave h hw (by simp [Worker.owes, hphase]), Kept.refl _⟩

/-- A statement of a worker keeps the invariant, and what is delivered. -/
theorem inv_exec (h : s.Inv) (hw : s.workers[i]? = some w) (hrows : w.rows = row :: rest)
    {raises : Option String} (hraise : raises.isSome = true → ¬ w.CannotRaise)
    (hexec : s.exec i w row rest raises = some s') : s'.Inv ∧ Kept s.deliveries s'.deliveries := by
  cases raises with
  | none => exact inv_completes h hw hrows hexec
  | some raised => exact inv_raises h hw (hraise rfl) hexec

theorem inv_post (h : s.Inv) (hw : s.workers[i]? = some w) (hrows : w.rows = row :: rest)
    (hphase : w.phase = .ready) (outcome : Outcome) :
    (s.post i w row outcome).Inv ∧ Kept s.deliveries (s.post i w row outcome).deliveries := by
  have hagrees := h.agrees w (List.mem_of_getElem? hw)
  have hrow : row ∈ w.waiting := by simp [Worker.waiting, hphase, hrows]
  have hnone : w.owes = none := by simp [Worker.owes, hphase]
  have hpost : ∀ w' : Worker, w'.rows = w.rows → w'.owes = some row.id → w'.settled = [] →
      Webhooks.Inv s.deliveries (s.workers.set i w') (s.posts ++
        [⟨row.id, row.attempts + 1, row.endpoint, row.event, row.payload, s.now / 1000⟩]) := by
    intro w' hrows' howes hsettled
    have hagrees' : w'.Agrees s.deliveries := by
      refine ⟨hrows' ▸ hagrees.nodup, fun r hr => ?_, fun r hr => ?_⟩
      · have hr' : r ∈ w.rows := hrows' ▸ waiting_subset w' hr
        exact hagrees.waiting r (by simpa [Worker.waiting, hphase] using hr')
      · rw [hsettled] at hr
        exact absurd hr List.not_mem_nil
    exact Inv.post h hw hrow hnone (fun _ hr => hrows' ▸ hr) howes hagrees' ⟨rfl, rfl⟩
  refine ⟨?_, Kept.refl _⟩
  cases outcome with
  | threw error => exact hpost _ rfl (by simp [Worker.owes, hrows]) rfl
  | status code =>
    by_cases hcode : 200 ≤ code ∧ code < 300
    · have hs := hpost ⟨w.rows, .succeeded code, w.sent, w.failed⟩ rfl
        (by simp [Worker.owes, hrows]) rfl
      simpa [World.Inv, World.post, World.setPhase, World.setWorker, if_pos hcode] using hs
    · have hs := hpost
        ⟨w.rows, .failing ("HTTP " ++ toString code) (some code) false false, w.sent, w.failed⟩ rfl
        (by simp [Worker.owes, hrows]) rfl
      simpa [World.Inv, World.post, World.setPhase, World.setWorker, if_neg hcode] using hs

/-- **What one exclusive step keeps.** -/
theorem inv_step (a : Action) (h : s.Inv) (hg : Exclusive s a) (hstep : step s a = some s') :
    s'.Inv ∧ Kept s.deliveries s'.deliveries := by
  cases a with
  | tick elapsed => exact Option.some.inj hstep ▸ ⟨h, Kept.refl _⟩
  | enqueue id webhookId event payload =>
    rw [step] at hstep
    split at hstep
    · exact absurd hstep (by simp)
    · rename_i hfresh
      refine Option.some.inj hstep ▸ ⟨Inv.enqueue h hfresh ⟨Nat.zero_le _, fun _ => ?_⟩ rfl, ?_⟩
      · change 0 < maxAttempts
        decide
      · exact fun d hd hs => ⟨d, List.mem_append_left _ hd, rfl, hs⟩
  | selects batchSize skipped =>
    refine Option.some.inj hstep ▸ ⟨Inv.selects h (nodup_selectDue h.nodup) (fun r hr => ?_) hg,
      Kept.refl _⟩
    obtain ⟨d, hd, hdue, hid, hattempts⟩ := mem_selectDue hr
    rw [Delivery.due, Bool.and_eq_true, decide_eq_true_eq] at hdue
    exact ⟨d, hd, hdue.1, hid, hattempts⟩
  | post i outcome =>
    obtain ⟨w, hw, hstep⟩ := Option.bind_eq_some_iff.mp hstep
    split at hstep
    · rename_i row rest hrows hphase
      exact Option.some.inj hstep ▸ inv_post h hw hrows hphase outcome
    · exact absurd hstep (by simp)
  | exec i raises =>
    obtain ⟨w, hw, hstep⟩ := Option.bind_eq_some_iff.mp hstep
    split at hstep
    · rename_i row rest hrows
      refine inv_exec h hw hrows (fun hsome => ?_) hstep
      cases raises with
      | none => exact absurd hsome (by simp)
      | some raised => exact hg w hw
    · exact absurd hstep (by simp)
  | dies i =>
    obtain ⟨w, hw, hstep⟩ := Option.bind_eq_some_iff.mp hstep
    exact Option.some.inj hstep ▸ ⟨Inv.leave h hw (hg w hw), Kept.refl _⟩

end

/-! ### Runs -/

/-- No worker runs yet; `posts` are the attempts made before. -/
def World.start (now : Int) (deliveries : List Delivery) (webhooks : List Webhook)
    (posts : List Post) : World :=
  ⟨now, deliveries, webhooks, [], posts⟩

/-- The tables as jobs that have all ended leave them. -/
structure Settled (deliveries : List Delivery) (posts : List Post) : Prop where
  nodup : (deliveries.map (·.id)).Nodup
  inLimit : ∀ d ∈ deliveries, d.InLimit
  posted : ∀ p ∈ posts, p.delivery ∈ deliveries.map (·.id)
  counted : ∀ d ∈ deliveries, attemptsOf posts d.id = List.range' 1 d.attempts

theorem nodup_attempts {posts : List Post} (h : ∀ p ∈ posts, (attemptsOf posts p.delivery).Nodup) :
    (posts.map fun p => (p.delivery, p.attempt)).Nodup := by
  induction posts with
  | nil => exact List.nodup_nil
  | cons p posts ih =>
    have htail : ∀ q ∈ posts, (attemptsOf posts q.delivery).Nodup := by
      intro q hq
      refine (h q (List.mem_cons_of_mem p hq)).sublist (List.Sublist.map _ ?_)
      exact (List.sublist_cons_self p posts).filter _
    refine List.nodup_cons.mpr ⟨fun hmem => ?_, ih htail⟩
    obtain ⟨q, hq, heq⟩ := List.mem_map.mp hmem
    obtain ⟨hid, hattempt⟩ := Prod.mk.inj heq
    have hp := h p List.mem_cons_self
    rw [attemptsOf, List.filter_cons, if_pos (by simp), List.map_cons, List.nodup_cons] at hp
    exact hp.1 (hattempt ▸ List.mem_map_of_mem (List.mem_filter.mpr ⟨hq, by simp [hid]⟩))

theorem accounted_of_inv {s : World} (h : s.Inv) : Accounted s := by
  have hcount : ∀ d ∈ s.deliveries,
      s.posts.countP (·.delivery = d.id) = d.attempts + inFlight s.workers d.id := by
    intro d hd
    have hlen := congrArg List.length (h.counted d hd)
    rwa [attemptsOf, List.length_map, List.length_range', ← List.countP_eq_length_filter] at hlen
  refine ⟨nodup_attempts fun p hp => ?_, hcount, fun d hd => ?_⟩
  · obtain ⟨d, hd, hid⟩ := List.mem_map.mp (h.posted p hp)
    rw [← hid, h.counted d hd]
    exact List.nodup_range'
  · rw [hcount d hd]
    by_cases hzero : inFlight s.workers d.id = 0
    · rw [hzero]
      exact (h.inLimit d hd).1
    · -- the row is in the hands of one worker, which read it while it was pending
      obtain ⟨w, hw, howes⟩ := List.countP_pos_iff.mp (Nat.pos_of_ne_zero hzero)
      obtain ⟨r, rest, hrows, hid, hwaiting⟩ := mem_rows_of_owes (of_decide_eq_true howes)
      have hr : r ∈ w.rows := hrows ▸ List.mem_cons_self
      obtain ⟨i, hi⟩ := List.getElem?_of_mem hw
      have hone := inFlight_of_mem h.apart hi hr
      have hread := (h.agrees w hw).waiting r (hwaiting ▸ hr) d hd hid.symm
      have hlt := (h.inLimit d hd).2 hread.2
      rw [hid] at hone
      rw [hone]
      split
      · omega
      · omega

/-- **Attempts are accounted for in every exclusive run**, and what is delivered at some
point of it stays delivered. -/
theorem guarded_accounted {now : Int} {deliveries : List Delivery} {webhooks : List Webhook}
    {posts : List Post} (hsettled : Settled deliveries posts) {before after : List Action}
    {s t : World}
    (hguard : Guarded step Exclusive (.start now deliveries webhooks posts) (before ++ after))
    (hs : run step (.start now deliveries webhooks posts) before = some s)
    (ht : run step s after = some t) :
    Accounted s ∧ Accounted t ∧ ∀ d ∈ s.deliveries, d.status = .delivered →
      ∃ d' ∈ t.deliveries, d'.id = d.id ∧ d'.status = .delivered := by
  obtain ⟨hbefore, hafter⟩ := guarded_append.mp hguard
  have hstart : (World.start now deliveries webhooks posts).Inv := by
    refine ⟨⟨hsettled.nodup, List.Pairwise.nil, ?_, hsettled.inLimit, ?_⟩, hsettled.posted,
      hsettled.counted⟩
    · exact fun w hw => absurd hw List.not_mem_nil
    · exact fun w hw => absurd hw List.not_mem_nil
  have hinv : s.Inv :=
    invariant_of_guarded (fun s a s' h hg hstep => (inv_step a h hg hstep).1) before _ s hstart
      hbefore hs
  have hkept : t.Inv ∧ Kept s.deliveries t.deliveries := by
    refine invariant_of_guarded (I := fun u : World => u.Inv ∧ Kept s.deliveries u.deliveries)
      (fun u a u' h hg hstep => ?_) after s t ⟨hinv, Kept.refl _⟩ (hafter s hs) ht
    have hone := inv_step a h.1 hg hstep
    exact ⟨hone.1, h.2.trans hone.2⟩
  exact ⟨accounted_of_inv hinv, accounted_of_inv hkept.1, hkept.2⟩

/-! ### Two runs -/

def sampleDelivery : Delivery :=
  ⟨"d1", "w1", "link.created", "{}", .pending, 0, none, none, none, none, 0⟩

def sampleWebhook : Webhook := ⟨"w1", "https://hooks.example/in", .healthy, 0, none, none, none⟩

theorem settled_sampleDelivery : Settled [sampleDelivery] [] where
  nodup := by decide +kernel
  inLimit d hd := by
    rw [List.mem_singleton.mp hd]
    exact ⟨by decide, fun _ => by decide⟩
  posted := by simp
  counted d hd := by
    rw [List.mem_singleton.mp hd]
    rfl

/-- One job fails, and the next one delivers five minutes later. -/
theorem accounted_retriedDelivery :
    ∃ s t, run step (.start 0 [sampleDelivery] [sampleWebhook] [])
        [.selects 50 [], .post 0 (.status 500), .exec 0 none, .exec 0 none] = some s ∧
      run step s [.tick 300000, .selects 50 [], .post 1 (.status 200), .exec 1 none, .exec 1 none] =
        some t ∧ Accounted s ∧ Accounted t := by
  have hrun : (run step (.start 0 [sampleDelivery] [sampleWebhook] [])
      [.selects 50 [], .post 0 (.status 500), .exec 0 none, .exec 0 none]).any (fun s =>
        (run step s [.tick 300000, .selects 50 [], .post 1 (.status 200), .exec 1 none,
          .exec 1 none]).isSome) = true := by decide +kernel
  obtain ⟨s, hs, hrun⟩ := (Option.any_eq_true _ _).mp hrun
  obtain ⟨t, ht⟩ := Option.isSome_iff_exists.mp hrun
  obtain ⟨has, hat, -⟩ := guarded_accounted settled_sampleDelivery (by decide +kernel) hs ht
  exact ⟨s, t, hs, ht, has, hat⟩

/-- **Two workers that select one row.**  The locks of the first select are gone when the
second one runs, so both POST the first attempt, and the failure of the one sets back to
pending what the other has delivered. -/
theorem two_workers_send_twice :
    ¬ ∀ (now : Int) (deliveries : List Delivery) (webhooks : List Webhook) (posts : List Post)
        (actions : List Action) (s : World), Settled deliveries posts →
      run step (.start now deliveries webhooks posts) actions = some s → Accounted s := by
  intro hall
  have hrun : (run step (.start 0 [sampleDelivery] [sampleWebhook] [])
      [.selects 50 [], .selects 50 [], .post 0 (.status 200), .post 1 (.status 500), .exec 0 none,
        .exec 1 none]).any (fun s => s.deliveries.all (fun d => d.status = .pending) &&
          !decide (s.posts.map fun p => (p.delivery, p.attempt)).Nodup) = true := by decide +kernel
  obtain ⟨s, hs, hfalse⟩ := (Option.any_eq_true _ _).mp hrun
  rw [Bool.and_eq_true, Bool.not_eq_true', decide_eq_false_iff_not] at hfalse
  exact hfalse.2 (hall _ _ _ _ _ s settled_sampleDelivery hs).once

end SnapUrl.Webhooks
