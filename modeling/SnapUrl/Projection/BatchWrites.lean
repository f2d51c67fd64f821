import SnapUrl.Projection.Batch

/-!
# What a batch collects and flushes

* `collect_eq`: the results, requests, domain items and edge work of a batch, each as a
  list over its ops.  A key has one request, the last one, with the ops of all of them
  (`requestAt_collectRequests`).
* `flushBatch_calls`, `flushBatch_written`: a flush calls with parts of its batch only,
  and has written all of it when it returns.
* `getElem?_results`: which ops a write that failed takes with it.
-/

namespace SnapUrl.Projection.Batch

open Lib

/-! ### Coalesced requests -/

section

variable {entries : List (Nat × WriteRequest)} {key : String × String}

/-- The request a batch has for a key. -/
def requestAt (pending : List PendingWrite) (key : String × String) : Option PendingWrite :=
  pending.find? fun e => e.request.key = key

/-- What a batch has coalesced, of the requests its ops gave one after another. -/
def collectRequests (entries : List (Nat × WriteRequest)) : List PendingWrite :=
  entries.foldl (fun pending entry => addRequest entry.1 pending entry.2) []

/-- What an op's request does to the entry of its key. -/
def mergeRequest (e : Option PendingWrite) (entry : Nat × WriteRequest) : Option PendingWrite :=
  some (e.elim ⟨entry.2, [entry.1]⟩ fun e => ⟨entry.2, e.owners ++ [entry.1]⟩)

theorem addRequest_eq (owner : Nat) (pending : List PendingWrite) (request : WriteRequest) :
    addRequest owner pending request =
      upsertBy (fun e : PendingWrite => e.request.key)
        (fun e => ⟨request, e.owners ++ [owner]⟩) ⟨request, [owner]⟩ pending := rfl

theorem requestAt_addRequest (pending : List PendingWrite) (entry : Nat × WriteRequest)
    (key : String × String) :
    requestAt (addRequest entry.1 pending entry.2) key =
      if entry.2.key = key then mergeRequest (requestAt pending key) entry
      else requestAt pending key := by
  have hmerge : ∀ e : PendingWrite, e.request.key = entry.2.key →
      (⟨entry.2, e.owners ++ [entry.1]⟩ : PendingWrite).request.key = entry.2.key :=
    fun _ _ => rfl
  rw [addRequest_eq, requestAt, find?_upsertBy hmerge]
  rfl

theorem foldl_mergeRequest (entries : List (Nat × WriteRequest)) :
    entries.foldl mergeRequest none =
      entries.getLast?.map fun last => ⟨last.2, entries.map Prod.fst⟩ := by
  induction entries using List.reverseRecOn with
  | nil => rfl
  | append_singleton entries entry ih =>
    rw [List.foldl_concat, ih, List.getLast?_concat, List.map_append]
    cases hlast : entries.getLast? with
    | none =>
      obtain rfl : entries = [] := List.getLast?_eq_none_iff.mp hlast
      rfl
    | some last => rfl

/-- **A key gets the last of its requests**, with all who contributed one. -/
theorem requestAt_collectRequests (entries : List (Nat × WriteRequest))
    (key : String × String) :
    requestAt (collectRequests entries) key =
      (entries.filter fun entry => entry.2.key = key).getLast?.map fun last =>
        ⟨last.2, (entries.filter fun entry => entry.2.key = key).map Prod.fst⟩ := by
  rw [collectRequests, view_foldl mergeRequest requestAt_addRequest]
  exact foldl_mergeRequest _

theorem nodup_collectRequests (entries : List (Nat × WriteRequest)) :
    ((collectRequests entries).map fun e => e.request.key).Nodup :=
  nodup_foldl_upsertBy (fun e : PendingWrite => e.request.key)
    (fun (entry : Nat × WriteRequest) e => ⟨entry.2, e.owners ++ [entry.1]⟩)
    (fun entry => ⟨entry.2, [entry.1]⟩)
    (fun _ _ _ => rfl) entries

/-- What stands for a key is of its own requests. -/
theorem eq_of_mem_collectRequests {e : PendingWrite} (he : e ∈ collectRequests entries) :
    ∃ last, (entries.filter fun entry => entry.2.key = e.request.key).getLast? = some last ∧
      e.request = last.2 ∧
      e.owners = (entries.filter fun entry => entry.2.key = e.request.key).map Prod.fst := by
  have hfind : requestAt (collectRequests entries) e.request.key = some e :=
    (find?_key_eq_some_iff (nodup_collectRequests entries)).mpr ⟨he, rfl⟩
  rw [requestAt_collectRequests] at hfind
  obtain ⟨last, hlast, hentry⟩ := Option.map_eq_some_iff.mp hfind
  exact ⟨last, hlast, (congrArg PendingWrite.request hentry).symm,
    (congrArg PendingWrite.owners hentry).symm⟩

/-- The owners of a request are the ops that gave one for its key. -/
theorem mem_owners {e : PendingWrite} (he : e ∈ collectRequests entries) {i : Nat} :
    i ∈ e.owners ↔ ∃ request, (i, request) ∈ entries ∧ request.key = e.request.key := by
  obtain ⟨last, -, -, howners⟩ := eq_of_mem_collectRequests he
  rw [howners]
  simp

theorem owners_ne_nil {e : PendingWrite} (he : e ∈ collectRequests entries) :
    ∃ i, i ∈ e.owners := by
  obtain ⟨last, hlast, -, howners⟩ := eq_of_mem_collectRequests he
  exact ⟨last.1, howners ▸ List.mem_map_of_mem (List.mem_of_getLast? hlast)⟩

end

/-! ### What is collected -/

section

variable {p : Platform} {w : World} {pg : Postgres} {items : List LinkItem}

/-- The ops that could be read, by their place, with what they resolve to. -/
def resolvedOps (p : Platform) (w : World) (pg : Postgres) (items : List LinkItem)
    (ops : List ProjectionOp) : List (Nat × Resolution) :=
  ops.zipIdx.filterMap fun x =>
    if w.resolveThrows x.2 then none else some (x.2, resolve p pg items x.1)

def linkEntries (resolved : List (Nat × Resolution)) : List (Nat × WriteRequest) :=
  resolved.flatMap fun x => x.2.requests.map fun request => (x.1, request)

def metaEntries (resolved : List (Nat × Resolution)) : List (Nat × DomainItem) :=
  resolved.filterMap fun x => x.2.domainMeta.map fun item => (x.1, item)

theorem mem_resolvedOps {ops : List ProjectionOp} {i : Nat} {r : Resolution} :
    (i, r) ∈ resolvedOps p w pg items ops ↔
      w.resolveThrows i = false ∧ ∃ op, ops[i]? = some op ∧ resolve p pg items op = r := by
  rw [resolvedOps, List.mem_filterMap]
  constructor
  · rintro ⟨⟨op, j⟩, hop, hr⟩
    split at hr
    · exact absurd hr (by simp)
    · rename_i hthrows
      obtain ⟨rfl, rfl⟩ := Prod.mk.inj (Option.some.inj hr)
      exact ⟨by simpa using hthrows, op, List.mk_mem_zipIdx_iff_getElem?.mp hop, rfl⟩
  · rintro ⟨hthrows, op, hop, rfl⟩
    exact ⟨(op, i), List.mk_mem_zipIdx_iff_getElem?.mpr hop, by simp [hthrows]⟩

/-- **What a batch collects.** -/
theorem collect_eq (p : Platform) (w : World) (pg : Postgres) (items : List LinkItem)
    (ops : List ProjectionOp) :
    collect p w pg items ops =
      { results := ops.mapIdx fun i op => ⟨op.linkId, !w.resolveThrows i⟩
        pending := collectRequests (linkEntries (resolvedOps p w pg items ops))
        metas := collectMetas (metaEntries (resolvedOps p w pg items ops))
        edge := if w.edgeConfigured then
            (resolvedOps p w pg items ops).map fun x => (x.1, x.2.edge)
          else [] } := by
  induction ops using List.reverseRecOn with
  | nil => cases hedge : w.edgeConfigured <;> rfl
  | append_singleton ops op ih =>
    have hresolved : resolvedOps p w pg items (ops ++ [op]) = resolvedOps p w pg items ops ++
        (if w.resolveThrows ops.length then [] else [(ops.length, resolve p pg items op)]) := by
      rw [resolvedOps, List.zipIdx_append, List.filterMap_append]
      refine congrArg (resolvedOps p w pg items ops ++ ·) ?_
      cases hthrows : w.resolveThrows ops.length <;> simp [hthrows]
    rw [collect, List.foldl_concat, ← collect, ih, hresolved, List.mapIdx_concat, Collected.add]
    simp only [List.length_mapIdx]
    cases hthrows : w.resolveThrows ops.length with
    | true => simp
    | false =>
      simp only [Bool.false_eq_true, if_false, Bool.not_false, linkEntries, metaEntries,
        List.flatMap_append, List.filterMap_append, collectRequests, collectMetas,
        List.foldl_append, List.map_append]
      rw [Collected.mk.injEq]
      refine ⟨rfl, ?_, ?_, ?_⟩
      · rw [List.flatMap_cons, List.flatMap_nil, List.append_nil, List.foldl_map]
      · cases hmeta : (resolve p pg items op).domainMeta with
        | none => simp [hmeta]
        | some item => simp [hmeta]
      · cases hedge : w.edgeConfigured <;> simp

end

/-! ### Flushing -/

section

variable {respond : Nat → Response} {left attempt : Nat} {batch : List WriteRequest}

theorem flushAttempts_calls :
    ∀ call ∈ (flushAttempts respond left attempt batch).calls, call.Sublist batch := by
  induction left generalizing attempt batch with
  | zero => exact fun call hcall => absurd hcall List.not_mem_nil
  | succ left ih =>
    rw [flushAttempts]
    split
    · exact fun call hcall => List.mem_singleton.mp hcall ▸ List.Sublist.refl batch
    · split
      · exact fun call hcall => List.mem_singleton.mp hcall ▸ List.Sublist.refl batch
      · intro call hcall
        rcases List.mem_cons.mp hcall with rfl | hcall
        · exact List.Sublist.refl call
        · exact (ih call hcall).trans List.filter_sublist

theorem flushAttempts_written_subset :
    ∀ r ∈ (flushAttempts respond left attempt batch).written, r ∈ batch := by
  induction left generalizing attempt batch with
  | zero => exact fun r hr => absurd hr List.not_mem_nil
  | succ left ih =>
    rw [flushAttempts]
    split
    · exact fun r => List.mem_of_mem_filter
    · split
      · exact fun r => List.mem_of_mem_filter
      · intro r hr
        rcases List.mem_append.mp hr with hr | hr
        · exact List.mem_of_mem_filter hr
        · exact List.mem_of_mem_filter (ih r hr)

/-- What an attempt leaves is written by a later one, or the flush throws. -/
theorem flushAttempts_written (hok : (flushAttempts respond left attempt batch).ok = true) :
    ∀ r ∈ batch, r ∈ (flushAttempts respond left attempt batch).written := by
  induction left generalizing attempt batch with
  | zero => exact absurd hok (by simp [flushAttempts])
  | succ left ih =>
    rw [flushAttempts] at hok ⊢
    intro r hr
    split at hok
    · exact absurd hok (by simp)
    · rename_i hthrew
      rw [if_neg hthrew]
      split at hok
      · rename_i hremaining
        rw [if_pos hremaining]
        refine List.mem_filter.mpr ⟨hr, ?_⟩
        simpa using List.filter_eq_nil_iff.mp hremaining r hr
      · rename_i hremaining
        rw [if_neg hremaining]
        by_cases hleft : r.key ∈ (respond attempt).unprocessed
        · exact List.mem_append_right _
            (ih hok r (List.mem_filter.mpr ⟨hr, decide_eq_true hleft⟩))
        · exact List.mem_append_left _ (List.mem_filter.mpr ⟨hr, decide_eq_true hleft⟩)

/-- **Every call of a flush is a part of its batch.** -/
theorem flushBatch_calls : ∀ call ∈ (flushBatch respond batch).calls, call.Sublist batch := by
  rw [flushBatch]
  split
  · exact fun call hcall => absurd hcall List.not_mem_nil
  · exact flushAttempts_calls

theorem flushBatch_written_subset : ∀ r ∈ (flushBatch respond batch).written, r ∈ batch := by
  rw [flushBatch]
  split
  · exact fun r hr => absurd hr List.not_mem_nil
  · exact flushAttempts_written_subset

/-- **A flush that returns has written its batch.** -/
theorem flushBatch_written (hok : (flushBatch respond batch).ok = true) :
    ∀ r ∈ batch, r ∈ (flushBatch respond batch).written := by
  rw [flushBatch] at hok ⊢
  split at hok
  · rename_i hnil
    rw [hnil]
    exact fun r hr => absurd hr List.not_mem_nil
  · rename_i hne
    rw [if_neg hne]
    exact flushAttempts_written hok

end

section

variable {α : Type} {l : List α} {slice : List α}

/-- A slice is a part of the list, no longer than the limit. -/
theorem sublist_of_mem_slicesOf (h : slice ∈ slicesOf l) :
    slice.Sublist l ∧ slice.length ≤ batchLimit := by
  obtain ⟨j, -, rfl⟩ := List.mem_map.mp h
  exact ⟨(List.take_sublist _ _).trans (List.drop_sublist _ _), List.length_take_le _ _⟩

theorem exists_mem_slicesOf {x : α} (h : x ∈ l) : ∃ slice ∈ slicesOf l, x ∈ slice := by
  obtain ⟨n, hn, rfl⟩ := List.getElem_of_mem h
  have hj : n / batchLimit ∈ List.range ((l.length + (batchLimit - 1)) / batchLimit) := by
    rw [List.mem_range]
    unfold batchLimit
    omega
  refine ⟨_, List.mem_map_of_mem hj, ?_⟩
  refine List.mem_iff_getElem?.mpr ⟨n % batchLimit, ?_⟩
  rw [List.getElem?_take_of_lt (Nat.mod_lt n (by decide)), List.getElem?_drop,
    Nat.div_add_mod, List.getElem?_eq_getElem hn]

theorem ne_nil_of_mem_slicesOf (h : slice ∈ slicesOf l) : slice ≠ [] := by
  obtain ⟨j, hj, rfl⟩ := List.mem_map.mp h
  rw [List.mem_range] at hj
  refine List.ne_nil_of_length_pos ?_
  rw [List.length_take, List.length_drop]
  unfold batchLimit at hj ⊢
  omega

end

/-! ### Writing -/

section

variable {p : Platform} {w : World} {d : Drain} {results : List ProjectionResult} {i : Nat}

/-- A result that may have failed. -/
def ProjectionResult.failIf (r : ProjectionResult) (bad : Prop) [Decidable bad] :
    ProjectionResult := if bad then { r with ok := false } else r

@[simp] theorem linkId_failIf (r : ProjectionResult) (bad : Prop) [Decidable bad] :
    (r.failIf bad).linkId = r.linkId := by
  unfold ProjectionResult.failIf
  split <;> rfl

theorem ok_failIf (r : ProjectionResult) (bad : Prop) [Decidable bad] :
    (r.failIf bad).ok = true ↔ r.ok = true ∧ ¬ bad := by
  unfold ProjectionResult.failIf
  split <;> simp_all

theorem getElem?_failOps (owners : List Nat) (results : List ProjectionResult) (i : Nat) :
    (failOps owners results)[i]? = results[i]?.map fun r => r.failIf (i ∈ owners) := by
  rw [failOps, List.getElem?_mapIdx]
  rfl

/-- **Which ops the failures of a pass take with it.** -/
theorem getElem?_results {α : Type} {step : Drain → α → Drain} (bad : α → Bool)
    (owners : α → List Nat)
    (h : ∀ d a, (step d a).results = if bad a then failOps (owners a) d.results else d.results)
    (l : List α) (d : Drain) (i : Nat) :
    (l.foldl step d).results[i]? =
      d.results[i]?.map fun r => r.failIf (∃ a ∈ l, bad a = true ∧ i ∈ owners a) := by
  induction l generalizing d with
  | nil => simp [ProjectionResult.failIf]
  | cons a l ih =>
    rw [List.foldl_cons, ih, h]
    cases hbad : bad a with
    | false => simp [ProjectionResult.failIf, hbad]
    | true =>
      rw [if_pos rfl, getElem?_failOps, Option.map_map]
      refine congrArg (fun f => Option.map f d.results[i]?) (funext fun r => ?_)
      by_cases hi : i ∈ owners a
      · simp [ProjectionResult.failIf, hbad, hi]
      · simp [ProjectionResult.failIf, hbad, hi]

theorem results_flushSlice (d : Drain) (slice : List PendingWrite × Nat) :
    (d.flushSlice w slice).results =
      if !(flushBatch (w.batch slice.2) (slice.1.map (·.request))).ok then
        failOps (slice.1.flatMap (·.owners)) d.results
      else d.results := by
  rw [Drain.flushSlice]
  cases (flushBatch (w.batch slice.2) (slice.1.map (·.request))).ok <;> rfl

theorem results_writeMeta (d : Drain) (e : MetaWrite) :
    (d.writeMeta p w e).results =
      if decide (w.put e.item.key ≠ .answered) then failOps e.owners d.results
      else d.results := by
  rw [Drain.writeMeta]
  cases hput : w.put e.item.key <;> simp

/-- An op that failed has no work on the edge, and does not fail twice. -/
theorem results_runEdge (d : Drain) (edge : Nat × List (String × String)) :
    (d.runEdge w edge).results =
      if edge.2.any (w.edgeThrows edge.1) then failOps [edge.1] d.results else d.results := by
  rw [Drain.runEdge]
  cases hthrows : edge.2.any (w.edgeThrows edge.1) with
  | false => simp
  | true =>
    rw [Bool.and_true, if_pos rfl]
    split
    · rfl
    · rename_i hfailed
      refine List.ext_getElem? fun i => ?_
      rw [getElem?_failOps]
      cases hr : d.results[i]? with
      | none => rfl
      | some r =>
        rw [Option.map_some, ProjectionResult.failIf]
        by_cases hi : i = edge.1
        · subst hi
          have hok : r.ok = false := by simpa [hr] using hfailed
          rw [if_pos (List.mem_singleton_self _), ← hok]
        · rw [if_neg (by simpa using hi)]

theorem table_flushSlices (slices : List (List PendingWrite × Nat)) (d : Drain) :
    (slices.foldl (Drain.flushSlice w) d).table =
      d.table.flush (slices.flatMap fun slice =>
        (flushBatch (w.batch slice.2) (slice.1.map (·.request))).written) := by
  induction slices generalizing d with
  | nil => rfl
  | cons slice slices ih =>
    rw [List.foldl_cons, ih, List.flatMap_cons, Table.flush, Table.flush, List.foldl_append]
    rfl

theorem calls_flushSlices (slices : List (List PendingWrite × Nat)) (d : Drain) :
    (slices.foldl (Drain.flushSlice w) d).calls =
      d.calls ++ slices.flatMap fun slice =>
        (flushBatch (w.batch slice.2) (slice.1.map (·.request))).calls := by
  induction slices generalizing d with
  | nil => simp
  | cons slice slices ih =>
    rw [List.foldl_cons, ih, List.flatMap_cons, ← List.append_assoc]
    rfl

theorem calls_writeMetas (metas : List MetaWrite) (d : Drain) :
    (metas.foldl (Drain.writeMeta p w) d).calls = d.calls := by
  induction metas generalizing d with
  | nil => rfl
  | cons e metas ih =>
    rw [List.foldl_cons, ih, Drain.writeMeta]
    split <;> rfl

theorem calls_runEdges (edges : List (Nat × List (String × String))) (d : Drain) :
    (edges.foldl (Drain.runEdge w) d).calls = d.calls := by
  induction edges generalizing d with
  | nil => rfl
  | cons edge edges ih =>
    rw [List.foldl_cons, ih, Drain.runEdge]
    split <;> rfl

/-- A put changes no LINK item. -/
theorem get_writeMetas (metas : List MetaWrite) (d : Drain) (key : String × String) :
    (metas.foldl (Drain.writeMeta p w) d).table.get key = d.table.get key := by
  induction metas generalizing d with
  | nil => rfl
  | cons e metas ih =>
    rw [List.foldl_cons, ih, Drain.writeMeta]
    split
    · rfl
    · split <;> rfl

/-- Where every put is answered, the domain items are those of the writes. -/
theorem metas_writeMetas {metas : List MetaWrite}
    (h : ∀ e ∈ metas, w.put e.item.key = .answered) (d : Drain) :
    (metas.foldl (Drain.writeMeta p w) d).table.metas =
      (metas.map (·.item)).foldl (writeMeta p) d.table.metas := by
  induction metas generalizing d with
  | nil => rfl
  | cons e metas ih =>
    obtain ⟨he, hmetas⟩ := List.forall_mem_cons.mp h
    rw [List.foldl_cons, List.map_cons, List.foldl_cons, ih hmetas, Drain.writeMeta, he]
    rfl

end

end SnapUrl.Projection.Batch
