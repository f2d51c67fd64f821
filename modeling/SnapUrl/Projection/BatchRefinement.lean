import SnapUrl.Projection.BatchWrites
import SnapUrl.Projection.Convergence

/-!
# A batch against its ops one at a time

Seen from one key, an op puts an item, takes the item away, or leaves it.  The per-row
path reads the key as it is when the op runs, a batch reads it as it was before
(`opStep`), and that is all they differ in (`get_foldl_perRow`, `get_applyWrites`).

* `appliesAsSequential_iff`: **a batch leaves what its ops leave one at a time exactly
  when, after the last put of each key, its deletes are about the link that was put just
  if they are about the link that was there before** (`DeletesAgree`).  The results, the
  calls and the failures are as they should be in every batch.
-/

namespace SnapUrl.Projection.Batch

open Lib

/-! ### What is claimed of a batch -/

def ProjectionOp.isDelete (op : ProjectionOp) : Bool :=
  op.operation ≠ domainOp && op.operation = "delete"

/-- The item an op puts: the link's, where the op is an upsert and the link is live. -/
def putOf (p : Platform) (pg : Postgres) (op : ProjectionOp) : Option LinkItem :=
  if op.operation = domainOp ∨ op.operation = "delete" then none
  else
    match pg.links.find? fun row => row.link.id = op.linkId with
    | none => none
    | some row => if !row.domain.live then none else some (row.toPgLink.item p)

/-- Some op deletes the link of the item stored at a key. -/
def Deleted (ops : List ProjectionOp) (stored : Option LinkItem) : Prop :=
  ∃ item ∈ stored, ∃ op ∈ ops, op.isDelete = true ∧ op.linkId = item.linkId

instance (ops : List ProjectionOp) (stored : Option LinkItem) : Decidable (Deleted ops stored) :=
  inferInstanceAs
    (Decidable (∃ item ∈ stored, ∃ op ∈ ops, op.isDelete = true ∧ op.linkId = item.linkId))

/-- After the last put of a key, the link that was put is deleted just if the link is
whose item the table had there. -/
def DeletesAgree (p : Platform) (pg : Postgres) (t : Table) (ops : List ProjectionOp) : Prop :=
  ∀ pre op post item, ops = pre ++ op :: post → putOf p pg op = some item →
    (∀ other ∈ post, ∀ item' ∈ putOf p pg other, item'.key ≠ item.key) →
    (Deleted post (some item) ↔ Deleted post (t.get item.key))

/-- The same items, whatever their order. -/
def Table.Same (t t' : Table) : Prop := ∀ key, t.get key = t'.get key ∧ t.metas key = t'.metas key

/-- Op `i` contributed to a write that failed, or something else of it did. -/
def OpFails (p : Platform) (w : World) (pg : Postgres) (t : Table) (ops : List ProjectionOp)
    (i : Nat) (op : ProjectionOp) : Prop :=
  w.resolveThrows i = true ∨
    (∃ slice j, (slicesOf (collect p w pg t.items ops).pending)[j]? = some slice ∧
      (flushBatch (w.batch j) (slice.map (·.request))).ok = false ∧
      ∃ request ∈ (resolve p pg t.items op).requests, ∃ e ∈ slice, e.request.key = request.key) ∨
    (∃ item ∈ (resolve p pg t.items op).domainMeta, w.put item.key ≠ .answered) ∨
    w.edgeConfigured = true ∧
      ∃ target ∈ (resolve p pg t.items op).edge, w.edgeThrows i target = true

/-- What a batch has to do whatever the outside answers. -/
structure AppliesAsSequential (p : Platform) (pg : Postgres) (t : Table)
    (ops : List ProjectionOp) (w : World) : Prop where
  table : (∀ r ∈ (applyWrites p w pg t ops).results, r.ok = true) →
    (applyWrites p w pg t ops).table.Same (ops.foldl (Table.perRow p pg) t)
  results : (apply p w pg t ops).results.map (·.linkId) = ops.map (·.linkId)
  calls : ∀ call ∈ (apply p w pg t ops).calls,
    call.length ≤ batchLimit ∧ (call.map WriteRequest.key).Nodup
  failed : ∀ i op, ops[i]? = some op →
    ((apply p w pg t ops).results[i]? = some ⟨op.linkId, false⟩ ↔ OpFails p w pg t ops i op)

/-! ### Writes, seen from one key -/

section

variable {p : Platform} {pg : Postgres} {t : Table} {requests : List WriteRequest}
  {key : String × String}

theorem get_write (t : Table) (request : WriteRequest) (key : String × String) :
    (t.write request).get key = if request.key = key then request.item? else t.get key := by
  by_cases h : request.key = key
  · subst h
    rw [if_pos rfl]
    exact getItem_apply_self
  · rw [if_neg h]
    exact getItem_apply (Ne.symm h)

theorem metas_flush (t : Table) (requests : List WriteRequest) :
    (t.flush requests).metas = t.metas := by
  induction requests generalizing t with
  | nil => rfl
  | cons request requests ih => exact ih (t.write request)

theorem get_flush (t : Table) (requests : List WriteRequest) (key : String × String) :
    (t.flush requests).get key =
      (requests.filter fun request => request.key = key).foldl (fun _ r => r.item?) (t.get key) :=
  view_foldl (fun _ (r : WriteRequest) => r.item?) get_write requests t key

/-- A key no request is about. -/
theorem foldl_writes_of_ne {cur : Option LinkItem} (h : ∀ r ∈ requests, r.key ≠ key) :
    (requests.filter fun r => r.key = key).foldl (fun _ r => r.item?) cur = cur := by
  rw [List.filter_eq_nil_iff.mpr fun r hr => by simpa using h r hr]
  rfl

/-- A key all requests leave the same at. -/
theorem foldl_writes_of_forall {cur stored : Option LinkItem}
    (hany : ∃ r ∈ requests, r.key = key)
    (hall : ∀ r ∈ requests, r.key = key → r.item? = stored) :
    (requests.filter fun r => r.key = key).foldl (fun _ r => r.item?) cur = stored := by
  have hmem : ∀ r ∈ requests.filter (fun r => r.key = key), r.item? = stored :=
    fun r hr => hall r (List.mem_filter.mp hr).1 (of_decide_eq_true (List.mem_filter.mp hr).2)
  obtain ⟨r, hr, hkey⟩ := hany
  have hne : requests.filter (fun r => r.key = key) ≠ [] :=
    List.ne_nil_of_mem (List.mem_filter.mpr ⟨hr, decide_eq_true hkey⟩)
  obtain ⟨init, last, hsplit⟩ := (List.eq_nil_or_concat _).resolve_left hne
  rw [List.concat_eq_append] at hsplit
  rw [hsplit] at hmem ⊢
  rw [List.foldl_concat]
  exact hmem last (List.mem_append_right _ (List.mem_singleton_self last))

/-- The deletes of a link's items are about the keys where the table has one. -/
theorem exists_buildDeleteRequests (t : Table) (key : String × String) (linkId : String) :
    (∃ request ∈ buildDeleteRequests t.items linkId, request.key = key) ↔
      (t.get key).any (·.linkId = linkId) = true := by
  rw [Option.any_eq_true]
  constructor
  · rintro ⟨request, hrequest, rfl⟩
    obtain ⟨item, hitem, rfl⟩ := List.mem_map.mp hrequest
    obtain ⟨hitem, hid⟩ := List.mem_filter.mp hitem
    exact ⟨item, (find?_key_eq_some_iff t.unique).mpr ⟨hitem, rfl⟩, hid⟩
  · rintro ⟨item, hget, hid⟩
    obtain ⟨hitem, rfl⟩ := getItem_eq_some hget
    exact ⟨.delete item.key, List.mem_map_of_mem (List.mem_filter.mpr ⟨hitem, hid⟩), rfl⟩

theorem item?_of_mem_buildDeleteRequests {items : List LinkItem} {linkId : String}
    {request : WriteRequest} (h : request ∈ buildDeleteRequests items linkId) :
    request.item? = none := by
  obtain ⟨item, -, rfl⟩ := List.mem_map.mp h
  rfl

end

/-! ### Ops, seen from one key -/

section

variable {p : Platform} {pg : Postgres} {t : Table} {op : ProjectionOp}
  {key : String × String}

/-- What an op does at a key that holds `cur`, when it reads `read` there. -/
def opStep (p : Platform) (pg : Postgres) (key : String × String) (read cur : Option LinkItem)
    (op : ProjectionOp) : Option LinkItem :=
  match putOf p pg op with
  | some item => if item.key = key then some item else cur
  | none => if op.isDelete && read.any (·.linkId = op.linkId) then none else cur

theorem buildUpsertRequests_map (p : Platform) (pg : Postgres) (linkId : String) :
    buildUpsertRequests p (pg.links.map LinkRow.toPgLink) linkId =
      match pg.links.find? fun row => row.link.id = linkId with
      | none => []
      | some row => if !row.domain.live then [] else [.put (row.toPgLink.item p)] := by
  rw [buildUpsertRequests, List.find?_map]
  have hcomp : ((fun l : PgLink => decide (l.link.id = linkId)) ∘ LinkRow.toPgLink) =
      fun row : LinkRow => decide (row.link.id = linkId) := rfl
  rw [hcomp]
  cases pg.links.find? fun row => decide (row.link.id = linkId) with
  | none => rfl
  | some row => rfl

/-- An op puts an item, or deletes what it finds. -/
theorem resolve_requests (p : Platform) (pg : Postgres) (items : List LinkItem)
    (op : ProjectionOp) :
    (resolve p pg items op).requests =
      match putOf p pg op with
      | some item => [.put item]
      | none => if op.isDelete then buildDeleteRequests items op.linkId else [] := by
  unfold resolve putOf ProjectionOp.isDelete
  by_cases hdomain : op.operation = domainOp
  · simp [hdomain]
  · by_cases hdelete : op.operation = "delete"
    · simp [hdelete, if_neg (hdelete ▸ hdomain)]
    · rw [if_neg hdomain, if_neg hdelete, if_neg (not_or.mpr ⟨hdomain, hdelete⟩)]
      rw [buildUpsertRequests_map]
      cases pg.links.find? fun row => decide (row.link.id = op.linkId) with
      | none => simp [hdelete]
      | some row =>
        cases hlive : row.domain.live with
        | false => simp [hlive, hdelete]
        | true => simp [hlive]

theorem perRow_eq (p : Platform) (pg : Postgres) (t : Table) (op : ProjectionOp) :
    t.perRow p pg op =
      match (resolve p pg t.items op).domainMeta with
      | none => t.flush (resolve p pg t.items op).requests
      | some item => (t.flush (resolve p pg t.items op).requests).putMeta p item := by
  unfold Table.perRow resolve
  split
  · rfl
  · split
    · rfl
    · rfl

/-- **The requests of an op at one key**, of which only what was read there matters. -/
theorem foldl_requests (cur : Option LinkItem) :
    ((resolve p pg t.items op).requests.filter fun r => r.key = key).foldl
        (fun _ r => r.item?) cur = opStep p pg key (t.get key) cur op := by
  rw [resolve_requests, opStep]
  cases putOf p pg op with
  | some item =>
    by_cases hkey : item.key = key
    · simp only [if_pos hkey]
      exact foldl_writes_of_forall ⟨.put item, List.mem_singleton_self _, hkey⟩
        fun r hr _ => by rw [List.mem_singleton.mp hr]; rfl
    · simp only [if_neg hkey]
      exact foldl_writes_of_ne fun r hr => by rw [List.mem_singleton.mp hr]; exact hkey
  | none =>
    cases hdelete : op.isDelete with
    | false => simp
    | true =>
      simp only [Bool.true_and, if_true]
      have hget := exists_buildDeleteRequests t key op.linkId
      split
      · rename_i hfound
        exact foldl_writes_of_forall (hget.mpr hfound)
          fun r hr _ => item?_of_mem_buildDeleteRequests hr
      · rename_i hfound
        exact foldl_writes_of_ne fun r hr hkey => hfound (hget.mp ⟨r, hr, hkey⟩)

theorem get_perRow (p : Platform) (pg : Postgres) (t : Table) (op : ProjectionOp)
    (key : String × String) :
    (t.perRow p pg op).get key = opStep p pg key (t.get key) (t.get key) op := by
  rw [← foldl_requests, ← get_flush, perRow_eq]
  cases (resolve p pg t.items op).domainMeta with
  | none => rfl
  | some item => rfl

/-- **The per-row path at one key.** -/
theorem get_foldl_perRow (p : Platform) (pg : Postgres) (ops : List ProjectionOp) (t : Table)
    (key : String × String) :
    (ops.foldl (Table.perRow p pg) t).get key =
      ops.foldl (fun cur op => opStep p pg key cur cur op) (t.get key) := by
  induction ops generalizing t with
  | nil => rfl
  | cons op ops ih => rw [List.foldl_cons, List.foldl_cons, ih, get_perRow]

end

/-! ### Where the two paths agree -/

section

variable {p : Platform} {pg : Postgres} {t : Table} {op : ProjectionOp}
  {ops : List ProjectionOp} {key : String × String} {read cur : Option LinkItem}

theorem not_deleted_none : ¬ Deleted ops none := by
  rintro ⟨item, hitem, -⟩
  exact absurd hitem (Option.not_mem_none item)

theorem deleted_cons : Deleted (op :: ops) read ↔ Deleted [op] read ∨ Deleted ops read := by
  simp only [Deleted, List.mem_cons, List.not_mem_nil, or_false, exists_eq_or_imp, exists_eq_left,
    and_or_left, exists_or]

theorem isDelete_of_putOf {item : LinkItem} (h : putOf p pg op = some item) :
    op.isDelete = false := by
  unfold putOf at h
  split at h
  · exact absurd h (by simp)
  · rename_i hop
    rw [ProjectionOp.isDelete, decide_eq_false fun hdelete => hop (Or.inr hdelete), Bool.and_false]

/-- An op that puts nothing at the key deletes what it reads there, or leaves it. -/
theorem opStep_of_noPut (h : ∀ item ∈ putOf p pg op, item.key ≠ key) :
    opStep p pg key read cur op = if Deleted [op] read then none else cur := by
  have hdeleted : Deleted [op] read ↔
      (op.isDelete && read.any (·.linkId = op.linkId)) = true := by
    rw [Bool.and_eq_true, Option.any_eq_true]
    constructor
    · rintro ⟨item, hitem, other, hother, hdelete, hid⟩
      obtain rfl : other = op := List.mem_singleton.mp hother
      exact ⟨hdelete, item, hitem, decide_eq_true hid.symm⟩
    · rintro ⟨hdelete, item, hitem, hid⟩
      exact ⟨item, hitem, op, List.mem_singleton_self op, hdelete, (of_decide_eq_true hid).symm⟩
  rw [opStep]
  cases hput : putOf p pg op with
  | some item =>
    have hkeep : ¬ Deleted [op] read := by
      rw [hdeleted, isDelete_of_putOf hput]
      simp
    simp only [if_neg (h item hput), if_neg hkeep]
  | none => simp only [hdeleted]

/-- A batch that puts nothing at the key deletes what the key had, or leaves it. -/
theorem foldl_opStep_of_noPut (h : ∀ op ∈ ops, ∀ item ∈ putOf p pg op, item.key ≠ key) :
    ops.foldl (opStep p pg key read) cur = if Deleted ops read then none else cur := by
  induction ops generalizing cur with
  | nil => exact (if_neg fun ⟨_, _, _, hop, _⟩ => List.not_mem_nil hop).symm
  | cons op ops ih =>
    obtain ⟨hop, hops⟩ := List.forall_mem_cons.mp h
    rw [List.foldl_cons, opStep_of_noPut hop, ih hops]
    refine Eq.trans ?_ (if_congr deleted_cons rfl rfl).symm
    by_cases hone : Deleted [op] read
    · simp [hone]
    · simp [hone]

/-- So do the ops one at a time. -/
theorem foldl_perRow_of_noPut (h : ∀ op ∈ ops, ∀ item ∈ putOf p pg op, item.key ≠ key) :
    ops.foldl (fun cur op => opStep p pg key cur cur op) cur =
      if Deleted ops cur then none else cur := by
  induction ops generalizing cur with
  | nil => exact (if_neg fun ⟨_, _, _, hop, _⟩ => List.not_mem_nil hop).symm
  | cons op ops ih =>
    obtain ⟨hop, hops⟩ := List.forall_mem_cons.mp h
    rw [List.foldl_cons, opStep_of_noPut hop, ih hops]
    refine Eq.trans ?_ (if_congr deleted_cons rfl rfl).symm
    by_cases hone : Deleted [op] cur
    · simp [hone, not_deleted_none]
    · simp [hone]

theorem exists_last {α : Type*} {P : α → Prop} {l : List α} (h : ∃ x ∈ l, P x) :
    ∃ pre x post, l = pre ++ x :: post ∧ P x ∧ ∀ y ∈ post, ¬ P y := by
  induction l with
  | nil =>
    obtain ⟨x, hx, -⟩ := h
    exact absurd hx List.not_mem_nil
  | cons a l ih =>
    by_cases hl : ∃ x ∈ l, P x
    · obtain ⟨pre, x, post, rfl, hx, hpost⟩ := ih hl
      exact ⟨a :: pre, x, post, rfl, hx, hpost⟩
    · obtain ⟨x, hx, hPx⟩ := h
      rcases List.mem_cons.mp hx with rfl | hx
      · exact ⟨[], x, l, rfl, hPx, fun y hy hPy => hl ⟨y, hy, hPy⟩⟩
      · exact absurd ⟨x, hx, hPx⟩ hl

/-- Both paths from the last put of a key on. -/
theorem foldl_agree_of_put {pre post : List ProjectionOp} {item : LinkItem}
    (hput : putOf p pg op = some item)
    (hpost : ∀ other ∈ post, ∀ item' ∈ putOf p pg other, item'.key ≠ item.key) :
    ((pre ++ op :: post).foldl (fun cur op => opStep p pg item.key cur cur op) read =
        (pre ++ op :: post).foldl (opStep p pg item.key read) read) ↔
      (Deleted post (some item) ↔ Deleted post read) := by
  have hop : ∀ read cur, opStep p pg item.key read cur op = some item := by
    intro read cur
    simp only [opStep, hput, if_true]
  rw [List.foldl_append, List.foldl_append, List.foldl_cons, List.foldl_cons, hop, hop,
    foldl_perRow_of_noPut hpost, foldl_opStep_of_noPut hpost]
  by_cases hnew : Deleted post (some item) <;> by_cases hold : Deleted post read <;>
    simp [hnew, hold]

/-- **The two paths agree at every key exactly when the deletes do.** -/
theorem foldl_agree_iff :
    (∀ key, ops.foldl (fun cur op => opStep p pg key cur cur op) (t.get key) =
        ops.foldl (opStep p pg key (t.get key)) (t.get key)) ↔ DeletesAgree p pg t ops := by
  constructor
  · rintro hagree pre op post item rfl hput hpost
    exact (foldl_agree_of_put hput hpost).mp (hagree item.key)
  · intro hdeletes key
    by_cases hany : ∃ op ∈ ops, ∃ item ∈ putOf p pg op, item.key = key
    · obtain ⟨pre, op, post, rfl, ⟨item, hput, rfl⟩, hlast⟩ := exists_last hany
      have hpost : ∀ other ∈ post, ∀ item' ∈ putOf p pg other, item'.key ≠ item.key :=
        fun other hother item' hitem' hkey => hlast other hother ⟨item', hitem', hkey⟩
      exact (foldl_agree_of_put hput hpost).mpr (hdeletes pre op post item rfl hput hpost)
    · have hnone : ∀ op ∈ ops, ∀ item ∈ putOf p pg op, item.key ≠ key :=
        fun op hop item hitem hkey => hany ⟨op, hop, item, hitem, hkey⟩
      rw [foldl_perRow_of_noPut hnone, foldl_opStep_of_noPut hnone]

end

/-! ### Results -/

section

variable {p : Platform} {w : World} {pg : Postgres} {t : Table} {ops : List ProjectionOp}
  {i : Nat} {op : ProjectionOp}

theorem mem_linkEntries {request : WriteRequest} :
    (i, request) ∈ linkEntries (resolvedOps p w pg t.items ops) ↔
      w.resolveThrows i = false ∧ ∃ op, ops[i]? = some op ∧
        request ∈ (resolve p pg t.items op).requests := by
  simp only [linkEntries, List.mem_flatMap, List.mem_map, Prod.mk.injEq, Prod.exists]
  constructor
  · rintro ⟨j, r, hr, request, hrequest, rfl, rfl⟩
    obtain ⟨hthrows, op, hop, rfl⟩ := mem_resolvedOps.mp hr
    exact ⟨hthrows, op, hop, hrequest⟩
  · rintro ⟨hthrows, op, hop, hrequest⟩
    exact ⟨i, _, mem_resolvedOps.mpr ⟨hthrows, op, hop, rfl⟩, request, hrequest, rfl, rfl⟩

theorem mem_metaEntries {item : DomainItem} :
    (i, item) ∈ metaEntries (resolvedOps p w pg t.items ops) ↔
      w.resolveThrows i = false ∧ ∃ op, ops[i]? = some op ∧
        item ∈ (resolve p pg t.items op).domainMeta := by
  simp only [metaEntries, List.mem_filterMap, Option.map_eq_some_iff, Prod.mk.injEq, Prod.exists]
  constructor
  · rintro ⟨j, r, hr, item, hitem, rfl, rfl⟩
    obtain ⟨hthrows, op, hop, rfl⟩ := mem_resolvedOps.mp hr
    exact ⟨hthrows, op, hop, hitem⟩
  · rintro ⟨hthrows, op, hop, hitem⟩
    exact ⟨i, _, mem_resolvedOps.mpr ⟨hthrows, op, hop, rfl⟩, item, hitem, rfl, rfl⟩

/-- A slice that was not written takes op `i` with it. -/
def SliceFails (w : World) (pending : List PendingWrite) (i : Nat) : Prop :=
  ∃ slice ∈ (slicesOf pending).zipIdx,
    (!(flushBatch (w.batch slice.2) (slice.1.map (·.request))).ok) = true ∧
      i ∈ slice.1.flatMap (·.owners)

/-- A put that threw takes op `i` with it. -/
def PutFails (w : World) (metas : List MetaWrite) (i : Nat) : Prop :=
  ∃ e ∈ metas, decide (w.put e.item.key ≠ .answered) = true ∧ i ∈ e.owners

def EdgeFails (w : World) (edges : List (Nat × List (String × String))) (i : Nat) : Prop :=
  ∃ edge ∈ edges, edge.2.any (w.edgeThrows edge.1) = true ∧ i ∈ [edge.1]

instance (w : World) (pending : List PendingWrite) (i : Nat) :
    Decidable (SliceFails w pending i) :=
  inferInstanceAs (Decidable (∃ slice ∈ (slicesOf pending).zipIdx, _ ∧ _))

instance (w : World) (metas : List MetaWrite) (i : Nat) : Decidable (PutFails w metas i) :=
  inferInstanceAs (Decidable (∃ e ∈ metas, _ ∧ _))

instance (w : World) (edges : List (Nat × List (String × String))) (i : Nat) :
    Decidable (EdgeFails w edges i) :=
  inferInstanceAs (Decidable (∃ edge ∈ edges, _ ∧ _))

theorem getElem?_applyWrites (p : Platform) (w : World) (pg : Postgres) (t : Table)
    (ops : List ProjectionOp) (i : Nat) :
    (applyWrites p w pg t ops).results[i]? = ops[i]?.map fun op =>
      ((ProjectionResult.mk op.linkId (!w.resolveThrows i)).failIf
        (SliceFails w (collect p w pg t.items ops).pending i)).failIf
        (PutFails w (collect p w pg t.items ops).metas i) := by
  rw [applyWrites, getElem?_results _ (·.owners) results_writeMeta,
    getElem?_results _ (fun slice => slice.1.flatMap (·.owners)) results_flushSlice]
  rw [Option.map_map]
  have hcollected : (collect p w pg t.items ops).results[i]? =
      ops[i]?.map fun op => ⟨op.linkId, !w.resolveThrows i⟩ := by
    rw [collect_eq, List.getElem?_mapIdx]
  rw [hcollected, Option.map_map]
  rfl

theorem getElem?_apply (p : Platform) (w : World) (pg : Postgres) (t : Table)
    (ops : List ProjectionOp) (i : Nat) :
    (apply p w pg t ops).results[i]? = ops[i]?.map fun op =>
      (((ProjectionResult.mk op.linkId (!w.resolveThrows i)).failIf
        (SliceFails w (collect p w pg t.items ops).pending i)).failIf
        (PutFails w (collect p w pg t.items ops).metas i)).failIf
        (EdgeFails w (collect p w pg t.items ops).edge i) := by
  rw [apply, getElem?_results _ (fun edge => [edge.1]) results_runEdge, getElem?_applyWrites,
    Option.map_map]
  rfl

/-- Op `i` is among the owners of a slice just if it resolved to a request of one of its
keys. -/
theorem mem_slice_owners {slice : List PendingWrite} (hop : ops[i]? = some op)
    (hslice : slice.Sublist (collect p w pg t.items ops).pending) :
    i ∈ slice.flatMap (·.owners) ↔ w.resolveThrows i = false ∧
      ∃ request ∈ (resolve p pg t.items op).requests, ∃ e ∈ slice,
        e.request.key = request.key := by
  rw [collect_eq] at hslice
  rw [List.mem_flatMap]
  constructor
  · rintro ⟨e, he, hi⟩
    obtain ⟨request, hrequest, hkey⟩ := (mem_owners (hslice.subset he)).mp hi
    obtain ⟨hthrows, op', hop', hrequest⟩ := mem_linkEntries.mp hrequest
    obtain rfl : op = op' := Option.some.inj (hop.symm.trans hop')
    exact ⟨hthrows, request, hrequest, e, he, hkey.symm⟩
  · rintro ⟨hthrows, request, hrequest, e, he, hkey⟩
    refine ⟨e, he, (mem_owners (hslice.subset he)).mpr ⟨request, ?_, hkey.symm⟩⟩
    exact mem_linkEntries.mpr ⟨hthrows, op, hop, hrequest⟩

theorem sliceFails_iff (hop : ops[i]? = some op) (hthrows : w.resolveThrows i = false) :
    SliceFails w (collect p w pg t.items ops).pending i ↔
      ∃ slice j, (slicesOf (collect p w pg t.items ops).pending)[j]? = some slice ∧
        (flushBatch (w.batch j) (slice.map (·.request))).ok = false ∧
        ∃ request ∈ (resolve p pg t.items op).requests, ∃ e ∈ slice,
          e.request.key = request.key := by
  constructor
  · rintro ⟨⟨slice, j⟩, hslice, hfailed, hi⟩
    have hget := List.mk_mem_zipIdx_iff_getElem?.mp hslice
    have hsub := (sublist_of_mem_slicesOf (List.mem_of_getElem? hget)).1
    exact ⟨slice, j, hget, by simpa using hfailed, ((mem_slice_owners hop hsub).mp hi).2⟩
  · rintro ⟨slice, j, hget, hfailed, hrequest⟩
    have hsub := (sublist_of_mem_slicesOf (List.mem_of_getElem? hget)).1
    exact ⟨(slice, j), List.mk_mem_zipIdx_iff_getElem?.mpr hget, by simpa using hfailed,
      (mem_slice_owners hop hsub).mpr ⟨hthrows, hrequest⟩⟩

theorem putFails_iff (hop : ops[i]? = some op) (hthrows : w.resolveThrows i = false) :
    PutFails w (collect p w pg t.items ops).metas i ↔
      ∃ item ∈ (resolve p pg t.items op).domainMeta, w.put item.key ≠ .answered := by
  rw [collect_eq]
  constructor
  · rintro ⟨e, he, hput, hi⟩
    obtain ⟨item, hitem, hkey⟩ := (mem_owners_collectMetas he).mp hi
    obtain ⟨-, op', hop', hitem⟩ := mem_metaEntries.mp hitem
    obtain rfl : op = op' := Option.some.inj (hop.symm.trans hop')
    exact ⟨item, hitem, hkey ▸ of_decide_eq_true hput⟩
  · rintro ⟨item, hitem, hput⟩
    have hentry := mem_metaEntries.mpr ⟨hthrows, op, hop, hitem⟩
    obtain ⟨e, he⟩ := Option.isSome_iff_exists.mp (metaAt_collectMetas_isSome hentry)
    obtain ⟨hmem, hkey⟩ := (find?_key_eq_some_iff (nodup_collectMetas _)).mp he
    exact ⟨e, hmem, decide_eq_true (hkey.symm ▸ hput),
      (mem_owners_collectMetas hmem).mpr ⟨item, hentry, hkey.symm⟩⟩

theorem edgeFails_iff (hop : ops[i]? = some op) (hthrows : w.resolveThrows i = false) :
    EdgeFails w (collect p w pg t.items ops).edge i ↔
      w.edgeConfigured = true ∧
        ∃ target ∈ (resolve p pg t.items op).edge, w.edgeThrows i target = true := by
  rw [collect_eq]
  cases hedge : w.edgeConfigured with
  | false => simp [EdgeFails]
  | true =>
    rw [if_pos rfl, and_iff_right rfl, ← List.any_eq_true]
    constructor
    · rintro ⟨edge, hmem, hany, hi⟩
      obtain ⟨⟨j, r⟩, hr, rfl⟩ := List.mem_map.mp hmem
      obtain rfl : i = j := List.mem_singleton.mp hi
      obtain ⟨-, op', hop', rfl⟩ := mem_resolvedOps.mp hr
      obtain rfl : op = op' := Option.some.inj (hop.symm.trans hop')
      exact hany
    · intro hany
      exact ⟨_, List.mem_map_of_mem (mem_resolvedOps.mpr ⟨hthrows, op, hop, rfl⟩), hany,
        List.mem_singleton_self i⟩

/-- **An op fails just if something of it did.** -/
theorem getElem?_apply_failed (hop : ops[i]? = some op) :
    (apply p w pg t ops).results[i]? = some ⟨op.linkId, false⟩ ↔ OpFails p w pg t ops i op := by
  rw [getElem?_apply, hop, Option.map_some, Option.some.injEq]
  have hresult : ∀ r : ProjectionResult, r.linkId = op.linkId →
      (r = ⟨op.linkId, false⟩ ↔ ¬ r.ok = true) := by
    rintro ⟨linkId, ok⟩ rfl
    simp
  rw [hresult _ (by simp), ok_failIf, ok_failIf, ok_failIf, OpFails]
  cases hthrows : w.resolveThrows i with
  | true => simp
  | false =>
    rw [sliceFails_iff hop hthrows, putFails_iff hop hthrows, edgeFails_iff hop hthrows]
    rw [Bool.not_false, eq_self_iff_true, true_and, not_and_or, not_and_or, not_not, not_not,
      not_not, or_assoc]
    exact (or_iff_right Bool.false_ne_true).symm

theorem map_linkId_apply :
    (apply p w pg t ops).results.map (·.linkId) = ops.map (·.linkId) := by
  refine List.ext_getElem? fun i => ?_
  rw [List.getElem?_map, List.getElem?_map, getElem?_apply, Option.map_map]
  refine congrArg (fun f => Option.map f ops[i]?) (funext fun op => ?_)
  simp

/-- **No call is longer than the limit or has two requests of one key.** -/
theorem calls_apply : ∀ call ∈ (apply p w pg t ops).calls,
    call.length ≤ batchLimit ∧ (call.map WriteRequest.key).Nodup := by
  rw [apply, calls_runEdges, applyWrites, calls_writeMetas, calls_flushSlices, List.nil_append]
  intro call hcall
  obtain ⟨slice, hslice, hcall⟩ := List.mem_flatMap.mp hcall
  have hget := List.mem_zipIdx_iff_getElem?.mp hslice
  obtain ⟨hsub, hlength⟩ := sublist_of_mem_slicesOf (List.mem_of_getElem? hget)
  have hpart := flushBatch_calls call hcall
  refine ⟨?_, ?_⟩
  · exact hpart.length_le.trans (List.length_map (f := PendingWrite.request) ▸ hlength)
  · have hkeys : ((slice.1.map (·.request)).map WriteRequest.key).Nodup := by
      rw [List.map_map]
      rw [collect_eq] at hsub
      exact (nodup_collectRequests _).sublist (hsub.map _)
    exact hkeys.sublist (hpart.map _)

end

/-! ### The table -/

section

variable {p : Platform} {w : World} {pg : Postgres} {t : Table} {ops : List ProjectionOp}

/-- Nothing of a batch failed up to its work on the edge. -/
structure AllWritten (p : Platform) (w : World) (pg : Postgres) (t : Table)
    (ops : List ProjectionOp) : Prop where
  resolved : ∀ i < ops.length, w.resolveThrows i = false
  flushed : ∀ slice ∈ (slicesOf (collect p w pg t.items ops).pending).zipIdx,
    (flushBatch (w.batch slice.2) (slice.1.map (·.request))).ok = true
  put : ∀ e ∈ (collect p w pg t.items ops).metas, w.put e.item.key = .answered

theorem lt_of_mem_linkEntries {i : Nat} {request : WriteRequest}
    (h : (i, request) ∈ linkEntries (resolvedOps p w pg t.items ops)) : i < ops.length := by
  obtain ⟨-, op, hop, -⟩ := mem_linkEntries.mp h
  exact (List.getElem?_eq_some_iff.mp hop).1

theorem lt_of_mem_metaEntries {i : Nat} {item : DomainItem}
    (h : (i, item) ∈ metaEntries (resolvedOps p w pg t.items ops)) : i < ops.length := by
  obtain ⟨-, op, hop, -⟩ := mem_metaEntries.mp h
  exact (List.getElem?_eq_some_iff.mp hop).1

/-- Every write has an op to report it. -/
theorem allWritten_of_results (h : ∀ r ∈ (applyWrites p w pg t ops).results, r.ok = true) :
    AllWritten p w pg t ops := by
  have hok : ∀ i < ops.length, w.resolveThrows i = false ∧
      ¬ SliceFails w (collect p w pg t.items ops).pending i ∧
      ¬ PutFails w (collect p w pg t.items ops).metas i := by
    intro i hi
    have hget := getElem?_applyWrites p w pg t ops i
    rw [List.getElem?_eq_getElem hi, Option.map_some] at hget
    have hr := h _ (List.mem_of_getElem? hget)
    rw [ok_failIf, ok_failIf] at hr
    exact ⟨by simpa using hr.1.1, hr.1.2, hr.2⟩
  refine ⟨fun i hi => (hok i hi).1, fun slice hslice => ?_, fun e he => ?_⟩
  · by_contra hfailed
    have hmem := List.mem_of_getElem? (List.mem_zipIdx_iff_getElem?.mp hslice)
    obtain ⟨e, he⟩ := List.exists_mem_of_ne_nil _ (ne_nil_of_mem_slicesOf hmem)
    have hpending := (sublist_of_mem_slicesOf hmem).1.subset he
    rw [collect_eq] at hpending
    obtain ⟨i, hi⟩ := owners_ne_nil hpending
    obtain ⟨request, hrequest, -⟩ := (mem_owners hpending).mp hi
    exact (hok i (lt_of_mem_linkEntries hrequest)).2.1
      ⟨slice, hslice, by simpa using hfailed, List.mem_flatMap.mpr ⟨e, he, hi⟩⟩
  · by_contra hput
    have hmem := he
    rw [collect_eq] at hmem
    obtain ⟨i, hi⟩ := owners_collectMetas_ne_nil hmem
    obtain ⟨item, hitem, -⟩ := (mem_owners_collectMetas hmem).mp hi
    exact (hok i (lt_of_mem_metaEntries hitem)).2.2 ⟨e, he, decide_eq_true hput, hi⟩

theorem resolvedOps_eq (h : ∀ i < ops.length, w.resolveThrows i = false) :
    resolvedOps p w pg t.items ops =
      ops.zipIdx.map fun x => (x.2, resolve p pg t.items x.1) := by
  rw [resolvedOps, ← List.filterMap_eq_map]
  refine List.filterMap_congr fun x hx => ?_
  rw [h x.2 (List.getElem?_eq_some_iff.mp (List.mem_zipIdx_iff_getElem?.mp hx)).1]
  rfl

/-- The requests of a batch at one key are the ops' steps there. -/
theorem foldl_linkEntries (h : ∀ i < ops.length, w.resolveThrows i = false)
    (key : String × String) (cur : Option LinkItem) :
    ((linkEntries (resolvedOps p w pg t.items ops)).filter fun x => x.2.key = key).foldl
        (fun _ x => x.2.item?) cur = ops.foldl (opStep p pg key (t.get key)) cur := by
  have hsteps : ∀ x : ProjectionOp × Nat, ∀ cur : Option LinkItem,
      (((resolve p pg t.items x.1).requests.map fun request => (x.2, request)).filter
        fun x => x.2.key = key).foldl (fun _ x => x.2.item?) cur =
      opStep p pg key (t.get key) cur x.1 := by
    intro x cur
    rw [List.filter_map, List.foldl_map]
    exact foldl_requests cur
  rw [linkEntries, resolvedOps_eq h, List.flatMap_map, List.filter_flatMap, List.foldl_flatMap]
  simp only [hsteps]
  conv_rhs => rw [← List.zipIdx_map_fst 0 ops, List.foldl_map]

/-- What a batch has written is what it had pending. -/
theorem mem_written (h : AllWritten p w pg t ops) (request : WriteRequest) :
    (request ∈ (slicesOf (collect p w pg t.items ops).pending).zipIdx.flatMap fun slice =>
        (flushBatch (w.batch slice.2) (slice.1.map (·.request))).written) ↔
      ∃ e ∈ (collect p w pg t.items ops).pending, e.request = request := by
  rw [List.mem_flatMap]
  constructor
  · rintro ⟨slice, hslice, hrequest⟩
    obtain ⟨e, he, rfl⟩ := List.mem_map.mp (flushBatch_written_subset request hrequest)
    have hmem := List.mem_of_getElem? (List.mem_zipIdx_iff_getElem?.mp hslice)
    exact ⟨e, (sublist_of_mem_slicesOf hmem).1.subset he, rfl⟩
  · rintro ⟨e, he, rfl⟩
    obtain ⟨slice, hslice, hmem⟩ := exists_mem_slicesOf he
    obtain ⟨j, hj⟩ := List.mem_iff_getElem?.mp hslice
    have hidx : (slice, j) ∈ (slicesOf (collect p w pg t.items ops).pending).zipIdx :=
      List.mk_mem_zipIdx_iff_getElem?.mpr hj
    exact ⟨(slice, j), hidx,
      flushBatch_written (h.flushed _ hidx) e.request (List.mem_map_of_mem hmem)⟩

/-- **A batch at one key**: every op reads the key as it was before. -/
theorem get_applyWrites (h : AllWritten p w pg t ops) (key : String × String) :
    (applyWrites p w pg t ops).table.get key =
      ops.foldl (opStep p pg key (t.get key)) (t.get key) := by
  rw [applyWrites, get_writeMetas, table_flushSlices, get_flush,
    ← foldl_linkEntries (w := w) h.resolved key]
  have hpending : (collect p w pg t.items ops).pending =
      collectRequests (linkEntries (resolvedOps p w pg t.items ops)) := by rw [collect_eq]
  have hat := requestAt_collectRequests (linkEntries (resolvedOps p w pg t.items ops)) key
  have hwritten := mem_written h
  rw [hpending] at hwritten
  obtain hnil | ⟨init, last, hlast⟩ := List.eq_nil_or_concat
    ((linkEntries (resolvedOps p w pg t.items ops)).filter fun x => x.2.key = key)
  · rw [hnil] at hat ⊢
    refine foldl_writes_of_ne fun r hr hkey => ?_
    rw [hpending] at hr
    obtain ⟨e, he, rfl⟩ := (hwritten r).mp hr
    exact List.find?_eq_none.mp hat e he (decide_eq_true hkey)
  · rw [List.concat_eq_append] at hlast
    rw [hlast, List.getLast?_concat, Option.map_some] at hat
    obtain ⟨hmem, hkey⟩ := (find?_key_eq_some_iff (nodup_collectRequests _)).mp hat
    rw [hlast, List.foldl_concat, hpending]
    refine foldl_writes_of_forall ⟨last.2, (hwritten _).mpr ⟨_, hmem, rfl⟩, hkey⟩ ?_
    intro r hr hrkey
    obtain ⟨e, he, rfl⟩ := (hwritten r).mp hr
    have hfind := (find?_key_eq_some_iff (nodup_collectRequests _)).mpr ⟨he, hrkey⟩
    rw [Option.some.inj (hfind.symm.trans hat)]

theorem wellFormed_domainMeta {items : List LinkItem} {op : ProjectionOp} {item : DomainItem}
    (h : item ∈ (resolve p pg items op).domainMeta) : item.WellFormed := by
  unfold resolve at h
  split at h
  · exact buildDomainMeta_wellFormed h
  · split at h
    · exact absurd h (Option.not_mem_none item)
    · change upsertMetaOf p pg op.linkId = some item at h
      unfold upsertMetaOf at h
      split at h
      · exact absurd h (by simp)
      · split at h
        · exact absurd h (by simp)
        · exact Option.some.inj h ▸ upsertMeta_wellFormed _

/-- What an op writes of its domain does not depend on the table. -/
theorem domainMeta_resolve (items items' : List LinkItem) (op : ProjectionOp) :
    (resolve p pg items op).domainMeta = (resolve p pg items' op).domainMeta := by
  unfold resolve
  split
  · rfl
  · split <;> rfl

theorem metas_foldl_perRow (items : List LinkItem) (t : Table) :
    (ops.foldl (Table.perRow p pg) t).metas =
      (ops.filterMap fun op => (resolve p pg items op).domainMeta).foldl (writeMeta p)
        t.metas := by
  induction ops generalizing t with
  | nil => rfl
  | cons op ops ih =>
    rw [List.foldl_cons, ih, List.filterMap_cons, perRow_eq, domainMeta_resolve t.items items]
    cases (resolve p pg items op).domainMeta with
    | none => rw [metas_flush]
    | some item =>
      rw [List.foldl_cons, ← metas_flush t (resolve p pg t.items op).requests]
      rfl

/-- **The domain items are always those of the ops one at a time.** -/
theorem metas_applyWrites (h : AllWritten p w pg t ops) :
    (applyWrites p w pg t ops).table.metas = (ops.foldl (Table.perRow p pg) t).metas := by
  have hmetas : (collect p w pg t.items ops).metas =
      collectMetas (metaEntries (resolvedOps p w pg t.items ops)) := by rw [collect_eq]
  have hput := h.put
  rw [applyWrites, metas_writeMetas hput, table_flushSlices, metas_flush, hmetas,
    foldl_writeMeta_collectMetas, metas_foldl_perRow t.items]
  · rw [metaEntries, resolvedOps_eq h.resolved, List.filterMap_map, List.map_filterMap]
    conv_rhs => rw [← List.zipIdx_map_fst 0 ops, List.filterMap_map]
    refine congrArg (fun l => List.foldl (writeMeta p) t.metas l) ?_
    refine List.filterMap_congr fun x _ => ?_
    simp
  · rintro ⟨i, item⟩ hentry
    obtain ⟨-, op, -, hitem⟩ := mem_metaEntries.mp hentry
    exact wellFormed_domainMeta hitem

end

/-! ### The result -/

/-- Everything is answered at once. -/
def quietWorld : World where
  edgeConfigured := false
  resolveThrows _ := false
  batch _ _ := ⟨[], false⟩
  put _ := .answered
  edgeThrows _ _ := false

theorem flushBatch_quiet (j : Nat) (batch : List WriteRequest) :
    (flushBatch (quietWorld.batch j) batch).ok = true := by
  rw [flushBatch]
  split
  · rfl
  · simp [flushAttempts, maxBatchAttempts, quietWorld]

theorem allWritten_quiet (p : Platform) (pg : Postgres) (t : Table) (ops : List ProjectionOp) :
    ∀ r ∈ (applyWrites p quietWorld pg t ops).results, r.ok = true := by
  intro r hr
  obtain ⟨i, hi⟩ := List.mem_iff_getElem?.mp hr
  rw [getElem?_applyWrites] at hi
  obtain ⟨op, -, rfl⟩ := Option.map_eq_some_iff.mp hi
  rw [ok_failIf, ok_failIf]
  refine ⟨⟨rfl, ?_⟩, ?_⟩
  · rintro ⟨slice, -, hfailed, -⟩
    rw [flushBatch_quiet] at hfailed
    exact absurd hfailed (by decide)
  · rintro ⟨e, -, hput, -⟩
    exact of_decide_eq_true hput rfl

/-- **When a batch applies its ops as one at a time.**  Its results, its calls and its
failures are as claimed whatever the outside answers.  The table is, when nothing fails,
exactly if the deletes after the last put of each key are about the link that was put
just when they are about the link that was there before. -/
theorem appliesAsSequential_iff (p : Platform) (pg : Postgres) (t : Table)
    (ops : List ProjectionOp) :
    (∀ w, AppliesAsSequential p pg t ops w) ↔ DeletesAgree p pg t ops := by
  rw [← foldl_agree_iff]
  constructor
  · intro hall key
    have hquiet := allWritten_quiet p pg t ops
    have hsame := ((hall quietWorld).table hquiet key).1
    rw [get_applyWrites (allWritten_of_results hquiet), get_foldl_perRow] at hsame
    exact hsame.symm
  · intro hagree w
    refine ⟨fun hok key => ⟨?_, ?_⟩, map_linkId_apply, calls_apply, fun i op hop =>
      getElem?_apply_failed hop⟩
    · rw [get_applyWrites (allWritten_of_results hok), get_foldl_perRow, hagree key]
    · rw [metas_applyWrites (allWritten_of_results hok)]

/-- The link `L2` of snap.to/sale, a slug that was `L1`'s before. -/
def reusedSlug : Postgres where
  links := [⟨saleLink "L2" "https://b.com", "sale",
    ⟨"D1", "snap.to", true, none, none, some 0⟩⟩]
  domains := [⟨"D1", "snap.to", true, none, none, some 0⟩]

/-- The table still has the item of `L1`. -/
def staleTable : Table where
  items := [toLinkItem plainPlatform (saleLink "L1" "https://a.com") "snap.to" "sale"]
  metas := fun _ => none
  unique := List.nodup_singleton _

/-- **A delete that comes after the slug was taken again** removes, in a batch, the item of
the link that took it. -/
theorem late_delete_removes_put :
    ¬ ∀ (p : Platform) (pg : Postgres) (t : Table) (ops : List ProjectionOp) (w : World),
      AppliesAsSequential p pg t ops w := by
  intro hall
  have hsame := ((hall plainPlatform reusedSlug staleTable
    [⟨"L2", "upsert", none⟩, ⟨"L1", "delete", none⟩] quietWorld).table
    (allWritten_quiet _ _ _ _) ("d#snap.to", "s#sale")).1
  have hdiffers : (applyWrites plainPlatform quietWorld reusedSlug staleTable
      [⟨"L2", "upsert", none⟩, ⟨"L1", "delete", none⟩]).table.get ("d#snap.to", "s#sale") ≠
      ([⟨"L2", "upsert", none⟩, ⟨"L1", "delete", none⟩].foldl
        (Table.perRow plainPlatform reusedSlug) staleTable).get ("d#snap.to", "s#sale") := by
    decide +kernel
  exact hdiffers hsame

end SnapUrl.Projection.Batch
