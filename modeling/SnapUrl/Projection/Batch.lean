import SnapUrl.Projection.DomainMeta
import SnapUrl.Projection.Outbox

/-!
# One claimed batch

`apps/worker/src/jobs/dynamo-projection.ts`: a batch of ops, read against the state of
the database and of the table as they are, and written together.

* `Table.upsert`, `Table.remove`, `Table.projectDomain`: the per-row path, where each op
  reads what the ops before it have written.
* `apply`: every op is resolved first, the requests are coalesced by key (`addRequest`,
  `addMeta`), the LINK items are flushed in batches of 25, then come the domain items
  and last each op's work on the edge.
* `World` is what the database, the table and the edge answer.
-/

namespace SnapUrl.Projection.Batch

open Lib

/-! ### What the builders read -/

/-- A link row and its slug, joined with its domain's row. -/
structure LinkRow where
  link : ProjectedLink
  slug : String
  domain : PgDomain
deriving DecidableEq, Repr

def LinkRow.toPgLink (row : LinkRow) : PgLink :=
  ⟨row.link, row.domain.domain, row.slug, row.domain.live⟩

structure Postgres where
  links : List LinkRow
  domains : List PgDomain
deriving DecidableEq, Repr

/-- The LINK items, one for each key, and the domain items. -/
structure Table where
  items : List LinkItem
  metas : Metas
  unique : (items.map LinkItem.key).Nodup

def Table.get (t : Table) (key : String × String) : Option LinkItem := getItem t.items key

theorem nodup_deleteItem {items : List LinkItem} (h : (items.map LinkItem.key).Nodup)
    (key : String × String) : ((deleteItem items key).map LinkItem.key).Nodup :=
  h.sublist (List.filter_sublist.map _)

theorem nodup_apply {items : List LinkItem} (h : (items.map LinkItem.key).Nodup)
    (request : WriteRequest) : ((request.apply items).map LinkItem.key).Nodup := by
  cases request with
  | delete key => exact nodup_deleteItem h key
  | put item =>
    rw [WriteRequest.apply, putItem, List.map_append]
    refine List.Nodup.append (nodup_deleteItem h item.key) (List.nodup_singleton _) ?_
    intro key hkey hnew
    obtain ⟨other, hother, rfl⟩ := List.mem_map.mp hkey
    have hne := (List.mem_filter.mp hother).2
    exact of_decide_eq_true hne (List.mem_singleton.mp hnew)

def Table.write (t : Table) (request : WriteRequest) : Table :=
  { t with items := request.apply t.items, unique := nodup_apply t.unique request }

def Table.putMeta (p : Platform) (t : Table) (item : DomainItem) : Table :=
  { t with metas := writeMeta p t.metas item }

/-- The domain item an upsert comes with. -/
def upsertMetaOf (p : Platform) (pg : Postgres) (linkId : String) : Option DomainItem :=
  match pg.links.find? fun row => row.link.id = linkId with
  | none => none
  | some row => if !row.domain.live then none else some (upsertMeta p row.domain)

/-- The host and the slug an upsert has to bring to the edge. -/
def upsertEdge (pg : Postgres) (linkId : String) : List (String × String) :=
  match pg.links.find? fun row => row.link.id = linkId with
  | none => []
  | some row => if !row.domain.live then [] else [(row.domain.domain, row.slug)]

/-- `startsWith`. -/
def startsWith (s part : String) : Bool := part.toList.isPrefixOf s.toList

/-- `slice(2)`. -/
def sliceFrom2 (s : String) : String := String.ofList (s.toList.drop 2)

/-- The hosts and slugs of the LINK items among deletes. -/
def edgeTargetsOf (requests : List WriteRequest) : List (String × String) :=
  requests.filterMap fun
    | .put _ => none
    | .delete (PK, SK) =>
      if !startsWith PK "d#" || !startsWith SK "s#" then none
      else some (sliceFrom2 PK, sliceFrom2 SK)

/-! ### The per-row path -/

def Table.flush (t : Table) (requests : List WriteRequest) : Table :=
  requests.foldl Table.write t

def Table.upsert (p : Platform) (pg : Postgres) (t : Table) (linkId : String) : Table :=
  let t := t.flush (buildUpsertRequests p (pg.links.map LinkRow.toPgLink) linkId)
  match upsertMetaOf p pg linkId with
  | none => t
  | some item => t.putMeta p item

/-- The deletes are built from the index, which has what the table has. -/
def Table.remove (t : Table) (linkId : String) : Table :=
  t.flush (buildDeleteRequests t.items linkId)

def Table.projectDomain (p : Platform) (pg : Postgres) (t : Table) (domainId : String)
    (host : Option String) : Table :=
  match buildDomainMeta p pg.domains domainId host with
  | none => t
  | some item => t.putMeta p item

structure ProjectionOp where
  linkId : String
  operation : String
  host : Option String
deriving DecidableEq, Repr

/-- `DOMAIN_OP`. -/
def domainOp : String := "domain"

/-- One op as `drainOutbox` applies it to a target without a batch entry point. -/
def Table.perRow (p : Platform) (pg : Postgres) (t : Table) (op : ProjectionOp) : Table :=
  if op.operation = domainOp then t.projectDomain p pg op.linkId op.host
  else if op.operation = "delete" then t.remove op.linkId
  else t.upsert p pg op.linkId

/-! ### What the outside answers -/

/-- What became of one BatchWrite: the keys it left unprocessed, and whether the call
threw. -/
structure Response where
  unprocessed : List (String × String)
  threw : Bool
deriving DecidableEq, Repr

/-- What became of one conditional put.  A lost condition is an answer. -/
inductive PutOutcome where
  | answered
  | threw (landed : Bool)
deriving DecidableEq, Repr

structure World where
  /-- A key-value store or a cache is configured. -/
  edgeConfigured : Bool
  /-- Reading for the op at a place throws. -/
  resolveThrows : Nat → Bool
  /-- What the attempts at a batch get. -/
  batch : Nat → Nat → Response
  put : String × String → PutOutcome
  /-- The edge's work for the op at a place, on one host and slug, throws. -/
  edgeThrows : Nat → String × String → Bool

/-! ### Flushing -/

/-- `BATCH_LIMIT`. -/
def batchLimit : Nat := 25

/-- `MAX_BATCH_ATTEMPTS`. -/
def maxBatchAttempts : Nat := 5

/-- The BatchWrites a flush made, the requests they wrote, and whether it returned. -/
structure Flushed where
  calls : List (List WriteRequest)
  written : List WriteRequest
  ok : Bool
deriving DecidableEq, Repr

def flushAttempts (respond : Nat → Response) : Nat → Nat → List WriteRequest → Flushed
  | 0, _, _ => ⟨[], [], false⟩
  | left + 1, attempt, unprocessed =>
    let response := respond attempt
    let remaining := unprocessed.filter fun r => r.key ∈ response.unprocessed
    let written := unprocessed.filter fun r => r.key ∉ response.unprocessed
    if response.threw then ⟨[unprocessed], written, false⟩
    else if remaining = [] then ⟨[unprocessed], written, true⟩
    else
      let rest := flushAttempts respond left (attempt + 1) remaining
      ⟨unprocessed :: rest.calls, written ++ rest.written, rest.ok⟩

def flushBatch (respond : Nat → Response) (batch : List WriteRequest) : Flushed :=
  if batch = [] then ⟨[], [], true⟩ else flushAttempts respond maxBatchAttempts 0 batch

/-- The slices of `BATCH_LIMIT` a list is flushed in. -/
def slicesOf {α : Type} (l : List α) : List (List α) :=
  (List.range ((l.length + (batchLimit - 1)) / batchLimit)).map fun j =>
    (l.drop (batchLimit * j)).take batchLimit

/-! ### Applying a batch -/

structure ProjectionResult where
  linkId : String
  ok : Bool
deriving DecidableEq, Repr

/-- What an op resolves to. -/
structure Resolution where
  requests : List WriteRequest
  domainMeta : Option DomainItem
  edge : List (String × String)
deriving DecidableEq, Repr

def resolve (p : Platform) (pg : Postgres) (items : List LinkItem) (op : ProjectionOp) :
    Resolution :=
  if op.operation = domainOp then ⟨[], buildDomainMeta p pg.domains op.linkId op.host, []⟩
  else if op.operation = "delete" then
    let requests := buildDeleteRequests items op.linkId
    ⟨requests, none, edgeTargetsOf requests⟩
  else
    ⟨buildUpsertRequests p (pg.links.map LinkRow.toPgLink) op.linkId, upsertMetaOf p pg op.linkId,
      upsertEdge pg op.linkId⟩

/-- What has been collected of the ops: a result for each, and what is to be written. -/
structure Collected where
  results : List ProjectionResult
  pending : List PendingWrite
  metas : List MetaWrite
  edge : List (Nat × List (String × String))
deriving DecidableEq, Repr

def Collected.add (p : Platform) (w : World) (pg : Postgres) (items : List LinkItem)
    (c : Collected) (op : ProjectionOp) : Collected :=
  let index := c.results.length
  if w.resolveThrows index then { c with results := c.results ++ [⟨op.linkId, false⟩] }
  else
    let r := resolve p pg items op
    { results := c.results ++ [⟨op.linkId, true⟩]
      pending := r.requests.foldl (addRequest index) c.pending
      metas := match r.domainMeta with
        | none => c.metas
        | some item => addMeta index c.metas item
      edge := if w.edgeConfigured then c.edge ++ [(index, r.edge)] else c.edge }

def collect (p : Platform) (w : World) (pg : Postgres) (items : List LinkItem)
    (ops : List ProjectionOp) : Collected :=
  ops.foldl (Collected.add p w pg items) ⟨[], [], [], []⟩

/-- The results with every one of `owners` failed. -/
def failOps (owners : List Nat) (results : List ProjectionResult) : List ProjectionResult :=
  results.mapIdx fun i r => if i ∈ owners then { r with ok := false } else r

/-- A batch while it is written. -/
structure Drain where
  table : Table
  results : List ProjectionResult
  calls : List (List WriteRequest)

def Drain.flushSlice (w : World) (d : Drain) (slice : List PendingWrite × Nat) : Drain :=
  let f := flushBatch (w.batch slice.2) (slice.1.map (·.request))
  { table := d.table.flush f.written
    results := if f.ok then d.results else failOps (slice.1.flatMap (·.owners)) d.results
    calls := d.calls ++ f.calls }

def Drain.writeMeta (p : Platform) (w : World) (d : Drain) (e : MetaWrite) : Drain :=
  match w.put e.item.key with
  | .answered => { d with table := d.table.putMeta p e.item }
  | .threw landed =>
    { d with
      table := if landed then d.table.putMeta p e.item else d.table
      results := failOps e.owners d.results }

def Drain.runEdge (w : World) (d : Drain) (edge : Nat × List (String × String)) : Drain :=
  if (d.results[edge.1]?).any (·.ok) && edge.2.any (w.edgeThrows edge.1) then
    { d with results := failOps [edge.1] d.results }
  else d

/-- The batch after its writes to the table. -/
def applyWrites (p : Platform) (w : World) (pg : Postgres) (t : Table)
    (ops : List ProjectionOp) : Drain :=
  let c := collect p w pg t.items ops
  let flushed := (slicesOf c.pending).zipIdx.foldl (Drain.flushSlice w) ⟨t, c.results, []⟩
  c.metas.foldl (Drain.writeMeta p w) flushed

def apply (p : Platform) (w : World) (pg : Postgres) (t : Table) (ops : List ProjectionOp) :
    Drain :=
  (collect p w pg t.items ops).edge.foldl (Drain.runEdge w) (applyWrites p w pg t ops)

end SnapUrl.Projection.Batch
