import SnapUrl.Lib.Run
import SnapUrl.Projection.Item

/-!
# Draining the projection outbox

`apps/worker/src/jobs/outbox.ts` and `dynamo-projection.ts`.  The API writes a link
and an outbox row in one transaction.  Workers claim rows, read the links, and put
or delete the LINK items of the projection table.

* An API write is one step.  So are a worker's claim, each read of a row's link,
  each write of an item and each mark of a row, and any number of workers take
  their steps in any order.
* `drainOutbox` hands a claimed batch to `apply`, which resolves every row first and
  then flushes, with one request for each key (`addRequest`).
* A claim is a lease: the rows of a worker that has died, or is slow, are claimed
  again, and both may go on.
* The index a delete is resolved with is eventually consistent with the table.
-/

namespace SnapUrl.Projection

open Lib

/-! ### Links and items -/

/-- A link row with its domain; `live` is whether the domain's status is so. -/
structure PgLink where
  link : ProjectedLink
  host : String
  slug : String
  live : Bool
deriving DecidableEq, Repr

def PgLink.key (p : Platform) (l : PgLink) : String × String := linkKey p l.host l.slug

def PgLink.item (p : Platform) (l : PgLink) : LinkItem := toLinkItem p l.link l.host l.slug

/-- The row after an update of the link with the id of `link`. -/
def PgLink.set (link : ProjectedLink) (l : PgLink) : PgLink :=
  if l.link.id = link.id then { l with link := link } else l

def LinkItem.key (item : LinkItem) : String × String := (item.PK, item.SK)

/-- The item stored at a key. -/
def getItem (table : List LinkItem) (key : String × String) : Option LinkItem :=
  table.find? fun item => item.key = key

def deleteItem (table : List LinkItem) (key : String × String) : List LinkItem :=
  table.filter fun item => item.key ≠ key

def putItem (table : List LinkItem) (item : LinkItem) : List LinkItem :=
  deleteItem table item.key ++ [item]

inductive WriteRequest where
  | put (item : LinkItem)
  | delete (key : String × String)
deriving DecidableEq, Repr

/-- What a request leaves at its key. -/
def WriteRequest.item? : WriteRequest → Option LinkItem
  | .put item => some item
  | .delete _ => none

/-- `requestKey`. -/
def WriteRequest.key : WriteRequest → String × String
  | .put item => item.key
  | .delete key => key

def WriteRequest.apply (table : List LinkItem) : WriteRequest → List LinkItem
  | .put item => putItem table item
  | .delete key => deleteItem table key

/-! ### The outbox -/

inductive Operation where
  | upsert
  | delete
deriving DecidableEq, Repr

/-- An outbox row; its id is its place in the outbox. -/
structure OutboxRow where
  linkId : String
  operation : Operation
  attempts : Nat
  claimedAt : Option Int
  processed : Bool
deriving DecidableEq, Repr

/-- `MAX_ATTEMPTS`. -/
def maxAttempts : Nat := 8

/-- `CLAIM_LEASE`, in milliseconds. -/
def claimLease : Int := 5 * 60 * 1000

/-- The row as it is enqueued. -/
def OutboxRow.enqueued (linkId : String) (operation : Operation) : OutboxRow :=
  ⟨linkId, operation, 0, none, false⟩

def OutboxRow.claimable (row : OutboxRow) (now : Int) : Bool :=
  !row.processed && row.attempts < maxAttempts && row.claimedAt.all (· < now - claimLease)

def OutboxRow.markProcessed (row : OutboxRow) : OutboxRow := { row with processed := true }

def OutboxRow.markFailed (row : OutboxRow) : OutboxRow :=
  { row with attempts := row.attempts + 1, claimedAt := none }

/-! ### Workers -/

/-- A coalesced request and the rows that contributed to it. -/
structure PendingWrite where
  request : WriteRequest
  owners : List Nat
deriving DecidableEq, Repr

/-- A running drain: the claimed rows it has not read yet, what came of those it has
read, and the requests that are not flushed yet. -/
structure Worker where
  todo : List Nat
  results : List (Nat × Bool)
  pending : List PendingWrite
deriving DecidableEq, Repr

/-- The last request of a key stays, with the owners of all. -/
def addRequest (owner : Nat) (pending : List PendingWrite) (request : WriteRequest) :
    List PendingWrite :=
  if pending.any fun e => e.request.key = request.key then
    pending.map fun e =>
      if e.request.key = request.key then ⟨request, e.owners ++ [owner]⟩ else e
  else pending ++ [⟨request, [owner]⟩]

/-- The put of a link as it is now; nothing for a link that is gone, or whose domain
is not live. -/
def buildUpsertRequests (p : Platform) (links : List PgLink) (linkId : String) :
    List WriteRequest :=
  match links.find? fun l => l.link.id = linkId with
  | none => []
  | some l => if !l.live then [] else [.put (l.item p)]

/-- Deletes of the items the index has for a link id. -/
def buildDeleteRequests (index : List LinkItem) (linkId : String) : List WriteRequest :=
  (index.filter fun item => item.linkId = linkId).map fun item => .delete item.key

/-- The worker without its request for a key. -/
def Worker.done (w : Worker) (key : String × String) : Worker :=
  { w with pending := w.pending.filter fun e => e.request.key ≠ key }

/-- The results with every one of `owners` failed. -/
def failRows (owners : List Nat) (results : List (Nat × Bool)) : List (Nat × Bool) :=
  results.map fun r => if r.1 ∈ owners then (r.1, false) else r

/-! ### Steps -/

structure State where
  links : List PgLink
  outbox : List OutboxRow
  table : List LinkItem
  index : List LinkItem
  workers : List Worker
  now : Int
deriving DecidableEq, Repr

def start : State := ⟨[], [], [], [], [], 0⟩

inductive Action where
  | create (l : PgLink)
  /-- The link's fields change; its host and its slug do not. -/
  | update (link : ProjectedLink)
  | delete (linkId : String)
  | claim (rows : List Nat)
  /-- Worker `i` reads what its next row is about. -/
  | resolve (i : Nat)
  | resolveFails (i : Nat)
  /-- Worker `i` writes its request for a key, and may yet write it again. -/
  | write (i : Nat) (key : String × String) (again : Bool)
  | writeFails (i : Nat) (key : String × String)
  /-- What follows the writes of a row fails. -/
  | edgeFails (i : Nat) (row : Nat)
  | mark (i : Nat)
  | crash (i : Nat)
  | propagate (key : String × String)
  | tick (ms : Nat)
deriving DecidableEq, Repr

def State.enqueue (s : State) (linkId : String) (operation : Operation) : State :=
  { s with outbox := s.outbox ++ [.enqueued linkId operation] }

/-- The row worker `i` reads next. -/
def State.nextRow (s : State) (i : Nat) : Option OutboxRow := do
  let w ← s.workers[i]?
  let rowId ← w.todo.head?
  s.outbox[rowId]?

/-- The request worker `i` has for a key. -/
def State.pendingAt (s : State) (i : Nat) (key : String × String) : Option PendingWrite := do
  let w ← s.workers[i]?
  w.pending.find? fun e => e.request.key = key

/-- The requests a row resolves to. -/
def State.requestsOf (p : Platform) (s : State) (row : OutboxRow) : List WriteRequest :=
  match row.operation with
  | .upsert => buildUpsertRequests p s.links row.linkId
  | .delete => buildDeleteRequests s.index row.linkId

/-- Worker `i` goes on as `w`. -/
def State.setWorker (s : State) (i : Nat) (w : Worker) : State :=
  { s with workers := s.workers.set i w }

def step (p : Platform) (s : State) : Action → Option State
  | .create l =>
    -- the domain is live (`resolveDomain`), the id is new and the key is free
    if l.live = true ∧ (∀ row ∈ s.outbox, row.linkId ≠ l.link.id) ∧
        ∀ l' ∈ s.links, l'.link.id ≠ l.link.id ∧ l'.key p ≠ l.key p then
      some ({ s with links := s.links ++ [l] }.enqueue l.link.id .upsert)
    else none
  | .update link =>
    if ∃ l ∈ s.links, l.link.id = link.id then
      some ({ s with links := s.links.map (PgLink.set link) }.enqueue link.id .upsert)
    else none
  | .delete linkId =>
    if ∃ l ∈ s.links, l.link.id = linkId then
      some ({ s with links := s.links.filter fun l => l.link.id ≠ linkId }.enqueue linkId .delete)
    else none
  | .claim rows =>
    if rows ≠ [] ∧ rows.Nodup ∧
        ∀ rowId ∈ rows, (s.outbox[rowId]?).any (·.claimable s.now) = true then
      some { s with
        outbox := s.outbox.mapIdx fun rowId row =>
          if rowId ∈ rows then { row with claimedAt := some s.now } else row
        workers := s.workers ++ [⟨rows, [], []⟩] }
    else none
  | .resolve i => do
    let w ← s.workers[i]?
    match w.todo with
    | [] => none
    | rowId :: rest =>
      let row ← s.outbox[rowId]?
      some (s.setWorker i
        { todo := rest
          results := w.results ++ [(rowId, true)]
          pending := (s.requestsOf p row).foldl (addRequest rowId) w.pending })
  | .resolveFails i => do
    let w ← s.workers[i]?
    match w.todo with
    | [] => none
    | rowId :: rest =>
      some (s.setWorker i { w with todo := rest, results := w.results ++ [(rowId, false)] })
  | .write i key again => do
    let w ← s.workers[i]?
    let e ← w.pending.find? fun e => e.request.key = key
    if w.todo ≠ [] then none
    else
      some { s.setWorker i (if again then w else w.done key) with
        table := e.request.apply s.table }
  | .writeFails i key => do
    let w ← s.workers[i]?
    if w.todo ≠ [] then none
    else
      let failed := w.pending.filter fun e => e.request.key = key
      some (s.setWorker i
        { w.done key with results := failRows (failed.flatMap (·.owners)) w.results })
  | .edgeFails i row => do
    let w ← s.workers[i]?
    if w.todo ≠ [] ∨ w.pending ≠ [] then none
    else some (s.setWorker i { w with results := failRows [row] w.results })
  | .mark i => do
    let w ← s.workers[i]?
    match w.todo, w.pending, w.results with
    | [], [], (rowId, ok) :: rest =>
      some { s.setWorker i { w with results := rest } with
        outbox := s.outbox.modify rowId fun row =>
          if ok then row.markProcessed else row.markFailed }
    | _, _, _ => none
  | .crash i => do
    let _ ← s.workers[i]?
    some { s with workers := s.workers.eraseIdx i }
  | .propagate key =>
    some { s with
      index := match getItem s.table key with
        | none => deleteItem s.index key
        | some item => putItem s.index item }
  | .tick ms => some { s with now := s.now + ms }

@[simp] theorem PgLink.key_set (p : Platform) (link : ProjectedLink) (l : PgLink) :
    (l.set link).key p = l.key p := by
  unfold PgLink.set
  split <;> rfl

@[simp] theorem PgLink.live_set (link : ProjectedLink) (l : PgLink) :
    (l.set link).live = l.live := by
  unfold PgLink.set
  split <;> rfl

@[simp] theorem PgLink.id_set (link : ProjectedLink) (l : PgLink) :
    (l.set link).link.id = l.link.id := by
  unfold PgLink.set
  split
  · rename_i h
    exact h.symm
  · rfl

/-! ### The table -/

section

variable {table : List LinkItem} {item : LinkItem} {key k : String × String}

theorem getItem_eq_some (h : getItem table k = some item) : item ∈ table ∧ item.key = k :=
  ⟨List.mem_of_find?_eq_some h, by simpa using List.find?_some h⟩

theorem getItem_deleteItem :
    getItem (deleteItem table key) k = if k = key then none else getItem table k := by
  rw [getItem, deleteItem, List.find?_filter]
  by_cases h : k = key
  · rw [if_pos h, List.find?_eq_none]
    rintro x _
    simp [h]
  · rw [if_neg h, getItem]
    refine congrArg (fun f => List.find? f table) (funext fun x => ?_)
    by_cases hx : x.key = k
    · simp [hx, h]
    · simp [hx]

theorem getItem_putItem :
    getItem (putItem table item) k = if k = item.key then some item else getItem table k := by
  have hcons : getItem (putItem table item) k =
      (getItem (deleteItem table item.key) k).or (getItem [item] k) := by
    rw [putItem, getItem, List.find?_append]
    rfl
  rw [hcons, getItem_deleteItem]
  by_cases h : k = item.key
  · rw [if_pos h, if_pos h, Option.none_or, h, getItem]
    simp
  · rw [if_neg h, if_neg h]
    have hone : getItem [item] k = none := by
      rw [getItem]
      simp [Ne.symm h]
    rw [hone, Option.or_none]

/-- A write changes the table at its own key only. -/
theorem getItem_apply {request : WriteRequest} (h : k ≠ request.key) :
    getItem (request.apply table) k = getItem table k := by
  cases request with
  | put item => exact getItem_putItem.trans (if_neg h)
  | delete key => exact getItem_deleteItem.trans (if_neg h)

theorem getItem_apply_self {request : WriteRequest} :
    getItem (request.apply table) request.key = request.item? := by
  cases request with
  | put item => exact getItem_putItem.trans (if_pos rfl)
  | delete key => exact getItem_deleteItem.trans (if_pos rfl)

end

/-! ### Coalesced requests -/

section

variable {owner : Nat} {pending : List PendingWrite} {request : WriteRequest}
  {key : String × String} {rowId : Nat}

/-- A worker has a request for a key that a row contributed to. -/
def HasRequest (pending : List PendingWrite) (key : String × String) (rowId : Nat) : Prop :=
  ∃ e ∈ pending, e.request.key = key ∧ rowId ∈ e.owners

/-- A new request takes no row's request away. -/
theorem HasRequest.addRequest (h : HasRequest pending key rowId) :
    HasRequest (addRequest owner pending request) key rowId := by
  obtain ⟨e, he, hkey, howner⟩ := h
  rw [Projection.addRequest]
  split
  · refine ⟨_, List.mem_map_of_mem he, ?_, ?_⟩
    · split
      · rename_i hsame
        exact hsame.symm.trans hkey
      · exact hkey
    · split
      · exact List.mem_append_left _ howner
      · exact howner
  · exact ⟨e, List.mem_append_left _ he, hkey, howner⟩

theorem hasRequest_addRequest :
    HasRequest (addRequest owner pending request) request.key owner := by
  rw [addRequest]
  split
  · rename_i hany
    obtain ⟨e, he, hkey⟩ := List.any_eq_true.mp hany
    rw [decide_eq_true_eq] at hkey
    refine ⟨_, List.mem_map_of_mem he, ?_, ?_⟩
    · rw [if_pos hkey]
    · rw [if_pos hkey]
      exact List.mem_append_right _ (List.mem_singleton_self owner)
  · exact ⟨⟨request, [owner]⟩, List.mem_append_right _ (List.mem_singleton_self _), rfl,
      List.mem_singleton_self owner⟩

theorem HasRequest.foldl {requests : List WriteRequest} (h : HasRequest pending key rowId) :
    HasRequest (requests.foldl (Projection.addRequest owner) pending) key rowId := by
  induction requests generalizing pending with
  | nil => exact h
  | cons request requests ih => exact ih h.addRequest

/-- **A row has a request for every key it resolves to.** -/
theorem hasRequest_foldl {requests : List WriteRequest} (h : request ∈ requests) :
    HasRequest (requests.foldl (addRequest owner) pending) request.key owner := by
  induction requests generalizing pending with
  | nil => simp at h
  | cons r requests ih =>
    rw [List.foldl_cons]
    rcases List.mem_cons.mp h with rfl | h
    · exact hasRequest_addRequest.foldl
    · exact ih h

end

end SnapUrl.Projection
