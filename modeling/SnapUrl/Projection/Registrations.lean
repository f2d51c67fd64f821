import SnapUrl.Projection.EdgeStore

/-!
# The registrations of a host

`apps/api/src/domains/domains.service.ts`, and the workers of
`apps/worker/src/jobs/dynamo-projection.ts` that drain its outbox rows.  A host is connected,
verified, edited and disconnected, and connected again as another row, while links are written on
it and any number of workers project what they have read some time before.

* A call checks first (`State.admits`) and writes in a transaction later (`State.transact`), as
  the transaction finds the rows.  What the projection reads again takes its version from
  `nextVersion` and appends its outbox row in the same transaction.
* `State.history` has every state that a row was committed in.
* `SharedDomains`: the system's own domains, which are there from the start.

Calls that another check refuses (a plan, a cap, the address of a redirect) change nothing and
are left out, and so are bio pages, which hold a domain back from removal as links do.
-/

namespace SnapUrl.Projection.Registrations

open Lib Domain

/-! ### Rows -/

inductive DomainStatus where
  | live
  | verifying
  | failed
deriving DecidableEq, Repr

structure DomainRow where
  id : String
  /-- None for a domain of the system. -/
  workspaceId : Option String
  domain : String
  isSystem : Bool
  status : DomainStatus
  verificationToken : Option String
  rootRedirect : Option String
  notFoundRedirect : Option String
  /-- In microseconds. -/
  updatedAt : Int
deriving DecidableEq, Repr

/-- What a `Date` keeps of `updated_at`. -/
def DomainRow.instant (row : DomainRow) : Int := row.updatedAt / 1000

def DomainRow.toPgDomain (row : DomainRow) : PgDomain :=
  ⟨row.id, row.domain, row.status = .live, row.rootRedirect, row.notFoundRedirect,
    some row.instant⟩

structure LinkRow where
  link : ProjectedLink
  slug : String
  domainId : String
deriving DecidableEq, Repr

/-- The row after an update of the link with the id of `link`. -/
def LinkRow.set (link : ProjectedLink) (l : LinkRow) : LinkRow :=
  if l.link.id = link.id then { l with link := link } else l

/-- An outbox row; its id is its place in the outbox. -/
structure Row where
  op : Batch.ProjectionOp
  attempts : Nat
  claimedAt : Option Int
  processed : Bool
deriving DecidableEq, Repr

def Row.claimable (row : Row) (now : Int) : Bool :=
  !row.processed && row.attempts < maxAttempts && row.claimedAt.all (· < now - claimLease)

def Row.markProcessed (row : Row) : Row := { row with processed := true }

def Row.markFailed (row : Row) : Row :=
  { row with attempts := row.attempts + 1, claimedAt := none }

/-- The row as it is enqueued. -/
def Row.enqueued (op : Batch.ProjectionOp) : Row := ⟨op, 0, none, false⟩

def domainProjectionOp (p : Platform) (domainId host : String) : Batch.ProjectionOp :=
  ⟨domainId, Batch.domainOp, some (normaliseHost p host)⟩

/-- Where the domain item of a host is stored. -/
def metaKey (p : Platform) (host : String) : String × String := (domainPk p host, domainMetaSk)

/-! ### Calls -/

structure AddDomainInput where
  domain : String
  rootRedirect : Option String
  notFoundRedirect : Option String
deriving DecidableEq, Repr

/-- A field that is left out stays as it is, and null clears it. -/
structure UpdateDomainInput where
  rootRedirect : Option (Option String)
  notFoundRedirect : Option (Option String)
deriving DecidableEq, Repr

def isLetter (c : Char) : Bool := c.isUpper || c.isLower

def isDomainChar (c : Char) : Bool := isLetter c || c.isDigit || c = '.' || c = '-'

/-- `/^[a-z0-9.-]+\.[a-z]{2,}$/i`, on a text of three characters or more. -/
def isDomainName (s : String) : Bool :=
  let ending := s.toList.reverse.takeWhile (· ≠ '.')
  let start := (s.toList.reverse.dropWhile (· ≠ '.')).drop 1
  3 ≤ s.length && 2 ≤ ending.length && ending.all isLetter && start ≠ [] &&
    s.toList.all isDomainChar

/-- A link that parses is stored as it is sent. -/
def normaliseRedirect (p : Platform) (value : Option String) : Option String :=
  value.map fun v => ((p.parseUrl v).map Url.href).getD v

/-- `greatest(clock_timestamp(), updated_at + interval '1 millisecond')`. -/
def nextVersion (clock updatedAt : Int) : Int := max clock (updatedAt + 1000)

inductive Call where
  | add (workspaceId : String) (input : AddDomainInput)
  /-- With what the name server answered. -/
  | verify (workspaceId id : String) (records : List (List String))
  | update (workspaceId id : String) (input : UpdateDomainInput)
  | remove (workspaceId id : String)
  /-- The removal of a link, which refreshes the item of its domain. -/
  | removeLink (linkId domainId host : String)
deriving DecidableEq, Repr

/-- What a transaction draws: `uuidv7()`, `randomBytes` and the clock of the database. -/
structure Fresh where
  id : String
  hex : String
  clock : Int
deriving DecidableEq, Repr

/-- A running drain: the claimed rows it has not read yet, what came of those it has read, and
the domain items it has not written yet. -/
structure Worker where
  todo : List Nat
  results : List (Nat × Bool)
  metas : List MetaWrite
deriving DecidableEq, Repr

def Worker.done (w : Worker) (key : String × String) : Worker :=
  { w with metas := w.metas.filter fun e => e.item.key ≠ key }

structure State where
  domains : List DomainRow
  links : List LinkRow
  outbox : List Row
  calls : List Call
  metas : Metas
  workers : List Worker
  now : Int
  history : List DomainRow

/-! ### What a call reads -/

def State.find (s : State) (id : String) : Option DomainRow :=
  s.domains.find? fun row => row.id = id

/-- What `add` stores of the name it is sent. -/
def storedHost (p : Platform) (domain : String) : String := trim (p.toLowerCase domain)

/-- The checks that a call makes of the rows before its transaction. -/
def State.admits (p : Platform) (s : State) : Call → Bool
  | .add _ input =>
    isDomainName input.domain &&
      s.domains.all fun row => p.toLowerCase row.domain ≠ storedHost p input.domain
  | .verify workspaceId id records =>
    (s.find id).any fun row => row.workspaceId = some workspaceId && row.status ≠ .live &&
      truthy row.verificationToken &&
        records.any fun chunks => some (trim (String.join chunks)) = row.verificationToken
  | .update workspaceId id input =>
    (input.rootRedirect.isSome || input.notFoundRedirect.isSome) &&
      (s.find id).any fun row => row.workspaceId = some workspaceId && !row.isSystem
  | .remove workspaceId id =>
    (s.find id).any (fun row => row.workspaceId = some workspaceId && !row.isSystem) &&
      s.links.all fun l => l.domainId ≠ id
  | .removeLink linkId domainId host =>
    (s.links.any fun l => l.link.id = linkId && l.domainId = domainId) &&
      (s.find domainId).any fun row => row.domain = host

/-! ### Transactions -/

def State.enqueue (s : State) (op : Batch.ProjectionOp) : State :=
  { s with outbox := s.outbox ++ [.enqueued op] }

/-- A row is inserted. -/
def State.insert (s : State) (row : DomainRow) : State :=
  { s with domains := s.domains ++ [row], history := s.history ++ [row] }

/-- The row with the id of `row` becomes `row`. -/
def State.store (s : State) (row : DomainRow) : State :=
  { s with
    domains := s.domains.map fun r => if r.id = row.id then row else r
    history := s.history ++ [row] }

def addedRow (p : Platform) (workspaceId : String) (input : AddDomainInput) (fresh : Fresh) :
    DomainRow where
  id := fresh.id
  workspaceId := some workspaceId
  domain := storedHost p input.domain
  isSystem := false
  status := .verifying
  verificationToken := some ("snapurl-verify-" ++ fresh.hex)
  rootRedirect := normaliseRedirect p input.rootRedirect
  notFoundRedirect := normaliseRedirect p input.notFoundRedirect
  updatedAt := fresh.clock

def verifiedRow (fresh : Fresh) (row : DomainRow) : DomainRow :=
  { row with status := .live, updatedAt := nextVersion fresh.clock row.updatedAt }

def updatedRow (p : Platform) (input : UpdateDomainInput) (fresh : Fresh) (row : DomainRow) :
    DomainRow :=
  { row with
    rootRedirect := (input.rootRedirect.map (normaliseRedirect p)).getD row.rootRedirect
    notFoundRedirect := (input.notFoundRedirect.map (normaliseRedirect p)).getD row.notFoundRedirect
    updatedAt := nextVersion fresh.clock row.updatedAt }

/-- The row an `UPDATE` or a `DELETE` finds. -/
def State.target (s : State) : Call → Option DomainRow
  | .verify _ id _ => s.domains.find? fun row => row.id = id && row.status = .verifying
  | .update workspaceId id _ =>
    s.domains.find? fun row => row.id = id && row.workspaceId = some workspaceId && !row.isSystem
  | .remove workspaceId id =>
    s.domains.find? fun row => row.id = id && row.workspaceId = some workspaceId
  | _ => none

/-- What a transaction leaves.  One that finds no row, or that a constraint refuses, leaves what
was there. -/
def State.transact (p : Platform) (s : State) (fresh : Fresh) (call : Call) : State :=
  match call with
  | .add workspaceId input =>
    let row := addedRow p workspaceId input fresh
    -- `domains_domain_key`
    if s.domains.any fun r => p.toLowerCase r.domain = p.toLowerCase row.domain then s
    else if truthy row.rootRedirect || truthy row.notFoundRedirect then
      (s.insert row).enqueue (domainProjectionOp p row.id row.domain)
    else s.insert row
  | .verify _ _ _ =>
    match s.target call with
    | none => s
    | some row => (s.store (verifiedRow fresh row)).enqueue (domainProjectionOp p row.id row.domain)
  | .update _ _ input =>
    match s.target call with
    | none => s
    | some row =>
      (s.store (updatedRow p input fresh row)).enqueue (domainProjectionOp p row.id row.domain)
  | .remove _ id =>
    match s.target call with
    | none => s
    | some row =>
      -- `links.domain_id` is ON DELETE RESTRICT
      if s.links.any fun l => l.domainId = id then s
      else
        { s with domains := s.domains.filter fun r => r.id ≠ id }.enqueue
          (domainProjectionOp p row.id row.domain)
  | .removeLink linkId domainId host =>
    ({ s with links := s.links.filter fun l => l.link.id ≠ linkId }.enqueue
      ⟨linkId, "delete", none⟩).enqueue (domainProjectionOp p domainId host)

/-- The id of a new row is new, and of a host's rows the latest, as ids grow with time. -/
def State.DrawsId (p : Platform) (s : State) (fresh : Fresh) : Call → Prop
  | .add _ input => ∀ row ∈ s.history, row.id ≠ fresh.id ∧
    (metaKey p row.domain = metaKey p (storedHost p input.domain) → row.id < fresh.id)
  | _ => True

instance (p : Platform) (s : State) (fresh : Fresh) (call : Call) :
    Decidable (s.DrawsId p fresh call) := by
  cases call with
  | add workspaceId input => exact inferInstanceAs (Decidable (∀ row ∈ s.history, _ ∧ (_ → _)))
  | _ => exact isTrue trivial

/-! ### Steps -/

/-- The database as the worker's queries join it. -/
def State.postgres (s : State) : Batch.Postgres where
  links := s.links.filterMap fun l =>
    (s.find l.domainId).map fun row => ⟨l.link, l.slug, row.toPgDomain⟩
  domains := s.domains.map DomainRow.toPgDomain

/-- The domain item that an op resolves to, which no LINK item has a part in. -/
def State.metaOf (p : Platform) (s : State) (op : Batch.ProjectionOp) : Option DomainItem :=
  (Batch.resolve p s.postgres [] op).domainMeta

def collectMeta (rowId : Nat) (metas : List MetaWrite) : Option DomainItem → List MetaWrite
  | none => metas
  | some item => addMeta rowId metas item

/-- The worker has read its next row. -/
def Worker.read (w : Worker) (rowId : Nat) (item : Option DomainItem) : Worker where
  todo := w.todo.drop 1
  results := w.results ++ [(rowId, true)]
  metas := collectMeta rowId w.metas item

def State.setWorker (s : State) (i : Nat) (w : Worker) : State :=
  { s with workers := s.workers.set i w }

inductive Action where
  | check (call : Call)
  /-- A call goes no further. -/
  | drop (i : Nat)
  | commit (i : Nat) (fresh : Fresh)
  | createLink (row : LinkRow)
  | updateLink (link : ProjectedLink)
  | claim (rows : List Nat)
  /-- Worker `i` reads what its next row is about. -/
  | resolve (i : Nat)
  | resolveFails (i : Nat)
  /-- Worker `i` writes its item for a key, and may yet write it again. -/
  | write (i : Nat) (key : String × String) (again : Bool)
  | writeFails (i : Nat) (key : String × String)
  /-- The LINK items of a row fail, or what follows its writes. -/
  | rowFails (i : Nat) (rowId : Nat)
  | mark (i : Nat)
  | crash (i : Nat)
  | tick (ms : Nat)
deriving DecidableEq, Repr

def step (p : Platform) (s : State) : Action → Option State
  | .check call => if s.admits p call then some { s with calls := s.calls ++ [call] } else none
  | .drop i => some { s with calls := s.calls.eraseIdx i }
  | .commit i fresh => do
    let call ← s.calls[i]?
    if s.DrawsId p fresh call then
      some { s.transact p fresh call with calls := s.calls.eraseIdx i }
    else none
  | .createLink row =>
    if (s.find row.domainId).isSome ∧ ∀ l ∈ s.links, l.link.id ≠ row.link.id then
      some ({ s with links := s.links ++ [row] }.enqueue ⟨row.link.id, "upsert", none⟩)
    else none
  | .updateLink link =>
    if ∃ l ∈ s.links, l.link.id = link.id then
      some ({ s with links := s.links.map (LinkRow.set link) }.enqueue ⟨link.id, "upsert", none⟩)
    else none
  | .claim rows =>
    if rows ≠ [] ∧ rows.Nodup ∧
        ∀ rowId ∈ rows, (s.outbox[rowId]?).any (·.claimable s.now) = true then
      some { s with
        outbox := s.outbox.mapIdx fun rowId row =>
          if rowId ∈ rows then { row with claimedAt := some s.now } else row
        workers := s.workers ++ [⟨rows, [], []⟩] }
    else none
  | .resolve i => do
    let w ← s.workers[i]?
    let rowId ← w.todo.head?
    let row ← s.outbox[rowId]?
    some (s.setWorker i (w.read rowId (s.metaOf p row.op)))
  | .resolveFails i => do
    let w ← s.workers[i]?
    let rowId ← w.todo.head?
    some (s.setWorker i { w with todo := w.todo.drop 1, results := w.results ++ [(rowId, false)] })
  | .write i key again => do
    let w ← s.workers[i]?
    let e ← metaAt w.metas key
    if w.todo ≠ [] then none
    else
      some { s.setWorker i (if again then w else w.done key) with
        metas := writeMeta p s.metas e.item }
  | .writeFails i key => do
    let w ← s.workers[i]?
    let e ← metaAt w.metas key
    if w.todo ≠ [] then none
    else some (s.setWorker i { w.done key with results := failRows e.owners w.results })
  | .rowFails i rowId => do
    let w ← s.workers[i]?
    if w.todo ≠ [] then none
    else some (s.setWorker i { w with results := failRows [rowId] w.results })
  | .mark i => do
    let w ← s.workers[i]?
    let result ← w.results.head?
    if w.todo ≠ [] ∨ w.metas ≠ [] then none
    else
      some { s.setWorker i { w with results := w.results.drop 1 } with
        outbox := s.outbox.modify result.1 fun row =>
          if result.2 then row.markProcessed else row.markFailed }
  | .crash i => some { s with workers := s.workers.eraseIdx i }
  | .tick ms => some { s with now := s.now + ms }

/-! ### The start -/

/-- A host that is compared in lower case, and that is its own key. -/
structure GoodHost (p : Platform) (host : String) : Prop where
  lower : p.toLowerCase host = normaliseHost p host
  normal : normaliseHost p (normaliseHost p host) = normaliseHost p host
  ne_empty : normaliseHost p host ≠ ""

/-- The system's domains: they are live, nobody's, and send nobody anywhere. -/
structure SharedDomains (p : Platform) where
  rows : List DomainRow
  hosts : ∀ row ∈ rows, GoodHost p row.domain
  system : ∀ row ∈ rows, row.isSystem = true ∧ row.workspaceId = none ∧ row.status = .live ∧
    row.rootRedirect = none ∧ row.notFoundRedirect = none
  ids : rows.Pairwise fun a b => a.id ≠ b.id
  keys : rows.Pairwise fun a b => metaKey p a.domain ≠ metaKey p b.domain

def start {p : Platform} (shared : SharedDomains p) : State where
  domains := shared.rows
  links := []
  outbox := []
  calls := []
  metas := fun _ => none
  workers := []
  now := 0
  history := shared.rows

end SnapUrl.Projection.Registrations
