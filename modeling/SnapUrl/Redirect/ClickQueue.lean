import SnapUrl.Lib.Run
import SnapUrl.Projection.Resolvers
import SnapUrl.Rollup.Batches

/-!
# Clicks through a queue

`SqsClickSink` of `apps/redirect/src/click-sink.ts`, `insertClickEvents` of
`packages/database/src/click-events.ts` and `drainClickBatch` of `apps/worker/src/lambda.ts`.  The
queue delivers a message as often as it likes until it is deleted or dead-lettered, in any batches,
to any number of invocations beside each other.

* `insertOnce`: the row of a click, whichever sink it comes from.
* `step`: an insert may be lost after its commit, lose its partition route, or raise, and an
  invocation may end at any point.
* `ClicksHold`: **no message has two rows, and none is gone without its row**.
* `Kept`: the steps that keep this.
-/

namespace SnapUrl.Redirect.ClickQueue

open Lib JsValue
open Projection.Resolvers (ClickEvent serializeClickEvent deserializeClickEvent)

/-! ### Rows -/

/-- The columns of `click_events` that an insert gives. -/
structure ClickColumns where
  linkId : String
  workspaceId : String
  occurredAt : Int
  visitorHash : String
  country : Option String
  city : Option String
  device : Option String
  browser : Option String
  os : Option String
  referrerHost : Option String
  isQr : Bool
  isBot : Bool
  blockedReason : Option String
  matchedRuleId : Option String
  variant : Option String
deriving DecidableEq, Repr

/-- A text that a column takes. -/
def textOf : JsValue → Option String
  | .str s => some s
  | _ => none

/-- A text or nothing, where a column may be null. -/
def nullableText : JsValue → Option (Option String)
  | .str s => some (some s)
  | .null => some none
  | .undefined => some none
  | _ => none

def boolOf : JsValue → Option Bool
  | .bool b => some b
  | _ => none

def timeOf : JsValue → Option Int
  | .date t => t
  | _ => none

/-- The columns of one event, none where a column does not take its value. -/
def insertOnce (event : JsValue) : Option ClickColumns := do
  let linkId ← textOf (event.get "linkId")
  let workspaceId ← textOf (event.get "workspaceId")
  let occurredAt ← timeOf (event.get "occurredAt")
  let visitorHash ← textOf (event.get "visitorHash")
  let country ← nullableText (event.get "country")
  let city ← nullableText (event.get "city")
  let device ← nullableText (event.get "device")
  let browser ← nullableText (event.get "browser")
  let os ← nullableText (event.get "os")
  let referrerHost ← nullableText (event.get "referrerHost")
  let isQr ← boolOf (event.get "isQr")
  let isBot ← boolOf (event.get "isBot")
  let blockedReason ← nullableText (event.get "blockedReason")
  let matchedRuleId ← nullableText (event.get "matchedRuleId")
  let variant ← nullableText (event.get "variant")
  return ⟨linkId, workspaceId, occurredAt, visitorHash, country, city, device, browser, os,
    referrerHost, isQr, isBot, blockedReason, matchedRuleId, variant⟩

/-- What `PostgresClickSink` writes. -/
def postgresRow (event : ClickEvent) : Option ClickColumns := insertOnce event.object

/-- A row of `click_events`. -/
structure Row where
  id : Nat
  /-- Ghost: the message that it comes from. -/
  origin : Nat
  columns : ClickColumns
deriving DecidableEq, Repr

/-- A row as the rollups read it. -/
def Row.rollup (row : Row) : Rollup.ClickRow where
  id := toString row.id
  linkId := row.columns.linkId
  workspaceId := row.columns.workspaceId
  occurredAt := row.columns.occurredAt
  visitorHash := row.columns.visitorHash
  isBot := row.columns.isBot
  blockedReason := row.columns.blockedReason
  isQr := row.columns.isQr
  country := row.columns.country
  city := row.columns.city
  device := row.columns.device
  browser := row.columns.browser
  referrerHost := row.columns.referrerHost

/-! ### The queue -/

inductive MessageState where
  | queued
  | deleted
  | deadLettered
deriving DecidableEq, Repr

structure Message where
  /-- Ghost: the event that was recorded. -/
  event : ClickEvent
  body : Option JsValue
  state : MessageState
  receives : Nat

/-- What all invocations find alike. -/
structure Deployment where
  /-- The database takes a row. -/
  accepts : ClickColumns → Bool
  maxReceiveCount : Nat

/-- The row that is inserted for a message, where the database takes it. -/
def Message.accepted (d : Deployment) (message : Message) : Option ClickColumns :=
  (message.body.bind fun body => insertOnce (deserializeClickEvent body)).filter d.accepts

/-- An invocation of `drainClickBatch`. -/
structure Invocation where
  records : List Nat
  /-- The records that are still to come. -/
  todo : List Nat
  /-- The first of them has lost its partition route once. -/
  retried : Bool
  batchItemFailures : List Nat
  running : Bool
deriving DecidableEq, Repr

structure Store where
  messages : List Message
  rows : List Row
  nextId : Nat
  invocations : List Invocation

def start : Store := ⟨[], [], 0, []⟩

/-- How many rows a message has. -/
def Store.rowsOf (s : Store) (m : Nat) : Nat := s.rows.countP (·.origin = m)

/-- What becomes of one attempt to insert. -/
inductive Outcome where
  | committed
  /-- It commits, and the answer is lost. -/
  | lost
  /-- It loses its partition route. -/
  | routing
  /-- It raises for another reason. -/
  | raised
deriving DecidableEq, Repr

def Outcome.commits : Outcome → Bool
  | .committed => true
  | .lost => true
  | .routing => false
  | .raised => false

/-! ### Steps -/

def Store.set (s : Store) (i : Nat) (invocation : Invocation) : Store :=
  { s with invocations := s.invocations.set i invocation }

def Invocation.fail (invocation : Invocation) (m : Nat) (rest : List Nat) : Invocation :=
  { invocation with
    todo := rest
    retried := false
    batchItemFailures := invocation.batchItemFailures ++ [m] }

def Invocation.pass (invocation : Invocation) (rest : List Nat) : Invocation :=
  { invocation with todo := rest, retried := false }

/-- A row of a message is committed, under an id of its own. -/
def Store.commit (s : Store) (i : Nat) (invocation : Invocation) (m : Nat) (columns : ClickColumns) :
    Store :=
  { s with
    rows := s.rows ++ [⟨s.nextId, m, columns⟩]
    nextId := s.nextId + 1
    invocations := s.invocations.set i invocation }

/-- The database takes the message. -/
def Store.accepted (d : Deployment) (s : Store) (m : Nat) : Option ClickColumns :=
  (s.messages[m]?).bind (·.accepted d)

/-- `insertClickEvents` for the next record. -/
def Store.insert (d : Deployment) (s : Store) (i : Nat) (outcome : Outcome)
    (invocation : Invocation) : Option Store :=
  match invocation.todo with
  | [] => none
  | m :: rest =>
    match outcome with
    | .committed => (s.accepted d m).map (s.commit i (invocation.pass rest) m)
    | .lost => (s.accepted d m).map (s.commit i (invocation.fail m rest) m)
    | .routing =>
      if invocation.retried then some (s.set i (invocation.fail m rest))
      else some (s.set i { invocation with retried := true })
    | .raised => some (s.set i (invocation.fail m rest))

def Message.receive (message : Message) : Message := { message with receives := message.receives + 1 }

def Message.delete (message : Message) : Message :=
  if message.state = .queued then { message with state := .deleted } else message

def Store.isQueued (s : Store) (m : Nat) : Bool := (s.messages[m]?).any (·.state = .queued)

/-- A batch of messages is delivered. -/
def Store.deliver (s : Store) (batch : List Nat) : Store :=
  { s with
    messages := s.messages.mapIdx fun m message =>
      if m ∈ batch then message.receive else message
    invocations := s.invocations ++ [⟨batch, batch, false, [], true⟩] }

/-- The handler has returned, and what it has not reported is deleted, unless that fails. -/
def Store.acknowledge (s : Store) (i : Nat) (undeleted : List Nat) (invocation : Invocation) :
    Store :=
  { s with
    messages := s.messages.mapIdx fun m message =>
      if m ∈ invocation.records ∧ m ∉ invocation.batchItemFailures ∧ m ∉ undeleted then
        message.delete
      else message
    invocations := s.invocations.set i { invocation with running := false } }

def Store.deadLetter (s : Store) (m : Nat) : Store :=
  { s with messages := s.messages.modify m ({ · with state := .deadLettered }) }

/-- A message has been received as often as the queue allows. -/
def Store.mayDeadLetter (d : Deployment) (s : Store) (m : Nat) : Bool :=
  (s.messages[m]?).any fun message =>
    message.state = .queued && d.maxReceiveCount ≤ message.receives

inductive Action where
  /-- `SqsClickSink.record`. -/
  | record (event : ClickEvent)
  | deliver (batch : List Nat)
  | insert (i : Nat) (outcome : Outcome)
  | acknowledge (i : Nat) (undeleted : List Nat)
  /-- An invocation ends, and its answer with it. -/
  | crash (i : Nat)
  | deadLetter (m : Nat)

/-- What an action does, where it can be done. -/
def execute (d : Deployment) (s : Store) : Action → Option Store
  | .record event => some { s with
      messages := s.messages ++ [⟨event, serializeClickEvent event, .queued, 0⟩] }
  | .deliver batch => if batch.all s.isQueued then some (s.deliver batch) else none
  | .insert i outcome => ((s.invocations[i]?).filter (·.running)).bind (s.insert d i outcome)
  | .acknowledge i undeleted =>
    ((s.invocations[i]?).filter fun invocation => invocation.running && invocation.todo.isEmpty).map
      (s.acknowledge i undeleted)
  | .crash i => ((s.invocations[i]?).filter (·.running)).map fun invocation =>
      s.set i { invocation with running := false }
  | .deadLetter m => if s.mayDeadLetter d m then some (s.deadLetter m) else none

/-- What cannot be done is not done. -/
def step (d : Deployment) (s : Store) (a : Action) : Option Store := some ((execute d s a).getD s)

/-! ### What should hold -/

/-- **No message has two rows, none is gone without its row, and a row is the one that the other
sink writes.** -/
structure ClicksHold (d : Deployment) (s : Store) : Prop where
  once : ∀ m, s.rowsOf m ≤ 1
  inserted : ∀ m message, s.messages[m]? = some message → message.state ≠ .queued →
    (message.accepted d).isSome = true → 0 < s.rowsOf m
  rows : ∀ row ∈ s.rows, ∃ message, s.messages[row.origin]? = some message ∧
    postgresRow message.event = some row.columns ∧ d.accepts row.columns = true

/-- Every message is deleted or dead-lettered. -/
def Store.Settled (s : Store) : Prop := ∀ message ∈ s.messages, message.state ≠ .queued

/-- A click that a dashboard counts. -/
def ClickColumns.counted (columns : ClickColumns) : Bool :=
  !columns.isBot && columns.blockedReason.isNone

/-- The rows that the other sink would have written. -/
def Store.expected (d : Deployment) (s : Store) : List ClickColumns :=
  s.messages.filterMap fun message => (postgresRow message.event).filter d.accepts

/-- **Each event that the database takes has its row, once, and the rollups count it once.** -/
structure ExactlyOnce (d : Deployment) (s : Store) : Prop where
  rows : (s.rows.map (·.columns)).Perm (s.expected d)
  clicks : ∀ (estimate : Domain.Sketch → Nat) (linkId : String),
    (((s.rows.map Row.rollup).foldl (Rollup.Tables.addEvent estimate) .empty).total linkId).clicks =
      (s.expected d).countP fun columns => columns.linkId = linkId ∧ columns.counted = true

/-- The inserts of an invocation, where none fails but those that the database refuses. -/
def Store.drain (d : Deployment) (s : Store) (i : Nat) (todo : List Nat) : List Action :=
  todo.map fun m => .insert i (if (s.accepted d m).isSome then .committed else .raised)

/-- **A message that can never be inserted blocks no other**: in whatever batch it comes, the
others are inserted, and it alone is reported. -/
def Unblocked (d : Deployment) (s : Store) : Prop :=
  ∀ i invocation, s.invocations[i]? = some invocation → invocation.running = true →
    ∃ s' invocation', run (step d) s (s.drain d i invocation.todo) = some s' ∧
      s'.invocations[i]? = some invocation' ∧ invocation'.todo = [] ∧
      invocation'.batchItemFailures = invocation.batchItemFailures ++
        invocation.todo.filter (fun m => !(s.accepted d m).isSome) ∧
      ∀ m, s'.rowsOf m = s.rowsOf m +
        if (s.accepted d m).isSome then invocation.todo.count m else 0

/-- **A step keeps this.**  No row is committed for a message that has one, and no message that the
database takes is dead-lettered without its row. -/
def Kept (d : Deployment) (s : Store) : Action → Prop
  | .insert i outcome => outcome.commits = true → ∀ invocation ∈ s.invocations[i]?,
      invocation.running = true → ∀ m ∈ invocation.todo.head?, s.rowsOf m = 0
  | .deadLetter m => s.mayDeadLetter d m = true → (s.accepted d m).isSome = true → 0 < s.rowsOf m
  | _ => True

instance (d : Deployment) (s : Store) : (a : Action) → Decidable (Kept d s a)
  | .insert i outcome => inferInstanceAs (Decidable (outcome.commits = true →
      ∀ invocation ∈ s.invocations[i]?, invocation.running = true →
        ∀ m ∈ invocation.todo.head?, s.rowsOf m = 0))
  | .deadLetter m => inferInstanceAs (Decidable (s.mayDeadLetter d m = true →
      (s.accepted d m).isSome = true → 0 < s.rowsOf m))
  | .record _ => isTrue trivial
  | .deliver _ => isTrue trivial
  | .acknowledge _ _ => isTrue trivial
  | .crash _ => isTrue trivial

end SnapUrl.Redirect.ClickQueue
