import Mathlib.Data.List.Sort
import SnapUrl.Lib.Run

/-!
# Webhook deliveries

`deliverWebhooks` of `apps/worker/src/jobs/webhooks.ts`: a worker selects due rows,
and for each of them POSTs and records the outcome.

Every statement is a transaction of its own, the `select … for update skip locked`
too: its locks are gone when it returns, so all that is left of them is that a row some
other statement is just working on is skipped (`selectDue`).  A statement may raise,
which inside the `try` means one more `recordFailure` from the `catch` and there the
end of the job, and a worker may die at any point.
-/

namespace SnapUrl.Webhooks

open Lib

/-! ### Rows -/

inductive DeliveryStatus where
  | pending
  | delivered
  | failed
deriving DecidableEq, Repr

/-- A row of `webhook_deliveries`. -/
structure Delivery where
  id : String
  webhookId : String
  event : String
  payload : String
  status : DeliveryStatus
  attempts : Nat
  responseCode : Option Nat
  error : Option String
  nextRetryAt : Option Int
  deliveredAt : Option Int
  createdAt : Int
deriving DecidableEq, Repr

inductive Health where
  | healthy
  | retrying
  | failing
deriving DecidableEq, Repr

/-- What the job reads and writes of a row of `webhooks`. -/
structure Webhook where
  id : String
  endpoint : String
  health : Health
  consecutiveFailures : Nat
  lastDeliveryAt : Option Int
  lastError : Option String
  disabledAt : Option Int
deriving DecidableEq, Repr

structure PendingDelivery where
  id : String
  webhookId : String
  event : String
  payload : String
  attempts : Nat
  endpoint : String
deriving DecidableEq, Repr

/-- `BACKOFF_MINUTES`. -/
def backoffMinutes : List Int := [1, 5, 25, 120, 600]

/-- `MAX_ATTEMPTS`. -/
def maxAttempts : Nat := backoffMinutes.length

/-! ### Statements -/

def Delivery.due (now : Int) (d : Delivery) : Bool :=
  d.status = .pending && d.nextRetryAt.all (· ≤ now)

/-- The due rows, `skipped` being locked by statements that run at the moment. -/
def selectDue (now : Int) (deliveries : List Delivery) (webhooks : List Webhook)
    (batchSize : Nat) (skipped : List String) : List PendingDelivery :=
  let due := deliveries.filterMap fun d =>
    if d.due now ∧ d.id ∉ skipped then
      (webhooks.find? fun w => w.id = d.webhookId ∧ w.disabledAt.isNone).map fun w => (d, w)
    else none
  ((due.insertionSort fun x y => x.1.createdAt ≤ y.1.createdAt).take batchSize).map fun (d, w) =>
    { id := d.id
      webhookId := d.webhookId
      event := d.event
      payload := d.payload
      attempts := d.attempts
      endpoint := w.endpoint }

/-- The row after a POST that was answered with success. -/
def Delivery.succeed (now : Int) (code : Nat) (d : Delivery) : Delivery :=
  { d with
    status := .delivered
    deliveredAt := some now
    attempts := d.attempts + 1
    responseCode := some code
    nextRetryAt := none }

/-- The row after the first statement of `recordFailure`. -/
def Delivery.recordFailure (now : Int) (row : PendingDelivery) (error : String)
    (code : Option Nat) (d : Delivery) : Delivery :=
  let attempts := row.attempts + 1
  let exhausted := maxAttempts ≤ attempts
  let delayMinutes := backoffMinutes.getD (min attempts (backoffMinutes.length - 1)) 0
  { d with
    attempts := attempts
    status := if exhausted then .failed else .pending
    error := some error
    responseCode := code
    nextRetryAt := if exhausted then none else some (now + delayMinutes * 60000) }

def Webhook.succeed (now : Int) (w : Webhook) : Webhook :=
  { w with
    health := .healthy
    consecutiveFailures := 0
    lastDeliveryAt := some now
    lastError := none }

/-- The second statement of `recordFailure`. -/
def Webhook.recordFailure (now : Int) (error : String) (w : Webhook) : Webhook :=
  { w with
    consecutiveFailures := w.consecutiveFailures + 1
    lastDeliveryAt := some now
    lastError := some error
    health := if maxAttempts ≤ w.consecutiveFailures + 1 then .failing else .retrying }

/-! ### Workers -/

/-- How `safePost` ends, with the text of what it throws. -/
inductive Outcome where
  | status (code : Nat)
  | threw (error : String)
deriving DecidableEq, Repr

/-- Where a worker is with the first of its rows.  `caught` is said of a `recordFailure`
in the `catch`, and `recorded` of one for a POST that is already counted. -/
inductive Phase where
  | ready
  | succeeded (code : Nat)
  | healthy
  | failing (error : String) (code : Option Nat) (caught recorded : Bool)
  | unhealthy (error : String) (caught : Bool)
deriving DecidableEq, Repr

/-- A call of `deliverWebhooks`: the rows it has still to handle, and its result so far. -/
structure Worker where
  rows : List PendingDelivery
  phase : Phase
  sent : Nat
  failed : Nat
deriving DecidableEq, Repr

/-- A call of `safePost`. -/
structure Post where
  delivery : String
  attempt : Nat
  endpoint : String
  event : String
  payload : String
  timestamp : Int
deriving DecidableEq, Repr

structure World where
  now : Int
  deliveries : List Delivery
  webhooks : List Webhook
  workers : List Worker
  /-- Every POST so far. -/
  posts : List Post
deriving DecidableEq, Repr

inductive Action where
  | tick (elapsed : Nat)
  /-- An event is queued for an endpoint. -/
  | enqueue (id webhookId event payload : String)
  /-- A job starts with its select. -/
  | selects (batchSize : Nat) (skipped : List String)
  | post (i : Nat) (outcome : Outcome)
  /-- The next statement of a worker, raising or not. -/
  | exec (i : Nat) (raises : Option String)
  | dies (i : Nat)
deriving DecidableEq, Repr

def World.setWorker (s : World) (i : Nat) (w : Worker) : World :=
  { s with workers := s.workers.set i w }

def World.setPhase (s : World) (i : Nat) (w : Worker) (phase : Phase) : World :=
  s.setWorker i { w with phase := phase }

def World.updateDelivery (s : World) (id : String) (f : Delivery → Delivery) : World :=
  { s with deliveries := s.deliveries.map fun d => if d.id = id then f d else d }

def World.updateWebhook (s : World) (id : String) (f : Webhook → Webhook) : World :=
  { s with webhooks := s.webhooks.map fun w => if w.id = id then f w else w }

/-- The POST for a row, and which statement is due after it. -/
def World.post (s : World) (i : Nat) (w : Worker) (row : PendingDelivery) (outcome : Outcome) :
    World :=
  let phase :=
    match outcome with
    | .status code =>
      if 200 ≤ code ∧ code < 300 then .succeeded code
      else .failing ("HTTP " ++ toString code) (some code) false false
    | .threw error => .failing error none true false
  { s.setPhase i w phase with
    posts := s.posts ++
      [⟨row.id, row.attempts + 1, row.endpoint, row.event, row.payload, s.now / 1000⟩] }

/-- The statement that is due for a row. -/
def World.exec (s : World) (i : Nat) (w : Worker) (row : PendingDelivery)
    (rest : List PendingDelivery) : Option String → Option World
  | none =>
    match w.phase with
    | .ready => none
    | .succeeded code =>
      some ((s.updateDelivery row.id (·.succeed s.now code)).setPhase i w .healthy)
    | .healthy =>
      some ((s.updateWebhook row.webhookId (·.succeed s.now)).setWorker i
        ⟨rest, .ready, w.sent + 1, w.failed⟩)
    | .failing error code caught _ =>
      some ((s.updateDelivery row.id (·.recordFailure s.now row error code)).setPhase i w
        (.unhealthy error caught))
    | .unhealthy error _ =>
      some ((s.updateWebhook row.webhookId (·.recordFailure s.now error)).setWorker i
        ⟨rest, .ready, w.sent, w.failed + 1⟩)
  | some raised =>
    match w.phase with
    | .ready => none
    | .succeeded _ => some (s.setPhase i w (.failing raised none true false))
    | .healthy => some (s.setPhase i w (.failing raised none true true))
    | .failing _ _ false recorded => some (s.setPhase i w (.failing raised none true recorded))
    | .unhealthy _ false => some (s.setPhase i w (.failing raised none true true))
    -- what is raised in the catch ends the job
    | .failing _ _ true _ | .unhealthy _ true => some { s with workers := s.workers.eraseIdx i }

def step (s : World) : Action → Option World
  | .tick elapsed => some { s with now := s.now + elapsed }
  | .enqueue id webhookId event payload =>
    if id ∈ s.deliveries.map (·.id) then none
    else
      some { s with
        deliveries := s.deliveries ++
          [⟨id, webhookId, event, payload, .pending, 0, none, none, none, none, s.now⟩] }
  | .selects batchSize skipped =>
    let rows := selectDue s.now s.deliveries s.webhooks batchSize skipped
    some { s with workers := s.workers ++ [⟨rows, .ready, 0, 0⟩] }
  | .post i outcome => do
    let w ← s.workers[i]?
    match w.rows, w.phase with
    | row :: _, .ready => some (s.post i w row outcome)
    | _, _ => none
  | .exec i raises => do
    let w ← s.workers[i]?
    match w.rows with
    | row :: rest => s.exec i w row rest raises
    | [] => none
  | .dies i => do
    let _ ← s.workers[i]?
    some { s with workers := s.workers.eraseIdx i }

end SnapUrl.Webhooks
