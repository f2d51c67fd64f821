import SnapUrl.Lib.Run
import SnapUrl.Links.Slug
import SnapUrl.Platform

/-!
# Conversions

`record` of `apps/api/src/conversions/conversions.service.ts` with `recordActivity` of
`common/activity.ts`, one statement at a time, any number of calls beside each other, of any
workspaces.

* `Deployment.answers`: what the database may answer when a slug is looked up.  The query has no
  order, so it is any of the links that carry it.
* `step`: statements of calls in any order.  A statement may raise, and the process may end before
  any statement.
* `Recorded`: **what holds of bookings, announcements and links in every state of every run**.
-/

namespace SnapUrl.Conversions

open Links

/-! ### Tables -/

/-- A row of `links`, the columns that are read here. -/
structure Link where
  id : Nat
  workspaceId : String
  domainId : String
  slug : String
deriving DecidableEq, Repr

/-- A row of `webhooks`, the columns that are read here. -/
structure Webhook where
  id : Nat
  workspaceId : String
  events : List String
  disabledAt : Option Int
deriving DecidableEq, Repr

inductive Kind where
  | lead
  | signup
  | sale
  | custom
deriving DecidableEq, Repr

/-- A row of `conversions`. -/
structure Conversion where
  id : Nat
  workspaceId : String
  linkId : Option Nat
  kind : Kind
  name : String
  source : String
  valueMinor : Nat
  currency : String
  externalId : Option String
  visitorHash : Option String
deriving DecidableEq, Repr

/-- The body of a `conversion.recorded`. -/
structure Payload where
  id : Nat
  kind : Kind
  name : String
  linkId : Option Nat
  valueMinor : Nat
  currency : String
deriving DecidableEq, Repr

/-- A row of `webhook_deliveries`, as it is queued. -/
structure Delivery where
  webhookId : Nat
  event : String
  payload : Payload
deriving DecidableEq, Repr

/-- What all calls find alike. -/
structure Deployment where
  platform : Platform
  links : List Link
  webhooks : List Webhook
  /-- The currency of a workspace. -/
  currency : String → Option String

/-! ### Calls -/

structure RecordConversionInput where
  linkId : Option Nat
  slug : Option String
  kind : Kind
  name : String
  valueMinor : Nat
  currency : Option String
  externalId : Option String
  visitorHash : Option String
deriving DecidableEq, Repr

structure RecordConversionResult where
  id : Option Nat
  recorded : Bool
deriving DecidableEq, Repr

/-- How far a call is. -/
inductive Phase where
  | begun
  /-- It has its link. -/
  | resolved (linkId : Option Nat)
  /-- It has read the currency of the workspace. -/
  | priced (linkId : Option Nat) (currency : Option String)
  /-- Its row is committed, and is to be announced. -/
  | booked (row : Conversion)
  /-- It has announced its row, or the row was there before. -/
  | returned (row : Option Conversion)
  /-- Its row is committed.  The announcement raised, which is logged. -/
  | unannounced (row : Conversion)
  /-- It has answered 400. -/
  | refused (message : String)
  /-- It has raised, or its process has ended, with or without a row that is committed. -/
  | failed (row : Option Conversion)
deriving DecidableEq, Repr

structure Call where
  workspaceId : String
  input : RecordConversionInput
  phase : Phase
deriving DecidableEq, Repr

/-- The row that a call has booked. -/
def Call.booked (call : Call) : Option Conversion :=
  match call.phase with
  | .booked row => some row
  | .returned row => row
  | .unannounced row => some row
  | .failed row => row
  | .begun => none
  | .resolved _ => none
  | .priced _ _ => none
  | .refused _ => none

/-- The row that a call has announced. -/
def Call.announced (call : Call) : Option Conversion :=
  match call.phase with
  | .returned row => row
  | .booked _ => none
  | .unannounced _ => none
  | .failed _ => none
  | .begun => none
  | .resolved _ => none
  | .priced _ _ => none
  | .refused _ => none

/-- What a call answers. -/
def Call.answer (call : Call) : Option RecordConversionResult :=
  match call.phase with
  | .returned row => some ⟨row.map (·.id), row.isSome⟩
  | .unannounced row => some ⟨some row.id, true⟩
  | .booked _ => none
  | .failed _ => none
  | .begun => none
  | .resolved _ => none
  | .priced _ _ => none
  | .refused _ => none

/-- What is committed, and the calls. -/
structure Store where
  conversions : List Conversion
  deliveries : List Delivery
  /-- No conversion has had this id, nor one above. -/
  nextId : Nat
  calls : List Call

/-! ### Statements -/

/-- What the database may answer when a slug is looked up: any link of the workspace that carries
it letter for letter, and nothing where none does. -/
def Deployment.answers (d : Deployment) (workspaceId slug : String) : List (Option Nat) :=
  match d.links.filter fun link => link.workspaceId = workspaceId && link.slug = slug with
  | [] => [none]
  | carrying => carrying.map fun link => some link.id

/-- A link is given by its id, and is one of the workspace. -/
def Deployment.hasLink (d : Deployment) (workspaceId : String) (linkId : Nat) : Bool :=
  d.links.any fun link => link.workspaceId = workspaceId && link.id = linkId

/-- The message for a slug that no link carries. -/
def noSuchSlug (slug : String) : String :=
  "No link with the back-half \"" ++ slug ++ "\" in this workspace."

/-- A call finds its link.  The database may give the answer. -/
def Call.resolve (d : Deployment) (call : Call) (answer : Option Nat) : Option Phase :=
  match call.input.linkId, call.input.slug.filter (· ≠ "") with
  | none, some slug =>
    if answer ∈ d.answers call.workspaceId slug then
      match answer with
      | some linkId => some (.resolved (some linkId))
      | none => some (.refused (noSuchSlug slug))
    else none
  | some linkId, _ =>
    if d.hasLink call.workspaceId linkId then some (.resolved (some linkId))
    else some (.refused "No link with that id in this workspace.")
  | none, none => some (.resolved none)

/-- The row that a call inserts. -/
def Call.conversion (d : Deployment) (call : Call) (id : Nat) (linkId : Option Nat)
    (currency : Option String) : Conversion where
  id := id
  workspaceId := call.workspaceId
  linkId := linkId
  kind := call.input.kind
  name := call.input.name
  source := "api"
  valueMinor := call.input.valueMinor
  currency := d.platform.toUpperCase ((call.input.currency.or currency).getD "INR")
  externalId := call.input.externalId
  visitorHash := call.input.visitorHash

/-- Two rows that `conversions_external_key` forbids beside each other. -/
def Conversion.Conflicts (row other : Conversion) : Prop :=
  row.externalId ≠ none ∧ row.workspaceId = other.workspaceId ∧ row.externalId = other.externalId

instance (row other : Conversion) : Decidable (row.Conflicts other) :=
  inferInstanceAs (Decidable (_ ∧ _ ∧ _))

/-- The webhooks that are told of a conversion of the workspace. -/
def Deployment.subscribed (d : Deployment) (workspaceId : String) : List Webhook :=
  d.webhooks.filter fun webhook => webhook.workspaceId = workspaceId &&
    webhook.disabledAt.isNone && webhook.events.contains "conversion.recorded"

def Conversion.payload (row : Conversion) : Payload :=
  ⟨row.id, row.kind, row.name, row.linkId, row.valueMinor, row.currency⟩

def Conversion.delivery (row : Conversion) (webhook : Webhook) : Delivery :=
  ⟨webhook.id, "conversion.recorded", row.payload⟩

/-- `enqueueWebhookEvent`. -/
def Deployment.announcement (d : Deployment) (row : Conversion) : List Delivery :=
  (d.subscribed row.workspaceId).map row.delivery

/-- A call goes on to its next phase. -/
def Store.set (s : Store) (i : Nat) (call : Call) (phase : Phase) : Store :=
  { s with calls := s.calls.set i { call with phase := phase } }

/-- `insert into conversions … on conflict do nothing`. -/
def Store.insert (s : Store) (i : Nat) (call : Call) (row : Conversion) : Store :=
  if s.conversions.any (row.Conflicts ·) then s.set i call (.returned none)
  else
    { s with
      conversions := s.conversions ++ [row]
      nextId := s.nextId + 1
      calls := s.calls.set i { call with phase := .booked row } }

def Store.announce (d : Deployment) (s : Store) (i : Nat) (call : Call) (row : Conversion) : Store :=
  { s with
    deliveries := s.deliveries ++ d.announcement row
    calls := s.calls.set i { call with phase := .returned (some row) } }

/-- The next statement of a call. -/
def Store.next (d : Deployment) (s : Store) (i : Nat) (answer : Option Nat) (call : Call) :
    Option Store :=
  match call.phase with
  | .begun => (call.resolve d answer).map (s.set i call)
  | .resolved linkId => some (s.set i call (.priced linkId (d.currency call.workspaceId)))
  | .priced linkId currency => some (s.insert i call (call.conversion d s.nextId linkId currency))
  | .booked row => some (s.announce d i call row)
  | .returned _ => none
  | .unannounced _ => none
  | .refused _ => none
  | .failed _ => none

/-- Where a call is left when its next statement raises.  `recordActivity` catches. -/
def Phase.raised : Phase → Option Phase
  | .begun => some (.failed none)
  | .resolved _ => some (.failed none)
  | .priced _ _ => some (.failed none)
  | .booked row => some (.unannounced row)
  | .returned _ => none
  | .unannounced _ => none
  | .refused _ => none
  | .failed _ => none

/-- Where a call is left when its process ends before its next statement. -/
def Phase.ended : Phase → Option Phase
  | .begun => some (.failed none)
  | .resolved _ => some (.failed none)
  | .priced _ _ => some (.failed none)
  | .booked row => some (.failed (some row))
  | .returned _ => none
  | .unannounced _ => none
  | .refused _ => none
  | .failed _ => none

inductive Action where
  | record (workspaceId : String) (input : RecordConversionInput)
  /-- The next statement of a call. -/
  | next (i : Nat) (answer : Option Nat)
  /-- It raises. -/
  | raise (i : Nat)
  /-- The process ends before it. -/
  | crash (i : Nat)

def step (d : Deployment) (s : Store) : Action → Option Store
  | .record workspaceId input => some { s with calls := s.calls ++ [⟨workspaceId, input, .begun⟩] }
  | .next i answer => (s.calls[i]?).bind (s.next d i answer)
  | .raise i => (s.calls[i]?).bind fun call => call.phase.raised.map (s.set i call)
  | .crash i => (s.calls[i]?).bind fun call => call.phase.ended.map (s.set i call)

/-! ### What should hold -/

/-- The links of the workspace that the slug names, in any case. -/
def Deployment.carrying (d : Deployment) (workspaceId slug : String) : List Link :=
  d.links.filter fun link =>
    link.workspaceId = workspaceId && asciiLower link.slug = asciiLower slug

/-- A call names the link: by its id, by a slug that it carries, or none. -/
def Call.Names (d : Deployment) (call : Call) (linkId : Option Nat) : Prop :=
  match call.input.linkId, call.input.slug.filter (· ≠ "") with
  | some id, _ => linkId = some id ∧ d.hasLink call.workspaceId id = true
  | none, some slug => ∃ link ∈ d.carrying call.workspaceId slug, linkId = some link.id
  | none, none => linkId = none

/-- A delivery tells a webhook of a conversion. -/
def Delivery.tells (webhookId conversionId : Nat) (delivery : Delivery) : Bool :=
  delivery.event = "conversion.recorded" && delivery.webhookId = webhookId &&
    delivery.payload.id = conversionId

/-- How often a webhook is told of a conversion. -/
def Store.announcements (s : Store) (webhookId conversionId : Nat) : Nat :=
  s.deliveries.countP (·.tells webhookId conversionId)

/-- No two conversions of a workspace have one external id. -/
def Store.BookedOnce (s : Store) : Prop :=
  s.conversions.Pairwise fun row other => ¬ row.Conflicts other

/-- What is queued in a run is queued for conversions that a call has announced. -/
def Store.OnlyAnnounced (d : Deployment) (s start : Store) : Prop :=
  ∀ delivery ∈ s.deliveries, delivery ∈ start.deliveries ∨
    ∃ call ∈ s.calls, ∃ row ∈ call.announced, delivery ∈ d.announcement row

/-- **What holds of bookings, announcements and links in every state of every run.** -/
structure Recorded (d : Deployment) (start s : Store) : Prop where
  once : s.BookedOnce
  /-- The conversions of the run are those of the calls that booked one, each its own. -/
  booked : ∃ rows, s.conversions = start.conversions ++ rows ∧
    rows.Perm (s.calls.filterMap (·.booked))
  /-- A conversion that was announced is announced once to every webhook. -/
  announced : ∀ call ∈ s.calls, ∀ row ∈ call.announced, ∀ webhook ∈ d.subscribed row.workspaceId,
    s.announcements webhook.id row.id = 1
  /-- One whose announcement has still to be made, or is lost, is not announced. -/
  unannounced : ∀ call ∈ s.calls, ∀ row ∈ call.booked, call.announced = none →
    ∀ webhookId, s.announcements webhookId row.id = 0
  only : s.OnlyAnnounced d start
  /-- A conversion is the one that its caller reports, for a link that the caller named. -/
  attributed : ∀ call ∈ s.calls, ∀ row ∈ call.booked, call.Names d row.linkId ∧
    ∃ currency, row = call.conversion d row.id row.linkId currency
  /-- The answer says whether the call has booked. -/
  answered : ∀ call ∈ s.calls, ∀ result ∈ call.answer,
    result = ⟨call.booked.map (·.id), call.booked.isSome⟩

/-- Every conversion that a call has booked is announced once to every webhook. -/
def Store.AllAnnounced (d : Deployment) (s : Store) : Prop :=
  ∀ call ∈ s.calls, ∀ row ∈ call.booked, ∀ webhook ∈ d.subscribed row.workspaceId,
    s.announcements webhook.id row.id = 1

/-- Every conversion is for the one link that its caller named. -/
def Store.NamedAlone (d : Deployment) (s : Store) : Prop :=
  ∀ call ∈ s.calls, ∀ row ∈ call.booked, ∀ linkId, call.Names d linkId → linkId = row.linkId

/-- Every call is over. -/
def Store.Over (s : Store) : Prop := ∀ call ∈ s.calls, call.phase.raised = none

/-- Webhooks have ids of their own. -/
def Deployment.Lawful (d : Deployment) : Prop :=
  d.webhooks.Pairwise fun webhook other => webhook.id ≠ other.id

/-- No call is open, and conversions are as the tables keep them. -/
structure Initial (start : Store) : Prop where
  calls : start.calls = []
  once : start.BookedOnce
  fresh : ∀ row ∈ start.conversions, row.id < start.nextId
  delivered : ∀ delivery ∈ start.deliveries, delivery.payload.id < start.nextId

end SnapUrl.Conversions
