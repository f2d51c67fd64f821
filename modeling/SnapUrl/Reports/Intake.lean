import Mathlib.Data.Finset.Card
import SnapUrl.Lib.Overlay
import SnapUrl.Lib.Run
import SnapUrl.Links.Slug
import SnapUrl.Platform
import SnapUrl.Projection.Outbox

/-!
# Abuse reports

`submitReport`, `distinctReportCount` and `maybeQuarantine` of
`apps/api/src/reports/reports.service.ts`, one statement at a time, any number of calls beside
each other.  No statement fails.  What follows the commit of a quarantine, the cache bust and the
mails, writes nothing.

* `distinctReportCount`: the key that reports are counted by.
* `step`: statements of calls in any order.  An update of a link waits for the open transaction
  that has updated it.
* `reporterCount`: how many stand against a link.
* `OneTransaction`: a step that disables a link, with the rows that go with it.
* `Quarantined`: **what is left when all calls have returned**.
-/

namespace SnapUrl.Reports

open Lib Links Domain
open Projection (Operation)

/-! ### Tables -/

/-- The status of a report. -/
inductive ReportStatus where
  /-- `open`. -/
  | opened
  | reviewed
  | dismissed
  | actioned
deriving DecidableEq, Repr

/-- A row of `abuse_reports`. -/
structure Report where
  id : Nat
  slug : String
  linkId : Option Nat
  workspaceId : Option String
  reason : String
  reporterContact : Option String
  status : ReportStatus
deriving DecidableEq, Repr

/-- A row of `links`, the columns that are read or written here. -/
structure Link where
  workspaceId : String
  domainId : String
  slug : String
  destination : String
  disabledAt : Option Int
  updatedAt : Int
deriving DecidableEq, Repr

/-- What the audit row of a quarantine says of the link after it. -/
structure QuarantineNote where
  disabled : Bool
  reason : String
  distinctReports : Nat
  threshold : Nat
deriving DecidableEq, Repr

/-- A row of `admin_audit_log`. -/
structure AdminAuditEntry where
  actorId : Option String
  actorLabel : String
  action : String
  targetType : String
  targetId : Nat
  /-- Whether the link was disabled before. -/
  before : Bool
  after : QuarantineNote
  requestIp : Option String
deriving DecidableEq, Repr

/-! ### Calls -/

structure SubmitReportInput where
  reason : String
  reporterContact : Option String
deriving DecidableEq, Repr

structure SubmitReportResult where
  ok : Bool
deriving DecidableEq, Repr

/-- The link that a report names, with its workspace. -/
structure Resolved where
  id : Nat
  workspaceId : String
deriving DecidableEq, Repr

/-- How far a call is. -/
inductive Phase where
  | begun
  /-- It has looked the slug up. -/
  | resolved (link : Option Resolved)
  /-- Its report stands; the reports on the link are to be counted. -/
  | inserted (linkId : Nat)
  /-- It has counted enough of them. -/
  | reached (linkId count : Nat)
  /-- Its transaction has disabled the link. -/
  | disabled (linkId count : Nat) (now : Int)
  /-- It has enqueued the operation for the projection. -/
  | enqueued (linkId count : Nat) (now : Int)
  /-- It has written the audit row. -/
  | audited (linkId count : Nat) (now : Int)
  | returned (result : SubmitReportResult)
deriving DecidableEq, Repr

structure Call where
  slug : String
  host : Option String
  input : SubmitReportInput
  phase : Phase
deriving DecidableEq, Repr

/-- The link that an open transaction has updated. -/
def Call.holds (call : Call) : Option Nat :=
  match call.phase with
  | .disabled linkId _ _ => some linkId
  | .enqueued linkId _ _ => some linkId
  | .audited linkId _ _ => some linkId
  | .begun => none
  | .resolved _ => none
  | .inserted _ => none
  | .reached _ _ => none
  | .returned _ => none

/-- What is committed, and the calls. -/
structure Store where
  links : Table Link
  /-- The ids of links are below this one. -/
  linkBound : Nat
  reports : List Report
  outbox : List (Nat × Operation)
  audit : List AdminAuditEntry
  /-- No report has had this id, nor one above. -/
  nextId : Nat
  calls : List Call

/-- What all calls find alike. -/
structure Deployment where
  platform : Platform
  /-- `ABUSE_QUARANTINE_THRESHOLD`. -/
  threshold : Nat
  /-- The names of the domains, by their ids. -/
  domainName : String → String
  /-- The format that `z.string().email()` asks for. -/
  isEmail : String → Bool
  /-- The text of an id, `id::text`. -/
  idText : Nat → String

/-- What is relied on of the check of addresses and of the texts of ids. -/
structure Deployment.Lawful (d : Deployment) : Prop where
  at_of_isEmail : ∀ s, d.isEmail s = true → '@' ∈ s.toList
  idText_injective : Function.Injective d.idText
  at_notMem_idText : ∀ id, '@' ∉ (d.idText id).toList

/-! ### The intake -/

/-- The length of a text in UTF-16 code units. -/
def codeUnits (s : String) : Nat := (s.toList.flatMap utf16Units).length

/-- `SubmitReportInput.parse`. -/
def SubmitReportInput.accepted (d : Deployment) (input : SubmitReportInput) : Bool :=
  3 ≤ codeUnits input.reason && codeUnits input.reason ≤ 2000 &&
    match input.reporterContact with
    | none => true
    | some contact => contact = "" || (d.isEmail contact && codeUnits contact ≤ 320)

/-- The link that the slug and the host name, where they name just one. -/
def Store.resolve (d : Deployment) (s : Store) (slug : String) (host : Option String) :
    Option Resolved :=
  let hostname := trim (orEmpty host)
  let named := (List.range s.linkBound).filterMap fun id =>
    ((s.links id).filter fun link =>
      asciiLower link.slug = d.platform.toLowerCase slug && (hostname = "" ||
        asciiLower (d.domainName link.domainId) = d.platform.toLowerCase hostname)).map
      fun link => Resolved.mk id link.workspaceId
  match named.take 2 with
  | [link] => some link
  | _ => none

/-- What is stored of the contact. -/
def storedContact (link : Option Resolved) (contact : Option String) : Option String :=
  let trimmed := if trim (orEmpty contact) ≠ "" then some (trim (orEmpty contact)) else none
  if link.isSome then trimmed else none

/-- The report that a call stores. -/
def Call.report (call : Call) (id : Nat) (link : Option Resolved) : Report :=
  ⟨id, call.slug, link.map (·.id), link.map (·.workspaceId), call.input.reason,
    storedContact link call.input.reporterContact, .opened⟩

/-- The report is resolved to the link and not dismissed. -/
def Report.standing (report : Report) (linkId : Nat) : Bool :=
  report.linkId = some linkId && report.status ≠ .dismissed

/-- `coalesce(lower(reporter_contact), id::text)`. -/
def Report.key (d : Deployment) (report : Report) : String :=
  (report.reporterContact.map asciiLower).getD (d.idText report.id)

def Store.distinctReportCount (d : Deployment) (s : Store) (linkId : Nat) : Nat :=
  ((s.reports.filter (·.standing linkId)).map (·.key d)).dedup.length

/-- The audit row of a quarantine. -/
def quarantineEntry (d : Deployment) (linkId count : Nat) : AdminAuditEntry where
  actorId := none
  actorLabel := "system:auto-quarantine"
  action := "admin.link.disable"
  targetType := "link"
  targetId := linkId
  before := false
  after := ⟨true, "auto-quarantine", count, d.threshold⟩
  requestIp := none

/-- No open transaction has updated the link. -/
def linkUnlocked (others : List Call) (linkId : Nat) : Bool := others.all (·.holds ≠ some linkId)

def Link.disable (link : Link) (now : Int) : Link :=
  { link with disabledAt := some now, updatedAt := now }

def answer : Phase := .returned ⟨true⟩

/-- A call goes on to its next phase. -/
def Store.set (s : Store) (i : Nat) (call : Call) (phase : Phase) : Store :=
  { s with calls := s.calls.set i { call with phase := phase } }

/-- After its report a call looks at the link that it names, unless that is turned off. -/
def afterReport (d : Deployment) : Option Resolved → Phase
  | some link => if d.threshold = 0 then answer else .inserted link.id
  | none => answer

def Store.insertReport (d : Deployment) (s : Store) (i : Nat) (call : Call)
    (link : Option Resolved) : Store :=
  { s with
    reports := s.reports ++ [call.report s.nextId link]
    nextId := s.nextId + 1
    calls := s.calls.set i { call with phase := afterReport d link } }

def Store.commit (d : Deployment) (s : Store) (i : Nat) (call : Call) (linkId count : Nat)
    (now : Int) : Store :=
  { s with
    links := Function.update s.links linkId ((s.links linkId).map (·.disable now))
    outbox := s.outbox ++ [(linkId, .upsert)]
    audit := s.audit ++ [quarantineEntry d linkId count]
    calls := s.calls.set i { call with phase := answer } }

/-- The next statement of a call, at the time that it reads.  None where it waits, or has
returned. -/
def Store.next (d : Deployment) (s : Store) (i : Nat) (now : Int) (call : Call) : Option Store :=
  match call.phase with
  | .begun => some (s.set i call (.resolved (s.resolve d call.slug call.host)))
  | .resolved link => some (s.insertReport d i call link)
  | .inserted linkId =>
    let count := s.distinctReportCount d linkId
    some (s.set i call (if count < d.threshold then answer else .reached linkId count))
  | .reached linkId count =>
    if linkUnlocked (s.calls.eraseIdx i) linkId then
      if (s.links linkId).any (·.disabledAt.isNone) then
        some (s.set i call (.disabled linkId count now))
      else some (s.set i call answer)
    else none
  | .disabled linkId count at_ => some (s.set i call (.enqueued linkId count at_))
  | .enqueued linkId count at_ => some (s.set i call (.audited linkId count at_))
  | .audited linkId count at_ => some (s.commit d i call linkId count at_)
  | .returned _ => none

inductive Action where
  | submitReport (slug : String) (host : Option String) (input : SubmitReportInput)
  /-- The next statement of a call. -/
  | next (i : Nat) (now : Int)

/-- An input that does not parse makes no call. -/
def step (d : Deployment) (s : Store) : Action → Option Store
  | .submitReport slug host input =>
    if input.accepted d then some { s with calls := s.calls ++ [⟨slug, host, input, .begun⟩] }
    else some s
  | .next i now => (s.calls[i]?).bind (s.next d i now)

/-! ### What should hold -/

/-- **How many stand against a link**: contacts are compared trimmed and without case, and each
report with no contact counts as its own. -/
def reporterCount (reports : List Report) (linkId : Nat) : Nat :=
  let standing := reports.filter (·.standing linkId)
  ((standing.filterMap (·.reporterContact)).map fun contact =>
    asciiLower (trim contact)).toFinset.card + standing.countP (·.reporterContact.isNone)

def Store.isDisabled (s : Store) (linkId : Nat) : Bool :=
  (s.links linkId).any (·.disabledAt.isSome)

/-- A link is disabled exactly when enough reporters stand against it. -/
def Store.Consistent (s : Store) (threshold linkId : Nat) : Prop :=
  s.isDisabled linkId = true ↔ threshold ≤ reporterCount s.reports linkId

/-- What a step does to links, and what goes with it: nothing, or one link is disabled, with one
operation for the projection and one audit row. -/
def OneTransaction (d : Deployment) (s s' : Store) : Prop :=
  (s'.links = s.links ∧ s'.outbox = s.outbox ∧ s'.audit = s.audit) ∨
    ∃ linkId link now count, s.links linkId = some link ∧ link.disabledAt = none ∧
      s'.links = Function.update s.links linkId (some (link.disable now)) ∧
      s'.outbox = s.outbox ++ [(linkId, .upsert)] ∧
      s'.audit = s.audit ++ [quarantineEntry d linkId count]

/-- The link went down in between. -/
def WentDown (start s : Store) (linkId : Nat) : Bool :=
  s.isDisabled linkId && !start.isDisabled linkId

/-- **What is left when all calls have returned.** -/
structure Quarantined (d : Deployment) (start s : Store) : Prop where
  /-- A link is disabled exactly when enough reporters stand against it. -/
  disabled : ∀ linkId, (start.links linkId).isSome = true → s.Consistent d.threshold linkId
  /-- It was then disabled once. -/
  outbox : ∃ rows, s.outbox = start.outbox ++ rows ∧ (∀ row ∈ rows, row.2 = .upsert) ∧
    ∀ linkId, rows.countP (·.1 = linkId) = if WentDown start s linkId then 1 else 0
  audit : ∃ rows, s.audit = start.audit ++ rows ∧
    (∀ row ∈ rows, ∃ linkId count, row = quarantineEntry d linkId count) ∧
    ∀ linkId, rows.countP (·.targetId = linkId) = if WentDown start s linkId then 1 else 0
  /-- Every other link is as it was. -/
  others : ∀ linkId, WentDown start s linkId = false → s.links linkId = start.links linkId
  answers : ∀ call ∈ s.calls, call.phase = .returned ⟨true⟩

/-- No call is open, reports are as the intake stores them, and links are disabled exactly when
enough reporters stand against them. -/
structure Initial (d : Deployment) (s : Store) : Prop where
  calls : s.calls = []
  fresh : ∀ report ∈ s.reports, report.id < s.nextId
  ids : s.reports.Pairwise fun a b => a.id ≠ b.id
  contacts : ∀ report ∈ s.reports, ∀ contact ∈ report.reporterContact,
    '@' ∈ contact.toList ∧ trim contact = contact
  consistent : ∀ linkId, (s.links linkId).isSome = true → s.Consistent d.threshold linkId

end SnapUrl.Reports
