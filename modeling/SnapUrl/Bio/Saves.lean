import SnapUrl.Bio.ManagedLink
import SnapUrl.Lib.Overlay
import SnapUrl.Lib.Run

/-!
# Saves and removals beside each other

`upsert` and `remove` of `apps/api/src/bio-pages/bio-pages.service.ts`, and what the links of
users do to the two tables (`insert` and `remove` of `links.service.ts`), one statement at a time.
What a call has written is seen by itself alone until it commits.  A statement is taken where it
waits for no other transaction and is not refused; a call may fail at any time instead.

The trigger on deleted links adds no operation where the outbox has one for the link, as here.

* `Transaction.next`: the next statement of a call.
* `step`: calls, their statements in any order, commits and failures.
* `InStep`: **the links are in step with the pages**.
* `FindsItsPage`: a save by the address commits on a page that is still there.
-/

namespace SnapUrl.Bio.Saves

open Lib Links Links.Creation

/-! ### Tables and calls -/

/-- What all calls find alike. -/
structure Deployment where
  webOrigin : String
  /-- The names of the domains, by their ids. -/
  domainName : String → String

/-- A row of `links`, the columns that are written or read here. -/
structure Link where
  workspaceId : String
  domainId : String
  slug : String
  destination : String
  managedBioPageId : Option Nat
deriving DecidableEq, Repr

/-- The columns of `links_domain_slug_key`. -/
def Link.key (link : Link) : String × String := (link.domainId, asciiLower link.slug)

inductive Call where
  | save (workspaceId : String) (domain : DomainRow) (input : UpsertBioPageInput)
  | remove (workspaceId : String) (pageId : Nat)
  /-- The insert of a link that a user creates or clones. -/
  | create (workspaceId domainId slug destination : String)
  /-- The removal of a link of a user. -/
  | removeLink (workspaceId : String) (linkId : Nat)
deriving DecidableEq, Repr

/-- How far a call is. -/
inductive Phase where
  | begun
  /-- A save has found its page, or that there is none at the address. -/
  | found (pageId : Option Nat)
  /-- It has written the page. -/
  | saved (pageId : Nat)
  /-- The statements on links that are left, and the page that owns what they insert. -/
  | working (pageId : Option Nat) (todo : List LinkStatement)
  /-- A removal has deleted its page. -/
  | ready
  /-- Committed, refused or failed. -/
  | over
deriving DecidableEq, Repr

/-- A call, with what its transaction has written. -/
structure Transaction where
  call : Call
  phase : Phase
  pages : Overlay Page
  links : Overlay Link
  enqueued : List (Nat × ProjectionOperation)
  /-- The link that the last insert has returned. -/
  inserted : Option Nat

def Transaction.begin (call : Call) : Transaction :=
  ⟨call, .begun, .empty, .empty, [], none⟩

/-- Nothing is left of what it has written. -/
def Transaction.close (t : Transaction) : Transaction :=
  { t with phase := .over, pages := .empty, links := .empty, enqueued := [] }

/-- What is committed, and the calls. -/
structure Store where
  pages : Table Page
  links : Table Link
  outbox : List (Nat × ProjectionOperation)
  /-- No row has had this id, nor one above. -/
  nextId : Nat
  calls : List Transaction

/-! ### What a statement waits for -/

section

variable (s : Store) (others : List Transaction) (t : Transaction)

/-- No other transaction has touched the page. -/
def pageUnlocked (id : Nat) : Bool := others.all fun other => (other.pages id).isNone

/-- No other transaction has touched the link. -/
def linkUnlocked (id : Nat) : Bool := others.all fun other => (other.links id).isNone

/-- `bio_pages_domain_slug_key` takes the key for the page with an id. -/
def pageKeyFree (id : Nat) (key : String × String) : Bool :=
  (((t.pages.put id none).over s.pages).find? s.nextId (·.key = key)).isNone &&
    others.all fun other => (other.pages.rows.find? s.nextId (·.key = key)).isNone

/-- `links_domain_slug_key` takes the key for a new link. -/
def linkKeyFree (key : String × String) : Bool :=
  ((t.links.over s.links).find? s.nextId (·.key = key)).isNone &&
    others.all fun other => (other.links.rows.find? s.nextId (·.key = key)).isNone

/-- The page that a new link references is there, and no other transaction deletes it. -/
def referenced : Option Nat → Bool
  | none => true
  | some id => ((t.pages.over s.pages) id).isSome &&
      others.all fun other => other.pages id ≠ some none

/-- The link that a page owns. -/
def ownedLink (pageId : Nat) : Option (Nat × Link) :=
  (t.links.over s.links).find? s.nextId (·.managedBioPageId = some pageId)

end

/-! ### Statements -/

def saveKey (domain : DomainRow) (input : UpsertBioPageInput) : String × String :=
  (domain.id, asciiLower input.slug)

def saveArgs (workspaceId : String) (domain : DomainRow) (input : UpsertBioPageInput)
    (pageId : Nat) : ReconcileArgs :=
  ⟨pageId, workspaceId, domain.id, domain.domain, input.slug, input.live⟩

/-- The link that a call inserts. -/
def Call.link (pageId : Option Nat) (destination : String) : Call → Option Link
  | .save workspaceId domain input =>
    some ⟨workspaceId, domain.id, input.slug, destination, pageId⟩
  | .create workspaceId domainId slug _ => some ⟨workspaceId, domainId, slug, destination, pageId⟩
  | .remove _ _ => none
  | .removeLink _ _ => none

/-- The page that a save is for, or that there is none at the address yet; none where the save
is refused. -/
def findPage (pages : Table Page) (n : Nat) (workspaceId : String) (domain : DomainRow)
    (input : UpsertBioPageInput) : Option (Option Nat) :=
  match input.id with
  | some id =>
    match pages id with
    | some page => if page.workspaceId = workspaceId then some (some id) else none
    | none => none
  | none =>
    match pages.find? n (·.key = saveKey domain input) with
    | some (id, page) => if page.workspaceId = workspaceId then some (some id) else none
    | none => some none

/-- The page that is found is there. -/
theorem isSome_of_findPage {pages : Table Page} {n : Nat} {workspaceId : String}
    {domain : DomainRow} {input : UpsertBioPageInput} {id : Nat}
    (h : findPage pages n workspaceId domain input = some (some id)) :
    ∃ page, pages id = some page := by
  rw [findPage] at h
  split at h
  · split at h
    · rename_i page hpage
      split at h
      · cases h
        exact ⟨page, hpage⟩
      · cases h
    · cases h
  · split at h
    · rename_i id' page hfound
      split at h
      · cases h
        exact ⟨page, (Table.find?_eq_some hfound).2.1⟩
      · cases h
    · cases h

/-- What a call reads first. -/
def Store.start (s : Store) : Call → Phase
  | .save workspaceId domain input =>
    match findPage s.pages s.nextId workspaceId domain input with
    | some pageId => .found pageId
    | none => .over
  | .remove workspaceId pageId =>
    match s.pages pageId with
    | some page =>
      if page.workspaceId = workspaceId then
        match s.links.find? s.nextId (·.managedBioPageId = some pageId) with
        | some (linkId, _) => .working none (deleteLink linkId)
        | none => .working none []
      else .over
    | none => .over
  | .create _ _ _ destination => .working none [.insert destination, .enqueueInserted]
  | .removeLink workspaceId linkId =>
    match s.links linkId with
    | some link =>
      if link.workspaceId = workspaceId ∧ link.managedBioPageId = none then
        .working none (deleteLink linkId)
      else .over
    | none => .over

/-- What a save makes of the page that it has found: one by the id may be moved. -/
def savedPage (domain : DomainRow) (input : UpsertBioPageInput) (page : Page) : Page :=
  if input.id.isSome then
    { page with domainId := domain.id, slug := input.slug, live := input.live }
  else { page with live := input.live }

def Transaction.writePage (s : Store) (others : List Transaction) (t : Transaction) (id : Nat)
    (page : Page) : Option Transaction :=
  if pageUnlocked others id && pageKeyFree s others t id page.key then
    some { t with pages := t.pages.put id (some page), phase := .saved id }
  else none

/-- The page of a save is updated, where it is still there, or inserted. -/
def Transaction.savePage (s : Store) (others : List Transaction) (t : Transaction)
    (workspaceId : String) (domain : DomainRow) (input : UpsertBioPageInput) :
    Option Nat → Option (Transaction × Nat)
  | some id =>
    match (t.pages.over s.pages) id with
    | none => some ({ t with phase := .saved id }, s.nextId)
    | some page => (t.writePage s others id (savedPage domain input page)).map (·, s.nextId)
  | none =>
    (t.writePage s others s.nextId ⟨workspaceId, domain.id, input.slug, input.live⟩).map
      (·, s.nextId + 1)

/-- A statement on links, none where it waits or is refused. -/
def Transaction.execute (s : Store) (others : List Transaction) (t : Transaction)
    (pageId : Option Nat) : LinkStatement → Option (Transaction × Nat)
  | .enqueue linkId operation =>
    some ({ t with enqueued := t.enqueued ++ [(linkId, operation)] }, s.nextId)
  | .enqueueInserted => t.inserted.map fun linkId =>
      ({ t with enqueued := t.enqueued ++ [(linkId, .upsert)] }, s.nextId)
  | .delete linkId =>
    if linkUnlocked others linkId then
      match (t.links.over s.links) linkId with
      | none => some (t, s.nextId)
      | some _ => some ({ t with links := t.links.put linkId none }, s.nextId)
    else none
  | .repoint linkId destination =>
    if linkUnlocked others linkId then
      match (t.links.over s.links) linkId with
      | none => some (t, s.nextId)
      | some link =>
        some ({ t with links := t.links.put linkId (some { link with destination := destination }) },
          s.nextId)
    else none
  | .insert destination =>
    match t.call.link pageId destination with
    | none => none
    | some link =>
      if referenced s others t pageId && linkKeyFree s others t link.key then
        some ({ t with
          links := t.links.put s.nextId (some link)
          inserted := some s.nextId }, s.nextId + 1)
      else none

/-- The delete of a page, which its links would refuse. -/
def Transaction.deletePage (s : Store) (others : List Transaction) (t : Transaction)
    (workspaceId : String) (pageId : Nat) : Option Transaction :=
  match (t.pages.over s.pages) pageId with
  | none => some { t with phase := .ready }
  | some page =>
    if page.workspaceId = workspaceId then
      if pageUnlocked others pageId && (ownedLink s t pageId).isNone then
        some { t with pages := t.pages.put pageId none, phase := .ready }
      else none
    else some { t with phase := .ready }

/-- The next statement of a call: what it comes to, and the next free id. -/
def Transaction.next (d : Deployment) (s : Store) (others : List Transaction) (t : Transaction) :
    Option (Transaction × Nat) :=
  match t.phase, t.call with
  | .begun, call => some ({ t with phase := s.start call }, s.nextId)
  | .found pageId, .save workspaceId domain input =>
    t.savePage s others workspaceId domain input pageId
  | .saved pageId, .save workspaceId domain input =>
    let owned := (ownedLink s t pageId).map fun (id, link) =>
      ⟨id, link.slug, link.destination, link.domainId⟩
    let todo :=
      reconcileManagedLink d.webOrigin (saveArgs workspaceId domain input pageId) owned
    some ({ t with phase := .working (some pageId) todo }, s.nextId)
  | .working pageId (statement :: todo), _ =>
    (t.execute s others pageId statement).map fun (t', nextId) =>
      ({ t' with phase := .working pageId todo }, nextId)
  | .working _ [], .remove workspaceId pageId =>
    (t.deletePage s others workspaceId pageId).map (·, s.nextId)
  | _, _ => none

/-- A call may commit: of a removal, only after its page. -/
def Transaction.mayCommit (t : Transaction) : Bool :=
  match t.phase, t.call with
  | .working _ [], .remove _ _ => false
  | .working _ [], _ => true
  | .ready, _ => true
  | _, _ => false

/-! ### Steps -/

inductive Action where
  /-- A save comes in, with all that is read of it before. -/
  | save (p : Platform) (settings : State) (input : UpsertBioPageInput)
  | remove (workspaceId : String) (pageId : Nat)
  | create (workspaceId domainId slug destination : String)
  | removeLink (workspaceId : String) (linkId : Nat)
  /-- The next statement of a call. -/
  | next (i : Nat)
  | commit (i : Nat)
  | fail (i : Nat)

def Store.add (s : Store) (call : Call) : Store :=
  { s with calls := s.calls ++ [.begin call] }

def Store.set (s : Store) (i : Nat) (t : Transaction) (nextId : Nat) : Store :=
  { s with calls := s.calls.set i t, nextId := nextId }

def Store.commit (s : Store) (i : Nat) (t : Transaction) : Store where
  pages := t.pages.over s.pages
  links := t.links.over s.links
  outbox := s.outbox ++ t.enqueued
  nextId := s.nextId
  calls := s.calls.set i t.close

def step (d : Deployment) (s : Store) : Action → Option Store
  | .save p settings input =>
    match saveDomain p settings input with
    | .error _ => some s
    | .ok domain =>
      if domain.domain = d.domainName domain.id then
        some (s.add (.save settings.workspaceId domain input))
      else none
  | .remove workspaceId pageId => some (s.add (.remove workspaceId pageId))
  | .create workspaceId domainId slug destination =>
    some (s.add (.create workspaceId domainId slug destination))
  | .removeLink workspaceId linkId => some (s.add (.removeLink workspaceId linkId))
  | .next i => (s.calls[i]?).bind fun t =>
      (t.next d s (s.calls.eraseIdx i)).map fun (t', nextId) => s.set i t' nextId
  | .commit i => (s.calls[i]?).bind fun t => if t.mayCommit then some (s.commit i t) else none
  | .fail i => (s.calls[i]?).map fun t => s.set i t.close s.nextId

/-! ### What should hold -/

/-- The links that a page owns are one, or none. -/
def Owns (links : Table Link) (pageId : Nat) (owned : Option (Nat × Link)) : Prop :=
  ∀ id link, links id = some link ∧ link.managedBioPageId = some pageId ↔ owned = some (id, link)

/-- The link stands at the address of the page and points there, up to letter case. -/
def Fronts (d : Deployment) (page : Page) (link : Link) : Prop :=
  link.key = page.key ∧ ∃ slug, asciiLower slug = asciiLower page.slug ∧
    link.destination = bioManagedDestination d.webOrigin (d.domainName page.domainId) slug

/-- **The links are in step with the pages.** -/
structure InStep (d : Deployment) (pages : Table Page) (links : Table Link) : Prop where
  /-- No address is held by two links. -/
  keys : links.Unique Link.key
  /-- A published page owns one link, at its address. -/
  live : ∀ id page, pages id = some page → page.live = true →
    ∃ linkId link, Owns links id (some (linkId, link)) ∧ Fronts d page link
  /-- A draft owns none. -/
  draft : ∀ id page, pages id = some page → page.live = false → Owns links id none
  /-- Nor does a page that is not there. -/
  removed : ∀ id, pages id = none → Owns links id none

/-- Every link of a page that has gone from its address has a delete, which was committed
with it. -/
def DeletesEnqueued (s s' : Store) : Prop :=
  ∃ enqueued, s'.outbox = s.outbox ++ enqueued ∧
    ∀ id link, s.links id = some link → link.managedBioPageId.isSome = true →
      (∀ link', s'.links id = some link' → link'.key ≠ link.key) → (id, .delete) ∈ enqueued

/-- The page that a save by the address has published, and the address. -/
def Transaction.publishedByAddress (t : Transaction) : Option (Page × (String × String)) :=
  match t.call, t.phase with
  | .save _ domain input, .working (some pageId) _ =>
    if input.id = none ∧ input.live = true then
      ((t.pages pageId).join).map (·, saveKey domain input)
    else none
  | _, _ => none

/-- **A save by the address commits on a page that is still there**: the page was not moved
between the read of the save and its update. -/
def FindsItsPage (s : Store) : Action → Prop
  | .commit i => ∀ t ∈ s.calls[i]?, ∀ page ∈ t.publishedByAddress, page.1.key = page.2
  | .save _ _ _ => True
  | .remove _ _ => True
  | .create _ _ _ _ => True
  | .removeLink _ _ => True
  | .next _ => True
  | .fail _ => True

instance (s : Store) : ∀ a, Decidable (FindsItsPage s a)
  | .commit i => inferInstanceAs (Decidable (∀ t ∈ s.calls[i]?, _))
  | .save _ _ _ => isTrue trivial
  | .remove _ _ => isTrue trivial
  | .create _ _ _ _ => isTrue trivial
  | .removeLink _ _ => isTrue trivial
  | .next _ => isTrue trivial
  | .fail _ => isTrue trivial

end SnapUrl.Bio.Saves
