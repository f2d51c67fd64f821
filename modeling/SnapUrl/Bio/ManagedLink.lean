import Mathlib.Data.List.DropRight
import SnapUrl.Links.Admission

/-!
# The link of a bio page

`packages/domain/src/bio.ts`, and of `apps/api/src/bio-pages/bio-pages.service.ts` what
`upsert` asks of the domain, `reconcileManagedLink` and `insertManagedLink`.

* `bioManagedDestination`: where the link of a published page points.
* `reconcileManagedLink`: the statements that bring the link of a page in step with it, from
  the link that the page owns.
-/

namespace SnapUrl.Bio

open Lib Links Links.Creation

/-! ### Destinations -/

def bioPagePath (domain slug : String) : String :=
  "/b/" ++ String.ofList (FormUrlencoded.encodeURIComponent domain.toList) ++
    "/" ++ String.ofList (FormUrlencoded.encodeURIComponent slug.toList)

/-- The trailing slashes of the origin are dropped. -/
def bioManagedDestination (webOrigin domain slug : String) : String :=
  String.ofList (webOrigin.toList.rdropWhile (· = '/')) ++ bioPagePath domain slug

/-! ### Pages -/

/-- What `UpsertBioPageInput` parses, less the profile and the blocks. -/
structure UpsertBioPageInput where
  id : Option Nat
  domain : String
  slug : String
  /-- The status is `live`, and not `draft`. -/
  live : Bool
deriving DecidableEq, Repr

/-- A page, less its profile and its blocks. -/
structure Page where
  workspaceId : String
  domainId : String
  slug : String
  live : Bool
deriving DecidableEq, Repr

/-- The columns of `bio_pages_domain_slug_key`. -/
def Page.key (page : Page) : String × String := (page.domainId, asciiLower page.slug)

/-- The domain that a save names, which has to be live for a page that is. -/
def saveDomain (p : Platform) (s : State) (input : UpsertBioPageInput) :
    Except HttpError DomainRow := do
  toBadRequest (isSlugAvailableShape input.slug)
  match s.domains.find? fun row => p.toLowerCase row.domain = p.toLowerCase input.domain &&
      (row.workspaceId = some s.workspaceId || row.isSystem) with
  | none => .error (badRequest (input.domain ++ " isn't a domain in this workspace."))
  | some domain =>
    if input.live ∧ domain.status ≠ "live" then
      .error (badRequest (input.domain ++
        " isn't verified yet, so a published page on it wouldn't resolve."))
    else .ok domain

/-! ### The link -/

/-- What `reconcileManagedLink` reads of the link that a page owns. -/
structure OwnedLink where
  id : Nat
  slug : String
  destination : String
  domainId : String
deriving DecidableEq, Repr

/-- What `reconcileManagedLink` is called with. -/
structure ReconcileArgs where
  bioPageId : Nat
  workspaceId : String
  domainId : String
  domainName : String
  slug : String
  live : Bool
deriving DecidableEq, Repr

/-- The key that the index on links has for the address. -/
def ReconcileArgs.key (args : ReconcileArgs) : String × String :=
  (args.domainId, asciiLower args.slug)

inductive ProjectionOperation where
  | upsert
  | delete
deriving DecidableEq, Repr

/-- A statement that changes the links or the outbox. -/
inductive LinkStatement where
  | enqueue (linkId : Nat) (operation : ProjectionOperation)
  | delete (linkId : Nat)
  | insert (destination : String)
  /-- The upsert of the link that was just inserted. -/
  | enqueueInserted
  | repoint (linkId : Nat) (destination : String)
deriving DecidableEq, Repr

/-- The statements of `insertManagedLink`. -/
def insertManagedLink (destination : String) : List LinkStatement :=
  [.insert destination, .enqueueInserted]

/-- The statements for a link that goes. -/
def deleteLink (linkId : Nat) : List LinkStatement := [.enqueue linkId .delete, .delete linkId]

/-- The statements that follow the read of the link that the page owns. -/
def reconcileManagedLink (webOrigin : String) (args : ReconcileArgs) :
    Option OwnedLink → List LinkStatement
  | none =>
    if !args.live then []
    else insertManagedLink (bioManagedDestination webOrigin args.domainName args.slug)
  | some owned =>
    if !args.live then deleteLink owned.id
    else
      let destination := bioManagedDestination webOrigin args.domainName args.slug
      let moved := owned.domainId ≠ args.domainId ∨ asciiLower owned.slug ≠ asciiLower args.slug
      if ¬ moved ∧ owned.destination = destination then []
      -- the projection is keyed by the address, so a link that moves is another row
      else if moved then deleteLink owned.id ++ insertManagedLink destination
      else [.repoint owned.id destination, .enqueue owned.id .upsert]

/-- The row that is inserted, its other columns being the defaults of the table. -/
def managedLink (e : Environment) (args : ReconcileArgs) (destination : String) : StoredLink where
  workspaceId := args.workspaceId
  domainId := args.domainId
  slug := args.slug
  destination := destination
  comment := none
  tags := []
  folder := none
  redirectType := .r302
  expiresAt := none
  expiresTo := none
  activatesAt := none
  scheduledTo := none
  clickLimit := none
  passwordHash := none
  forwardQuery := true
  deepLink := false
  hideReferrer := false
  publicPreview := true
  safeBrowsingStatus := "clean"
  safeBrowsingCheckedAt := NewAccountCap.millis e.now
  utm := none
  social := none
  createdBy := ""
  managed := true
  createdAt := e.now
  rules := []

end SnapUrl.Bio
