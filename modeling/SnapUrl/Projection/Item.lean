import SnapUrl.Domain.Destination
import SnapUrl.Domain.Routing

/-!
# Projected links

`packages/database/src/link-projection.ts`: what the worker publishes of a link,
as an item of the projection table and as a value of the edge's key-value store.

* `toLinkItem` and `fromLinkItem`: the item and back.
* `isEdgeEligible`, `decomposeDestination`, `kvsValue`: which links the edge
  answers, and from what.
-/

namespace SnapUrl.Projection

open Lib Domain

/-- The shape one LINK item resolves to. -/
structure ProjectedLink where
  id : String
  workspaceId : String
  destination : String
  redirectType : RedirectType
  rules : List RoutingRule
  expiresAt : Option Int
  expiresTo : Option String
  activatesAt : Option Int
  scheduledTo : Option String
  clickLimit : Option Int
  clicks : Int
  hasPassword : Bool
  forwardQuery : Bool
  deepLink : Bool
  hideReferrer : Bool
  publicPreview : Bool
  archived : Bool
  disabled : Bool
  ownerUnverified : Bool
  safeBrowsingStatus : String
  utm : Option Utm
deriving DecidableEq, Repr

/-- The stored form of a LINK item.  Dates are texts; the two flags that came later
may be missing from an old item. -/
structure LinkItem where
  PK : String
  SK : String
  linkId : String
  workspaceId : String
  destination : String
  redirectType : RedirectType
  rules : List RoutingRule
  expiresAt : Option String
  expiresTo : Option String
  activatesAt : Option String
  scheduledTo : Option String
  clickLimit : Option Int
  clicks : Int
  hasPassword : Bool
  forwardQuery : Bool
  deepLink : Bool
  hideReferrer : Bool
  publicPreview : Bool
  archived : Bool
  disabled : Option Bool
  ownerUnverified : Option Bool
  safeBrowsingStatus : String
  utm : Option Utm
deriving DecidableEq, Repr

/-! ### Keys -/

/-- Strips nothing but case and whitespace. -/
def normaliseHost (p : Platform) (host : String) : String := trim (p.toLowerCase host)

/-- PK for every item on a domain. -/
def domainPk (p : Platform) (host : String) : String := "d#" ++ normaliseHost p host

/-- SK for a LINK item. -/
def linkSk (p : Platform) (slug : String) : String := "s#" ++ p.toLowerCase slug

/-- The full key of a LINK item. -/
def linkKey (p : Platform) (host slug : String) : String × String :=
  (domainPk p host, linkSk p slug)

/-- The KeyValueStore key for a link. -/
def kvsKey (p : Platform) (host slug : String) : String :=
  normaliseHost p host ++ "/" ++ p.toLowerCase slug

/-! ### Items -/

def toLinkItem (p : Platform) (link : ProjectedLink) (host slug : String) : LinkItem where
  PK := domainPk p host
  SK := linkSk p slug
  linkId := link.id
  workspaceId := link.workspaceId
  destination := link.destination
  redirectType := link.redirectType
  rules := link.rules
  expiresAt := link.expiresAt.map p.toISOString
  expiresTo := link.expiresTo
  activatesAt := link.activatesAt.map p.toISOString
  scheduledTo := link.scheduledTo
  clickLimit := link.clickLimit
  clicks := link.clicks
  hasPassword := link.hasPassword
  forwardQuery := link.forwardQuery
  deepLink := link.deepLink
  hideReferrer := link.hideReferrer
  publicPreview := link.publicPreview
  archived := link.archived
  disabled := some link.disabled
  ownerUnverified := some link.ownerUnverified
  safeBrowsingStatus := link.safeBrowsingStatus
  utm := link.utm

def fromLinkItem (p : Platform) (item : LinkItem) : ProjectedLink where
  id := item.linkId
  workspaceId := item.workspaceId
  destination := item.destination
  redirectType := item.redirectType
  rules := item.rules
  expiresAt := item.expiresAt.bind p.parseDate
  expiresTo := item.expiresTo
  activatesAt := item.activatesAt.bind p.parseDate
  scheduledTo := item.scheduledTo
  clickLimit := item.clickLimit
  clicks := item.clicks
  hasPassword := item.hasPassword
  forwardQuery := item.forwardQuery
  deepLink := item.deepLink
  hideReferrer := item.hideReferrer
  publicPreview := item.publicPreview
  archived := item.archived
  -- an item projected before the attribute existed keeps resolving
  disabled := item.disabled.getD false
  ownerUnverified := item.ownerUnverified.getD false
  safeBrowsingStatus := item.safeBrowsingStatus
  utm := item.utm

/-- The key of an item is the key it is stored under. -/
theorem toLinkItem_key (p : Platform) (link : ProjectedLink) (host slug : String) :
    ((toLinkItem p link host slug).PK, (toLinkItem p link host slug).SK) = linkKey p host slug :=
  rfl

/-! ### What the edge is given -/

/-- Whether a link may be served from the edge fast path. -/
def isEdgeEligible (link : ProjectedLink) : Bool :=
  link.hasPassword = false ∧ link.rules.length = 0 ∧ link.clickLimit = none ∧
    link.expiresAt = none ∧ link.activatesAt = none ∧ link.archived = false ∧
    link.disabled = false ∧ link.ownerUnverified = false ∧ link.safeBrowsingStatus = "clean" ∧
    link.utm = none ∧ link.deepLink = false ∧ link.hideReferrer = false ∧
    link.redirectType = .r302

/-- The pieces the edge needs to rebuild a destination. -/
structure Decomposed where
  href : String
  base : String
  params : List (String × String)
  hash : String
deriving DecidableEq, Repr

/-- The split is positional, on `href`: at the first `#`, then at the first `?` before it. -/
def decomposeDestination (p : Platform) (destination : String) : Option Decomposed :=
  match p.parseUrl destination with
  | none => none
  | some url =>
    let beforeHash := beforeFirst '#' url.href
    some
      { href := url.href
        base := beforeFirst '?' beforeHash
        params := (UrlObject.ofUrl url).params
        hash := fromFirst '#' url.href }

/-- The KeyValueStore value for a link, as the edge reads it back from its JSON. -/
structure KvsValue where
  destination : String
  redirectType : RedirectType
  forwardQuery : Bool
  base : Option String
  params : Option (List (String × String))
  hash : Option String
deriving DecidableEq, Repr

def kvsValue (p : Platform) (link : ProjectedLink) : KvsValue :=
  let parts := decomposeDestination p link.destination
  let merge := if link.forwardQuery then parts else none
  { destination := (parts.map (·.href)).getD link.destination
    redirectType := link.redirectType
    forwardQuery := link.forwardQuery
    base := merge.map (·.base)
    params := merge.map (·.params)
    hash := merge.map (·.hash) }

theorem decomposeDestination_eq (p : Platform) {destination : String} {url : Url}
    (h : p.parseUrl destination = some url) :
    decomposeDestination p destination =
      some ⟨url.href, url.base, (UrlObject.ofUrl url).params, url.fragmentPart⟩ := by
  rw [decomposeDestination, h]
  simp only [Url.beforeFirst_query_href, Url.fromFirst_hash_href]

theorem utm_of_isEdgeEligible {link : ProjectedLink} (h : isEdgeEligible link = true) :
    link.utm = none := by
  simp only [isEdgeEligible, decide_eq_true_eq] at h
  exact h.2.2.2.2.2.2.2.2.2.1

end SnapUrl.Projection
