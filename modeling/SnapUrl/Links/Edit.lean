import SnapUrl.Links.BulkCreate

/-!
# Clones and edits

`clone` and `update` of `apps/api/src/links/links.service.ts`.  A clone goes through `insert`.
An edit is checked against the link as it was read, and what it writes is a `Patch`: its own
columns, and the rules when it names them, whatever the link has become meanwhile.

The columns `archived_at` and `updated_at`, which an edit writes too, are no part of a
`StoredLink`.

* `update_eq_ok_iff`: **what an edit is accepted for**, which `insert_eq_ok_iff` says of a clone.
-/

namespace SnapUrl.Links.Creation

open Domain

/-! ### Inputs -/

/-- What `CloneLinkInput` parses; the outer `none` is a field that is missing, the inner one
`null`. -/
structure CloneLinkInput where
  slug : Option String
  domain : Option String
  password : Option (Option String)
  expiresAt : Option (Option String)
deriving DecidableEq, Repr

/-- What `UpdateLinkInput` parses. -/
structure UpdateLinkInput where
  destination : Option String
  comment : Option String
  tags : Option (List String)
  folder : Option String
  redirectType : Option RedirectType
  rules : Option (List RoutingRule)
  expiresAt : Option (Option String)
  expiresTo : Option (Option String)
  activatesAt : Option (Option String)
  scheduledTo : Option (Option String)
  clickLimit : Option (Option Int)
  password : Option (Option String)
  forwardQuery : Option Bool
  deepLink : Option Bool
  hideReferrer : Option Bool
  publicPreview : Option Bool
  utm : Option Utm
  social : Option Social
deriving DecidableEq, Repr

/-- An input that names no field. -/
def UpdateLinkInput.empty : UpdateLinkInput :=
  ⟨none, none, none, none, none, none, none, none, none, none, none, none, none, none, none, none,
    none, none⟩

/-! ### Rules -/

/-- The rows of a chain. -/
def storedRules (p : Platform) (rules : List RoutingRule) : List StoredRule :=
  rules.mapIdx fun position rule =>
    ⟨position, rule.when.country.map p.toUpperCase, rule.when.device,
      rule.when.language.map p.toLowerCase, rule.destination, rule.weight⟩

/-- `toRoutingRule`, with the id of the row. -/
def toRoutingRule (id : String) (row : StoredRule) : RoutingRule :=
  ⟨id, ⟨row.whenCountry, row.whenDevice, row.whenLanguage⟩, row.destination, row.weight⟩

/-- The chain of a link, with the ids of its rows. -/
def StoredLink.routingRules (link : StoredLink) (ids : Nat → String) : List RoutingRule :=
  link.rules.mapIdx fun position row => toRoutingRule (ids position) row

/-! ### Clones -/

/-- What is inserted for a clone of a link on a domain of this name. -/
def cloneInput (p : Platform) (domain : String) (ids : Nat → String) (source : StoredLink)
    (input : CloneLinkInput) : CreateLinkInput where
  destination := source.destination
  domain := input.domain.getD domain
  slug := if truthy input.slug then input.slug else none
  tags := source.tags
  folder := source.folder
  comment := source.comment
  redirectType := some source.redirectType
  rules := source.routingRules ids
  expiresAt := input.expiresAt.getD (source.expiresAt.map p.toISOString)
  expiresTo := source.expiresTo
  activatesAt := source.activatesAt.map p.toISOString
  scheduledTo := source.scheduledTo
  clickLimit := source.clickLimit
  password := none
  forwardQuery := source.forwardQuery
  deepLink := source.deepLink
  hideReferrer := source.hideReferrer
  publicPreview := source.publicPreview
  utm := source.utm
  social := source.social

/-- A missing password inherits what the source has. -/
def cloneHash (e : Environment) (source : StoredLink) : Option (Option String) → Option String
  | none => source.passwordHash
  | some none => none
  | some (some password) => some (e.hash password)

def clone (e : Environment) (s : State) (domain : String) (ids : Nat → String)
    (source : StoredLink) (input : CloneLinkInput) (draws : Nat → Draw) :
    Except HttpError StoredLink :=
  insert e s (cloneInput e.p domain ids source input) (cloneHash e source input.password) draws

/-! ### Edits -/

/-- `EXPIRY_SKEW_TOLERANCE_MS`. -/
def EXPIRY_SKEW_TOLERANCE_MS : Int := 60000

/-- `validateExpiry` of an edit: the expiry that the link has is not judged again. -/
def validateNewExpiry (p : Platform) (now : Int) (previous expiresAt : Option String) :
    List String :=
  match asDate p (expiresAt.map .text) with
  | some expires =>
    if asDate p (previous.map .text) = some expires then []
    else if expires ≤ now - EXPIRY_SKEW_TOLERANCE_MS then [EXPIRY_IN_PAST_MESSAGE] else []
  | none => []

/-- What the validators say of an edit of a link as it was read. -/
def editProblems (e : Environment) (existing : StoredLink) (input : UpdateLinkInput) :
    List String :=
  let expiresAt := existing.expiresAt.map e.p.toISOString
  (match input.rules with
    | some rules => (validateRoutingChain e.p rules).map (·.message e.formatNumber)
    | none => []) ++
  validateSchedule e.p (input.activatesAt.getD (existing.activatesAt.map e.p.toISOString))
    (input.expiresAt.getD expiresAt) ++
  (match input.expiresAt with
    | some expires => validateNewExpiry e.p (NewAccountCap.millis e.now) expiresAt expires
    | none => [])

/-- The URLs of an edit that DNS is asked about. -/
def editedUrls (input : UpdateLinkInput) : List String :=
  ([input.destination, input.social.bind (·.image)].reduceOption).filter (· ≠ "")

/-- What an edit writes: of each column the new value, none where it is left alone. -/
structure Patch where
  /-- With the verdict on it. -/
  destination : Option (String × ScanResult)
  comment : Option String
  tags : Option (List String)
  folder : Option String
  redirectType : Option RedirectType
  expiresAt : Option (Option Int)
  expiresTo : Option (Option String)
  activatesAt : Option (Option Int)
  scheduledTo : Option (Option String)
  clickLimit : Option (Option Int)
  passwordHash : Option (Option String)
  forwardQuery : Option Bool
  deepLink : Option Bool
  hideReferrer : Option Bool
  publicPreview : Option Bool
  utm : Option Utm
  social : Option Social
  rules : Option (List StoredRule)
deriving DecidableEq, Repr

def patchOf (e : Environment) (input : UpdateLinkInput) : Patch where
  destination := input.destination.map fun destination => (destination, e.scan destination)
  comment := input.comment
  tags := input.tags
  folder := input.folder
  redirectType := input.redirectType
  expiresAt := input.expiresAt.map fun text => asDate e.p (text.map .text)
  expiresTo := input.expiresTo
  activatesAt := input.activatesAt.map fun text => asDate e.p (text.map .text)
  scheduledTo := input.scheduledTo
  clickLimit := input.clickLimit
  passwordHash := input.password.map (hashOf e)
  forwardQuery := input.forwardQuery
  deepLink := input.deepLink
  hideReferrer := input.hideReferrer
  publicPreview := input.publicPreview
  utm := input.utm
  social := input.social
  rules := input.rules.map (storedRules e.p)

/-- The transaction of an edit, on the link as it finds it. -/
def Patch.apply (patch : Patch) (link : StoredLink) : StoredLink :=
  { link with
    destination := (patch.destination.map (·.1)).getD link.destination
    safeBrowsingStatus := (patch.destination.map (·.2.status)).getD link.safeBrowsingStatus
    safeBrowsingCheckedAt := (patch.destination.map (·.2.checkedAt)).getD link.safeBrowsingCheckedAt
    comment := patch.comment.orElse fun _ => link.comment
    tags := patch.tags.getD link.tags
    folder := patch.folder.orElse fun _ => link.folder
    redirectType := patch.redirectType.getD link.redirectType
    expiresAt := patch.expiresAt.getD link.expiresAt
    expiresTo := patch.expiresTo.getD link.expiresTo
    activatesAt := patch.activatesAt.getD link.activatesAt
    scheduledTo := patch.scheduledTo.getD link.scheduledTo
    clickLimit := patch.clickLimit.getD link.clickLimit
    passwordHash := patch.passwordHash.getD link.passwordHash
    forwardQuery := patch.forwardQuery.getD link.forwardQuery
    deepLink := patch.deepLink.getD link.deepLink
    hideReferrer := patch.hideReferrer.getD link.hideReferrer
    publicPreview := patch.publicPreview.getD link.publicPreview
    utm := patch.utm.orElse fun _ => link.utm
    social := patch.social.orElse fun _ => link.social
    rules := patch.rules.getD link.rules }

/-- The checks of an edit that names a destination. -/
def assertNewDestination (e : Environment) (s : State) (destination : String) :
    Except HttpError Unit := do
  assertDestinationNotBlocked e.p destination s.blockedDomains
  assertDestinationNotChained e.p destination (s.domains.map (·.domain))
  assertScanNotFlagged (e.scan destination).status

/-- An edit of a link as it was read: what it is going to write. -/
def update (e : Environment) (s : State) (existing : StoredLink) (input : UpdateLinkInput) :
    Except HttpError Patch := do
  assertNoProblems (editProblems e existing input)
  assertNoSsrfDnsTarget e (editedUrls input)
  match input.destination with
  | some destination => assertNewDestination e s destination
  | none => .ok ()
  .ok (patchOf e input)

/-! ### What is accepted -/

/-- The checks of an edit. -/
structure EditPasses (e : Environment) (s : State) (existing : StoredLink)
    (input : UpdateLinkInput) : Prop where
  valid : editProblems e existing input = []
  allowed : (editedUrls input).find? e.resolvesToDeniedAddress = none
  notBlocked : ∀ destination, input.destination = some destination →
    matchBlockedDomain e.p destination s.blockedDomains = none
  notChained : ∀ destination, input.destination = some destination →
    matchRedirectChain e.p destination (s.domains.map (·.domain)) = none
  notFlagged : ∀ destination, input.destination = some destination →
    (e.scan destination).status ≠ "flagged"

section

variable {e : Environment} {s : State}

theorem assertNewDestination_eq_ok_iff {destination : String} :
    assertNewDestination e s destination = .ok () ↔
      matchBlockedDomain e.p destination s.blockedDomains = none ∧
        matchRedirectChain e.p destination (s.domains.map (·.domain)) = none ∧
        (e.scan destination).status ≠ "flagged" := by
  rw [assertNewDestination, check_bind_eq_ok_iff, check_bind_eq_ok_iff,
    assertDestinationNotBlocked_eq_ok_iff, assertDestinationNotChained_eq_ok_iff,
    assertScanNotFlagged_eq_ok_iff]

/-- **What an edit is accepted for**, whatever it writes. -/
theorem update_eq_ok_iff {existing : StoredLink} {input : UpdateLinkInput} {patch : Patch} :
    update e s existing input = .ok patch ↔
      EditPasses e s existing input ∧ patch = patchOf e input := by
  rw [update, check_bind_eq_ok_iff, check_bind_eq_ok_iff, assertNoProblems_eq_ok_iff,
    assertNoSsrfDnsTarget_eq_ok_iff]
  cases hdestination : input.destination with
  | none =>
    constructor
    · rintro ⟨hvalid, hallowed, hpatch⟩
      refine ⟨⟨hvalid, hallowed, ?_, ?_, ?_⟩, (Except.ok.inj hpatch).symm⟩
      all_goals
        intro destination h
        exact absurd (hdestination.symm.trans h) nofun
    · rintro ⟨hpasses, rfl⟩
      exact ⟨hpasses.valid, hpasses.allowed, rfl⟩
  | some destination =>
    dsimp only
    rw [check_bind_eq_ok_iff, assertNewDestination_eq_ok_iff]
    constructor
    · rintro ⟨hvalid, hallowed, ⟨hblocked, hchained, hscan⟩, hpatch⟩
      refine ⟨⟨hvalid, hallowed, ?_, ?_, ?_⟩, (Except.ok.inj hpatch).symm⟩
      all_goals
        intro destination' h
        obtain rfl := Option.some.inj (hdestination.symm.trans h)
        assumption
    · rintro ⟨hpasses, rfl⟩
      exact ⟨hpasses.valid, hpasses.allowed, ⟨hpasses.notBlocked _ hdestination,
        hpasses.notChained _ hdestination, hpasses.notFlagged _ hdestination⟩, rfl⟩

end

end SnapUrl.Links.Creation
