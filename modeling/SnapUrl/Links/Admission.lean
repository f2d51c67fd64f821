import SnapUrl.Domain.ChainReach
import SnapUrl.Domain.Destination
import SnapUrl.Links.NewAccountCap
import SnapUrl.Links.Slug

/-!
# What a link has to pass

`create` and `insert` of `apps/api/src/links/links.service.ts`, with the checks of
`common/blocklist.ts`, `common/shortener-chain.ts` and `common/ssrf-guard.ts`.

* `State`: the tables and the settings that are read, at one instant.
* `insert`: the checks in their order, and the attempts to store the link.
* `Prepared`: a row with what both creating paths find out about it.
* `createRow_eq_ok_iff`: **what the single path accepts**.
-/

namespace SnapUrl.Links.Creation

open Domain

/-! ### Inputs -/

structure Social where
  title : Option String
  description : Option String
  image : Option String
deriving DecidableEq, Repr

/-- What `CreateLinkInput` parses; `null` and a missing field are alike. -/
structure CreateLinkInput where
  destination : String
  domain : String
  slug : Option String
  tags : List String
  folder : Option String
  comment : Option String
  redirectType : Option RedirectType
  rules : List RoutingRule
  expiresAt : Option String
  expiresTo : Option String
  activatesAt : Option String
  scheduledTo : Option String
  clickLimit : Option Int
  password : Option String
  forwardQuery : Bool
  deepLink : Bool
  hideReferrer : Bool
  publicPreview : Bool
  utm : Option Utm
  social : Option Social
deriving DecidableEq, Repr

/-- A row of a batch, or the body of a single request: its destination as it was sent, what
the schema makes of it, and the back-halves that are drawn for it in turn. -/
structure Row where
  destination : Option String
  /-- The text of the issues where the schema refuses the row. -/
  parsed : Except String CreateLinkInput
  draws : Nat → Draw

/-! ### Tables -/

structure ScanResult where
  status : String
  checkedAt : Int
deriving DecidableEq, Repr

structure StoredRule where
  position : Nat
  whenCountry : Option String
  whenDevice : Option DeviceType
  whenLanguage : Option String
  destination : String
  weight : Option ℚ
deriving DecidableEq, Repr

/-- A link, with its rules. -/
structure StoredLink where
  workspaceId : String
  domainId : String
  slug : String
  destination : String
  comment : Option String
  tags : List String
  folder : Option String
  redirectType : RedirectType
  expiresAt : Option Int
  expiresTo : Option String
  activatesAt : Option Int
  scheduledTo : Option String
  clickLimit : Option Int
  passwordHash : Option String
  forwardQuery : Bool
  deepLink : Bool
  hideReferrer : Bool
  publicPreview : Bool
  safeBrowsingStatus : String
  safeBrowsingCheckedAt : Int
  utm : Option Utm
  social : Option Social
  createdBy : String
  /-- A link that a bio page owns. -/
  managed : Bool
  /-- In microseconds. -/
  createdAt : Int
  rules : List StoredRule
deriving DecidableEq, Repr

structure DomainRow where
  id : String
  domain : String
  workspaceId : Option String
  isSystem : Bool
  status : String
deriving DecidableEq, Repr

/-- The workspace, the settings and the tables. -/
structure State where
  workspaceId : String
  account : NewAccountCap.Account
  defaultRedirect : Option String
  reservedSlugs : List String
  blockedDomains : List String
  domains : List DomainRow
  links : List StoredLink
deriving DecidableEq, Repr

/-- The columns of the unique index on links. -/
def StoredLink.key (link : StoredLink) : String × String := (link.domainId, asciiLower link.slug)

/-- The unique index refuses the key. -/
def State.taken (s : State) (key : String × String) : Bool := key ∈ s.links.map (·.key)

def State.store (s : State) (link : StoredLink) : State := { s with links := s.links ++ [link] }

/-- Who asks and when, and what the services outside answer meanwhile. -/
structure Environment where
  p : Platform
  userId : String
  /-- In microseconds. -/
  now : Int
  /-- The address of the URL's host, or one that DNS has for it, is on the deny list. -/
  resolvesToDeniedAddress : String → Bool
  /-- `SafeBrowsingService.check`. -/
  scan : String → ScanResult
  /-- `argon2.hash`. -/
  hash : String → String
  /-- The columns hold the values: none is too long, or otherwise refused by the database. -/
  storable : CreateLinkInput → Bool
  /-- A number in a template literal. -/
  formatNumber : ℚ → String

structure HttpError where
  status : Nat
  messages : List String
deriving DecidableEq, Repr

def badRequest (message : String) : HttpError := ⟨400, [message]⟩

def toBadRequest {α : Type} : Except String α → Except HttpError α
  | .error message => .error (badRequest message)
  | .ok a => .ok a

/-! ### Hosts -/

def normaliseBlockHost (p : Platform) (host : String) : String :=
  let trimmed := p.toLowerCase (trim host)
  if endsWith trimmed "." then sliceTo (trimmed.toList.length - 1) trimmed else trimmed

def destinationHost (p : Platform) (destination : String) : String :=
  match p.parseUrl destination with
  | some url => normaliseBlockHost p url.hostname
  | none => normaliseBlockHost p destination

def hostCoveredBy (p : Platform) (host blocked : String) : Bool :=
  let h := normaliseBlockHost p host
  let b := normaliseBlockHost p blocked
  if h = "" ∨ b = "" then false
  else h = b || endsWith h ("." ++ b)

def matchBlockedDomain (p : Platform) (destination : String) (blocklist : List String) :
    Option String :=
  let host := destinationHost p destination
  if host = "" then none
  else (blocklist.find? (hostCoveredBy p host)).map (normaliseBlockHost p)

def KNOWN_SHORTENER_HOSTS : List String :=
  ["bit.ly", "bitly.com", "t.co", "tinyurl.com", "goo.gl", "ow.ly", "buff.ly", "is.gd",
    "rebrand.ly", "cutt.ly", "shorturl.at", "rb.gy", "t.ly", "bl.ink", "lnkd.in", "tiny.cc",
    "s.id", "short.io", "snip.ly", "v.gd", "trib.al"]

inductive ChainKind where
  | self
  | shortener
deriving DecidableEq, Repr

structure ChainMatch where
  kind : ChainKind
  host : String
deriving DecidableEq, Repr

def matchRedirectChain (p : Platform) (destination : String) (selfHosts : List String) :
    Option ChainMatch :=
  let host := destinationHost p destination
  if host = "" then none
  else
    match selfHosts.find? (hostCoveredBy p host) with
    | some self => some ⟨.self, normaliseBlockHost p self⟩
    | none =>
      (KNOWN_SHORTENER_HOSTS.find? (hostCoveredBy p host)).map fun shortener =>
        ⟨.shortener, normaliseBlockHost p shortener⟩

/-! ### Checks -/

def validateSchedule (p : Platform) (activatesAt expiresAt : Option String) : List String :=
  match asDate p (activatesAt.map .text), asDate p (expiresAt.map .text) with
  | some activates, some expires =>
    if expires ≤ activates then ["A link cannot be scheduled to start after it expires."] else []
  | _, _ => []

def EXPIRY_IN_PAST_MESSAGE : String :=
  "That expiry date has already passed, so the link would stop working straight away. " ++
    "Choose a later date, or remove the expiry."

/-- With the defaults of a new link; `now` in milliseconds. -/
def validateExpiry (p : Platform) (now : Int) (expiresAt : Option String) : List String :=
  match asDate p (expiresAt.map .text) with
  | some expires => if expires ≤ now then [EXPIRY_IN_PAST_MESSAGE] else []
  | none => []

/-- What the validators of `packages/domain` say of an input. -/
def problems (e : Environment) (input : CreateLinkInput) : List String :=
  (validateRoutingChain e.p input.rules).map (·.message e.formatNumber) ++
    validateSchedule e.p input.activatesAt input.expiresAt ++
    validateExpiry e.p (NewAccountCap.millis e.now) input.expiresAt

def resolveDomain (p : Platform) (s : State) (domain : String) : Except String DomainRow :=
  match s.domains.find? fun row => p.toLowerCase row.domain = p.toLowerCase domain &&
      (row.workspaceId = some s.workspaceId || row.isSystem) with
  | none => .error (domain ++ " isn't a domain you can use.")
  | some row =>
    if row.status ≠ "live" then
      .error (domain ++ " isn't verified yet, so links on it wouldn't resolve.")
    else .ok row

/-- The URLs that DNS is asked about. -/
def guardedUrls (input : CreateLinkInput) : List String :=
  ([some input.destination, input.social.bind (·.image)].reduceOption).filter (· ≠ "")

def deniedMessage (url : String) : String :=
  "That host isn't allowed (it resolves to a private, loopback or link-local address): " ++ url

/-- The problems are raised at once. -/
def assertNoProblems (problems : List String) : Except HttpError Unit :=
  if problems = [] then .ok () else .error ⟨400, problems⟩

/-- A back-half that was asked for. -/
def assertSlug (p : Platform) (reservedSlugs : List String) (slug : Option String) :
    Except HttpError Unit :=
  if truthy slug then do
    toBadRequest (isSlugAvailableShape (orEmpty slug))
    toBadRequest (assertSlugNotReserved p reservedSlugs (orEmpty slug))
  else .ok ()

def assertNoSsrfDnsTarget (e : Environment) (urls : List String) : Except HttpError Unit :=
  match urls.find? e.resolvesToDeniedAddress with
  | some url => .error (badRequest (deniedMessage url))
  | none => .ok ()

def assertDestinationNotBlocked (p : Platform) (destination : String) (blocklist : List String) :
    Except HttpError Unit :=
  match matchBlockedDomain p destination blocklist with
  | some hit => .error (badRequest ("That destination points at " ++ hit ++
      ", which an administrator has blocked. Use a different link destination."))
  | none => .ok ()

def assertDestinationNotChained (p : Platform) (destination : String) (selfHosts : List String) :
    Except HttpError Unit :=
  match matchRedirectChain p destination selfHosts with
  | some ⟨.self, host⟩ => .error (badRequest ("That destination points back at " ++ host ++
      ", one of our own short domains. A short link can't point at another short link — " ++
      "use the final destination instead."))
  | some ⟨.shortener, host⟩ => .error (badRequest ("That destination is a " ++ host ++
      " short link. A short link can't point at another URL shortener — " ++
      "use the final destination instead."))
  | none => .ok ()

def assertScanNotFlagged (status : String) : Except HttpError Unit :=
  if status = "flagged" then
    .error (badRequest ("That destination was flagged as unsafe by Google Safe Browsing, so the " ++
      "link can't be created. If you believe this is wrong, contact support."))
  else .ok ()

/-- `created_at` of the links that the caps count. -/
def State.counted (s : State) : List Int :=
  (s.links.filter fun link => link.workspaceId = s.workspaceId && !link.managed).map (·.createdAt)

def assertNewAccountLinkCap (now : Int) (s : State) : Except HttpError Unit :=
  if !s.account.isNew now then .ok ()
  else
    match NewAccountCap.refusalOf s.account.limits
        (NewAccountCap.countSince s.counted (NewAccountCap.since now NewAccountCap.hour)).count
        (NewAccountCap.countSince s.counted (NewAccountCap.since now NewAccountCap.day)).count with
    | some refusal => .error ⟨429, [refusal.message]⟩
    | none => .ok ()

/-! ### The insert -/

def defaultRedirectFor (s : State) : RedirectType :=
  match s.defaultRedirect with
  | some "301" => .r301
  | some "307" => .r307
  | _ => .r302

/-- The values of the insert, which both paths write alike. -/
def linkValues (e : Environment) (workspaceId domainId slug : String) (input : CreateLinkInput)
    (redirectType : RedirectType) (passwordHash : Option String) (scan : ScanResult) :
    StoredLink where
  workspaceId := workspaceId
  domainId := domainId
  slug := slug
  destination := input.destination
  comment := input.comment
  tags := input.tags
  folder := input.folder
  redirectType := redirectType
  expiresAt := asDate e.p (input.expiresAt.map .text)
  expiresTo := input.expiresTo
  activatesAt := asDate e.p (input.activatesAt.map .text)
  scheduledTo := input.scheduledTo
  clickLimit := input.clickLimit
  passwordHash := passwordHash
  forwardQuery := input.forwardQuery
  deepLink := input.deepLink
  hideReferrer := input.hideReferrer
  publicPreview := input.publicPreview
  safeBrowsingStatus := scan.status
  safeBrowsingCheckedAt := scan.checkedAt
  utm := input.utm
  social := input.social
  createdBy := e.userId
  managed := false
  createdAt := e.now
  rules := input.rules.mapIdx fun position rule =>
    ⟨position, rule.when.country.map e.p.toUpperCase, rule.when.device,
      rule.when.language.map e.p.toLowerCase, rule.destination, rule.weight⟩

/-- The loop over the attempts: the database refuses the values, or the key, or stores them. -/
def attempts (e : Environment) (s : State) (input : CreateLinkInput) (draws : Nat → Draw)
    (link : String → StoredLink) : Nat → Nat → Except HttpError StoredLink
  | 0, _ => .error ⟨409, ["Couldn't find a free back-half. Try again."]⟩
  | left + 1, attempt =>
    let slug := if truthy input.slug then orEmpty input.slug else generateSlug (draws attempt)
    if !e.storable input then .error ⟨500, ["Internal server error"]⟩
    else if s.taken (link slug).key then
      if truthy input.slug then
        .error ⟨409, [input.domain ++ "/" ++ orEmpty input.slug ++
          " is already taken. Try another back-half."]⟩
      else attempts e s input draws link left (attempt + 1)
    else .ok (link slug)

def insert (e : Environment) (s : State) (input : CreateLinkInput) (passwordHash : Option String)
    (draws : Nat → Draw) : Except HttpError StoredLink := do
  let domain ← toBadRequest (resolveDomain e.p s input.domain)
  assertNoProblems (problems e input)
  assertSlug e.p s.reservedSlugs input.slug
  assertNoSsrfDnsTarget e (guardedUrls input)
  assertDestinationNotBlocked e.p input.destination s.blockedDomains
  assertDestinationNotChained e.p input.destination (s.domains.map (·.domain))
  assertNewAccountLinkCap e.now s
  let scan := e.scan input.destination
  assertScanNotFlagged scan.status
  let redirectType := input.redirectType.getD (defaultRedirectFor s)
  attempts e s input draws
    (fun slug => linkValues e s.workspaceId domain.id slug input redirectType passwordHash scan)
    (if truthy input.slug then 1 else SLUG_RETRY_LIMIT) 0

/-- `if (password) await argon2.hash(password)`. -/
def hashOf (e : Environment) (password : Option String) : Option String :=
  if truthy password then some (e.hash (orEmpty password)) else none

def create (e : Environment) (s : State) (input : CreateLinkInput) (draws : Nat → Draw) :
    Except HttpError StoredLink :=
  insert e s input (hashOf e input.password) draws

/-- A single request: the body is parsed first. -/
def createRow (e : Environment) (s : State) (row : Row) : Except HttpError StoredLink :=
  match row.parsed with
  | .error message => .error (badRequest message)
  | .ok input => create e s input row.draws

/-! ### What both paths find out about a row -/

/-- A row that may be stored, and how often its back-half was drawn again. -/
structure Prepared where
  input : CreateLinkInput
  domainId : String
  draws : Nat → Draw
  attempt : Nat
  passwordHash : Option String
  scan : ScanResult

namespace Prepared

/-- We chose the back-half. -/
def generated (p : Prepared) : Bool := !truthy p.input.slug

def slug (p : Prepared) : String :=
  if truthy p.input.slug then orEmpty p.input.slug else generateSlug (p.draws p.attempt)

def key (p : Prepared) : String × String := (p.domainId, asciiLower p.slug)

def redraw (p : Prepared) : Prepared := { p with attempt := p.attempt + 1 }

/-- The link that is stored for the row under a back-half. -/
def linkAt (e : Environment) (s : State) (p : Prepared) (slug : String) : StoredLink :=
  linkValues e s.workspaceId p.domainId slug p.input
    (p.input.redirectType.getD (defaultRedirectFor s)) p.passwordHash p.scan

def link (e : Environment) (s : State) (p : Prepared) : StoredLink := p.linkAt e s p.slug

end Prepared

/-- The checks that both paths make of an input. -/
structure Passes (e : Environment) (s : State) (input : CreateLinkInput) : Prop where
  valid : problems e input = []
  shaped : truthy input.slug = true → isSlugAvailableShape (orEmpty input.slug) = .ok ()
  allowed : (guardedUrls input).find? e.resolvesToDeniedAddress = none
  notBlocked : matchBlockedDomain e.p input.destination s.blockedDomains = none
  notChained : matchRedirectChain e.p input.destination (s.domains.map (·.domain)) = none
  notFlagged : (e.scan input.destination).status ≠ "flagged"

instance (e : Environment) (s : State) (input : CreateLinkInput) : Decidable (Passes e s input) :=
  decidable_of_iff (problems e input = [] ∧
      (truthy input.slug = true → isSlugAvailableShape (orEmpty input.slug) = .ok ()) ∧
      (guardedUrls input).find? e.resolvesToDeniedAddress = none ∧
      matchBlockedDomain e.p input.destination s.blockedDomains = none ∧
      matchRedirectChain e.p input.destination (s.domains.map (·.domain)) = none ∧
      (e.scan input.destination).status ≠ "flagged")
    ⟨fun ⟨h₁, h₂, h₃, h₄, h₅, h₆⟩ => ⟨h₁, h₂, h₃, h₄, h₅, h₆⟩,
      fun ⟨h₁, h₂, h₃, h₄, h₅, h₆⟩ => ⟨h₁, h₂, h₃, h₄, h₅, h₆⟩⟩

/-- A row that passes them, on a domain that can be used. -/
def passing (e : Environment) (s : State) (row : Row) : Option Prepared :=
  match row.parsed with
  | .error _ => none
  | .ok input =>
    match resolveDomain e.p s input.domain with
    | .error _ => none
    | .ok domain =>
      if Passes e s input then
        some ⟨input, domain.id, row.draws, 0, hashOf e input.password, e.scan input.destination⟩
      else none

/-- The caps leave room for `n` more links. -/
def Room (e : Environment) (s : State) (n : Nat) : Prop :=
  s.account.isNew e.now = true →
    (NewAccountCap.countSince s.counted (NewAccountCap.since e.now NewAccountCap.hour)).count + n ≤
        s.account.limits.perHour ∧
      (NewAccountCap.countSince s.counted (NewAccountCap.since e.now NewAccountCap.day)).count + n ≤
        s.account.limits.perDay

instance (e : Environment) (s : State) (n : Nat) : Decidable (Room e s n) :=
  inferInstanceAs (Decidable (_ → _))

/-- One of `n` back-halves in a row is free. -/
def freeWithin (s : State) : Nat → Prepared → Prop
  | 0, _ => False
  | n + 1, p => s.taken p.key = false ∨ freeWithin s n p.redraw

/-- The row as it is after up to `n` draws of another back-half. -/
def settleFrom (s : State) : Nat → Prepared → Prepared
  | 0, p => p
  | n + 1, p => if s.taken p.key then settleFrom s n p.redraw else p

/-- How many back-halves a row has. -/
def Prepared.tries (p : Prepared) : Nat := if truthy p.input.slug then 1 else SLUG_RETRY_LIMIT

/-- The back-half is not one that an operator reserved. -/
def Prepared.Unreserved (e : Environment) (s : State) (p : Prepared) : Prop :=
  truthy p.input.slug = true → isRuntimeReserved e.p s.reservedSlugs (orEmpty p.input.slug) = false

/-- **What the single path asks of a row beyond the checks that both make.** -/
structure Acceptable (e : Environment) (s : State) (p : Prepared) : Prop where
  unreserved : p.Unreserved e s
  storable : e.storable p.input = true
  free : freeWithin s p.tries p

/-! ### The checks -/

theorem bind_eq_ok_iff {ε α β : Type} {x : Except ε α} {f : α → Except ε β} {b : β} :
    (x >>= f) = .ok b ↔ ∃ a, x = .ok a ∧ f a = .ok b := by
  cases x with
  | error err => simp [bind, Except.bind]
  | ok a => simp [bind, Except.bind]

/-- A check in front of something else. -/
theorem check_bind_eq_ok_iff {ε β : Type} {x : Except ε Unit} {f : Unit → Except ε β} {b : β} :
    (x >>= f) = .ok b ↔ x = .ok () ∧ f () = .ok b :=
  bind_eq_ok_iff.trans ⟨fun ⟨(), h⟩ => h, fun h => ⟨(), h⟩⟩

theorem toBadRequest_eq_ok_iff {α : Type} {x : Except String α} {a : α} :
    toBadRequest x = .ok a ↔ x = .ok a := by
  cases x with
  | error message => simp [toBadRequest]
  | ok a => simp [toBadRequest]

section

variable {e : Environment} {s : State}

theorem assertNoProblems_eq_ok_iff {texts : List String} :
    assertNoProblems texts = .ok () ↔ texts = [] := by
  rw [assertNoProblems]
  split <;> simp_all

theorem assertSlug_eq_ok_iff {p : Platform} {reservedSlugs : List String} {slug : Option String} :
    assertSlug p reservedSlugs slug = .ok () ↔
      (truthy slug = true → isSlugAvailableShape (orEmpty slug) = .ok ()) ∧
        (truthy slug = true → isRuntimeReserved p reservedSlugs (orEmpty slug) = false) := by
  rw [assertSlug]
  split
  · rename_i hslug
    rw [check_bind_eq_ok_iff]
    simp only [toBadRequest_eq_ok_iff, hslug, true_implies, assertSlugNotReserved]
    cases isRuntimeReserved p reservedSlugs (orEmpty slug) with
    | true => simp
    | false => simp
  · rename_i hslug
    simp [hslug]

theorem assertNoSsrfDnsTarget_eq_ok_iff {urls : List String} :
    assertNoSsrfDnsTarget e urls = .ok () ↔ urls.find? e.resolvesToDeniedAddress = none := by
  rw [assertNoSsrfDnsTarget]
  split <;> simp_all

theorem assertDestinationNotBlocked_eq_ok_iff {p : Platform} {destination : String}
    {blocklist : List String} :
    assertDestinationNotBlocked p destination blocklist = .ok () ↔
      matchBlockedDomain p destination blocklist = none := by
  rw [assertDestinationNotBlocked]
  split <;> simp_all

theorem assertDestinationNotChained_eq_ok_iff {p : Platform} {destination : String}
    {selfHosts : List String} :
    assertDestinationNotChained p destination selfHosts = .ok () ↔
      matchRedirectChain p destination selfHosts = none := by
  rw [assertDestinationNotChained]
  split <;> simp_all

theorem assertScanNotFlagged_eq_ok_iff {status : String} :
    assertScanNotFlagged status = .ok () ↔ status ≠ "flagged" := by
  rw [assertScanNotFlagged]
  split <;> simp_all

theorem refusalOf_eq_none_iff {limits : NewAccountCap.NewAccountLimits} {hourCount dayCount : Nat} :
    NewAccountCap.refusalOf limits hourCount dayCount = none ↔
      hourCount + 1 ≤ limits.perHour ∧ dayCount + 1 ≤ limits.perDay := by
  rw [NewAccountCap.refusalOf]
  split
  · simp
    omega
  split
  · simp
    omega
  · simp
    omega

/-- The cap lets a link through while there is room for one. -/
theorem assertNewAccountLinkCap_eq_ok_iff :
    assertNewAccountLinkCap e.now s = .ok () ↔ Room e s 1 := by
  rw [assertNewAccountLinkCap, Room, ← refusalOf_eq_none_iff]
  cases hnew : s.account.isNew e.now with
  | false => simp
  | true =>
    simp only [Bool.not_true, Bool.false_eq_true, if_false, true_implies]
    split <;> simp_all

/-! ### The single path -/

theorem key_link (e : Environment) (s : State) (q : Prepared) : (q.link e s).key = q.key := rfl

/-- **What the attempts store**: the first back-half that is free. -/
theorem attempts_eq_ok_iff {link : StoredLink} {q : Prepared} (hq : truthy q.input.slug = false)
    (n : Nat) :
    attempts e s q.input q.draws (q.linkAt e s) n q.attempt = .ok link ↔
      e.storable q.input = true ∧ freeWithin s n q ∧ link = (settleFrom s n q).link e s := by
  induction n generalizing q with
  | zero => simp [attempts, freeWithin]
  | succ n ih =>
    have hslug : q.slug = generateSlug (q.draws q.attempt) := by simp [Prepared.slug, hq]
    have hnext : attempts e s q.input q.draws (q.linkAt e s) n (q.attempt + 1) = .ok link ↔
        e.storable q.input = true ∧ freeWithin s n q.redraw ∧
          link = (settleFrom s n q.redraw).link e s := ih (q := q.redraw) hq
    rw [attempts, freeWithin, settleFrom]
    simp only [hq, Bool.false_eq_true, if_false, ← hslug]
    rw [← Prepared.link, key_link]
    cases hstorable : e.storable q.input with
    | false => simp
    | true =>
      cases htaken : s.taken q.key with
      | false => simp [eq_comm]
      | true => simpa [hstorable] using hnext

/-- A back-half that was asked for gets one attempt. -/
theorem attempts_one_eq_ok_iff {link : StoredLink} {q : Prepared}
    (hq : truthy q.input.slug = true) :
    attempts e s q.input q.draws (q.linkAt e s) 1 0 = .ok link ↔
      e.storable q.input = true ∧ freeWithin s 1 q ∧ link = (settleFrom s 1 q).link e s := by
  have hslug : q.slug = orEmpty q.input.slug := by simp [Prepared.slug, hq]
  rw [attempts, freeWithin, freeWithin, settleFrom, settleFrom]
  simp only [hq, if_true, ← hslug]
  rw [← Prepared.link, key_link]
  cases e.storable q.input with
  | false => simp
  | true =>
    cases s.taken q.key with
    | false => simp [eq_comm]
    | true => simp

/-- What a row stores where it may. -/
def Prepared.settled (s : State) (p : Prepared) : Prepared := settleFrom s p.tries p

/-- The checks of `insert`, and what it stores. -/
theorem insert_eq_ok_iff {input : CreateLinkInput} {passwordHash : Option String}
    {draws : Nat → Draw} {link : StoredLink} :
    insert e s input passwordHash draws = .ok link ↔ ∃ domain,
      resolveDomain e.p s input.domain = .ok domain ∧ Passes e s input ∧ Room e s 1 ∧
        Acceptable e s ⟨input, domain.id, draws, 0, passwordHash, e.scan input.destination⟩ ∧
        link = (Prepared.settled s
          ⟨input, domain.id, draws, 0, passwordHash, e.scan input.destination⟩).link e s := by
  rw [insert, bind_eq_ok_iff]
  refine exists_congr fun domain => ?_
  rw [toBadRequest_eq_ok_iff]
  refine and_congr_right fun _ => ?_
  simp only [check_bind_eq_ok_iff, assertNoProblems_eq_ok_iff, assertSlug_eq_ok_iff,
    assertNoSsrfDnsTarget_eq_ok_iff, assertDestinationNotBlocked_eq_ok_iff,
    assertDestinationNotChained_eq_ok_iff, assertNewAccountLinkCap_eq_ok_iff,
    assertScanNotFlagged_eq_ok_iff]
  -- the row, as the attempts see it
  generalize hp :
    (⟨input, domain.id, draws, 0, passwordHash, e.scan input.destination⟩ : Prepared) = p
  have hattempts : attempts e s input draws (p.linkAt e s)
      (if truthy input.slug then 1 else SLUG_RETRY_LIMIT) 0 = .ok link ↔
        e.storable p.input = true ∧ freeWithin s p.tries p ∧ link = (p.settled s).link e s := by
    rw [Prepared.settled, Prepared.tries, ← hp]
    cases hslug : truthy input.slug with
    | true =>
      exact attempts_one_eq_ok_iff (q := ⟨input, domain.id, draws, 0, passwordHash, _⟩) hslug
    | false =>
      exact attempts_eq_ok_iff (q := ⟨input, domain.id, draws, 0, passwordHash, _⟩) hslug _
  have hlinkAt : p.linkAt e s = fun slug => linkValues e s.workspaceId domain.id slug input
      (input.redirectType.getD (defaultRedirectFor s)) passwordHash (e.scan input.destination) := by
    rw [← hp]
    rfl
  rw [← hlinkAt, hattempts, ← hp]
  constructor
  · rintro ⟨hvalid, ⟨hshaped, hunreserved⟩, hallowed, hblocked, hchained, hroom, hscan, hstorable,
      hfree, hlink⟩
    exact ⟨⟨hvalid, hshaped, hallowed, hblocked, hchained, hscan⟩, hroom,
      ⟨hunreserved, hstorable, hfree⟩, hlink⟩
  · rintro ⟨hpasses, hroom, hacceptable, hlink⟩
    exact ⟨hpasses.valid, ⟨hpasses.shaped, hacceptable.unreserved⟩, hpasses.allowed,
      hpasses.notBlocked, hpasses.notChained, hroom, hpasses.notFlagged, hacceptable.storable,
      hacceptable.free, hlink⟩

/-- **The single path** accepts a row that passes the checks, while there is room, under a
back-half that is free and that no operator reserved. -/
theorem createRow_eq_ok_iff {row : Row} {link : StoredLink} :
    createRow e s row = .ok link ↔ ∃ p, passing e s row = some p ∧ Room e s 1 ∧
      Acceptable e s p ∧ link = (p.settled s).link e s := by
  rw [createRow, passing]
  cases row.parsed with
  | error message => simp
  | ok input =>
    dsimp only
    rw [create, insert_eq_ok_iff]
    cases resolveDomain e.p s input.domain with
    | error message => simp
    | ok domain =>
      by_cases hpasses : Passes e s input
      · simp [hpasses]
      · simp [hpasses]

end

end SnapUrl.Links.Creation
