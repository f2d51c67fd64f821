import SnapUrl.Domain.Destination
import SnapUrl.Domain.Routing
import SnapUrl.Domain.DeepLink

/-!
# The redirect handler

`apps/redirect/src/main.ts`, the `/:slug` route: what a visitor of a short link
gets, from what the request carries and what the stores answer.

* `gateFor`, `needsReservation`, `settle`: the gate, and what the verdict of the
  click-reservation store does to it.
* `refuse`, `afterGate`: the exits of a blocked and of an open link.
* `handle`: the whole route.
* `handle_routed_iff`: **which requests are routed**, as a condition on the
  request and the answers.
-/

namespace SnapUrl.Redirect

open Lib Domain

/-! ### What the handler reads -/

structure ResolvedLink where
  id : String
  workspaceId : String
  destination : String
  redirectType : RedirectType
  rules : List RoutingRule
  expiresAt : Option Int
  expiresTo : Option String
  activatesAt : Option Int
  scheduledTo : Option String
  clickLimit : Option Int
  clicks : Int
  hasPassword : Bool
  forwardQuery : Bool
  deepLink : Bool
  hideReferrer : Bool
  archived : Bool
  disabled : Bool
  ownerUnverified : Bool
  safeBrowsingStatus : String
  utm : Option Utm
deriving DecidableEq, Repr

structure ResolvedDomain where
  id : String
  rootRedirect : Option String
  notFoundRedirect : Option String
deriving DecidableEq, Repr

/-- The service's settings. -/
structure Config where
  webOrigin : String
  trustedProxyHops : Nat
  jwtSecret : String
deriving DecidableEq, Repr

/-- A value of the parsed query, which is a list when the name is repeated. -/
inductive QueryValue where
  | one (s : String)
  | many (ss : List String)
deriving DecidableEq, Repr

structure Request where
  rawSlug : String
  /-- The request's path and query. -/
  url : String
  /-- `request.query.k`. -/
  queryK : Option QueryValue
  xForwardedHost : Option String
  hostHeader : Option String
  userAgent : Option String
  xForwardedFor : List String
  socketIp : String
  viewerCountry : Option String
  acceptLanguage : Option String
deriving DecidableEq, Repr

/-- The verdict of an atomic reservation attempt for one click. -/
inductive Reservation where
  | ok (granted : Bool)
  /-- No atomic reservation is available on this profile. -/
  | unavailable
  /-- The store could not be reached. -/
  | raised
deriving DecidableEq, Repr

/-- What the clock and the stores answer while one request is handled. -/
structure Answers where
  now : Int
  link : Option ResolvedLink
  domain : Option ResolvedDomain
  reservation : Reservation
  /-- `salts.today()`, none where it raises. -/
  salt : Option String
deriving DecidableEq, Repr

/-! ### What the handler answers -/

inductive ErrorKind where
  | not_found
  | expired
  | click_limit
  | scheduled
  | root
  | disabled
  | not_active
deriving DecidableEq, Repr

/-- Status and plain-text body of an error page, `COPY`. -/
def errorCopy : ErrorKind → Nat × String
  | .not_found => (404, "No such link.")
  | .expired => (410, "This link has expired.")
  | .click_limit => (410, "This link has reached its click limit.")
  | .scheduled => (404, "This link is not live yet.")
  | .root => (404, "Nothing here.")
  | .disabled => (410, "This link has been disabled.")
  | .not_active => (404, "This link isn't active yet.")

/-- How a request ends. -/
inductive Exit where
  /-- The trust page of a slug with a "+". -/
  | preview (location : String)
  /-- The domain's own not-found redirect. -/
  | notFoundRedirect (location : String)
  | errorPage (kind : ErrorKind) (retryAfter : Option Int)
  /-- The link's own fallback for a click outside its window. -/
  | fallback (gate : EffectiveGate) (location : String)
  /-- The trust page with a warning. -/
  | warning (location : String)
  /-- The trust page with its password form. -/
  | unlock (location : String)
  /-- An error nothing catches. -/
  | failed
  /-- The visitor is sent on to a destination. -/
  | routed (target : String) (status : Nat) (headers : List (String × String))
deriving DecidableEq, Repr

/-- The status of the response. -/
def Exit.status : Exit → Nat
  | .errorPage kind _ => (errorCopy kind).1
  | .failed => 500
  | .routed _ status _ => status
  | _ => 302

/-- Whether the visitor is sent on to a destination. -/
def Exit.isRouted : Exit → Bool
  | .routed _ _ _ => true
  | _ => false

/-- What is handed to `record`. -/
structure Click where
  blockedReason : Option EffectiveGate
  matchedRuleId : Option String
  variant : Option String
deriving DecidableEq, Repr

structure Outcome where
  exit : Exit
  recorded : Option Click
deriving DecidableEq, Repr

/-! ### The route -/

def Request.host (req : Request) : String :=
  (req.xForwardedHost.orElse fun _ => req.hostHeader).getD ""

/-- The trust page at /p/<slug>, carrying the host the slug was resolved on. -/
def trustPageUrl (cfg : Config) (slug host : String) (params : List (String × String)) : String :=
  let query := if host = "" then params else FormUrlencoded.setPair "host" host params
  let qs := FormUrlencoded.serialize query
  cfg.webOrigin ++ "/p/" ++ String.ofList (FormUrlencoded.encodeURIComponent slug.toList) ++
    (if qs = "" then "" else "?" ++ qs)

/-- What the gates read of a resolved link. -/
def ResolvedLink.gateInput (link : ResolvedLink) : GateInput where
  disabled := some link.disabled
  disabledAt := none
  ownerUnverified := some link.ownerUnverified
  archived := link.archived
  safeBrowsingStatus := some link.safeBrowsingStatus
  expiresAt := link.expiresAt.map fun t => .date (some t)
  activatesAt := link.activatesAt.map fun t => .date (some t)
  clickLimit := link.clickLimit
  clicks := some link.clicks

/-- Everything that stops a click short of the destination. -/
def gateFor (p : Platform) (link : ResolvedLink) (now : Int) : Option EffectiveGate :=
  effectiveGate p link.gateInput now

/-- A reservation is asked for on a limited link that nothing but the limit blocks. -/
def needsReservation (link : ResolvedLink) (blocked : Option EffectiveGate) : Bool :=
  link.clickLimit.isSome && (blocked = none || blocked = some .click_limit)

/-- The atomic verdict replaces the cached one in both directions. -/
def settle (blocked : Option EffectiveGate) : Reservation → Option EffectiveGate
  | .ok true => none
  | .ok false => some .click_limit
  | _ => blocked

def isValidUnlockToken (p : Platform) (cfg : Config) (token linkId : String) : Bool :=
  match p.verifyToken token cfg.jwtSecret with
  | none => false
  | some claims => claims.purpose = some "unlock" && claims.sub = some linkId

/-- Whether a valid unlock token for the link came with the request. -/
def unlocked (p : Platform) (cfg : Config) (req : Request) (link : ResolvedLink) : Bool :=
  match req.queryK with
  -- a list is no token: verifying one throws
  | some (.one token) => token ≠ "" && isValidUnlockToken p cfg token link.id
  | _ => false

/-- The exits of a blocked link. -/
def refuse (cfg : Config) (req : Request) (link : ResolvedLink) (gate : EffectiveGate) : Exit :=
  match gate with
  | .disabled => .errorPage .disabled none
  | .not_active => .errorPage .not_active none
  | .archived => .errorPage .expired none
  | .flagged => .warning (trustPageUrl cfg req.rawSlug req.host [("warning", "unsafe")])
  | .expired =>
    if truthy link.expiresTo then .fallback .expired (orEmpty link.expiresTo)
    else .errorPage .expired none
  | .click_limit => .errorPage .click_limit none
  | .scheduled =>
    if truthy link.scheduledTo then .fallback .scheduled (orEmpty link.scheduledTo)
    else .errorPage .scheduled link.activatesAt

/-- `value || null` for a text. -/
def orNull (s : String) : Option String := if s = "" then none else some s

/-- The routing, once the gate and the password are behind. -/
def route (p : Platform) (cfg : Config) (req : Request) (link : ResolvedLink) (salt : String) :
    Outcome :=
  let userAgent := orEmpty req.userAgent
  let clientIp := clientIpFromXff req.xForwardedFor req.socketIp cfg.trustedProxyHops
  let decision := evaluateRouting p link.rules link.destination
    { country := orNull (p.toUpperCase (orEmpty req.viewerCountry))
      device := some (parseDevice p userAgent)
      language := parseLanguage p req.acceptLanguage
      visitorHash := visitorHash p salt clientIp userAgent link.id }
  let destination := buildDestination p
    { destination := decision.destination
      incomingQuery := (splitAtChar '?' req.url)[1]?
      forwardQuery := link.forwardQuery
      utm := link.utm }
  let target := buildDeepLink p destination (some (parseDevice p userAgent)) link.deepLink
  { exit := .routed target (redirectStatus link.redirectType)
      (cacheHeadersFor link.redirectType ++
        if link.hideReferrer then [("Referrer-Policy", "no-referrer")] else [])
    recorded := some ⟨none, decision.matchedRuleId, decision.variant⟩ }

/-- What is left of the route once the gate is settled. -/
def afterGate (p : Platform) (cfg : Config) (req : Request) (link : ResolvedLink)
    (salt : Option String) : Option EffectiveGate → Outcome
  | some gate => ⟨refuse cfg req link gate, some ⟨some gate, none, none⟩⟩
  | none =>
    if link.hasPassword && !unlocked p cfg req link then
      ⟨.unlock (trustPageUrl cfg req.rawSlug req.host [("unlock", "1")]), none⟩
    else
      match salt with
      | none => ⟨.failed, none⟩
      | some salt => route p cfg req link salt

/-- The `/:slug` handler. -/
def handle (p : Platform) (cfg : Config) (req : Request) (ans : Answers) : Outcome :=
  if endsWith req.rawSlug "+" then
    let slug := String.ofList req.rawSlug.toList.dropLast
    ⟨.preview (trustPageUrl cfg slug req.host []), none⟩
  else
    match ans.link with
    | none =>
      match ans.domain.bind (·.notFoundRedirect) with
      | some location =>
        if location = "" then ⟨.errorPage .not_found none, none⟩
        else ⟨.notFoundRedirect location, none⟩
      | none => ⟨.errorPage .not_found none, none⟩
    | some link =>
      let blocked := gateFor p link ans.now
      if needsReservation link blocked then
        if ans.reservation = .raised then ⟨.failed, none⟩
        else afterGate p cfg req link ans.salt (settle blocked ans.reservation)
      else afterGate p cfg req link ans.salt blocked

/-! ### Which requests are routed -/

section Routed

variable {p : Platform} {cfg : Config} {req : Request} {link : ResolvedLink} {salt : Option String}

theorem isRouted_refuse (gate : EffectiveGate) : (refuse cfg req link gate).isRouted = false := by
  cases gate <;> rw [refuse]
  case expired => split <;> rfl
  case scheduled => split <;> rfl
  all_goals rfl

/-- Past the gate, the password and the salt are what is left to fail. -/
theorem isRouted_afterGate (blocked : Option EffectiveGate) :
    (afterGate p cfg req link salt blocked).exit.isRouted = true ↔
      blocked = none ∧ (link.hasPassword = true → unlocked p cfg req link = true) ∧
        salt.isSome = true := by
  cases blocked with
  | some gate =>
    rw [afterGate, isRouted_refuse]
    simp
  | none =>
    simp only [afterGate]
    split
    · rename_i hlocked
      simp only [Bool.and_eq_true, Bool.not_eq_true'] at hlocked
      simp [Exit.isRouted, hlocked]
    · rename_i hopen
      have hpass : link.hasPassword = true → unlocked p cfg req link = true := by
        intro h
        simpa [h] using hopen
      cases salt with
      | none => simp [Exit.isRouted]
      | some salt => simpa [route, Exit.isRouted] using hpass

/-- Whether the gate, with the store's verdict, lets a visitor through. -/
def PassesGate (p : Platform) (link : ResolvedLink) (ans : Answers) : Prop :=
  if needsReservation link (gateFor p link ans.now) then
    ans.reservation = .ok true ∨ ans.reservation = .unavailable ∧ gateFor p link ans.now = none
  else gateFor p link ans.now = none

theorem settle_eq_none_iff {blocked : Option EffectiveGate} {r : Reservation} (h : r ≠ .raised) :
    settle blocked r = none ↔ r = .ok true ∨ r = .unavailable ∧ blocked = none := by
  cases r with
  | ok granted => cases granted <;> simp [settle]
  | unavailable => simp [settle]
  | raised => exact absurd rfl h

/-- **Which requests are routed.** -/
theorem handle_routed_iff (ans : Answers) :
    (handle p cfg req ans).exit.isRouted = true ↔
      endsWith req.rawSlug "+" = false ∧ ∃ link ∈ ans.link, PassesGate p link ans ∧
        (link.hasPassword = true → unlocked p cfg req link = true) ∧ ans.salt.isSome = true := by
  rw [handle]
  by_cases hplus : endsWith req.rawSlug "+" = true
  · simp [hplus, Exit.isRouted]
  rw [if_neg hplus]
  rw [Bool.not_eq_true] at hplus
  cases hlink : ans.link with
  | none =>
    have hnone : ∀ o : Option String, (match o with
        | some location =>
          if location = "" then (⟨.errorPage .not_found none, none⟩ : Outcome)
          else ⟨.notFoundRedirect location, none⟩
        | none => ⟨.errorPage .not_found none, none⟩).exit.isRouted = false := by
      intro o
      cases o with
      | none => rfl
      | some location => dsimp only; split <;> rfl
    simp [hnone]
  | some link =>
    simp only [hplus, true_and, Option.mem_some_iff, exists_eq_left', PassesGate]
    split
    · by_cases hraised : ans.reservation = .raised
      · simp [hraised, Exit.isRouted]
      · rw [if_neg hraised, isRouted_afterGate, settle_eq_none_iff hraised]
    · exact isRouted_afterGate _

/-! ### Which requests are recorded as clicks that came through -/

/-- A click without a blocked reason is recorded of the routed outcomes and no others. -/
theorem recorded_afterGate (blocked : Option EffectiveGate) :
    (afterGate p cfg req link salt blocked).recorded.any (·.blockedReason.isNone) =
      (afterGate p cfg req link salt blocked).exit.isRouted := by
  cases blocked with
  | some gate =>
    rw [afterGate, isRouted_refuse]
    rfl
  | none =>
    simp only [afterGate]
    split
    · rfl
    · cases salt <;> rfl

theorem recorded_handle (ans : Answers) :
    (handle p cfg req ans).recorded.any (·.blockedReason.isNone) =
      (handle p cfg req ans).exit.isRouted := by
  rw [handle]
  split
  · rfl
  split
  · split
    · split <;> rfl
    · rfl
  · dsimp only
    split
    · split
      · rfl
      · exact recorded_afterGate _
    · exact recorded_afterGate _

/-! ### Which requests get the click-limit page -/

theorem gate_of_refuse {gate : EffectiveGate} {retryAfter : Option Int}
    (h : refuse cfg req link gate = .errorPage .click_limit retryAfter) :
    gate = .click_limit := by
  cases gate with
  | click_limit => rfl
  | expired => rw [refuse] at h; split at h <;> simp at h
  | scheduled => rw [refuse] at h; split at h <;> simp at h
  | _ => simp [refuse] at h

theorem gate_of_afterGate {blocked : Option EffectiveGate} {retryAfter : Option Int}
    (h : (afterGate p cfg req link salt blocked).exit = .errorPage .click_limit retryAfter) :
    blocked = some .click_limit := by
  cases blocked with
  | some gate => exact congrArg some (gate_of_refuse h)
  | none =>
    simp only [afterGate] at h
    split at h
    · simp at h
    · cases salt <;> simp [route] at h

/-- The click-limit page is what the settled gate says. -/
theorem gate_of_handle_click_limit {ans : Answers} {retryAfter : Option Int}
    (h : (handle p cfg req ans).exit = .errorPage .click_limit retryAfter) :
    endsWith req.rawSlug "+" = false ∧ ∃ link ∈ ans.link,
      (needsReservation link (gateFor p link ans.now) = true ∧
          settle (gateFor p link ans.now) ans.reservation = some .click_limit ∨
        needsReservation link (gateFor p link ans.now) = false ∧
          gateFor p link ans.now = some .click_limit) := by
  rw [handle] at h
  by_cases hplus : endsWith req.rawSlug "+" = true
  · simp [hplus] at h
  rw [if_neg hplus] at h
  refine ⟨Bool.not_eq_true _ ▸ hplus, ?_⟩
  cases hlink : ans.link with
  | none =>
    rw [hlink] at h
    dsimp only at h
    split at h
    · split at h <;> simp at h
    · simp at h
  | some link =>
    simp only [hlink] at h
    refine ⟨link, rfl, ?_⟩
    by_cases hneeded : needsReservation link (gateFor p link ans.now) = true
    · rw [if_pos hneeded] at h
      by_cases hraised : ans.reservation = .raised
      · simp [hraised] at h
      · rw [if_neg hraised] at h
        exact Or.inl ⟨hneeded, gate_of_afterGate h⟩
    · rw [if_neg hneeded] at h
      exact Or.inr ⟨Bool.not_eq_true _ ▸ hneeded, gate_of_afterGate h⟩

/-- A refused reservation is answered with the click-limit page. -/
theorem handle_refused {ans : Answers} (hplain : endsWith req.rawSlug "+" = false)
    (hlink : ans.link = some link) (hneeded : needsReservation link (gateFor p link ans.now) = true)
    (hrefused : ans.reservation = .ok false) :
    (handle p cfg req ans).exit = .errorPage .click_limit none := by
  rw [handle, if_neg (by simp [hplain]), hlink]
  dsimp only
  rw [if_pos hneeded, hrefused, if_neg (by simp)]
  rfl

end Routed

end SnapUrl.Redirect
