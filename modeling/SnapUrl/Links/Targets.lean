import SnapUrl.Links.BulkAgreement
import SnapUrl.Links.Edit
import SnapUrl.Redirect.ForwardedQuery

/-!
# Where a stored link may send a visitor

The hosts that are refused, the blocked domains, the known shorteners and our own short domains,
are looked for in the destination of a link when it is written.  A visitor is sent to one of the
link's URLs: the destination, the target of a rule, or one of two fallbacks.

* `Accepted`: what the four writes let through, under one policy.
* `not_covered_of_accepted`: **a stored destination is on none of the hosts**.
* `destinationHost_route`: what the handler makes of a URL keeps its host.
* `avoids_iff`: a link keeps every visitor off the hosts **exactly when the rules that visitors
  reach and the fallbacks of its dates do**.
-/

namespace SnapUrl.Links.Creation

open Lib Domain Redirect

/-! ### The hosts -/

/-- What the destinations are looked up in, besides the known shorteners. -/
structure Policy where
  blockedDomains : List String
  selfHosts : List String
deriving DecidableEq, Repr

def State.policy (s : State) : Policy := ⟨s.blockedDomains, s.domains.map (·.domain)⟩

def Policy.hosts (policy : Policy) : List String :=
  policy.blockedDomains ++ policy.selfHosts ++ KNOWN_SHORTENER_HOSTS

/-- The host of a URL is covered by one of the hosts. -/
def Covered (p : Platform) (policy : Policy) (url : String) : Prop :=
  destinationHost p url ≠ "" ∧
    ∃ host ∈ policy.hosts, hostCoveredBy p (destinationHost p url) host = true

instance (p : Platform) (policy : Policy) (url : String) : Decidable (Covered p policy url) :=
  inferInstanceAs (Decidable (_ ∧ _))

/-- **The two checks of a destination** look for nothing else. -/
theorem not_covered_iff {p : Platform} {s : State} {destination : String} :
    ¬ Covered p s.policy destination ↔
      matchBlockedDomain p destination s.blockedDomains = none ∧
        matchRedirectChain p destination (s.domains.map (·.domain)) = none := by
  rw [Covered, matchBlockedDomain, matchRedirectChain]
  by_cases hhost : destinationHost p destination = ""
  · simp [hhost]
  · simp only [hhost, ne_eq, not_false_eq_true, true_and, if_false, Policy.hosts, State.policy,
      List.mem_append, not_exists, not_and, Option.map_eq_none_iff, List.find?_eq_none]
    constructor
    · intro h
      refine ⟨fun host hmem => h host (Or.inl (Or.inl hmem)), ?_⟩
      have hself : (s.domains.map (·.domain)).find?
          (hostCoveredBy p (destinationHost p destination)) = none :=
        List.find?_eq_none.mpr fun host hmem => h host (Or.inl (Or.inr hmem))
      rw [hself]
      exact Option.map_eq_none_iff.mpr
        (List.find?_eq_none.mpr fun host hmem => h host (Or.inr hmem))
    · rintro ⟨hblocked, hchained⟩ host hmem
      split at hchained
      · simp at hchained
      · rename_i hself
        rcases hmem with (hmem | hmem) | hmem
        · exact hblocked host hmem
        · exact List.find?_eq_none.mp hself host hmem
        · exact List.find?_eq_none.mp (Option.map_eq_none_iff.mp hchained) host hmem

/-! ### What is accepted -/

/-- The schema `HttpUrl`, as far as it is needed: an absolute http(s) URL. -/
def HttpUrl (p : Platform) (text : String) : Prop :=
  ∃ url, p.parseUrl text = some url ∧ (url.protocol = "https:" ∨ url.protocol = "http:")

/-- The schema lets an input through. -/
structure CreateLinkInput.Parsed (p : Platform) (input : CreateLinkInput) : Prop where
  destination : HttpUrl p input.destination
  rules : ∀ rule ∈ input.rules, HttpUrl p rule.destination

structure UpdateLinkInput.Parsed (p : Platform) (input : UpdateLinkInput) : Prop where
  destination : ∀ destination, input.destination = some destination → HttpUrl p destination
  rules : ∀ rules, input.rules = some rules → ∀ rule ∈ rules, HttpUrl p rule.destination

/-- The links that the writes leave in the table, whoever asks for them and whenever, and in
whatever state the rest of the tables is.  An edit is checked against the link as it was
read, which may be older than the one it is written to. -/
inductive Accepted (p : Platform) (policy : Policy) : StoredLink → Prop
  | create {e : Environment} {s : State} {input : CreateLinkInput} {draws : Nat → Draw}
      {link : StoredLink} (hp : e.p = p) (hpolicy : s.policy = policy) (hparsed : input.Parsed p)
      (h : create e s input draws = .ok link) : Accepted p policy link
  | bulkCreate {e : Environment} {s : State} {rows : List Row} {link : StoredLink} (hp : e.p = p)
      (hpolicy : s.policy = policy)
      (hparsed : ∀ row ∈ rows, ∀ input, row.parsed = .ok input → input.Parsed p)
      (h : some link ∈ bulkStored e s rows) : Accepted p policy link
  | clone {e : Environment} {s : State} {domain : String} {ids : Nat → String}
      {source : StoredLink} {input : CloneLinkInput} {draws : Nat → Draw} {link : StoredLink}
      (hsource : Accepted p policy source) (hp : e.p = p) (hpolicy : s.policy = policy)
      (h : clone e s domain ids source input draws = .ok link) : Accepted p policy link
  | update {e : Environment} {s : State} {existing link : StoredLink} {input : UpdateLinkInput}
      {patch : Patch} (hlink : Accepted p policy link) (hp : e.p = p) (hpolicy : s.policy = policy)
      (hparsed : input.Parsed p) (h : update e s existing input = .ok patch) :
      Accepted p policy (patch.apply link)

section

variable {p : Platform} {policy : Policy} {e : Environment} {s : State} {link : StoredLink}

/-- What is stored of a row has the URLs of its input. -/
theorem destination_link (q : Prepared) : (q.link e s).destination = q.input.destination := rfl

theorem rules_link (q : Prepared) : (q.link e s).rules = storedRules e.p q.input.rules := rfl

/-- A row that contends passed the checks. -/
theorem passing_of_mem_contend {q : Prepared} {seen : List (String × String)} {rows : List Row}
    (h : some q ∈ contend e s seen rows) :
    ∃ row ∈ rows, ∃ q', passing e s row = some q' ∧ q.input = q'.input := by
  induction rows generalizing seen with
  | nil => simp [contend] at h
  | cons row rows ih =>
    have hlater : ∀ seen', some q ∈ contend e s seen' rows →
        ∃ row' ∈ row :: rows, ∃ q', passing e s row' = some q' ∧ q.input = q'.input := by
      intro seen' hmem
      obtain ⟨row', hrow', hq'⟩ := ih hmem
      exact ⟨row', List.mem_cons_of_mem _ hrow', hq'⟩
    rw [contend] at h
    split at h
    · exact hlater seen (by simpa using h)
    · rename_i q' hpassing
      split at h
      · rcases List.mem_cons.mp h with heq | hmem
        · obtain rfl := Option.some.inj heq
          exact ⟨row, List.mem_cons_self, q', hpassing, input_settleFrom _ _⟩
        · exact hlater seen hmem
      split at h
      · exact hlater seen (by simpa using h)
      · rcases List.mem_cons.mp h with heq | hmem
        · split at heq
          · simp at heq
          · obtain rfl := Option.some.inj heq
            exact ⟨row, List.mem_cons_self, q, hpassing, rfl⟩
        · exact hlater _ hmem

theorem passes_of_passing {row : Row} {q : Prepared} (h : passing e s row = some q) :
    row.parsed = .ok q.input ∧ Passes e s q.input := by
  rw [passing] at h
  split at h
  · simp at h
  · rename_i input hparsed
    split at h
    · simp at h
    · split at h
      · rename_i hpasses
        obtain rfl := Option.some.inj h
        exact ⟨hparsed, hpasses⟩
      · simp at h

/-- **What `insert` stores** has the URLs of an input that passed. -/
theorem urls_of_insert {input : CreateLinkInput} {passwordHash : Option String}
    {draws : Nat → Draw} (h : insert e s input passwordHash draws = .ok link) :
    Passes e s input ∧ link.destination = input.destination ∧
      link.rules = storedRules e.p input.rules := by
  obtain ⟨domain, -, hpasses, -, -, rfl⟩ := insert_eq_ok_iff.mp h
  rw [destination_link, rules_link, Prepared.settled, input_settleFrom]
  exact ⟨hpasses, rfl, rfl⟩

theorem urls_of_bulkStored {rows : List Row} (h : some link ∈ bulkStored e s rows) :
    ∃ row ∈ rows, ∃ input, row.parsed = .ok input ∧ Passes e s input ∧
      link.destination = input.destination ∧ link.rules = storedRules e.p input.rules := by
  rw [bulkStored_eq] at h
  split at h
  · obtain ⟨q, hq, hlink⟩ := List.mem_map.mp h
    obtain ⟨q, rfl, rfl⟩ := Option.map_eq_some_iff.mp hlink
    obtain ⟨row, hrow, q', hpassing, hinput⟩ := passing_of_mem_contend hq
    obtain ⟨hparsed, hpasses⟩ := passes_of_passing hpassing
    rw [destination_link, rules_link, hinput]
    exact ⟨row, hrow, q'.input, hparsed, hpasses, rfl, rfl⟩
  · simp at h

theorem destination_of_mem_storedRules {rules : List RoutingRule} {row : StoredRule}
    (h : row ∈ storedRules p rules) : ∃ rule ∈ rules, row.destination = rule.destination := by
  rw [storedRules, List.mem_mapIdx] at h
  obtain ⟨i, hi, rfl⟩ := h
  exact ⟨_, List.getElem_mem hi, rfl⟩

theorem destination_of_mem_routingRules {ids : Nat → String} {rule : RoutingRule}
    (h : rule ∈ link.routingRules ids) : ∃ row ∈ link.rules, rule.destination = row.destination := by
  rw [StoredLink.routingRules, List.mem_mapIdx] at h
  obtain ⟨i, hi, rfl⟩ := h
  exact ⟨_, List.getElem_mem hi, rfl⟩

/-- What every accepted link keeps. -/
structure Sound (p : Platform) (policy : Policy) (link : StoredLink) : Prop where
  destination : HttpUrl p link.destination
  clear : ¬ Covered p policy link.destination
  rules : ∀ row ∈ link.rules, HttpUrl p row.destination

theorem Passes.clear {input : CreateLinkInput} (h : Passes e s input) :
    ¬ Covered e.p s.policy input.destination :=
  not_covered_iff.mpr ⟨h.notBlocked, h.notChained⟩

theorem sound_of_urls {input : CreateLinkInput} (hparsed : input.Parsed e.p)
    (hpasses : Passes e s input) (hdestination : link.destination = input.destination)
    (hrules : link.rules = storedRules e.p input.rules) : Sound e.p s.policy link where
  destination := hdestination ▸ hparsed.destination
  clear := hdestination ▸ hpasses.clear
  rules row hrow := by
    obtain ⟨rule, hrule, htarget⟩ := destination_of_mem_storedRules (hrules ▸ hrow)
    exact htarget ▸ hparsed.rules rule hrule

/-- An edit keeps what was sound about a link, however old its reading of it was. -/
theorem sound_apply {existing : StoredLink} {input : UpdateLinkInput}
    (hlink : Sound e.p s.policy link) (hparsed : input.Parsed e.p)
    (hpasses : EditPasses e s existing input) :
    Sound e.p s.policy ((patchOf e input).apply link) := by
  have hdestination : ((patchOf e input).apply link).destination =
      input.destination.getD link.destination := by
    change (((input.destination.map _).map _).getD _) = _
    cases input.destination <;> rfl
  have hrules : ((patchOf e input).apply link).rules =
      (input.rules.map (storedRules e.p)).getD link.rules := rfl
  constructor
  · rw [hdestination]
    cases hnew : input.destination with
    | none => exact hlink.destination
    | some destination => exact hparsed.destination _ hnew
  · rw [hdestination]
    cases hnew : input.destination with
    | none => exact hlink.clear
    | some destination =>
      exact not_covered_iff.mpr ⟨hpasses.notBlocked _ hnew, hpasses.notChained _ hnew⟩
  · rw [hrules]
    cases hnew : input.rules with
    | none => exact hlink.rules
    | some rules =>
      intro row hrow
      obtain ⟨rule, hrule, htarget⟩ := destination_of_mem_storedRules hrow
      exact htarget ▸ hparsed.rules _ hnew rule hrule

/-- **An accepted link's own destination is on none of the hosts.** -/
theorem sound_of_accepted (h : Accepted p policy link) : Sound p policy link := by
  induction h with
  | create hp hpolicy hparsed h =>
    subst hp hpolicy
    obtain ⟨hpasses, hdestination, hrules⟩ := urls_of_insert h
    exact sound_of_urls hparsed hpasses hdestination hrules
  | bulkCreate hp hpolicy hparsed h =>
    subst hp hpolicy
    obtain ⟨row, hrow, input, hinput, hpasses, hdestination, hrules⟩ := urls_of_bulkStored h
    exact sound_of_urls (hparsed row hrow input hinput) hpasses hdestination hrules
  | clone hsource hp hpolicy h ih =>
    subst hp hpolicy
    obtain ⟨hpasses, hdestination, hrules⟩ := urls_of_insert h
    refine sound_of_urls ⟨ih.destination, ?_⟩ hpasses hdestination hrules
    intro rule hrule
    obtain ⟨row, hrow, htarget⟩ := destination_of_mem_routingRules hrule
    exact htarget ▸ ih.rules row hrow
  | update hlink hp hpolicy hparsed h ih =>
    subst hp hpolicy
    obtain ⟨hpasses, rfl⟩ := update_eq_ok_iff.mp h
    exact sound_apply ih hparsed hpasses

end

/-! ### Where visitors are sent -/

/-- What is not settled when a link is written, or may change afterwards. -/
structure Standing where
  id : String
  ruleIds : Nat → String
  clicks : Int
  archived : Bool
  disabled : Bool
  ownerUnverified : Bool
  safeBrowsingStatus : String

/-- A link as the redirect resolves it. -/
def StoredLink.resolved (link : StoredLink) (standing : Standing) : ResolvedLink where
  id := standing.id
  workspaceId := link.workspaceId
  destination := link.destination
  redirectType := link.redirectType
  rules := link.routingRules standing.ruleIds
  expiresAt := link.expiresAt
  expiresTo := link.expiresTo
  activatesAt := link.activatesAt
  scheduledTo := link.scheduledTo
  clickLimit := link.clickLimit
  clicks := standing.clicks
  hasPassword := link.passwordHash.isSome
  forwardQuery := link.forwardQuery
  deepLink := link.deepLink
  hideReferrer := link.hideReferrer
  archived := standing.archived
  disabled := standing.disabled
  ownerUnverified := standing.ownerUnverified
  safeBrowsingStatus := standing.safeBrowsingStatus
  utm := link.utm

/-- The URL that a visitor is sent to, of the URLs of a link. -/
def locationOf : Exit → Option String
  | .fallback _ location => some location
  | .routed target _ _ => some target
  | _ => none

/-- **A link keeps every visitor off the hosts**, whenever they come and whatever the gates
say. -/
def Avoids (p : Platform) (policy : Policy) (link : StoredLink) : Prop :=
  ∀ (standing : Standing) (cfg : Config) (req : Request) (ans : Answers),
    ans.link = some (link.resolved standing) →
    ∀ location, locationOf (handle p cfg req ans).exit = some location →
      ¬ Covered p policy location

/-- What the routing knows of the visitor of a request. -/
def visitorOf (p : Platform) (cfg : Config) (req : Request) (id salt : String) : VisitorContext where
  country := orNull (p.toUpperCase (orEmpty req.viewerCountry))
  device := some (parseDevice p (orEmpty req.userAgent))
  language := parseLanguage p req.acceptLanguage
  visitorHash := visitorHash p salt
    (clientIpFromXff req.xForwardedFor req.socketIp cfg.trustedProxyHops)
    (orEmpty req.userAgent) id

/-- A visitor who gets past the gate and the password is sent to the target of a rule. -/
def Reached (p : Platform) (link : StoredLink) (rule : RoutingRule) : Prop :=
  ∃ (standing : Standing) (cfg : Config) (req : Request) (ans : Answers) (salt : String),
    ans.link = some (link.resolved standing) ∧ endsWith req.rawSlug "+" = false ∧
      PassesGate p (link.resolved standing) ans ∧
      (link.passwordHash.isSome = true → unlocked p cfg req (link.resolved standing) = true) ∧
      ans.salt = some salt ∧
      evaluateArm p (link.routingRules standing.ruleIds) (visitorOf p cfg req standing.id salt) =
        some rule

/-- The URLs besides the destination that visitors are sent to are on none of the hosts. -/
structure Clear (p : Platform) (policy : Policy) (link : StoredLink) : Prop where
  rules : ∀ rule, Reached p link rule → ¬ Covered p policy rule.destination
  expired : ∀ url, link.expiresTo = some url → url ≠ "" → link.expiresAt.isSome = true →
    ¬ Covered p policy url
  scheduled : ∀ url, link.scheduledTo = some url → url ≠ "" → link.activatesAt.isSome = true →
    ¬ Covered p policy url

/-! ### What the handler makes of a URL -/

/-- A parser that finds in an app's URL the host of its page. -/
def ReadsApp (p : Platform) : Prop :=
  ∀ text url androidPackage, p.parseUrl text = some url →
    url.protocol = "https:" ∨ url.protocol = "http:" →
    packageFor p url.hostname = some androidPackage →
    ∀ rest : String, rest.toList.head? = some '#' →
      ∃ app, p.parseUrl ("intent://" ++ url.host ++ url.pathname ++ url.search ++ rest) = some app ∧
        app.hostname = url.hostname

section

variable {p : Platform} {policy : Policy} {link : StoredLink} {standing : Standing} {cfg : Config}
  {req : Request} {ans : Answers}

theorem destinationHost_of_parseUrl {text : String} {url : Url} (h : p.parseUrl text = some url) :
    destinationHost p text = normaliseBlockHost p url.hostname := by
  rw [destinationHost, h]

theorem hostname_composed (url : Url) (ps : List (String × String)) :
    (composed url ps).hostname = url.hostname := by
  rw [composed]
  split <;> rfl

theorem protocol_composed (url : Url) (ps : List (String × String)) :
    (composed url ps).protocol = url.protocol := by
  rw [composed]
  split <;> rfl

/-- A composed page is read back as it is. -/
theorem parseUrl_composed (hparser : ReadsBack p) {text : String} {url : Url}
    (hurl : p.parseUrl text = some url) (hhttp : url.protocol = "https:" ∨ url.protocol = "http:")
    (ps : List (String × String)) :
    p.parseUrl (composed url ps).href = some (composed url ps) := by
  rw [composed]
  split
  · exact (hparser _ _ hurl hhttp).1
  · exact (hparser _ _ hurl hhttp).2 _

/-- An app's URL has its page's host. -/
theorem destinationHost_buildDeepLink (happ : ReadsApp p) {text : String} {url : Url}
    (hurl : p.parseUrl text = some url) (hhttp : url.protocol = "https:" ∨ url.protocol = "http:")
    (device : Option DeviceType) (enabled : Bool) :
    destinationHost p (buildDeepLink p text device enabled) = destinationHost p text := by
  by_cases hself : enabled = false ∨ device ≠ some .android
  · rw [buildDeepLink_eq_self hself]
  rw [not_or, Bool.not_eq_false, not_not] at hself
  rw [buildDeepLink, if_neg (by simp [hself.1]), if_neg (not_not.mpr hself.2), hurl]
  dsimp only
  rw [if_neg (by tauto)]
  split
  · rfl
  · rename_i androidPackage hpackage
    have hrest : ("#Intent;scheme=https;package=" ++ androidPackage ++ ";S.browser_fallback_url=" ++
        String.ofList (FormUrlencoded.encodeURIComponent text.toList) ++
          ";end").toList.head? = some '#' := by
      simp [String.toList_append]
    obtain ⟨app, happ, hhost⟩ := happ text url androidPackage hurl hhttp hpackage _ hrest
    rw [destinationHost_of_parseUrl hurl, ← hhost]
    refine destinationHost_of_parseUrl (Eq.trans (congrArg _ ?_) happ)
    simp only [String.append_assoc]

/-- **The handler keeps the host of the URL it routes to.** -/
theorem destinationHost_route (hparser : ReadsBack p) (happ : ReadsApp p) {link : ResolvedLink}
    {salt target : String} {status : Nat} {headers : List (String × String)}
    (hurl : HttpUrl p (destinationFor p cfg req link salt))
    (h : (route p cfg req link salt).exit = .routed target status headers) :
    destinationHost p target = destinationHost p (destinationFor p cfg req link salt) := by
  obtain ⟨rfl, -, -⟩ := Exit.routed.inj h
  obtain ⟨url, hurl, hhttp⟩ := hurl
  have hpage : buildDestination p ⟨destinationFor p cfg req link salt,
      (splitAtChar '?' req.url)[1]?, link.forwardQuery, link.utm⟩ = _ := buildDestination_eq hurl
  have hread := parseUrl_composed hparser hurl hhttp
    (settings ⟨destinationFor p cfg req link salt, (splitAtChar '?' req.url)[1]?,
      link.forwardQuery, link.utm⟩)
  rw [← hpage] at hread
  refine (destinationHost_buildDeepLink happ hread ?_ _ _).trans ?_
  · rwa [protocol_composed]
  · rw [destinationHost_of_parseUrl hread, hostname_composed, destinationHost_of_parseUrl hurl]

/-! ### Which URL it is -/

/-- The routing takes the target of an arm, or else the link's destination. -/
theorem destinationFor_resolved (salt : String) :
    destinationFor p cfg req (link.resolved standing) salt =
      ((evaluateArm p (link.routingRules standing.ruleIds)
        (visitorOf p cfg req standing.id salt)).map (·.destination)).getD link.destination := by
  change (evaluateRouting p (link.routingRules standing.ruleIds) link.destination
    (visitorOf p cfg req standing.id salt)).destination = _
  cases harm : evaluateArm p (link.routingRules standing.ruleIds)
      (visitorOf p cfg req standing.id salt) with
  | some rule => exact (evaluateRouting_of_evaluateArm _ harm).1
  | none => exact evaluateRouting_of_evaluateArm_eq_none _ harm

theorem some_of_truthy {o : Option String} (h : truthy o = true) :
    o = some (orEmpty o) ∧ orEmpty o ≠ "" := by
  cases o with
  | none => simp [truthy] at h
  | some url => simpa [truthy] using h

theorem locationOf_refuse {link : ResolvedLink} {gate : EffectiveGate} {location : String}
    (h : locationOf (refuse cfg req link gate) = some location) :
    location ≠ "" ∧ (gate = .expired ∧ link.expiresTo = some location ∨
      gate = .scheduled ∧ link.scheduledTo = some location) := by
  cases gate
  case expired =>
    rw [refuse] at h
    split at h
    · rename_i htruthy
      obtain ⟨hsome, hne⟩ := some_of_truthy htruthy
      obtain rfl := Option.some.inj h
      exact ⟨hne, Or.inl ⟨rfl, hsome⟩⟩
    · simp [locationOf] at h
  case scheduled =>
    rw [refuse] at h
    split at h
    · rename_i htruthy
      obtain ⟨hsome, hne⟩ := some_of_truthy htruthy
      obtain rfl := Option.some.inj h
      exact ⟨hne, Or.inr ⟨rfl, hsome⟩⟩
    · simp [locationOf] at h
  all_goals simp [refuse, locationOf] at h

/-- Past the gate a visitor is routed, or gets a fallback. -/
theorem routed_or_refused {link : ResolvedLink} {salt : Option String}
    {blocked : Option EffectiveGate} {location : String}
    (h : locationOf (afterGate p cfg req link salt blocked).exit = some location) :
    (afterGate p cfg req link salt blocked).exit.isRouted = true ∨
      ∃ gate, blocked = some gate ∧ location ≠ "" ∧
        (gate = .expired ∧ link.expiresTo = some location ∨
          gate = .scheduled ∧ link.scheduledTo = some location) := by
  cases blocked with
  | some gate => exact Or.inr ⟨gate, rfl, locationOf_refuse h⟩
  | none =>
    left
    simp only [afterGate] at h ⊢
    split at h
    · simp [locationOf] at h
    · rename_i hopen
      rw [if_neg hopen]
      cases salt with
      | none => simp [locationOf] at h
      | some salt => rfl

/-- **A visitor is routed, or gets the fallback of the date that shuts the gate.** -/
theorem routed_or_fallback {link : ResolvedLink} {location : String} (hlink : ans.link = some link)
    (h : locationOf (handle p cfg req ans).exit = some location) :
    (handle p cfg req ans).exit.isRouted = true ∨
      location ≠ "" ∧ (gateFor p link ans.now = some .expired ∧ link.expiresTo = some location ∨
        gateFor p link ans.now = some .scheduled ∧ link.scheduledTo = some location) := by
  have hcases : ∀ blocked, (afterGate p cfg req link ans.salt blocked).exit.isRouted = true ∨
      (∃ gate, blocked = some gate ∧ location ≠ "" ∧
        (gate = .expired ∧ link.expiresTo = some location ∨
          gate = .scheduled ∧ link.scheduledTo = some location)) →
      (blocked = none ∨ blocked = some .click_limit ∨ blocked = gateFor p link ans.now) →
      (afterGate p cfg req link ans.salt blocked).exit.isRouted = true ∨
        location ≠ "" ∧ (gateFor p link ans.now = some .expired ∧ link.expiresTo = some location ∨
          gateFor p link ans.now = some .scheduled ∧ link.scheduledTo = some location) := by
    rintro blocked (hrouted | ⟨gate, rfl, hne, hfallback⟩) hblocked
    · exact Or.inl hrouted
    · right
      rcases hblocked with hnone | hlimit | hgate
      · exact absurd hnone nofun
      · obtain rfl := Option.some.inj hlimit
        simp at hfallback
      · rw [← hgate]
        refine ⟨hne, hfallback.imp ?_ ?_⟩
        all_goals
          rintro ⟨rfl, hurl⟩
          exact ⟨rfl, hurl⟩
  rw [handle] at h ⊢
  split at h
  · simp [locationOf] at h
  rename_i hplus
  rw [if_neg hplus]
  rw [hlink] at h ⊢
  dsimp only at h ⊢
  split at h
  · rename_i hneeded
    rw [if_pos hneeded]
    split at h
    · simp [locationOf] at h
    · rename_i hraised
      rw [if_neg hraised]
      refine hcases _ (routed_or_refused h) ?_
      cases ans.reservation with
      | ok granted => cases granted <;> simp [settle]
      | unavailable => exact Or.inr (Or.inr rfl)
      | raised => exact Or.inr (Or.inr rfl)
  · rename_i hneeded
    rw [if_neg hneeded]
    exact hcases _ (routed_or_refused h) (Or.inr (Or.inr rfl))

/-- The URL that is routed to is sound. -/
theorem httpUrl_destinationFor (hsound : Sound p policy link) (standing : Standing)
    (cfg : Config) (req : Request) (salt : String) :
    HttpUrl p (destinationFor p cfg req (link.resolved standing) salt) := by
  rw [destinationFor_resolved]
  cases harm : evaluateArm p (link.routingRules standing.ruleIds)
      (visitorOf p cfg req standing.id salt) with
  | none => exact hsound.destination
  | some rule =>
    obtain ⟨row, hrow, htarget⟩ := destination_of_mem_routingRules (mem_of_evaluateArm harm)
    change HttpUrl p rule.destination
    exact htarget ▸ hsound.rules row hrow

/-! ### The fallbacks, reached -/

/-- A link that nothing but its own dates and its count can shut. -/
def openStanding (clicks : Int) : Standing := ⟨"link", fun _ => "", clicks, false, false, false, "clean"⟩

/-- What the stores answer at an instant for a link that is shut. -/
def answersAt (now : Int) (link : ResolvedLink) : Answers := ⟨now, some link, none, .unavailable, none⟩

/-- A visitor of a link that a date shuts gets its refusal. -/
theorem handle_of_gate {link : ResolvedLink} {now : Int} {gate : EffectiveGate}
    (hgate : gateFor p link now = some gate) (hlimit : gate ≠ .click_limit) :
    (handle p sampleConfig sampleRequest (answersAt now link)).exit =
      refuse sampleConfig sampleRequest link gate := by
  have hneeded : needsReservation link (some gate) = false := by
    simp [needsReservation, hlimit]
  rw [handle, if_neg (by decide)]
  dsimp only [answersAt]
  rw [hgate, hneeded, if_neg (by simp)]
  rfl

theorem gateFor_openStanding (now clicks : Int) :
    gateFor p (link.resolved (openStanding clicks)) now =
      if link.expiresAt.any (· ≤ now) then some .expired
      else if link.clickLimit.any (· ≤ clicks) then some .click_limit
      else if link.activatesAt.any (now < ·) then some .scheduled
      else none := by
  have hdate (d : Option Int) : asDate p (d.map fun t => .date (some t)) = d := by
    cases d <;> rfl
  have hlive : ¬ (link.resolved (openStanding clicks)).gateInput.archived = true :=
    Bool.false_ne_true
  have hlifecycle : lifecycleGate p (link.resolved (openStanding clicks)).gateInput now =
      if link.expiresAt.any (· ≤ now) then some .expired
      else if link.clickLimit.any (· ≤ clicks) then some .click_limit
      else if link.activatesAt.any (now < ·) then some .scheduled
      else none := by
    rw [lifecycleGate, if_neg hlive]
    simp only [ResolvedLink.gateInput, StoredLink.resolved, openStanding, hdate, Option.getD_some]
    rfl
  have hclean : ¬ (link.resolved (openStanding clicks)).gateInput.safeBrowsingStatus =
      some "flagged" := by
    change ¬ some "clean" = some "flagged"
    decide
  have hproven : ¬ (link.resolved (openStanding clicks)).gateInput.ownerUnverified = some true := by
    change ¬ some false = some true
    decide
  rw [gateFor, effectiveGate, if_neg (by simp [ResolvedLink.gateInput, StoredLink.resolved,
    openStanding]), if_neg hproven, if_neg hlive, if_neg hclean, hlifecycle]
  split_ifs <;> rfl

/-- Visitors get the fallback of the expiry once it is past. -/
theorem clear_expired (h : Avoids p policy link) {url : String} (hurl : link.expiresTo = some url)
    (hne : url ≠ "") (hdate : link.expiresAt.isSome = true) : ¬ Covered p policy url := by
  obtain ⟨t, ht⟩ := Option.isSome_iff_exists.mp hdate
  refine h (openStanding 0) sampleConfig sampleRequest
    (answersAt t (link.resolved (openStanding 0))) rfl url ?_
  have hgate : gateFor p (link.resolved (openStanding 0)) t = some .expired := by
    rw [gateFor_openStanding, ht]
    simp
  rw [handle_of_gate hgate (by decide), refuse]
  change locationOf (if truthy link.expiresTo then Exit.fallback .expired (orEmpty link.expiresTo)
    else _) = _
  rw [hurl, if_pos (by simpa [truthy] using hne)]
  rfl

/-- Visitors get the fallback of the activation date before it has come. -/
theorem clear_scheduled (h : Avoids p policy link) {url : String}
    (hurl : link.scheduledTo = some url) (hne : url ≠ "") (hdate : link.activatesAt.isSome = true) :
    ¬ Covered p policy url := by
  obtain ⟨t, ht⟩ := Option.isSome_iff_exists.mp hdate
  -- a count below the limit, and an instant before both dates
  refine h (openStanding (link.clickLimit.getD 0 - 1)) sampleConfig sampleRequest
    (answersAt (min t (link.expiresAt.getD t) - 1)
      (link.resolved (openStanding (link.clickLimit.getD 0 - 1)))) rfl url ?_
  have hgate : gateFor p (link.resolved (openStanding (link.clickLimit.getD 0 - 1)))
      (min t (link.expiresAt.getD t) - 1) = some .scheduled := by
    rw [gateFor_openStanding, ht, if_neg ?_, if_neg ?_, if_pos ?_]
    · simp only [Option.any_some, decide_eq_true_eq]
      omega
    · cases link.clickLimit <;> simp
    · cases link.expiresAt with
      | none => simp
      | some expires =>
        simp only [Option.getD_some, Option.any_some, decide_eq_true_eq]
        omega
  rw [handle_of_gate hgate (by decide), refuse]
  change locationOf (if truthy link.scheduledTo then
    Exit.fallback .scheduled (orEmpty link.scheduledTo) else _) = _
  rw [hurl, if_pos (by simpa [truthy] using hne)]
  rfl

/-- Visitors who reach a rule get its target. -/
theorem clear_rule (hparser : ReadsBack p) (happ : ReadsApp p) (hsound : Sound p policy link)
    (h : Avoids p policy link) {rule : RoutingRule} (hrule : Reached p link rule) :
    ¬ Covered p policy rule.destination := by
  obtain ⟨standing, cfg, req, ans, salt, hlink, hplus, hpasses, hpassword, hsalt, harm⟩ := hrule
  have hrouted : (handle p cfg req ans).exit.isRouted = true :=
    (handle_routed_iff ans).mpr ⟨hplus, _, hlink, hpasses, hpassword, by rw [hsalt]; rfl⟩
  have hroute := handle_eq_route hlink hsalt hrouted
  have htarget := destinationHost_route hparser happ
    (httpUrl_destinationFor hsound standing cfg req salt) rfl
  have hcovered := h standing cfg req ans hlink _ (by rw [hroute]; rfl)
  rw [Covered, htarget, destinationFor_resolved, harm] at hcovered
  exact hcovered

end

/-- **The hosts a visitor is kept off.**  The destination of an accepted link is on none of
them, so a link keeps every visitor off them exactly when the targets of the rules that
visitors reach, and the fallbacks of the dates it has, are on none of them either. -/
theorem avoids_iff (p : Platform) (hparser : ReadsBack p) (happ : ReadsApp p) (policy : Policy)
    (link : StoredLink) (haccepted : Accepted p policy link) :
    Avoids p policy link ↔ Clear p policy link := by
  have hsound := sound_of_accepted haccepted
  constructor
  · intro h
    exact ⟨fun rule hrule => clear_rule hparser happ hsound h hrule,
      fun url hurl hne hdate => clear_expired h hurl hne hdate,
      fun url hurl hne hdate => clear_scheduled h hurl hne hdate⟩
  · intro hclear standing cfg req ans hlink location hlocation
    rcases routed_or_fallback hlink hlocation with hrouted | ⟨hne, ⟨hgate, hurl⟩ | ⟨hgate, hurl⟩⟩
    · obtain ⟨hplus, link', hlink', hpasses, hpassword, hsome⟩ := (handle_routed_iff ans).mp hrouted
      obtain rfl : link' = link.resolved standing := Option.mem_unique hlink' hlink
      obtain ⟨salt, hsalt⟩ := Option.isSome_iff_exists.mp hsome
      have hroute := handle_eq_route hlink hsalt hrouted
      rw [hroute] at hlocation
      obtain rfl := Option.some.inj hlocation
      rw [Covered, destinationHost_route hparser happ
        (httpUrl_destinationFor hsound standing cfg req salt) rfl, destinationFor_resolved]
      cases harm : evaluateArm p (link.routingRules standing.ruleIds)
          (visitorOf p cfg req standing.id salt) with
      | none => exact hsound.clear
      | some rule =>
        exact hclear.rules rule ⟨standing, cfg, req, ans, salt, hlink, hplus, hpasses, hpassword,
          hsalt, harm⟩
    · obtain ⟨t, ht, -⟩ := holds_of_effectiveGate hgate
      refine hclear.expired location hurl hne ?_
      cases hdate : link.expiresAt with
      | some expires => rfl
      | none => simp [ResolvedLink.gateInput, StoredLink.resolved, hdate, asDate] at ht
    · obtain ⟨t, ht, -⟩ := holds_of_effectiveGate hgate
      refine hclear.scheduled location hurl hne ?_
      cases hdate : link.activatesAt with
      | some activates => rfl
      | none => simp [ResolvedLink.gateInput, StoredLink.resolved, hdate, asDate] at ht

/-! ### A fallback on another shortener -/

/-- A page of `https://bit.ly/`. -/
def shortUrl (query fragment : Option String) (hquery : ∀ q, query = some q → '#' ∉ q.toList) :
    Url where
  protocol := "https:"
  authority := "//"
  hostname := "bit.ly"
  port := ""
  pathname := "/"
  query := query
  fragment := fragment
  base_clean := by decide
  query_clean := hquery

/-- A parser that knows the pages of `https://a.com/` and of `https://bit.ly/`. -/
def parseEither (s : String) : Option Url :=
  if beforeFirst '?' (beforeFirst '#' s) = "https://bit.ly/" then
    some (shortUrl (afterMark (fromFirst '?' (beforeFirst '#' s))) (afterMark (fromFirst '#' s))
      (hash_notMem_afterMark s))
  else parsePage s

theorem parseEither_short {query fragment : Option String}
    (hquery : ∀ q, query = some q → '#' ∉ q.toList) :
    parseEither (shortUrl query fragment hquery).href = some (shortUrl query fragment hquery) := by
  have hbase : (shortUrl query fragment hquery).base = "https://bit.ly/" := by
    change "https:" ++ "//" ++ (if "" = "" then "bit.ly" else "bit.ly" ++ ":" ++ "") ++ "/" = _
    decide
  have hparts : afterMark (fromFirst '?' (beforeFirst '#' (shortUrl query fragment hquery).href)) =
      query ∧ afterMark (fromFirst '#' (shortUrl query fragment hquery).href) = fragment := by
    rw [Url.fromFirst_query_href, Url.fromFirst_hash_href]
    exact ⟨afterMark_map "?" rfl query, afterMark_map "#" rfl fragment⟩
  rw [parseEither, if_pos ((Url.beforeFirst_query_href _).trans hbase)]
  simp only [hparts]

theorem parseEither_page {query fragment : Option String}
    (hquery : ∀ q, query = some q → '#' ∉ q.toList) :
    parseEither (pageUrl query fragment hquery).href = some (pageUrl query fragment hquery) := by
  have hbase : (pageUrl query fragment hquery).base = "https://a.com/" := by
    change "https:" ++ "//" ++ (if "" = "" then "a.com" else "a.com" ++ ":" ++ "") ++ "/" = _
    decide
  rw [parseEither, Url.beforeFirst_query_href, hbase, if_neg (by decide)]
  exact parsePage_href hquery

/-- What the parser makes of a text is a page of one of the two. -/
theorem parseEither_cases {text : String} {url : Url} (h : parseEither text = some url) :
    ∃ query fragment hquery, url = shortUrl query fragment hquery ∨
      url = pageUrl query fragment hquery := by
  rw [parseEither] at h
  split at h
  · exact ⟨_, _, _, Or.inl (Option.some.inj h).symm⟩
  · rw [parsePage] at h
    split at h
    · exact ⟨_, _, _, Or.inr (Option.some.inj h).symm⟩
    · simp at h

/-- A runtime with this parser, where every date is one second after the epoch. -/
def eitherPlatform : Platform :=
  { Redirect.samplePlatform with
    parseUrl := parseEither
    parseDate := fun _ => some 1000 }

theorem parseUrl_eitherPlatform : eitherPlatform.parseUrl = parseEither := by
  rw [eitherPlatform]

theorem readsBack_eitherPlatform : ReadsBack eitherPlatform := by
  rw [ReadsBack, parseUrl_eitherPlatform]
  intro text url hurl _
  obtain ⟨query, fragment, hquery, rfl | rfl⟩ := parseEither_cases hurl
  · refine ⟨parseEither_short hquery, ?_⟩
    intro ps
    exact parseEither_short ((shortUrl query fragment hquery).withParams ps).query_clean
  · refine ⟨parseEither_page hquery, ?_⟩
    intro ps
    obtain ⟨query', hquery', hset⟩ := exists_pageUrl_withParams hquery ps
    rw [hset]
    exact parseEither_page hquery'

/-- No app opens either of the two. -/
theorem readsApp_eitherPlatform : ReadsApp eitherPlatform := by
  rw [ReadsApp, parseUrl_eitherPlatform]
  intro text url androidPackage hurl _ hpackage
  have hnone : packageFor eitherPlatform "bit.ly" = none ∧
      packageFor eitherPlatform "a.com" = none := by
    decide
  have hhost : url.hostname = "bit.ly" ∨ url.hostname = "a.com" := by
    obtain ⟨query, fragment, hquery, rfl | rfl⟩ := parseEither_cases hurl
    · exact Or.inl rfl
    · exact Or.inr rfl
  rcases hhost with hhost | hhost
  · rw [hhost, hnone.1] at hpackage
    simp at hpackage
  · rw [hhost, hnone.2] at hpackage
    simp at hpackage

def eitherEnvironment : Environment := { sampleEnvironment with p := eitherPlatform }

/-- A link to `https://a.com/` that expires, with a fallback. -/
def expiringInput (expiresTo : String) : CreateLinkInput :=
  { inputFor "sale" with
    destination := "https://a.com/"
    expiresAt := some "1970-01-01T00:00:01.000Z"
    expiresTo := some expiresTo }

/-- What is stored for it. -/
def expiringLink (expiresTo : String) : StoredLink :=
  linkValues eitherEnvironment "W1" "D1" "sale" (expiringInput expiresTo) .r302 none ⟨"clean", 0⟩

theorem parseUrl_page : eitherPlatform.parseUrl "https://a.com/" =
    some (pageUrl none none Url.query_clean_none) := by
  have hhref : (pageUrl none none Url.query_clean_none).href = "https://a.com/" := by decide
  rw [parseUrl_eitherPlatform, ← hhref]
  exact parseEither_page _

theorem parseUrl_short : eitherPlatform.parseUrl "https://bit.ly/" =
    some (shortUrl none none Url.query_clean_none) := by
  have hhref : (shortUrl none none Url.query_clean_none).href = "https://bit.ly/" := by decide
  rw [parseUrl_eitherPlatform, ← hhref]
  exact parseEither_short _

theorem destinationHost_page : destinationHost eitherPlatform "https://a.com/" = "a.com" := by
  have hplain : isPlain "a.com".toList = true := by rw [String.toList_ofList]; rfl
  rw [destinationHost_of_parseUrl parseUrl_page]
  exact normaliseBlockHost_of_isPlain (toLowerCase_sample _ hplain) hplain

theorem create_expiringInput (expiresTo : String) :
    create eitherEnvironment promoState (expiringInput expiresTo)
      (fun _ _ => ⟨0, ALPHABET_length_pos⟩) = .ok (expiringLink expiresTo) := by
  have hpasses : Passes eitherEnvironment promoState (expiringInput expiresTo) :=
    { valid := rfl
      shaped := fun _ => show isSlugAvailableShape "sale" = .ok () by decide +kernel
      allowed := rfl
      notBlocked := by rw [matchBlockedDomain]; split <;> rfl
      notChained := matchRedirectChain_sample toLowerCase_sample (Or.inr destinationHost_page)
      notFlagged := show "clean" ≠ "flagged" by decide }
  have hdomain : resolveDomain eitherPlatform promoState "snap.to" =
      .ok ⟨"D1", "snap.to", none, true, "live"⟩ := by
    decide
  exact insert_eq_ok_iff.mpr ⟨_, hdomain, hpasses, fun h => absurd h (by decide),
    ⟨fun _ => show isRuntimeReserved eitherPlatform ["promo"] "sale" = false by decide, rfl,
      Or.inl rfl⟩, rfl⟩

theorem accepted_expiringLink (expiresTo : String) :
    Accepted eitherPlatform promoState.policy (expiringLink expiresTo) := by
  have hparsed : (expiringInput expiresTo).Parsed eitherPlatform :=
    ⟨⟨_, parseUrl_page, Or.inl rfl⟩, fun rule hrule => absurd hrule List.not_mem_nil⟩
  have hp : eitherEnvironment.p = eitherPlatform := rfl
  exact .create hp rfl hparsed (create_expiringInput expiresTo)

/-- **The fallback of an expiry is looked up nowhere**: a link to `https://a.com/` is accepted
that sends its visitors to `https://bit.ly/` once it has expired. -/
theorem fallback_on_shortener :
    ¬ ∀ (p : Platform) (policy : Policy) (link : StoredLink), ReadsBack p → ReadsApp p →
      Accepted p policy link → Avoids p policy link := by
  intro h
  have havoids := h eitherPlatform promoState.policy (expiringLink "https://bit.ly/")
    readsBack_eitherPlatform readsApp_eitherPlatform (accepted_expiringLink _)
  refine clear_expired havoids rfl (by decide) rfl ?_
  rw [Covered, destinationHost_of_parseUrl parseUrl_short]
  decide +kernel

/-- With a fallback on its own site the link keeps its visitors off the hosts. -/
theorem avoids_expiringLink :
    Avoids eitherPlatform promoState.policy (expiringLink "https://a.com/") := by
  refine (avoids_iff _ readsBack_eitherPlatform readsApp_eitherPlatform _ _
    (accepted_expiringLink "https://a.com/")).mpr ⟨?_, ?_, ?_⟩
  · rintro rule ⟨standing, cfg, req, ans, salt, -, -, -, -, -, harm⟩
    exact absurd harm nofun
  · rintro url hurl - -
    obtain rfl := Option.some.inj hurl
    exact (sound_of_accepted (accepted_expiringLink "https://a.com/")).clear
  · rintro url hurl
    exact absurd hurl nofun

end SnapUrl.Links.Creation
