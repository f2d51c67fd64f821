import SnapUrl.Redirect.Gate
import SnapUrl.Lib.FormRoundTrip

/-!
# The query that is forwarded

What becomes of the parameters of a short link's request: `effective` says which
values a name ends up with, the last incoming one over the UTM value over the
destination's own.

* `queryValues_buildDestination`: `buildDestination` writes **exactly the effective
  values of the query it is given**.
* `forwards_iff`: the handler gives it what is before the second `?` only, so the
  Location carries the parameters of the request **exactly when that changes no
  effective value**, as it does without a second `?` (`beforeSecond_eq_arrived`).
-/

namespace SnapUrl.Redirect

open Lib FormUrlencoded Domain

/-! ### Values -/

/-- What is after the first `?` of a text. -/
def queryText (s : String) : String := String.ofList ((s.toList.dropWhile (· ≠ '?')).drop 1)

/-- The values of a parameter in a URL. -/
def queryValues (name url : String) : List String :=
  valuesOf name (parse (queryText (beforeFirst '#' url)))

/-- What a name ends up with: its last incoming value, else its last UTM value, else all the
values of the destination. -/
def effective (own utm incoming : List (String × String)) (name : String) : List String :=
  match (valuesOf name incoming).getLast? with
  | some v => [v]
  | none =>
    match (valuesOf name utm).getLast? with
    | some v => [v]
    | none => valuesOf name own

theorem valuesOf_setAll_eq_effective (own utm incoming : List (String × String)) (name : String) :
    valuesOf name (setAll own (utm ++ incoming)) = effective own utm incoming name := by
  rw [setAll_append, valuesOf_setAll, valuesOf_setAll, effective]
  cases (valuesOf name incoming).getLast? with
  | some v => rfl
  | none => cases (valuesOf name utm).getLast? <;> rfl

/-- The query of a written URL. -/
theorem queryText_href (u : Url) : queryText (beforeFirst '#' u.href) = u.query.getD "" := by
  have hfrom := congrArg String.toList u.fromFirst_query_href
  rw [fromFirst, String.toList_ofList] at hfrom
  rw [queryText, hfrom, Url.queryPart]
  cases u.query with
  | none => rfl
  | some q => simp [String.toList_append]

/-! ### The destination -/

section Destination

variable {p : Platform} {opts : DestinationOptions} {url : Url}

/-- The parameters on a composed URL are the effective ones. -/
theorem ownPairs_composed (ps : List (String × String)) :
    ownPairs (composed url ps) = setAll (ownPairs url) ps := by
  rw [composed]
  split
  · rename_i hnone
    rw [hnone, setAll_nil]
  · have hquery : ((url.withParams (setAll (ownPairs url) ps)).query).getD "" =
        serialize (setAll (ownPairs url) ps) := by
      rw [Url.withParams]
      dsimp only
      split
      · rename_i hempty
        rw [hempty]
        rfl
      · rfl
    rw [ownPairs, hquery, parse_serialize]

/-- **The values `buildDestination` writes are the effective ones.** -/
theorem queryValues_buildDestination (hurl : p.parseUrl opts.destination = some url)
    (name : String) :
    queryValues name (buildDestination p opts) =
      effective (ownPairs url) (utmPairsOf opts.utm)
        (if opts.forwardQuery then incomingOf opts.incomingQuery else []) name := by
  rw [queryValues, buildDestination_eq hurl, queryText_href, ← ownPairs, ownPairs_composed,
    settings, valuesOf_setAll_eq_effective]

/-- The destination's path and fragment, in a URL. -/
def KeepsAddress (url : Url) (location : String) : Prop :=
  beforeFirst '?' (beforeFirst '#' location) = url.base ∧
    fromFirst '#' location = url.fragmentPart

theorem keepsAddress_composed (ps : List (String × String)) :
    KeepsAddress url (composed url ps).href := by
  obtain ⟨hbase, -, -, hfragment⟩ := composed_parts url ps
  exact ⟨by rw [Url.beforeFirst_query_href, hbase], by rw [Url.fromFirst_hash_href, hfragment]⟩

end Destination

/-! ### The app's URL -/

/-- A parser that reads back what the URL serializer writes, whatever query is set. -/
def ReadsBack (p : Platform) : Prop :=
  ∀ text url, p.parseUrl text = some url → url.protocol = "https:" ∨ url.protocol = "http:" →
    p.parseUrl url.href = some url ∧
      ∀ ps, p.parseUrl (url.withParams ps).href = some (url.withParams ps)

/-- An app's URL for the same host and path, and a page with the same parameters as its
fallback. -/
def OpensApp (url : Url) (location : String) : Prop :=
  beforeFirst '?' (beforeFirst '#' location) = "intent://" ++ url.host ++ url.pathname ∧
    ∃ androidPackage page, KeepsAddress url page ∧
      (∀ name, queryValues name page = queryValues name location) ∧
      fromFirst '#' location = "#Intent;scheme=https;package=" ++ androidPackage ++
        ";S.browser_fallback_url=" ++ String.ofList (encodeURIComponent page.toList) ++ ";end"

section App

variable {p : Platform} {url : Url} {device : DeviceType} {enabled : Bool}

theorem noDelimiter_host_pathname (u : Url) :
    NoDelimiter ("intent://" ++ u.host ++ u.pathname) := by
  have hbase := u.noDelimiter_base
  rw [Url.base, noDelimiter_append, noDelimiter_append, noDelimiter_append] at hbase
  rw [noDelimiter_append, noDelimiter_append]
  exact ⟨⟨by decide, hbase.1.2⟩, hbase.2⟩

/-- What an app's URL for `u` is cut into. -/
theorem intent_parts (u : Url) (rest : String) (hrest : rest.toList.head? = some '#') :
    beforeFirst '?' (beforeFirst '#' ("intent://" ++ u.host ++ u.pathname ++ u.search ++ rest)) =
        "intent://" ++ u.host ++ u.pathname ∧
      fromFirst '#' ("intent://" ++ u.host ++ u.pathname ++ u.search ++ rest) = rest ∧
      queryText (beforeFirst '#' ("intent://" ++ u.host ++ u.pathname ++ u.search ++ rest)) =
        u.query.getD "" := by
  have hclean := noDelimiter_host_pathname u
  have hhash : '#' ∉ ("intent://" ++ u.host ++ u.pathname ++ u.search).toList := by
    rw [String.toList_append, List.mem_append, not_or]
    exact ⟨hclean.2, u.hash_notMem_search⟩
  rw [beforeFirst_append hhash (Or.inr hrest), fromFirst_append hhash (Or.inr hrest)]
  refine ⟨beforeFirst_append hclean.1 (u.search_eq_empty_or), rfl, ?_⟩
  have hfrom := congrArg String.toList (fromFirst_append hclean.1 (u.search_eq_empty_or))
  rw [fromFirst, String.toList_ofList] at hfrom
  rw [queryText, hfrom, Url.search]
  cases u.query with
  | none => rfl
  | some q =>
    dsimp only
    split
    · rename_i hempty
      simp [hempty]
    · simp [String.toList_append]

/-- What a Location is: the page itself, or on Android the app's URL with the page as its
fallback. -/
theorem buildDeepLink_eq_or (u : Url) (device : DeviceType) (enabled : Bool)
    (hparse : p.parseUrl u.href = some u) :
    buildDeepLink p u.href (some device) enabled = u.href ∨
      (enabled = true ∧ device = .android) ∧ ∃ androidPackage,
        buildDeepLink p u.href (some device) enabled =
          "intent://" ++ u.host ++ u.pathname ++ u.search ++
            ("#Intent;scheme=https;package=" ++ androidPackage ++ ";S.browser_fallback_url=" ++
              String.ofList (encodeURIComponent u.href.toList) ++ ";end") := by
  by_cases hself : enabled = false ∨ device ≠ .android
  · exact Or.inl (buildDeepLink_eq_self (hself.imp_right (mt Option.some.inj)))
  rw [not_or, Bool.not_eq_false, not_not] at hself
  obtain ⟨henabled, rfl⟩ := hself
  rw [buildDeepLink, if_neg (by simp [henabled]), if_neg (not_not.mpr rfl), hparse]
  dsimp only
  split
  · exact Or.inl rfl
  · split
    · exact Or.inl rfl
    · rename_i androidPackage _
      refine Or.inr ⟨⟨henabled, rfl⟩, androidPackage, ?_⟩
      simp only [String.append_assoc]

end App

/-! ### The Location -/

/-- A Location that carries these parameters to the destination's path and fragment. -/
structure Forwards (url : Url) (values : String → List String) (app : Bool) (location : String) :
    Prop where
  parameters : ∀ name, queryValues name location = values name
  address : KeepsAddress url location ∨ app = true ∧ OpensApp url location

section Location

variable {p : Platform} {url : Url} {device : DeviceType} {enabled : Bool}

/-- **A deep link carries what its page carries.** -/
theorem forwards_buildDeepLink (hparser : ReadsBack p) {text : String}
    (hurl : p.parseUrl text = some url) (hhttp : url.protocol = "https:" ∨ url.protocol = "http:")
    (ps : List (String × String)) (device : DeviceType) (enabled : Bool) :
    Forwards url (fun name => valuesOf name (setAll (ownPairs url) ps))
      (enabled && device = .android) (buildDeepLink p (composed url ps).href (some device) enabled) := by
  have hparse : p.parseUrl (composed url ps).href = some (composed url ps) := by
    rw [composed]
    split
    · exact (hparser _ _ hurl hhttp).1
    · exact (hparser _ _ hurl hhttp).2 _
  have hpage : ∀ name, queryValues name (composed url ps).href =
      valuesOf name (setAll (ownPairs url) ps) := by
    intro name
    rw [queryValues, queryText_href, ← ownPairs, ownPairs_composed]
  rcases buildDeepLink_eq_or _ device enabled hparse with
    hself | ⟨happ, androidPackage, hintent⟩
  · rw [hself]
    exact ⟨hpage, Or.inl (keepsAddress_composed ps)⟩
  · obtain ⟨-, hhost, hpathname, -⟩ := composed_parts url ps
    have hrest : ("#Intent;scheme=https;package=" ++ androidPackage ++
        ";S.browser_fallback_url=" ++
          String.ofList (encodeURIComponent (composed url ps).href.toList) ++
            ";end").toList.head? = some '#' := by
      simp [String.toList_append]
    obtain ⟨hbefore, hfrom, hquery⟩ := intent_parts (composed url ps) _ hrest
    have hvalues : ∀ name, queryValues name
        (buildDeepLink p (composed url ps).href (some device) enabled) =
          valuesOf name (setAll (ownPairs url) ps) := by
      intro name
      rw [hintent, queryValues, hquery, ← ownPairs, ownPairs_composed]
    refine ⟨hvalues, Or.inr ⟨by simp [happ], ?_⟩⟩
    rw [OpensApp, hintent]
    refine ⟨by rw [hbefore, hhost, hpathname], androidPackage, (composed url ps).href,
      keepsAddress_composed ps, ?_, hfrom⟩
    intro name
    rw [hpage, ← hintent, hvalues]

end Location

/-! ### The request -/

/-- The parameters that arrive with a request: the unlock token is not one of them. -/
def arrived (req : Request) : List (String × String) :=
  (parse (queryText req.url)).filter (·.1 ≠ "k")

/-- The parameters in what is before the second `?`. -/
def beforeSecond (req : Request) : List (String × String) :=
  (parse (beforeFirst '?' (queryText req.url))).filter (·.1 ≠ "k")

/-- Where the routing sends the visitor of a request. -/
def destinationFor (p : Platform) (cfg : Config) (req : Request) (link : ResolvedLink)
    (salt : String) : String :=
  (evaluateRouting p link.rules link.destination
    { country := orNull (p.toUpperCase (orEmpty req.viewerCountry))
      device := some (parseDevice p (orEmpty req.userAgent))
      language := parseLanguage p req.acceptLanguage
      visitorHash := visitorHash p salt
        (clientIpFromXff req.xForwardedFor req.socketIp cfg.trustedProxyHops)
        (orEmpty req.userAgent) link.id }).destination

/-- Whether the link opens an app for the visitor of a request. -/
def opensApp (p : Platform) (req : Request) (link : ResolvedLink) : Bool :=
  link.deepLink && parseDevice p (orEmpty req.userAgent) = .android

section Request

variable {p : Platform} {cfg : Config} {req : Request} {ans : Answers} {link : ResolvedLink}
  {salt : String}

/-- **The second piece of a split at `?` is the query up to the next `?`.** -/
theorem orEmpty_splitAtChar (s : String) :
    orEmpty (splitAtChar '?' s)[1]? = beforeFirst '?' (queryText s) := by
  have hsplit := List.takeWhile_append_dropWhile (p := fun d => decide (d ≠ '?')) (l := s.toList)
  rw [splitAtChar, queryText, beforeFirst, String.toList_ofList]
  rcases dropWhile_ne_eq_nil_or (c := '?') s.toList with ⟨hnil, hnot⟩ | ⟨rest, hrest⟩
  · rw [hnil, List.splitOn_eq_singleton hnot]
    rfl
  · have hpieces : s.toList.splitOn '?' = s.toList.takeWhile (· ≠ '?') :: rest.splitOn '?' := by
      rw [hrest] at hsplit
      rw [← List.splitOn_append_cons_self_of_not_mem (notMem_takeWhile_ne '?' s.toList), hsplit]
    have hhead := head?_splitOn '?' rest
    rw [hrest, hpieces, List.map_cons, List.getElem?_cons_succ, ← List.head?_eq_getElem?,
      List.head?_map, hhead]
    rfl

/-- What the handler has of a request's parameters. -/
theorem incomingOf_request : incomingOf (splitAtChar '?' req.url)[1]? = beforeSecond req := by
  have hcut : ∀ s : String, '?' ∉ s.toList → urlSearchParams s = parse s := by
    intro s hs
    rw [urlSearchParams]
    split
    · rename_i rest heq
      exact absurd (heq ▸ List.mem_cons_self) hs
    · rfl
  rw [incomingOf, orEmpty_splitAtChar, forwardedPairs, hcut _ ?_, beforeSecond]
  rw [beforeFirst, String.toList_ofList]
  exact notMem_takeWhile_ne '?' _

/-- **Without a second `?` nothing is lost.** -/
theorem beforeSecond_eq_arrived (h : '?' ∉ (queryText req.url).toList) :
    beforeSecond req = arrived req := by
  have hwhole := beforeFirst_append h (Or.inl rfl)
  rw [String.append_empty] at hwhole
  rw [beforeSecond, arrived, hwhole]

/-- A routed visitor goes through `route`. -/
theorem handle_eq_route (hlink : ans.link = some link) (hsalt : ans.salt = some salt)
    (h : (handle p cfg req ans).exit.isRouted = true) :
    handle p cfg req ans = route p cfg req link salt := by
  obtain ⟨hplus, link', hlink', -, -, -⟩ := (handle_routed_iff ans).mp h
  have hafter : ∀ blocked, (afterGate p cfg req link ans.salt blocked).exit.isRouted = true →
      afterGate p cfg req link ans.salt blocked = route p cfg req link salt := by
    intro blocked hrouted
    obtain ⟨rfl, hopen, -⟩ := (isRouted_afterGate blocked).mp hrouted
    simp only [afterGate, hsalt]
    refine if_neg ?_
    rw [Bool.and_eq_true, Bool.not_eq_true', not_and, Bool.not_eq_false]
    exact hopen
  rw [handle, if_neg (by simp [hplus]), hlink] at h ⊢
  dsimp only at h ⊢
  split
  · rename_i hneeded
    rw [if_pos hneeded] at h
    split
    · rename_i hraised
      rw [if_pos hraised] at h
      exact absurd h (by simp [Exit.isRouted])
    · rename_i hraised
      rw [if_neg hraised] at h
      exact hafter _ h
  · rename_i hneeded
    rw [if_neg hneeded] at h
    exact hafter _ h

/-- The Location carries the parameters before the second `?`. -/
theorem forwards_beforeSecond (hparser : ReadsBack p) {url : Url}
    (hurl : p.parseUrl (destinationFor p cfg req link salt) = some url)
    (hhttp : url.protocol = "https:" ∨ url.protocol = "http:") (hforward : link.forwardQuery = true)
    {target : String} {status : Nat} {headers : List (String × String)}
    (htarget : (route p cfg req link salt).exit = .routed target status headers) :
    Forwards url (effective (ownPairs url) (utmPairsOf link.utm) (beforeSecond req))
      (opensApp p req link) target := by
  obtain ⟨rfl, -, -⟩ := Exit.routed.inj htarget
  have hpage : buildDestination p ⟨destinationFor p cfg req link salt,
      (splitAtChar '?' req.url)[1]?, link.forwardQuery, link.utm⟩ =
        (composed url (utmPairsOf link.utm ++ beforeSecond req)).href := by
    rw [buildDestination_eq hurl, settings]
    dsimp only
    rw [if_pos hforward, incomingOf_request]
  have hcarried := forwards_buildDeepLink hparser hurl hhttp
    (utmPairsOf link.utm ++ beforeSecond req) (parseDevice p (orEmpty req.userAgent)) link.deepLink
  rw [← hpage] at hcarried
  simp only [valuesOf_setAll_eq_effective] at hcarried
  exact hcarried

end Request

/-- **What reaches the destination.**  A routed visitor's Location carries every
parameter of the request over the UTM values over the destination's own, with the
destination's path and fragment, exactly when what follows a second `?` in the
request changes no parameter. -/
theorem forwards_iff (p : Platform) (hparser : ReadsBack p) (cfg : Config) (req : Request)
    (ans : Answers) {link : ResolvedLink} {salt : String} {url : Url} (hlink : ans.link = some link)
    (hsalt : ans.salt = some salt)
    (hurl : p.parseUrl (destinationFor p cfg req link salt) = some url)
    (hhttp : url.protocol = "https:" ∨ url.protocol = "http:") (hforward : link.forwardQuery = true)
    {target : String} {status : Nat} {headers : List (String × String)}
    (htarget : (handle p cfg req ans).exit = .routed target status headers) :
    Forwards url (effective (ownPairs url) (utmPairsOf link.utm) (arrived req))
        (opensApp p req link) target ↔
      ∀ name, effective (ownPairs url) (utmPairsOf link.utm) (beforeSecond req) name =
        effective (ownPairs url) (utmPairsOf link.utm) (arrived req) name := by
  have hrouted : (handle p cfg req ans).exit.isRouted = true := by
    rw [htarget]
    rfl
  have hroute := handle_eq_route hlink hsalt hrouted
  have hcarried := forwards_beforeSecond hparser hurl hhttp hforward (hroute ▸ htarget)
  constructor
  · intro h name
    rw [← hcarried.parameters, h.parameters]
  · intro h
    exact ⟨fun name => (hcarried.parameters name).trans (h name), hcarried.address⟩

/-! ### A second question mark -/

/-- A page of `https://a.com/`. -/
def pageUrl (query fragment : Option String) (hquery : ∀ q, query = some q → '#' ∉ q.toList) :
    Url where
  protocol := "https:"
  authority := "//"
  hostname := "a.com"
  port := ""
  pathname := "/"
  query := query
  fragment := fragment
  base_clean := by decide
  query_clean := hquery

/-- The text without its first character, none when it is empty. -/
def afterMark (s : String) : Option String :=
  match s.toList with
  | [] => none
  | _ :: rest => some (String.ofList rest)

theorem afterMark_map (c : String) (hc : c.toList.length = 1) (part : Option String) :
    afterMark ((part.map (c ++ ·)).getD "") = part := by
  obtain ⟨d, hd⟩ := List.length_eq_one_iff.mp hc
  cases part with
  | none => rfl
  | some s => simp [afterMark, String.toList_append, hd]

theorem hash_notMem_afterMark (s : String) :
    ∀ q, afterMark (fromFirst '?' (beforeFirst '#' s)) = some q → '#' ∉ q.toList := by
  intro q hq hmem
  rw [afterMark] at hq
  split at hq
  · simp at hq
  · rename_i first rest hrest
    rw [Option.some.injEq] at hq
    rw [fromFirst, beforeFirst, String.toList_ofList, String.toList_ofList] at hrest
    rw [← hq, String.toList_ofList] at hmem
    have hbefore : '#' ∈ s.toList.takeWhile (· ≠ '#') :=
      (List.dropWhile_suffix _).subset (hrest ▸ List.mem_cons_of_mem _ hmem)
    exact notMem_takeWhile_ne '#' _ hbefore

/-- A parser that knows the pages of `https://a.com/`. -/
def parsePage (s : String) : Option Url :=
  if beforeFirst '?' (beforeFirst '#' s) = "https://a.com/" then
    some (pageUrl (afterMark (fromFirst '?' (beforeFirst '#' s))) (afterMark (fromFirst '#' s))
      (hash_notMem_afterMark s))
  else none

theorem parsePage_href {query fragment : Option String}
    (hquery : ∀ q, query = some q → '#' ∉ q.toList) :
    parsePage (pageUrl query fragment hquery).href = some (pageUrl query fragment hquery) := by
  have hbase : (pageUrl query fragment hquery).base = "https://a.com/" := by
    change "https:" ++ "//" ++ (if "" = "" then "a.com" else "a.com" ++ ":" ++ "") ++ "/" = _
    decide
  have hparts : afterMark (fromFirst '?' (beforeFirst '#' (pageUrl query fragment hquery).href)) =
      query ∧ afterMark (fromFirst '#' (pageUrl query fragment hquery).href) = fragment := by
    rw [Url.fromFirst_query_href, Url.fromFirst_hash_href]
    exact ⟨afterMark_map "?" rfl query, afterMark_map "#" rfl fragment⟩
  rw [parsePage, if_pos ((Url.beforeFirst_query_href _).trans hbase)]
  simp only [hparts]

theorem exists_pageUrl_withParams {query fragment : Option String}
    (hquery : ∀ q, query = some q → '#' ∉ q.toList) (ps : List (String × String)) :
    ∃ query' hquery', (pageUrl query fragment hquery).withParams ps =
      pageUrl query' fragment hquery' :=
  ⟨_, ((pageUrl query fragment hquery).withParams ps).query_clean, rfl⟩

/-- A runtime with this parser. -/
def pagePlatform : Platform := { samplePlatform with parseUrl := parsePage }

theorem parseUrl_pagePlatform : pagePlatform.parseUrl = parsePage := by
  rw [pagePlatform]

theorem readsBack_pagePlatform : ReadsBack pagePlatform := by
  rw [ReadsBack, parseUrl_pagePlatform]
  intro text url hurl _
  rw [parsePage] at hurl
  split at hurl
  · rw [Option.some.injEq] at hurl
    rw [← hurl]
    refine ⟨parsePage_href _, ?_⟩
    intro ps
    obtain ⟨query, hquery, hset⟩ := exists_pageUrl_withParams (hash_notMem_afterMark text) ps
    rw [hset]
    exact parsePage_href hquery
  · simp at hurl

/-- A link to one of the pages, with nothing to gate it. -/
def pageAnswers : Answers where
  now := 0
  link := some { sampleLink with
    destination := "https://a.com/?x=a%20b#top"
    clickLimit := none
    utm := some ⟨some "mail", none, none, none⟩ }
  domain := none
  reservation := .unavailable
  salt := some "salt"

/-- The page, parsed. -/
def samplePage : Url := pageUrl (some "x=a%20b") (some "top") (by
  intro q hq
  rw [Option.some.injEq] at hq
  exact hq ▸ by decide)

theorem parsePage_samplePage : parsePage "https://a.com/?x=a%20b#top" = some samplePage := by
  have hhref : samplePage.href = "https://a.com/?x=a%20b#top" := by decide
  rw [← hhref]
  exact parsePage_href _

theorem queryValues_samplePage :
    queryValues "x" (buildDestination pagePlatform
      ⟨"https://a.com/?x=a%20b#top", some "x=1&x=2", true, none⟩) = ["2"] :=
  (queryValues_buildDestination (parseUrl_pagePlatform ▸ parsePage_samplePage) "x").trans
    (by decide)

/-- A request with a query. -/
def queryRequest (query : String) : Request := { sampleRequest with url := "/a?" ++ query }

theorem parseUrl_destinationFor_queryRequest (query : String) (link : ResolvedLink)
    (hlink : pageAnswers.link = some link) :
    pagePlatform.parseUrl (destinationFor pagePlatform sampleConfig (queryRequest query) link
      "salt") = some samplePage := by
  obtain rfl := Option.some.inj hlink
  rw [parseUrl_pagePlatform]
  exact parsePage_samplePage

/-- A parameter of the request goes over the page's own, a new one behind the UTM values. -/
theorem forwards_samplePage :
    Forwards samplePage
      (effective (ownPairs samplePage) (utmPairsOf (some ⟨some "mail", none, none, none⟩))
        (arrived (queryRequest "x=1&y=2"))) false
      "https://a.com/?x=1&utm_source=mail&y=2#top" := by
  have htarget : (handle pagePlatform sampleConfig (queryRequest "x=1&y=2") pageAnswers).exit =
      .routed "https://a.com/?x=1&utm_source=mail&y=2#top" 302
        (cacheHeadersFor .r302) := by
    decide +kernel
  have hiff := forwards_iff pagePlatform readsBack_pagePlatform sampleConfig
    (queryRequest "x=1&y=2") pageAnswers rfl rfl
    (parseUrl_destinationFor_queryRequest _ _ rfl) (Or.inl rfl) rfl htarget
  refine hiff.mpr ?_
  intro name
  rw [beforeSecond_eq_arrived (by decide)]

/-- **What follows a second `?` is lost**: of `a=1?b&c=2` only `a=1` reaches the page. -/
theorem second_mark_loses_parameters :
    ¬ ∀ (p : Platform) (cfg : Config) (req : Request) (ans : Answers) (link : ResolvedLink)
      (salt : String) (url : Url) (target : String) (status : Nat)
      (headers : List (String × String)), ReadsBack p → ans.link = some link →
      ans.salt = some salt → p.parseUrl (destinationFor p cfg req link salt) = some url →
      url.protocol = "https:" ∨ url.protocol = "http:" → link.forwardQuery = true →
      (handle p cfg req ans).exit = .routed target status headers →
      Forwards url (effective (ownPairs url) (utmPairsOf link.utm) (arrived req))
        (opensApp p req link) target := by
  intro h
  have htarget : (handle pagePlatform sampleConfig (queryRequest "a=1?b&c=2") pageAnswers).exit =
      .routed "https://a.com/?x=a+b&utm_source=mail&a=1#top" 302 (cacheHeadersFor .r302) := by
    decide +kernel
  have hcarried := h _ _ _ _ _ _ _ _ _ _ readsBack_pagePlatform rfl rfl
    (parseUrl_destinationFor_queryRequest _ _ rfl) (Or.inl rfl) rfl htarget
  have hlost := hcarried.parameters "c"
  exact absurd hlost (by decide +kernel)

end SnapUrl.Redirect
