import SnapUrl.Edge.ViewerRequest

/-!
# The edge and the Lambda

For a link the edge may answer, the edge function and `buildDestination` get to
the same string by two ways.

* `edgeLocation_eq`: **they agree on every query that is not the unlock token
  alone**.
* `token_rewrites_query`: a destination whose query does not survive the token alone.
* `decide_eq`: the function as a whole never gets there, it leaves every query
  with a token to the Lambda, so **what it answers is what `buildDestination`
  returns**.
-/

namespace SnapUrl.Edge

open Lib FormUrlencoded Domain Projection

/-- What the Lambda makes of the link's destination and the query. -/
def lambdaLocation (p : Platform) (link : ProjectedLink) (query : String) : String :=
  buildDestination p ⟨link.destination, some query, link.forwardQuery, link.utm⟩

/-- The query has pairs, and all of them are the unlock token. -/
def TokenOnly (query : String) : Prop :=
  urlSearchParams query ≠ [] ∧ forwardedPairs query = []

instance (query : String) : Decidable (TokenOnly query) :=
  inferInstanceAs (Decidable (_ ∧ _))

section

variable {p : Platform} {link : ProjectedLink} {query : String} {url : Url}

theorem lambdaLocation_of_parseUrl_none (h : p.parseUrl link.destination = none) :
    lambdaLocation p link query = link.destination := by
  rw [lambdaLocation, buildDestination]
  simp only [h]

/-- What the link and the query set on the destination. -/
theorem lambdaLocation_eq (hparse : p.parseUrl link.destination = some url)
    (hutm : link.utm = none) :
    lambdaLocation p link query =
      (composed url (if link.forwardQuery then forwardedPairs query else [])).href := by
  rw [lambdaLocation, buildDestination_eq hparse, settings, hutm]
  rfl

/-- Nothing set, nothing rewritten. -/
theorem lambdaLocation_eq_href (hparse : p.parseUrl link.destination = some url)
    (hutm : link.utm = none) (h : link.forwardQuery = false ∨ forwardedPairs query = []) :
    lambdaLocation p link query = url.href := by
  rw [lambdaLocation_eq hparse hutm, composed, if_pos]
  rcases h with h | h
  · simp [h]
  · simp [h]

theorem lambdaLocation_eq_setAll (hparse : p.parseUrl link.destination = some url)
    (hutm : link.utm = none) (hforward : link.forwardQuery = true)
    (h : forwardedPairs query ≠ []) :
    lambdaLocation p link query =
      (url.withParams (setAll (UrlObject.ofUrl url).params (forwardedPairs query))).href := by
  rw [lambdaLocation_eq hparse hutm, if_pos hforward, composed, if_neg h]
  rfl

/-! ### The edge's way -/

theorem foldl_setParam (ps qs : List (String × String)) :
    qs.foldl (fun merged p => setParam merged p.1 p.2) ps = setAll ps qs := by
  simp only [setParam_eq, setAll]

/-- What the edge merges is what the Lambda forwards. -/
theorem setAll_incoming (params : List (String × String)) :
    setAll params ((setAll [] (urlSearchParams query)).filter (·.1 ≠ "k")) =
      setAll params (forwardedPairs query) := by
  rw [filter_setAll_nil, setAll_setAll_nil, forwardedPairs]

/-- What the edge answers once it has a query to merge. -/
theorem edgeLocation_merge {incoming : List (String × String)}
    (hparse : p.parseUrl link.destination = some url) (hforward : link.forwardQuery = true)
    (qs : CloudFrontQuerystring (urlSearchParams query))
    (hincoming : incomingPairs qs.entries = some incoming) (hne : incoming ≠ []) :
    edgeLocation (kvsValue p link) qs.entries =
      some (url.withParams (setAll (UrlObject.ofUrl url).params (forwardedPairs query))).href := by
  have hmerged : (incoming.filter (·.1 ≠ "k")).foldl (fun merged p => setParam merged p.1 p.2)
      (UrlObject.ofUrl url).params =
        setAll (UrlObject.ofUrl url).params (forwardedPairs query) := by
    rw [foldl_setParam, incomingPairs_eq qs hincoming, setAll_incoming]
  obtain ⟨q, rest, rfl⟩ := List.exists_cons_of_ne_nil hne
  have hkvs : kvsValue p link = ⟨url.href, link.redirectType, true, some url.base,
      some (UrlObject.ofUrl url).params, some url.fragmentPart⟩ := by
    simp [kvsValue, decomposeDestination_eq p hparse, hforward]
  rw [edgeLocation, hkvs]
  simp only [Bool.not_true, Bool.false_eq_true, if_false, hincoming, Option.getD_some, hmerged,
    serialiseParams_eq]
  rw [Url.href_withParams]

/-- **The edge and the Lambda agree on every query that is not the token alone.** -/
theorem edgeLocation_eq (heligible : isEdgeEligible link = true)
    (qs : CloudFrontQuerystring (urlSearchParams query)) (htoken : ¬ TokenOnly query) :
    edgeLocation (kvsValue p link) qs.entries = none ∨
      edgeLocation (kvsValue p link) qs.entries = some (lambdaLocation p link query) := by
  have hutm := utm_of_isEdgeEligible heligible
  cases hparse : p.parseUrl link.destination with
  | none =>
    have hkvs : kvsValue p link = ⟨link.destination, link.redirectType, link.forwardQuery, none,
        none, none⟩ := by
      simp [kvsValue, decomposeDestination, hparse]
    rw [lambdaLocation_of_parseUrl_none hparse, hkvs, edgeLocation]
    split
    · exact Or.inr rfl
    · split
      · exact Or.inl rfl
      · exact Or.inr rfl
      · exact Or.inl rfl
  | some url =>
    have hdestination : (kvsValue p link).destination = url.href := by
      simp [kvsValue, decomposeDestination_eq p hparse]
    by_cases hforward : link.forwardQuery = true
    · cases hincoming : incomingPairs qs.entries with
      | none => exact Or.inl (by simp [edgeLocation, kvsValue, hforward, hincoming])
      | some incoming =>
        right
        by_cases hne : incoming = []
        · have hempty : urlSearchParams query = [] := by
            by_contra hquery
            exact setAll_ne_nil hquery (hne ▸ (incomingPairs_eq qs hincoming).symm)
          have hforwarded : forwardedPairs query = [] := by simp [forwardedPairs, hempty]
          rw [lambdaLocation_eq_href hparse hutm (Or.inr hforwarded), ← hdestination]
          simp [edgeLocation, kvsValue, hforward, hincoming, hne]
        · have hforwarded : forwardedPairs query ≠ [] := by
            intro hnone
            refine htoken ⟨fun hquery => hne ?_, hnone⟩
            rw [incomingPairs_eq qs hincoming, hquery, setAll_nil]
          rw [edgeLocation_merge hparse hforward qs hincoming hne,
            lambdaLocation_eq_setAll hparse hutm hforward hforwarded]
    · have hfixed : link.forwardQuery = false := Bool.eq_false_iff.mpr hforward
      rw [lambdaLocation_eq_href hparse hutm (Or.inl hfixed), ← hdestination]
      exact Or.inr (by simp [edgeLocation, kvsValue, hfixed])

theorem not_tokenOnly_of_notMem (qs : CloudFrontQuerystring (urlSearchParams query))
    (h : "k" ∉ qs.entries.map Prod.fst) : ¬ TokenOnly query := by
  rintro ⟨hne, hnone⟩
  obtain ⟨q, rest, hquery⟩ := List.exists_cons_of_ne_nil hne
  have hq : q ∈ urlSearchParams query := hquery ▸ List.mem_cons_self
  have hk : q.1 = "k" := by
    by_contra hk
    have hmem : q ∈ forwardedPairs query := List.mem_filter.mpr ⟨hq, by simpa using hk⟩
    exact absurd (hnone ▸ hmem) List.not_mem_nil
  exact h ((qs.keys "k").mpr (hk ▸ List.mem_map_of_mem hq))

/-- **What the function answers is what `buildDestination` returns** for the link it found. -/
theorem decide_eq {links : String → Option ProjectedLink}
    (heligible : ∀ key link, links key = some link → isEdgeEligible link = true)
    (qs : CloudFrontQuerystring (urlSearchParams query)) {method uri location : String}
    {host : Option String} {statusCode : Nat}
    (h : decide p ⟨method, host, uri, qs.entries⟩ (fun key => (links key).map (kvsValue p)) =
      .redirect statusCode location) :
    ∃ key link, links key = some link ∧ location = lambdaLocation p link query := by
  rw [decide] at h
  split at h
  · simp at h
  split at h
  · simp at h
  rename_i hk
  split at h
  · simp at h
  rename_i slug _
  split at h
  · simp at h
  split at h
  · simp at h
  rename_i parsed hparsed
  obtain ⟨link, hlink, rfl⟩ := Option.map_eq_some_iff.mp hparsed
  split at h
  · simp at h
  split at h
  · simp at h
  rename_i found hfound
  have hlocation : found = location := by
    rw [EdgeAnswer.redirect.injEq] at h
    exact h.2
  refine ⟨_, link, hlink, ?_⟩
  rcases edgeLocation_eq (p := p) (heligible _ link hlink) qs (not_tokenOnly_of_notMem qs hk)
    with hnone | hsome
  · exact absurd (hnone.symm.trans hfound) (by simp)
  · exact hlocation ▸ (Option.some.inj (hfound.symm.trans hsome))

end

/-- **The edge agrees with the Lambda.**  For every link the edge may serve, its
location is the Lambda's on every query but the unlock token alone, and the
function as a whole answers every query with the Lambda's or not at all. -/
theorem edge_agrees (p : Platform) (links : String → Option ProjectedLink)
    (heligible : ∀ key link, links key = some link → isEdgeEligible link = true)
    (query : String) (qs : CloudFrontQuerystring (urlSearchParams query)) :
    (∀ key link, links key = some link → ¬ TokenOnly query →
      edgeLocation (kvsValue p link) qs.entries = none ∨
        edgeLocation (kvsValue p link) qs.entries = some (lambdaLocation p link query)) ∧
      ∀ method host uri statusCode location,
        decide p ⟨method, host, uri, qs.entries⟩ (fun key => (links key).map (kvsValue p)) =
          .redirect statusCode location →
        ∃ key link, links key = some link ∧ location = lambdaLocation p link query :=
  ⟨fun key link hlink => edgeLocation_eq (heligible key link hlink) qs,
    fun _ _ _ _ _ h => decide_eq heligible qs h⟩

/-! ### A query that does not survive -/

theorem spacedUrl_base_clean :
    Lib.NoDelimiter ("https:" ++ "//" ++
      (if "" = "" then "a.com" else "a.com" ++ ":" ++ "") ++ "/") := by
  decide

theorem spacedUrl_query_clean (q : String) (hq : some "x=a%20b" = some q) : '#' ∉ q.toList := by
  rw [Option.some.injEq] at hq
  exact hq ▸ by decide

/-- `https://a.com/?x=a%20b`, parsed. -/
def spacedUrl : Url where
  protocol := "https:"
  authority := "//"
  hostname := "a.com"
  port := ""
  pathname := "/"
  query := some "x=a%20b"
  fragment := none
  base_clean := spacedUrl_base_clean
  query_clean := spacedUrl_query_clean

/-- A runtime for ASCII texts that knows this one URL. -/
def spacedPlatform : Platform where
  toLowerCase s := String.ofList (s.toList.map Char.toLower)
  toUpperCase s := String.ofList (s.toList.map Char.toUpper)
  parseUrl s := if s = "https://a.com/?x=a%20b" then some spacedUrl else none
  parseDate _ := none
  toISOString _ := ""
  parseJson _ := none
  stringifyJson _ := "null"
  hmacSha256Hex _ _ := ""
  verifyToken _ _ := none

/-- A plain link to it. -/
def spacedLink : ProjectedLink where
  id := "link"
  workspaceId := "workspace"
  destination := "https://a.com/?x=a%20b"
  redirectType := .r302
  rules := []
  expiresAt := none
  expiresTo := none
  activatesAt := none
  scheduledTo := none
  clickLimit := none
  clicks := 0
  hasPassword := false
  forwardQuery := true
  deepLink := false
  hideReferrer := false
  publicPreview := true
  archived := false
  disabled := false
  ownerUnverified := false
  safeBrowsingStatus := "clean"
  utm := none

/-- **The token alone rewrites a query**: the edge location has `x=a+b` where the
Lambda's has `x=a%20b`. -/
theorem token_rewrites_query :
    ¬ ∀ (p : Platform) (link : ProjectedLink) (query : String)
      (qs : CloudFrontQuerystring (urlSearchParams query)), isEdgeEligible link = true →
        edgeLocation (kvsValue p link) qs.entries = none ∨
          edgeLocation (kvsValue p link) qs.entries = some (lambdaLocation p link query) := by
  intro h
  have hedge : edgeLocation (kvsValue spacedPlatform spacedLink)
      (CloudFrontQuerystring.ofPairs (urlSearchParams "k=1")).entries =
        some "https://a.com/?x=a+b" := by
    decide
  have hlambda : lambdaLocation spacedPlatform spacedLink "k=1" = "https://a.com/?x=a%20b" := by
    decide
  have hboth := h spacedPlatform spacedLink "k=1" (.ofPairs _) (by decide)
  rw [hedge, hlambda] at hboth
  exact absurd hboth (by decide)

/-- A forwarded parameter goes over the destination's own at both ends. -/
theorem edge_agrees_spacedLink :
    edgeLocation (kvsValue spacedPlatform spacedLink)
        (CloudFrontQuerystring.ofPairs (urlSearchParams "x=1&y=2")).entries =
      some (lambdaLocation spacedPlatform spacedLink "x=1&y=2") := by
  have hagree := (edge_agrees spacedPlatform (fun _ => some spacedLink)
    (by intro _ link h; rw [Option.some.injEq] at h; exact h ▸ by decide) "x=1&y=2"
    (.ofPairs _)).1 "snap.to/a" spacedLink rfl (by decide)
  exact hagree.resolve_left (by decide)

end SnapUrl.Edge
