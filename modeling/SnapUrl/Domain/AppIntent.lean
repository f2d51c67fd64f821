import SnapUrl.Lib.AndroidIntent
import SnapUrl.Domain.Destination
import SnapUrl.Domain.DeepLink

/-!
# Deep links in Android's grammar

What the URL of `buildDeepLink` is to a browser on Android, where the query of the
destination is the visitor's and stands next to the attributes that choose the app.

* `packageFor_listed`: the package is one that is listed for the host or for a domain
  above it.
* `intentText_eq_write`: the template writes three attributes, each encoded.
* `buildDeepLink_intent`: **a destination is handed over as it is, or as an intent that
  reads back as its host, path and query, its package and itself, whatever the visitor
  has appended to it**.
-/

namespace SnapUrl.Domain

open Lib FormUrlencoded

/-! ### Hosts -/

/-- The package is listed for the host or for a domain above it. -/
def ListedFor (host androidPackage : String) : Prop :=
  ∃ domain, (domain, androidPackage) ∈ androidPackages ∧
    (host = domain ∨ endsWith host ("." ++ domain) = true)

section Hosts

variable {host domain androidPackage : String}

theorem dropWww_eq_or (host : String) :
    dropWww host = host ∨ host.toList = "www.".toList ++ (dropWww host).toList := by
  rw [dropWww]
  split
  · rename_i hwww
    obtain ⟨rest, hrest⟩ := List.isPrefixOf_iff_prefix.mp hwww
    refine Or.inr ?_
    have hdrop : host.toList.drop 4 = rest := by
      rw [← hrest]
      rfl
    rw [hdrop, ← hrest]
    exact congrArg _ String.toList_ofList.symm
  · exact Or.inl rfl

/-- Without its `www.` a host is at a domain or below it only if it is so as a whole. -/
theorem atOrBelow_of_dropWww
    (h : dropWww host = domain ∨ endsWith (dropWww host) ("." ++ domain) = true) :
    host = domain ∨ endsWith host ("." ++ domain) = true := by
  rcases dropWww_eq_or host with hsame | hwww
  · rwa [hsame] at h
  · refine Or.inr (List.isSuffixOf_iff_suffix.mpr ?_)
    rw [hwww]
    rcases h with rfl | hbelow
    · refine ⟨"www".toList, ?_⟩
      rw [String.toList_append, ← List.append_assoc]
      rfl
    · exact (List.isSuffixOf_iff_suffix.mp hbelow).trans (List.suffix_append _ _)

/-- **The package is one of the host's.** -/
theorem packageFor_listed {p : Platform} (h : packageFor p host = some androidPackage) :
    ListedFor (p.toLowerCase host) androidPackage := by
  obtain ⟨⟨domain, listed⟩, hfound, rfl⟩ := Option.map_eq_some_iff.mp h
  have hmatch := List.find?_some hfound
  rw [Bool.or_eq_true, decide_eq_true_iff] at hmatch
  exact ⟨domain, List.mem_of_find?_eq_some hfound, atOrBelow_of_dropWww hmatch⟩

/-- A package name needs no escape. -/
theorem unreserved_androidPackage {host : String} (h : ListedFor host androidPackage) :
    ∀ c ∈ androidPackage.toList, isUriUnreserved c = true := by
  obtain ⟨domain, hmem, -⟩ := h
  have htable : (androidPackages.all fun e => e.2.toList.all isUriUnreserved) = true := by
    simp only [androidPackages, List.all_cons, List.all_nil]
    -- the names by their characters, before anything is evaluated
    repeat rw [String.toList_ofList]
    decide
  exact List.all_eq_true.mp (List.all_eq_true.mp htable _ hmem)

end Hosts

/-! ### The intent -/

/-- The attributes of an app's intent. -/
def intentAttributes (androidPackage destination : String) : List (String × String) :=
  [("scheme", "https"), ("package", androidPackage), ("S.browser_fallback_url", destination)]

/-- The names of the attributes need no escape. -/
theorem encodeURIComponent_names :
    encodeURIComponent "scheme".toList = "scheme".toList ∧
      encodeURIComponent "package".toList = "package".toList ∧
      encodeURIComponent "S.browser_fallback_url".toList = "S.browser_fallback_url".toList := by
  repeat rw [String.toList_ofList]
  decide

/-- The data is read under `https`. -/
theorem dataOf_intentAttributes (data androidPackage destination : String) :
    AndroidIntent.dataOf ("//" ++ data).toList (intentAttributes androidPackage destination) =
      "https://" ++ data := by
  have hscheme : "https" ++ ":" ++ "//" = "https://" := by decide
  have hlookup : (intentAttributes androidPackage destination).reverse.lookup "scheme" =
      some "https" := rfl
  rw [AndroidIntent.dataOf, hlookup]
  dsimp only
  rw [String.ofList_toList, ← String.append_assoc, hscheme]

/-- None of them is taken for the end. -/
theorem intentAttributes_notEnd (androidPackage destination : String) :
    ∀ a ∈ intentAttributes androidPackage destination,
      AndroidIntent.endWord.isPrefixOf (AndroidIntent.writeAttribute a) = false := by
  obtain ⟨hscheme, hpackage, hfallback⟩ := encodeURIComponent_names
  intro a ha
  simp only [intentAttributes, List.mem_cons, List.not_mem_nil, or_false] at ha
  rcases ha with rfl | rfl | rfl
  · rw [AndroidIntent.writeAttribute, hscheme]
    rfl
  · rw [AndroidIntent.writeAttribute, hpackage]
    rfl
  · rw [AndroidIntent.writeAttribute, hfallback]
    rfl

/-- **The template writes the attributes**, with what is in front of them as the data. -/
theorem intentText_eq_write {host androidPackage : String} (h : ListedFor host androidPackage)
    (data destination : String) :
    "intent://" ++ data ++ "#Intent;scheme=https;package=" ++ androidPackage ++
        ";S.browser_fallback_url=" ++ String.ofList (encodeURIComponent destination.toList) ++
          ";end" =
      AndroidIntent.write ("//" ++ data).toList (intentAttributes androidPackage destination) := by
  obtain ⟨hscheme, hname, hfallback⟩ := encodeURIComponent_names
  have hhttps : encodeURIComponent "https".toList = "https".toList := by
    rw [String.toList_ofList]
    decide
  have hpackage := AndroidIntent.encodeURIComponent_of_unreserved (unreserved_androidPackage h)
  have hstart : "intent://".toList = AndroidIntent.intentScheme ++ "//".toList := by
    repeat rw [String.toList_ofList]
    rfl
  have hmark : "#Intent;scheme=https;package=".toList = '#' :: (AndroidIntent.attributesMark ++
      ("scheme".toList ++ '=' :: ("https".toList ++ ';' :: ("package".toList ++ ['='])))) := by
    repeat rw [String.toList_ofList]
    rfl
  have hnext : ";S.browser_fallback_url=".toList =
      ';' :: ("S.browser_fallback_url".toList ++ ['=']) := by
    repeat rw [String.toList_ofList]
    rfl
  have hend : ";end".toList = ';' :: AndroidIntent.endWord := by
    rw [String.toList_ofList]
    rfl
  refine String.toList_inj.mp ?_
  rw [AndroidIntent.write, String.toList_ofList]
  simp only [String.toList_append, String.toList_ofList, intentAttributes, List.flatMap_cons,
    List.flatMap_nil, AndroidIntent.writeAttribute, hscheme, hhttps, hname, hpackage, hfallback,
    hstart, hmark, hnext, hend, List.append_assoc, List.cons_append, List.nil_append,
    List.append_nil]

/-- A URI that opens the app of this destination in Android's grammar. -/
def OpensAppOf (p : Platform) (destination uri : String) : Prop :=
  ∃ url androidPackage, p.parseUrl destination = some url ∧
    (url.protocol = "https:" ∨ url.protocol = "http:") ∧
    ListedFor (p.toLowerCase url.hostname) androidPackage ∧
    AndroidIntent.read uri = some
      ⟨"https://" ++ url.host ++ url.pathname ++ url.search,
        intentAttributes androidPackage destination⟩

/-- **Nothing a visitor appends changes an attribute.**  Whatever `buildDestination` composes is
handed over as it is, or as an intent whose data is its host, path and query and whose only
attributes are the scheme, the package of its host and itself. -/
theorem buildDeepLink_intent (p : Platform) (opts : DestinationOptions)
    (device : Option DeviceType) (enabled : Bool) :
    buildDeepLink p (buildDestination p opts) device enabled = buildDestination p opts ∨
      OpensAppOf p (buildDestination p opts)
        (buildDeepLink p (buildDestination p opts) device enabled) := by
  generalize buildDestination p opts = destination
  by_cases hself : enabled = false ∨ device ≠ some .android
  · exact Or.inl (buildDeepLink_eq_self hself)
  rw [not_or, Bool.not_eq_false, not_not] at hself
  rw [buildDeepLink, if_neg (by simp [hself.1]), if_neg (not_not.mpr hself.2)]
  cases hurl : p.parseUrl destination with
  | none => exact Or.inl rfl
  | some url =>
    dsimp only
    split
    · exact Or.inl rfl
    · rename_i hprotocol
      split
      · exact Or.inl rfl
      · rename_i androidPackage hpackage
        have hlisted := packageFor_listed hpackage
        refine Or.inr ⟨url, androidPackage, hurl, by tauto, hlisted, ?_⟩
        have htext := intentText_eq_write hlisted (url.host ++ url.pathname ++ url.search)
          destination
        have hread := AndroidIntent.read_write
          ("//" ++ (url.host ++ url.pathname ++ url.search)).toList _
          (intentAttributes_notEnd androidPackage destination)
        rw [← htext] at hread
        rw [dataOf_intentAttributes] at hread
        simp only [← String.append_assoc] at hread ⊢
        exact hread

end SnapUrl.Domain
