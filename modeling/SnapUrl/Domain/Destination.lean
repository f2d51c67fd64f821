import SnapUrl.Platform

/-!
# Destinations and gates

`packages/domain/src/destination.ts`: the URL a visitor is sent to, and the
verdicts that keep a visitor from it.

* `buildDestination`: the final URL, UTM values first and the incoming query
  over them.  `buildDestination_eq` says what it writes: **the destination with the
  settings on it, and byte for byte when there are none**.
* `lifecycleGate`, `effectiveGate`, `effectiveGateFromState`: why a link does
  not send a visitor on.
* `Holds`: the condition behind each verdict, on its own.  `holds_effectiveGate`
  says a verdict is never given without its condition, and
  `effectiveGate_eq_none_iff` that **the gate is open exactly when no condition
  holds**.  `effectiveGate_eq_clickLimit_iff` says what a `click_limit` verdict
  leaves unsaid: it is given before the schedule is looked at.
-/

namespace SnapUrl.Domain

open Lib FormUrlencoded

/-! ### The final URL -/

/-- A link's stored UTM values. -/
structure Utm where
  source : Option String
  medium : Option String
  campaign : Option String
  content : Option String
deriving DecidableEq, Repr

structure DestinationOptions where
  destination : String
  /-- The query string that arrived on the short link, without the "?". -/
  incomingQuery : Option String
  forwardQuery : Bool
  utm : Option Utm
deriving DecidableEq, Repr

/-- The stored values that are set on the URL, in this order. -/
def utmPairs (utm : Utm) : List (String × String) :=
  [("utm_source", utm.source), ("utm_medium", utm.medium), ("utm_campaign", utm.campaign),
    ("utm_content", utm.content)].filterMap fun p =>
      if truthy p.2 then some (p.1, orEmpty p.2) else none

/-- What the incoming query sets: the unlock token is ours, not the destination's. -/
def forwardedPairs (query : String) : List (String × String) :=
  (urlSearchParams query).filter (·.1 ≠ "k")

/-- Compose the final URL. -/
def buildDestination (p : Platform) (opts : DestinationOptions) : String :=
  match p.parseUrl opts.destination with
  | none => opts.destination
  | some parsed =>
    let url := UrlObject.ofUrl parsed
    let url :=
      match opts.utm with
      | none => url
      | some utm => url.setAll (utmPairs utm)
    let url :=
      if opts.forwardQuery ∧ truthy opts.incomingQuery then
        url.setAll (forwardedPairs (orEmpty opts.incomingQuery))
      else url
    url.url.href

/-! ### What it writes -/

/-- The parameters that are on the destination. -/
def ownPairs (url : Url) : List (String × String) := parse (url.query.getD "")

/-- What the link's UTM values set. -/
def utmPairsOf (utm : Option Utm) : List (String × String) := (utm.map utmPairs).getD []

/-- What an incoming query sets, if it is forwarded. -/
def incomingOf (query : Option String) : List (String × String) := forwardedPairs (orEmpty query)

/-- What is set on the destination: the UTM values first, the incoming query over them. -/
def settings (opts : DestinationOptions) : List (String × String) :=
  utmPairsOf opts.utm ++ if opts.forwardQuery then incomingOf opts.incomingQuery else []

/-- A URL with some parameters set, which is the URL itself when there are none. -/
def composed (url : Url) (ps : List (String × String)) : Url :=
  if ps = [] then url else url.withParams (setAll (ownPairs url) ps)

section Composed

variable {p : Platform} {opts : DestinationOptions} {url : Url}

theorem incomingOf_of_not_truthy {query : Option String} (h : truthy query = false) :
    incomingOf query = [] := by
  have hempty : orEmpty query = "" := by simpa [truthy] using h
  rw [incomingOf, hempty]
  decide

/-- **What `buildDestination` writes.** -/
theorem buildDestination_eq (hurl : p.parseUrl opts.destination = some url) :
    buildDestination p opts = (composed url (settings opts)).href := by
  have hset : ∀ o : UrlObject, (if opts.forwardQuery ∧ truthy opts.incomingQuery then
      o.setAll (forwardedPairs (orEmpty opts.incomingQuery)) else o) =
        o.setAll (if opts.forwardQuery then incomingOf opts.incomingQuery else []) := by
    intro o
    by_cases hforward : opts.forwardQuery = true
    · by_cases htruthy : truthy opts.incomingQuery = true
      · rw [if_pos ⟨hforward, htruthy⟩, if_pos hforward, incomingOf]
      · rw [if_neg fun h => htruthy h.2, if_pos hforward,
          incomingOf_of_not_truthy (Bool.not_eq_true _ ▸ htruthy), UrlObject.setAll_nil]
    · rw [if_neg fun h => hforward h.1, if_neg hforward, UrlObject.setAll_nil]
  have hwritten : buildDestination p opts =
      ((UrlObject.ofUrl url).setAll (settings opts)).url.href := by
    rw [settings, UrlObject.setAll_append, buildDestination, hurl]
    simp only [hset]
    cases opts.utm <;> rfl
  rw [hwritten, composed]
  split
  · rename_i hnone
    rw [hnone, UrlObject.setAll_nil]
    rfl
  · rename_i hsome
    rw [UrlObject.href_setAll _ hsome]
    rfl

theorem composed_parts (url : Url) (ps : List (String × String)) :
    (composed url ps).base = url.base ∧ (composed url ps).host = url.host ∧
      (composed url ps).pathname = url.pathname ∧
      (composed url ps).fragmentPart = url.fragmentPart := by
  rw [composed]
  split <;> exact ⟨rfl, rfl, rfl, rfl⟩

end Composed

/-! ### Redirect types -/

inductive RedirectType where
  | r301
  | r302
  | r307
deriving DecidableEq, Repr

def cacheHeadersFor : RedirectType → List (String × String)
  | .r301 => [("Cache-Control", "public, max-age=300")]
  | _ => [("Cache-Control", "no-store, no-cache, must-revalidate"), ("Pragma", "no-cache")]

/-- `REDIRECT_STATUS`. -/
def redirectStatus : RedirectType → Nat
  | .r301 => 301
  | .r302 => 302
  | .r307 => 307

/-! ### Gates -/

/-- A date as the database or the API hands it over. -/
inductive DateInput where
  /-- A `Date`, `none` for an invalid one. -/
  | date (time : Option Int)
  | text (s : String)
deriving DecidableEq, Repr

/-- The instant a date stands for, if any. -/
def asDate (p : Platform) : Option DateInput → Option Int
  | none => none
  | some (.date time) => time
  | some (.text s) => if s = "" then none else p.parseDate s

inductive LifecycleGate where
  | archived
  | expired
  | click_limit
  | scheduled
deriving DecidableEq, Repr

/-- Every gate the redirect applies before it will route a visitor. -/
inductive EffectiveGate where
  | disabled
  | not_active
  | archived
  | flagged
  | expired
  | click_limit
  | scheduled
deriving DecidableEq, Repr

def LifecycleGate.toEffective : LifecycleGate → EffectiveGate
  | .archived => .archived
  | .expired => .expired
  | .click_limit => .click_limit
  | .scheduled => .scheduled

/-- What the gates read of a link. -/
structure GateInput where
  disabled : Option Bool
  disabledAt : Option DateInput
  ownerUnverified : Option Bool
  archived : Bool
  safeBrowsingStatus : Option String
  expiresAt : Option DateInput
  activatesAt : Option DateInput
  clickLimit : Option Int
  clicks : Option Int
deriving DecidableEq, Repr

/-- The lifecycle gates only, in the redirect's order. -/
def lifecycleGate (p : Platform) (link : GateInput) (now : Int) : Option LifecycleGate :=
  if link.archived then some .archived
  else if (asDate p link.expiresAt).any (· ≤ now) then some .expired
  -- the count is the last rollup's
  else if link.clickLimit.any (· ≤ link.clicks.getD 0) then some .click_limit
  else if (asDate p link.activatesAt).any (now < ·) then some .scheduled
  else none

/-- The full gate order the redirect applies. -/
def effectiveGate (p : Platform) (link : GateInput) (now : Int) : Option EffectiveGate :=
  if link.disabled = some true ∨ link.disabledAt ≠ none then some .disabled
  else if link.ownerUnverified = some true then some .not_active
  else if link.archived then some .archived
  else if link.safeBrowsingStatus = some "flagged" then some .flagged
  else (lifecycleGate p link now).map LifecycleGate.toEffective

/-- The same precedence, from parts a caller has already derived. -/
def effectiveGateFromState (flagged : Bool) (lifecycle : Option LifecycleGate)
    (disabled : Bool) : Option EffectiveGate :=
  if disabled then some .disabled
  else if lifecycle = some .archived then some .archived
  else if flagged then some .flagged
  else lifecycle.map LifecycleGate.toEffective

/-! ### What a verdict says -/

/-- The condition behind each verdict. -/
def Holds (p : Platform) (link : GateInput) (now : Int) : EffectiveGate → Prop
  | .disabled => link.disabled = some true ∨ link.disabledAt ≠ none
  | .not_active => link.ownerUnverified = some true
  | .archived => link.archived = true
  | .flagged => link.safeBrowsingStatus = some "flagged"
  | .expired => ∃ t ∈ asDate p link.expiresAt, t ≤ now
  | .click_limit => ∃ limit ∈ link.clickLimit, limit ≤ link.clicks.getD 0
  | .scheduled => ∃ t ∈ asDate p link.activatesAt, now < t

instance (p : Platform) (link : GateInput) (now : Int) :
    ∀ g, Decidable (Holds p link now g)
  | .disabled => inferInstanceAs (Decidable (_ ∨ _))
  | .not_active => inferInstanceAs (Decidable (link.ownerUnverified = some true))
  | .archived => inferInstanceAs (Decidable (link.archived = true))
  | .flagged => inferInstanceAs (Decidable (link.safeBrowsingStatus = some "flagged"))
  | .expired => inferInstanceAs (Decidable (∃ t ∈ asDate p link.expiresAt, t ≤ now))
  | .click_limit => inferInstanceAs (Decidable (∃ l ∈ link.clickLimit, l ≤ link.clicks.getD 0))
  | .scheduled => inferInstanceAs (Decidable (∃ t ∈ asDate p link.activatesAt, now < t))

/-- The verdicts in the order they are looked at. -/
def gateOrder : List EffectiveGate :=
  [.disabled, .not_active, .archived, .flagged, .expired, .click_limit, .scheduled]

theorem mem_gateOrder (g : EffectiveGate) : g ∈ gateOrder := by
  cases g <;> decide

/-- The first of some verdicts whose condition holds. -/
def firstGate (p : Platform) (link : GateInput) (now : Int) (gs : List EffectiveGate) :
    Option EffectiveGate :=
  gs.find? fun g => decide (Holds p link now g)

section FirstGate

variable {p : Platform} {link : GateInput} {now : Int} {gs : List EffectiveGate}

theorem firstGate_cons_of_pos (g : EffectiveGate) (h : Holds p link now g) :
    firstGate p link now (g :: gs) = some g :=
  List.find?_cons_of_pos (decide_eq_true h)

theorem firstGate_cons_of_neg (g : EffectiveGate) (h : ¬ Holds p link now g) :
    firstGate p link now (g :: gs) = firstGate p link now gs :=
  List.find?_cons_of_neg (by simpa using h)

/-- A verdict is given only after the ones before it were looked at. -/
theorem not_holds_of_firstGate_append (before : List EffectiveGate) {after : List EffectiveGate}
    {g : EffectiveGate}
    (h : firstGate p link now (before ++ after) = some g) (hg : g ∉ before) :
    ∀ b ∈ before, ¬ Holds p link now b := by
  rw [firstGate, List.find?_append] at h
  cases hbefore : before.find? fun g => decide (Holds p link now g) with
  | some b =>
    rw [hbefore, Option.some_or, Option.some.injEq] at h
    exact absurd (h ▸ List.mem_of_find?_eq_some hbefore) hg
  | none =>
    intro b hb
    simpa using List.find?_eq_none.mp hbefore b hb

theorem any_le_iff {o : Option Int} {b : Int} : o.any (· ≤ b) = true ↔ ∃ t ∈ o, t ≤ b := by
  simp [Option.any_eq_true]

theorem lt_any_iff {o : Option Int} {b : Int} : o.any (b < ·) = true ↔ ∃ t ∈ o, b < t := by
  simp [Option.any_eq_true]

theorem lifecycleGate_eq_firstGate (harchived : ¬ link.archived = true) :
    (lifecycleGate p link now).map LifecycleGate.toEffective =
      firstGate p link now [.expired, .click_limit, .scheduled] := by
  rw [lifecycleGate, if_neg harchived]
  by_cases hexpired : ∃ t ∈ asDate p link.expiresAt, t ≤ now
  · rw [if_pos (any_le_iff.mpr hexpired), firstGate_cons_of_pos .expired hexpired]
    rfl
  rw [if_neg fun h => hexpired (any_le_iff.mp h), firstGate_cons_of_neg .expired hexpired]
  by_cases hlimit : ∃ limit ∈ link.clickLimit, limit ≤ link.clicks.getD 0
  · rw [if_pos (any_le_iff.mpr hlimit), firstGate_cons_of_pos .click_limit hlimit]
    rfl
  rw [if_neg fun h => hlimit (any_le_iff.mp h), firstGate_cons_of_neg .click_limit hlimit]
  by_cases hscheduled : ∃ t ∈ asDate p link.activatesAt, now < t
  · rw [if_pos (lt_any_iff.mpr hscheduled), firstGate_cons_of_pos .scheduled hscheduled]
    rfl
  · rw [if_neg fun h => hscheduled (lt_any_iff.mp h), firstGate_cons_of_neg .scheduled hscheduled]
    rfl

/-- **The gate is the first verdict of `gateOrder` whose condition holds.** -/
theorem effectiveGate_eq_firstGate : effectiveGate p link now = firstGate p link now gateOrder := by
  rw [effectiveGate, gateOrder]
  by_cases hdisabled : link.disabled = some true ∨ link.disabledAt ≠ none
  · rw [if_pos hdisabled, firstGate_cons_of_pos .disabled hdisabled]
  rw [if_neg hdisabled, firstGate_cons_of_neg .disabled hdisabled]
  by_cases hactive : link.ownerUnverified = some true
  · rw [if_pos hactive, firstGate_cons_of_pos .not_active hactive]
  rw [if_neg hactive, firstGate_cons_of_neg .not_active hactive]
  by_cases harchived : link.archived = true
  · rw [if_pos harchived, firstGate_cons_of_pos .archived harchived]
  rw [if_neg harchived, firstGate_cons_of_neg .archived harchived]
  by_cases hflagged : link.safeBrowsingStatus = some "flagged"
  · rw [if_pos hflagged, firstGate_cons_of_pos .flagged hflagged]
  rw [if_neg hflagged, firstGate_cons_of_neg .flagged hflagged]
  exact lifecycleGate_eq_firstGate harchived

/-- A verdict is never given without its condition. -/
theorem holds_of_effectiveGate {g : EffectiveGate} (h : effectiveGate p link now = some g) :
    Holds p link now g := by
  rw [effectiveGate_eq_firstGate, firstGate] at h
  simpa using List.find?_some h

/-- **The gate is open exactly when no condition holds.** -/
theorem effectiveGate_eq_none_iff :
    effectiveGate p link now = none ↔ ∀ g, ¬ Holds p link now g := by
  rw [effectiveGate_eq_firstGate, firstGate, List.find?_eq_none]
  constructor
  · intro h g
    simpa using h g (mem_gateOrder g)
  · intro h g _
    simpa using h g

/-- **What a `click_limit` verdict leaves open.**  No condition holds beside its
own except possibly the schedule's, which comes after it in the order. -/
theorem effectiveGate_eq_click_limit_iff :
    effectiveGate p link now = some .click_limit ↔
      Holds p link now .click_limit ∧
        ∀ g, g ≠ .click_limit → g ≠ .scheduled → ¬ Holds p link now g := by
  constructor
  · intro h
    refine ⟨holds_of_effectiveGate h, ?_⟩
    intro g hlimit hscheduled
    refine not_holds_of_firstGate_append [.disabled, .not_active, .archived, .flagged, .expired]
      (effectiveGate_eq_firstGate ▸ h) (by decide) g ?_
    cases g <;> simp at hlimit hscheduled ⊢
  · rintro ⟨hlimit, hrest⟩
    rw [effectiveGate_eq_firstGate, gateOrder,
      firstGate_cons_of_neg .disabled (hrest _ (by decide) (by decide)),
      firstGate_cons_of_neg .not_active (hrest _ (by decide) (by decide)),
      firstGate_cons_of_neg .archived (hrest _ (by decide) (by decide)),
      firstGate_cons_of_neg .flagged (hrest _ (by decide) (by decide)),
      firstGate_cons_of_neg .expired (hrest _ (by decide) (by decide)),
      firstGate_cons_of_pos .click_limit hlimit]

end FirstGate

end SnapUrl.Domain
