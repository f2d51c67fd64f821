import SnapUrl.Redirect.Handler

/-!
# What the redirect lets through

The gate, the reservation verdict and the password bounce are computed in three
places; this file says what they come to together.

* `OnlyLimitCleared`: a visitor is routed only when no verdict's condition but
  the click limit's holds, the limit's only with a granted reservation, and a
  protected link only with a valid token.
* `onlyLimitCleared_iff`: **the handler keeps to that exactly when the click
  limit does not mask the schedule**.  `effectiveGate` looks at the count before
  the activation date, so a scheduled link whose cached count has reached the
  limit reads `click_limit`, and a granted reservation then clears the verdict
  with the schedule still ahead.
* `masked_schedule_is_routed`: such a link, routed.
-/

namespace SnapUrl.Redirect

open Lib Domain

/-- The visitor of a routed request was let through by no more than a granted
reservation. -/
def OnlyLimitCleared (p : Platform) (cfg : Config) (req : Request) (ans : Answers) : Prop :=
  (handle p cfg req ans).exit.isRouted = true →
    ∃ link ∈ ans.link,
      (∀ g, g ≠ .click_limit → ¬ Holds p link.gateInput ans.now g) ∧
      (Holds p link.gateInput ans.now .click_limit → ans.reservation = .ok true) ∧
      (link.hasPassword = true → unlocked p cfg req link = true)

/-- **The click limit masks the schedule**: both conditions hold and no other, and
the rest of the request would route it. -/
structure ScheduleMasked (p : Platform) (cfg : Config) (req : Request) (ans : Answers)
    (link : ResolvedLink) : Prop where
  plain : endsWith req.rawSlug "+" = false
  scheduled : Holds p link.gateInput ans.now .scheduled
  limit : Holds p link.gateInput ans.now .click_limit
  others : ∀ g, g ≠ .click_limit → g ≠ .scheduled → ¬ Holds p link.gateInput ans.now g
  granted : ans.reservation = .ok true
  password : link.hasPassword = true → unlocked p cfg req link = true
  salt : ans.salt.isSome = true

section

variable {p : Platform} {link : ResolvedLink} {ans : Answers}

theorem needsReservation_click_limit (h : Holds p link.gateInput ans.now .click_limit) :
    needsReservation link (some .click_limit) = true := by
  obtain ⟨limit, hlimit, _⟩ := h
  have : link.clickLimit = some limit := hlimit
  simp [needsReservation, this]

/-- The gate is passed when it is open, or with a grant when the limit alone shuts it. -/
theorem passesGate_cases (h : PassesGate p link ans) :
    gateFor p link ans.now = none ∨
      gateFor p link ans.now = some .click_limit ∧ ans.reservation = .ok true := by
  rw [PassesGate] at h
  split at h
  · rename_i hneeds
    simp only [needsReservation, Bool.and_eq_true, Bool.or_eq_true, decide_eq_true_eq] at hneeds
    rcases hneeds.2 with hnone | hlimit
    · exact Or.inl hnone
    · rcases h with hgranted | ⟨_, hnone⟩
      · exact Or.inr ⟨hlimit, hgranted⟩
      · exact Or.inl hnone
  · exact Or.inl h

theorem passesGate_of_click_limit (hgate : gateFor p link ans.now = some .click_limit)
    (hgranted : ans.reservation = .ok true) : PassesGate p link ans := by
  rw [PassesGate, hgate, if_pos (needsReservation_click_limit (holds_of_effectiveGate hgate))]
  exact Or.inl hgranted

end

/-- **The handler routes a visitor past nothing but the click limit, exactly when
the click limit does not mask the schedule.** -/
theorem onlyLimitCleared_iff (p : Platform) (cfg : Config) (req : Request) (ans : Answers) :
    OnlyLimitCleared p cfg req ans ↔ ∀ link ∈ ans.link, ¬ ScheduleMasked p cfg req ans link := by
  constructor
  · intro h link hlink hmasked
    have hgate : gateFor p link ans.now = some .click_limit :=
      effectiveGate_eq_click_limit_iff.mpr ⟨hmasked.limit, hmasked.others⟩
    have hrouted : (handle p cfg req ans).exit.isRouted = true :=
      (handle_routed_iff ans).mpr ⟨hmasked.plain, link, hlink,
        passesGate_of_click_limit hgate hmasked.granted, hmasked.password, hmasked.salt⟩
    obtain ⟨link', hlink', hopen, _⟩ := h hrouted
    obtain rfl : link' = link := Option.mem_unique hlink' hlink
    exact hopen .scheduled (by decide) hmasked.scheduled
  · intro h hrouted
    obtain ⟨hplain, link, hlink, hpasses, hpassword, hsalt⟩ := (handle_routed_iff ans).mp hrouted
    refine ⟨link, hlink, ?_, ?_, hpassword⟩
    · intro g hg hholds
      rcases passesGate_cases hpasses with hnone | ⟨hlimit, hgranted⟩
      · exact effectiveGate_eq_none_iff.mp hnone g hholds
      · obtain ⟨hcount, hothers⟩ := effectiveGate_eq_click_limit_iff.mp hlimit
        by_cases hscheduled : g = .scheduled
        · exact h link hlink ⟨hplain, hscheduled ▸ hholds, hcount, hothers, hgranted, hpassword,
            hsalt⟩
        · exact hothers g hg hscheduled hholds
    · intro hcount
      rcases passesGate_cases hpasses with hnone | ⟨_, hgranted⟩
      · exact absurd hcount (effectiveGate_eq_none_iff.mp hnone _)
      · exact hgranted

/-! ### A masked schedule -/

/-- `https://example.com/`, parsed. -/
def sampleUrl : Url where
  protocol := "https:"
  authority := "//"
  hostname := "example.com"
  port := ""
  pathname := "/"
  query := none
  fragment := none
  base_clean := by decide
  query_clean := by simp

/-- A runtime for ASCII texts that knows one URL and one token. -/
def samplePlatform : Platform where
  toLowerCase s := String.ofList (s.toList.map Char.toLower)
  toUpperCase s := String.ofList (s.toList.map Char.toUpper)
  parseUrl s := if s = "https://example.com/" then some sampleUrl else none
  parseDate _ := none
  toISOString _ := "1970-01-01T00:00:00.000Z"
  parseJson _ := none
  stringifyJson _ := "null"
  hmacSha256Hex _ _ := "c47757abe4020b9168d0776f6c91617f9290e790ac2f6ce2bd6787c74ad88199"
  verifyToken token secret :=
    if token = "valid" ∧ secret = "secret" then some ⟨some "link", some "unlock"⟩ else none

def sampleConfig : Config := ⟨"https://snapurl.test", 0, "secret"⟩

/-- A browser's request for the slug `a`. -/
def sampleRequest : Request where
  rawSlug := "a"
  url := "/a"
  queryK := none
  xForwardedHost := none
  hostHeader := some "snap.to"
  userAgent := some "Mozilla/5.0 (X11; Linux x86_64) Firefox/128.0"
  xForwardedFor := []
  socketIp := "203.0.113.9"
  viewerCountry := none
  acceptLanguage := some "en"

/-- A live link of two clicks that allows two. -/
def sampleLink : ResolvedLink where
  id := "link"
  workspaceId := "workspace"
  destination := "https://example.com/"
  redirectType := .r302
  rules := []
  expiresAt := none
  expiresTo := none
  activatesAt := none
  scheduledTo := none
  clickLimit := some 2
  clicks := 2
  hasPassword := false
  forwardQuery := true
  deepLink := false
  hideReferrer := false
  archived := false
  disabled := false
  ownerUnverified := false
  safeBrowsingStatus := "clean"
  utm := none

/-- The link again with a start date a second ahead, its two clicks made before it
had a limit, so that the reservation counter still has room. -/
def maskedAnswers : Answers where
  now := 0
  link := some { sampleLink with activatesAt := some 1000 }
  domain := none
  reservation := .ok true
  salt := some "salt"

/-- **A link that is not live yet is routed**, because its cached count masks the
schedule and a reservation was granted. -/
theorem masked_schedule_is_routed :
    ¬ ∀ (p : Platform) (cfg : Config) (req : Request) (ans : Answers),
      OnlyLimitCleared p cfg req ans := by
  intro h
  have hrouted : (handle samplePlatform sampleConfig sampleRequest maskedAnswers).exit.isRouted
      = true := by decide
  obtain ⟨link, hlink, hopen, _⟩ := h _ _ _ _ hrouted
  obtain rfl := Option.mem_some_iff.mp hlink
  exact hopen .scheduled (by decide) (by decide)

end SnapUrl.Redirect
