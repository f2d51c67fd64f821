import SnapUrl.Domain.Status

/-!
# The public preview

`PublicService.preview` of `apps/api/src/public/public.service.ts`, which the trust page
shows, beside the gate of the redirect and the status of the dashboard.

* `deriveStatus_eq`: **the status says what the lifecycle gate says**, and tells a link that
  is about to expire from the other live ones.
* `trustGate`: the gate as the trust page folds it from a preview.
* `descriptionsAgree_iff`: **the three agree exactly when a link with a preview is neither
  disabled nor held for its owner's email**.  The preview reads neither of the two.
-/

namespace SnapUrl.Public

open Domain

/-! ### Rows -/

/-- What the query of the preview selects, and the two columns the redirect reads besides. -/
structure LinkRow where
  slug : String
  destination : String
  redirectType : RedirectType
  expiresAt : Option Int
  expiresTo : Option String
  activatesAt : Option Int
  scheduledTo : Option String
  clickLimit : Option Int
  passwordHash : Option String
  publicPreview : Bool
  safeBrowsingStatus : String
  safeBrowsingCheckedAt : Option Int
  archivedAt : Option Int
  createdAt : Int
  domain : String
  domainStatus : String
  workspaceName : String
  /-- The switch of the workspace. -/
  publicPreviews : Bool
  creator : Option String
  /-- `link_counters.clicks`, none when the link has no counter. -/
  counter : Option Int
  hasRules : Bool
  disabledAt : Option Int
  /-- An active owner of the workspace has not verified their email. -/
  ownerUnverified : Bool
deriving DecidableEq, Repr

/-- `coalesce(link_counters.clicks, 0)`. -/
def LinkRow.clicks (row : LinkRow) : Int := row.counter.getD 0

/-- A column that holds an instant, as the driver hands it over. -/
def dateColumn (t : Option Int) : Option DateInput := t.map fun t => .date (some t)

/-- What the redirect's gate reads of the row. -/
def LinkRow.gateInput (row : LinkRow) : GateInput where
  disabled := some row.disabledAt.isSome
  disabledAt := none
  ownerUnverified := some row.ownerUnverified
  archived := row.archivedAt.isSome
  safeBrowsingStatus := some row.safeBrowsingStatus
  expiresAt := dateColumn row.expiresAt
  activatesAt := dateColumn row.activatesAt
  clickLimit := row.clickLimit
  clicks := some row.clicks

/-- What the dashboard's status is derived from. -/
def LinkRow.statusInput (row : LinkRow) : StatusInput where
  archivedAt := dateColumn row.archivedAt
  expiresAt := dateColumn row.expiresAt
  activatesAt := dateColumn row.activatesAt
  clickLimit := row.clickLimit
  clicks := some row.clicks

/-! ### The preview -/

structure PublicLinkPreview where
  shortUrl : String
  destination : Option String
  passwordProtected : Bool
  createdAt : String
  createdBy : String
  verifiedDomain : Bool
  safeBrowsing : String
  scannedAt : String
  setsCookies : Bool
  redirectType : RedirectType
  /-- None is `"active"`. -/
  state : Option LifecycleGate
  expiresAt : Option String
  activatesAt : Option String
  hasRules : Bool
  hasFallback : Option Bool
deriving DecidableEq, Repr

inductive PreviewError where
  /-- `NotFoundException`. -/
  | notFound (message : String)
  /-- `ForbiddenException`, with a code for the page. -/
  | forbidden (message code : String)
deriving DecidableEq, Repr

/-- `PREVIEWS_OFF_CODE`. -/
def previewsOffCode : String := "previews_off"

/-- `PREVIEWS_OFF_MESSAGE`. -/
def previewsOffMessage : String := "The owner of this link has turned off public previews."

/-- The more private setting wins. -/
def LinkRow.previewsOn (row : LinkRow) : Bool := row.publicPreviews && row.publicPreview

/-- The lifecycle gate of the row: only these columns are handed over. -/
def LinkRow.state (p : Platform) (row : LinkRow) (now : Int) : Option LifecycleGate :=
  lifecycleGate p
    { disabled := none
      disabledAt := none
      ownerUnverified := none
      archived := row.archivedAt.isSome
      safeBrowsingStatus := none
      expiresAt := dateColumn row.expiresAt
      activatesAt := dateColumn row.activatesAt
      clickLimit := row.clickLimit
      clicks := some row.clicks } now

def LinkRow.fallback (p : Platform) (row : LinkRow) (now : Int) : Option String :=
  match row.state p now with
  | some .expired => row.expiresTo
  | some .scheduled => row.scheduledTo
  | _ => none

def preview (p : Platform) (now : Int) : Option LinkRow → Except PreviewError PublicLinkPreview
  | none => .error (.notFound "That link doesn't exist.")
  | some row =>
    if !row.previewsOn then .error (.forbidden previewsOffMessage previewsOffCode)
    else
      let passwordProtected := row.passwordHash.isSome
      .ok
        { shortUrl := row.domain ++ "/" ++ row.slug
          destination := if passwordProtected then none else some row.destination
          passwordProtected := passwordProtected
          createdAt := p.toISOString row.createdAt
          createdBy := row.creator.getD row.workspaceName
          verifiedDomain := row.domainStatus = "live"
          safeBrowsing := row.safeBrowsingStatus
          scannedAt := p.toISOString (row.safeBrowsingCheckedAt.getD row.createdAt)
          setsCookies := false
          redirectType := row.redirectType
          state := row.state p now
          expiresAt := row.expiresAt.map p.toISOString
          activatesAt := row.activatesAt.map p.toISOString
          hasRules := row.hasRules
          hasFallback := if passwordProtected then none else some (row.fallback p now).isSome }

/-- The gate as the trust page folds it. -/
def trustGate (pv : PublicLinkPreview) : Option EffectiveGate :=
  effectiveGateFromState (pv.safeBrowsing = "flagged") pv.state false

/-! ### What is claimed of it -/

/-- The dashboard's label, beside the gate a visitor meets. -/
structure StatusAgrees (status : LinkStatus) (gate : Option LifecycleGate) : Prop where
  archived : status = .archived ↔ gate = some .archived
  expired : status = .expired ↔ gate = some .expired ∨ gate = some .click_limit
  scheduled : status = .scheduled ↔ gate = some .scheduled
  live : status = .active ∨ status = .expiring ↔ gate = none

/-- **The three descriptions of what a visitor gets agree.** -/
structure DescriptionsAgree (p : Platform) (row : LinkRow) (now : Int) : Prop where
  gate : ∀ pv, preview p now (some row) = .ok pv → trustGate pv = effectiveGate p row.gateInput now
  status : StatusAgrees (deriveStatus p row.statusInput now) (lifecycleGate p row.gateInput now)

/-! ### The status -/

section

variable {p : Platform} {row : LinkRow} {now : Int}

theorem any_truthy_dateColumn (t : Option Int) :
    (dateColumn t).any DateInput.truthy = t.isSome := by
  cases t <;> rfl

/-- The status the dashboard shows, by the lifecycle gate. -/
def statusOf (expiring : Bool) : Option LifecycleGate → LinkStatus
  | some .archived => .archived
  | some .expired => .expired
  | some .click_limit => .expired
  | some .scheduled => .scheduled
  | none => if expiring then .expiring else .active

/-- **The status says what the lifecycle gate says.**  It looks at the click limit before
the expiry where the gate looks at it after, but calls both expired. -/
theorem deriveStatus_eq :
    deriveStatus p row.statusInput now =
      statusOf ((asDate p row.statusInput.expiresAt).any (· - now ≤ sevenDays))
        (lifecycleGate p row.gateInput now) := by
  have hstatus : deriveStatus p row.statusInput now =
      if row.archivedAt.isSome then .archived
      else if row.clickLimit.any (· ≤ row.clicks) then .expired
      else if (asDate p (dateColumn row.expiresAt)).any (· ≤ now) then .expired
      else if (asDate p (dateColumn row.activatesAt)).any (now < ·) then .scheduled
      else if (asDate p (dateColumn row.expiresAt)).any (· - now ≤ sevenDays) then .expiring
      else .active := by
    rw [deriveStatus, ← any_truthy_dateColumn]
    rfl
  have hgate : lifecycleGate p row.gateInput now =
      if row.archivedAt.isSome then some .archived
      else if (asDate p (dateColumn row.expiresAt)).any (· ≤ now) then some .expired
      else if row.clickLimit.any (· ≤ row.clicks) then some .click_limit
      else if (asDate p (dateColumn row.activatesAt)).any (now < ·) then some .scheduled
      else none := rfl
  rw [hstatus, hgate]
  by_cases harchived : row.archivedAt.isSome = true
  · rw [if_pos harchived, if_pos harchived, statusOf]
  rw [if_neg harchived, if_neg harchived]
  by_cases hexpired : (asDate p (dateColumn row.expiresAt)).any (· ≤ now) = true
  · rw [if_pos hexpired, if_pos hexpired, statusOf]
    exact ite_self _
  rw [if_neg hexpired, if_neg hexpired]
  by_cases hlimit : row.clickLimit.any (· ≤ row.clicks) = true
  · rw [if_pos hlimit, if_pos hlimit, statusOf]
  rw [if_neg hlimit, if_neg hlimit]
  by_cases hscheduled : (asDate p (dateColumn row.activatesAt)).any (now < ·) = true
  · rw [if_pos hscheduled, if_pos hscheduled, statusOf]
  · rw [if_neg hscheduled, if_neg hscheduled, statusOf]
    rfl

theorem statusAgrees_statusOf (expiring : Bool) (gate : Option LifecycleGate) :
    StatusAgrees (statusOf expiring gate) gate := by
  cases expiring <;> rcases gate with - | gate <;> try cases gate
  all_goals exact ⟨by decide, by decide, by decide, by decide⟩

/-! ### The gate -/

theorem state_eq : row.state p now = lifecycleGate p row.gateInput now := rfl

theorem preview_eq_ok {pv : PublicLinkPreview} (h : preview p now (some row) = .ok pv) :
    row.previewsOn = true ∧ pv.safeBrowsing = row.safeBrowsingStatus ∧
      pv.state = lifecycleGate p row.gateInput now := by
  rw [preview] at h
  split at h
  · exact absurd h (by simp)
  · rename_i hon
    rw [← Except.ok.inj h]
    exact ⟨by simpa using hon, rfl, state_eq⟩

/-- A preview is given when both switches are on. -/
theorem exists_preview (h : row.previewsOn = true) :
    ∃ pv, preview p now (some row) = .ok pv := by
  rw [preview, h]
  exact ⟨_, rfl⟩

/-- The gate of a row that nobody else holds, from the parts the preview gives. -/
theorem effectiveGate_eq_fromState (hdisabled : row.disabledAt = none)
    (howner : row.ownerUnverified = false) :
    effectiveGate p row.gateInput now =
      effectiveGateFromState (row.safeBrowsingStatus = "flagged")
        (lifecycleGate p row.gateInput now) false := by
  rw [effectiveGate, effectiveGateFromState, if_neg (by simp [LinkRow.gateInput, hdisabled]),
    if_neg (by simp [LinkRow.gateInput, howner]), if_neg Bool.false_ne_true]
  by_cases harchived : row.gateInput.archived = true
  · rw [if_pos harchived, lifecycleGate, if_pos harchived, if_pos rfl]
  · have hne : lifecycleGate p row.gateInput now ≠ some .archived := by
      rw [lifecycleGate, if_neg harchived]
      split <;> try split <;> try split
      all_goals simp
    rw [if_neg harchived, if_neg hne]
    simp [LinkRow.gateInput]

/-- What the page folds names neither of the two holds. -/
theorem trustGate_ne (pv : PublicLinkPreview) :
    trustGate pv ≠ some .disabled ∧ trustGate pv ≠ some .not_active := by
  rw [trustGate, effectiveGateFromState, if_neg Bool.false_ne_true]
  split
  · exact ⟨by decide, by decide⟩
  split
  · exact ⟨by decide, by decide⟩
  · rcases pv.state with - | gate
    · exact ⟨by simp, by simp⟩
    · cases gate <;> exact ⟨by decide, by decide⟩

/-- **What the trust page says is what the redirect does, exactly when no preview is given
or nobody but the link's own state holds it.** -/
theorem trustGate_eq_iff :
    (∀ pv, preview p now (some row) = .ok pv → trustGate pv = effectiveGate p row.gateInput now) ↔
      (row.previewsOn = true → row.disabledAt = none ∧ row.ownerUnverified = false) := by
  constructor
  · intro h hon
    obtain ⟨pv, hpv⟩ := @exists_preview p row now hon
    have hgate := h pv hpv
    obtain ⟨hdisabled, howner⟩ := trustGate_ne pv
    rw [hgate, effectiveGate] at hdisabled howner
    have hfree : ¬ (row.gateInput.disabled = some true ∨ row.gateInput.disabledAt ≠ none) :=
      fun hheld => hdisabled (if_pos hheld)
    rw [if_neg hfree] at howner
    have hverified : row.gateInput.ownerUnverified ≠ some true := fun hheld =>
      howner (if_pos hheld)
    exact ⟨by simpa [LinkRow.gateInput] using hfree, by simpa [LinkRow.gateInput] using hverified⟩
  · intro h pv hpv
    obtain ⟨hon, hsafe, hstate⟩ := preview_eq_ok hpv
    obtain ⟨hdisabled, howner⟩ := h hon
    rw [trustGate, hsafe, hstate, effectiveGate_eq_fromState hdisabled howner]

end

/-- **The three descriptions agree exactly when a link with a preview is neither disabled
nor held for its owner's email.** -/
theorem descriptionsAgree_iff (p : Platform) (row : LinkRow) (now : Int) :
    DescriptionsAgree p row now ↔
      (row.previewsOn = true → row.disabledAt = none ∧ row.ownerUnverified = false) := by
  constructor
  · exact fun h => trustGate_eq_iff.mp h.gate
  · intro h
    refine ⟨trustGate_eq_iff.mpr h, ?_⟩
    rw [deriveStatus_eq]
    exact statusAgrees_statusOf _ _

/-! ### A disabled link -/

/-- A live link that an operator has disabled. -/
def disabledRow : LinkRow where
  slug := "promo"
  destination := "https://example.com/"
  redirectType := .r302
  expiresAt := none
  expiresTo := none
  activatesAt := none
  scheduledTo := none
  clickLimit := none
  passwordHash := none
  publicPreview := true
  safeBrowsingStatus := "clean"
  safeBrowsingCheckedAt := none
  archivedAt := none
  createdAt := 0
  domain := "snap.to"
  domainStatus := "live"
  workspaceName := "Acme"
  publicPreviews := true
  creator := none
  counter := none
  hasRules := false
  disabledAt := some 1000
  ownerUnverified := false

/-- **The trust page calls a disabled link safe to open**: it folds no gate at all. -/
theorem disabled_link_is_previewed :
    ¬ ∀ (p : Platform) (row : LinkRow) (now : Int), DescriptionsAgree p row now := by
  intro h
  let p : Platform :=
    { toLowerCase := id, toUpperCase := id, parseUrl := fun _ => none, parseDate := fun _ => none,
      toISOString := fun _ => "1970-01-01T00:00:00.000Z", parseJson := fun _ => none,
      stringifyJson := fun _ => "null", hmacSha256Hex := fun _ _ => "",
      verifyToken := fun _ _ => none }
  have hagree := (descriptionsAgree_iff p disabledRow 2000).mp (h p disabledRow 2000) rfl
  exact absurd hagree.1 (by decide)

end SnapUrl.Public
