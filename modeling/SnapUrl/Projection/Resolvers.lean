import SnapUrl.Lib.IsoDate
import SnapUrl.Lib.JsValue
import SnapUrl.Projection.Item

/-!
# One link, whichever resolver it comes from

The redirect gets a link from Postgres (`apps/redirect/src/resolver.ts`), from the projection
table (`packages/database/src/link-projection.ts`) or from a cache in front of either
(`caching-resolver.ts`).  A click goes the other way, through a queue
(`packages/database/src/click-events.ts`).  Each of them writes a record down as a document or a
text and reads it back field by field, so a record is here an object as the language has it.

* `fromLinkItem_toLinkItem`: an item gives back the link it was made of, in the table too.
* `reviveLink_stringify`: a cached link is the link.
* `deserialize_serialize`: a click that went through the queue is the click.
-/

namespace SnapUrl.Projection.Resolvers

open Lib JsValue IsoDate

/-! ### Rows -/

/-- A `Date` that is valid. -/
structure JsDate where
  time : Int
  low : -maxTime ≤ time
  high : time ≤ maxTime

/-- A row of `routing_rules`. -/
structure RuleRow where
  id : String
  position : Int
  whenCountry : Option String
  whenDevice : Option String
  whenLanguage : Option String
  /-- Where a match goes, `then` in the source. -/
  destination : String
  /-- A share from 0 to 100. -/
  weight : Option ℚ

/-- The `utm` of a link: each field a text, `null` or not there. -/
structure UtmRow where
  source : Option (Option String)
  medium : Option (Option String)
  campaign : Option (Option String)
  content : Option (Option String)

/-- A row of `links` with its counter, its rules and what the query says of its owner. -/
structure LinkRow where
  id : String
  workspaceId : String
  destination : String
  redirectType : String
  expiresAt : Option JsDate
  expiresTo : Option String
  activatesAt : Option JsDate
  scheduledTo : Option String
  clickLimit : Option Int
  passwordHash : Option String
  forwardQuery : Bool
  deepLink : Bool
  hideReferrer : Bool
  publicPreview : Bool
  archivedAt : Option JsDate
  disabledAt : Option JsDate
  safeBrowsingStatus : String
  utm : Option UtmRow
  /-- `clicks` of the counter, none when the link has none yet. -/
  counter : Option Int
  ruleRows : List RuleRow
  /-- The workspace has an active owner whose email is not verified. -/
  ownerUnverified : Bool

/-! ### Links -/

/-- A rule in a link's chain. -/
structure ResolvedRule where
  id : String
  country : Option String
  device : Option String
  language : Option String
  destination : String
  weight : Option ℚ

/-- What the redirect works with, `ResolvedLink` and `ProjectedLink` in the source. -/
structure ResolvedLink where
  id : String
  workspaceId : String
  destination : String
  redirectType : String
  rules : List ResolvedRule
  expiresAt : Option JsDate
  expiresTo : Option String
  activatesAt : Option JsDate
  scheduledTo : Option String
  clickLimit : Option Int
  clicks : Int
  hasPassword : Bool
  forwardQuery : Bool
  deepLink : Bool
  hideReferrer : Bool
  publicPreview : Bool
  archived : Bool
  disabled : Bool
  ownerUnverified : Bool
  safeBrowsingStatus : String
  utm : Option UtmRow

def RuleRow.rule (r : RuleRow) : ResolvedRule :=
  ⟨r.id, r.whenCountry, r.whenDevice, r.whenLanguage, r.destination, r.weight⟩

/-- The rules in author order. -/
def LinkRow.rules (row : LinkRow) : List ResolvedRule :=
  (row.ruleRows.mergeSort fun a b => a.position ≤ b.position).map RuleRow.rule

/-- `PostgresLinkResolver.resolve`, from the row it finds. -/
def LinkRow.resolve (row : LinkRow) : ResolvedLink where
  id := row.id
  workspaceId := row.workspaceId
  destination := row.destination
  redirectType := row.redirectType
  rules := row.rules
  expiresAt := row.expiresAt
  expiresTo := row.expiresTo
  activatesAt := row.activatesAt
  scheduledTo := row.scheduledTo
  clickLimit := row.clickLimit
  clicks := row.counter.getD 0
  hasPassword := truthy row.passwordHash
  forwardQuery := row.forwardQuery
  deepLink := row.deepLink
  hideReferrer := row.hideReferrer
  publicPreview := row.publicPreview
  archived := row.archivedAt.isSome
  disabled := row.disabledAt.isSome
  ownerUnverified := row.ownerUnverified
  safeBrowsingStatus := row.safeBrowsingStatus
  utm := row.utm

/-- `projectedLink` of the worker's `buildUpsertRequests`. -/
def LinkRow.projectedLink (row : LinkRow) : ResolvedLink where
  id := row.id
  workspaceId := row.workspaceId
  destination := row.destination
  redirectType := row.redirectType
  rules := row.rules
  expiresAt := row.expiresAt
  expiresTo := row.expiresTo
  activatesAt := row.activatesAt
  scheduledTo := row.scheduledTo
  clickLimit := row.clickLimit
  clicks := row.counter.getD 0
  hasPassword := truthy row.passwordHash
  forwardQuery := row.forwardQuery
  deepLink := row.deepLink
  hideReferrer := row.hideReferrer
  publicPreview := row.publicPreview
  archived := row.archivedAt.isSome
  disabled := row.disabledAt.isSome
  ownerUnverified := row.ownerUnverified
  safeBrowsingStatus := row.safeBrowsingStatus
  utm := row.utm

/-- The worker and the resolver read a row alike. -/
theorem projectedLink_eq_resolve (row : LinkRow) : row.projectedLink = row.resolve := rfl

/-! ### Objects -/

/-- A field of an object that may be missing. -/
def optionalField (name : String) : Option (Option String) → List (String × JsValue)
  | none => []
  | some s => [(name, nullable s)]

def UtmRow.object (utm : UtmRow) : JsValue :=
  obj (optionalField "source" utm.source ++ optionalField "medium" utm.medium ++
    optionalField "campaign" utm.campaign ++ optionalField "content" utm.content)

def ResolvedRule.object (r : ResolvedRule) : JsValue :=
  obj [("id", str r.id),
    ("when", obj [("country", nullable r.country), ("device", nullable r.device),
      ("language", nullable r.language)]),
    ("then", str r.destination),
    ("weight", nullableNum r.weight)]

/-- `link.rules`. -/
def rulesValue (rules : List ResolvedRule) : JsValue := arr (rules.map ResolvedRule.object)

/-- `link.utm`. -/
def utmValue (utm : Option UtmRow) : JsValue := utm.elim null UtmRow.object

/-- A date of a link. -/
def dateValue (d : Option JsDate) : JsValue := nullableDate (d.map JsDate.time)

/-- The date as a text, `null` preserved. -/
def dateText (d : Option JsDate) : JsValue := nullable (d.map fun d => toISOString d.time)

/-- A whole number that may be `null`. -/
def limitValue (n : Option Int) : JsValue := nullableNum (n.map fun n => (n : ℚ))

def ResolvedLink.object (link : ResolvedLink) : JsValue :=
  obj [("id", str link.id),
    ("workspaceId", str link.workspaceId),
    ("destination", str link.destination),
    ("redirectType", str link.redirectType),
    ("rules", rulesValue link.rules),
    ("expiresAt", dateValue link.expiresAt),
    ("expiresTo", nullable link.expiresTo),
    ("activatesAt", dateValue link.activatesAt),
    ("scheduledTo", nullable link.scheduledTo),
    ("clickLimit", limitValue link.clickLimit),
    ("clicks", num link.clicks),
    ("hasPassword", .bool link.hasPassword),
    ("forwardQuery", .bool link.forwardQuery),
    ("deepLink", .bool link.deepLink),
    ("hideReferrer", .bool link.hideReferrer),
    ("publicPreview", .bool link.publicPreview),
    ("archived", .bool link.archived),
    ("disabled", .bool link.disabled),
    ("ownerUnverified", .bool link.ownerUnverified),
    ("safeBrowsingStatus", str link.safeBrowsingStatus),
    ("utm", utmValue link.utm)]

/-! ### The projection table -/

/-- `new Date(value)` of a text. -/
def newDate : JsValue → JsValue
  | str s => date (parseDate s)
  | _ => date none

/-- `value === null ? null : new Date(value)`. -/
def revived : JsValue → JsValue
  | null => null
  | v => newDate v

/-- A link as a stored item. -/
def toLinkItem (p : Platform) (link : ResolvedLink) (host slug : String) : JsValue :=
  obj [("PK", str (domainPk p host)),
    ("SK", str (linkSk p slug)),
    ("linkId", str link.id),
    ("workspaceId", str link.workspaceId),
    ("destination", str link.destination),
    ("redirectType", str link.redirectType),
    ("rules", rulesValue link.rules),
    ("expiresAt", dateText link.expiresAt),
    ("expiresTo", nullable link.expiresTo),
    ("activatesAt", dateText link.activatesAt),
    ("scheduledTo", nullable link.scheduledTo),
    ("clickLimit", limitValue link.clickLimit),
    ("clicks", num link.clicks),
    ("hasPassword", .bool link.hasPassword),
    ("forwardQuery", .bool link.forwardQuery),
    ("deepLink", .bool link.deepLink),
    ("hideReferrer", .bool link.hideReferrer),
    ("publicPreview", .bool link.publicPreview),
    ("archived", .bool link.archived),
    ("disabled", .bool link.disabled),
    ("ownerUnverified", .bool link.ownerUnverified),
    ("safeBrowsingStatus", str link.safeBrowsingStatus),
    ("utm", (utmValue link.utm).orElse null)]

/-- A stored item as a link, dates revived. -/
def fromLinkItem (item : JsValue) : JsValue :=
  obj [("id", item.get "linkId"),
    ("workspaceId", item.get "workspaceId"),
    ("destination", item.get "destination"),
    ("redirectType", item.get "redirectType"),
    ("rules", (item.get "rules").orElse (arr [])),
    ("expiresAt", revived (item.get "expiresAt")),
    ("expiresTo", item.get "expiresTo"),
    ("activatesAt", revived (item.get "activatesAt")),
    ("scheduledTo", item.get "scheduledTo"),
    ("clickLimit", item.get "clickLimit"),
    ("clicks", item.get "clicks"),
    ("hasPassword", item.get "hasPassword"),
    ("forwardQuery", item.get "forwardQuery"),
    ("deepLink", item.get "deepLink"),
    ("hideReferrer", item.get "hideReferrer"),
    ("publicPreview", item.get "publicPreview"),
    ("archived", item.get "archived"),
    -- an item from before the attribute existed keeps resolving
    ("disabled", (item.get "disabled").orElse (.bool false)),
    ("ownerUnverified", (item.get "ownerUnverified").orElse (.bool false)),
    ("safeBrowsingStatus", item.get "safeBrowsingStatus"),
    ("utm", (item.get "utm").orElse null)]

/-- The document client, with `removeUndefinedValues`: it refuses a `Date`. -/
def documentClient : Format := ⟨fun _ => none, none⟩

/-- What the table gives back of a link that was put in it, none where the put throws. -/
def stored (p : Platform) (link : ResolvedLink) (host slug : String) : Option JsValue :=
  documentClient.carry (toLinkItem p link host slug)

/-! ### The cache and the queue -/

/-- `JSON.parse` of `JSON.stringify`: a date is its text, an invalid one `null`. -/
def json : Format := ⟨fun t => some (nullable (t.map toISOString)), some null⟩

/-- Revive a cached link. -/
def reviveLink (cached : JsValue) : JsValue :=
  (cached.set "expiresAt" (revived (cached.get "expiresAt"))).set "activatesAt"
    (revived (cached.get "activatesAt"))

/-- The click as it is recorded. -/
structure ClickEvent where
  linkId : String
  workspaceId : String
  occurredAt : JsDate
  visitorHash : String
  country : Option String
  city : Option String
  device : Option String
  browser : Option String
  os : Option String
  referrerHost : Option String
  isQr : Bool
  isBot : Bool
  blockedReason : Option String
  matchedRuleId : Option String
  variant : Option String

def ClickEvent.object (event : ClickEvent) : JsValue :=
  obj [("linkId", str event.linkId),
    ("workspaceId", str event.workspaceId),
    ("occurredAt", date (some event.occurredAt.time)),
    ("visitorHash", str event.visitorHash),
    ("country", nullable event.country),
    ("city", nullable event.city),
    ("device", nullable event.device),
    ("browser", nullable event.browser),
    ("os", nullable event.os),
    ("referrerHost", nullable event.referrerHost),
    ("isQr", .bool event.isQr),
    ("isBot", .bool event.isBot),
    ("blockedReason", nullable event.blockedReason),
    ("matchedRuleId", nullable event.matchedRuleId),
    ("variant", nullable event.variant)]

/-- The message body of a click, as the value that its text denotes. -/
def serializeClickEvent (event : ClickEvent) : Option JsValue :=
  json.carry (event.object.set "occurredAt" (str (toISOString event.occurredAt.time)))

/-- A click from the body of a message. -/
def deserializeClickEvent (body : JsValue) : JsValue :=
  body.set "occurredAt" (newDate (body.get "occurredAt"))

/-! ### What has a form -/

theorem allJson_map {α : Type} (f : α → JsValue) (h : ∀ a, (f a).isJson = true) :
    ∀ l : List α, allJson (l.map f) = true
  | [] => by rw [List.map_nil, allJson]
  | a :: l => by rw [List.map_cons, allJson, h a, allJson_map f h l, Bool.and_self]

theorem fieldsJson_append : ∀ fs gs : List (String × JsValue),
    fieldsJson (fs ++ gs) = (fieldsJson fs && fieldsJson gs)
  | [], gs => by rw [List.nil_append, fieldsJson, Bool.true_and]
  | f :: fs, gs => by
    rw [List.cons_append, fieldsJson, fieldsJson, fieldsJson_append fs gs, Bool.and_assoc]

theorem fieldsJson_optionalField (name : String) (s : Option (Option String)) :
    fieldsJson (optionalField name s) = true := by
  cases s <;> simp [optionalField, fieldsJson]

theorem isJson_utmValue (utm : Option UtmRow) : (utmValue utm).isJson = true := by
  cases utm with
  | none => exact isJson_null
  | some utm =>
    simp [utmValue, UtmRow.object, isJson, fieldsJson_append, fieldsJson_optionalField]

theorem isJson_rulesValue (rules : List ResolvedRule) : (rulesValue rules).isJson = true := by
  rw [rulesValue, isJson]
  exact allJson_map _ (fun r => by simp [ResolvedRule.object, isJson, fieldsJson]) rules

/-- An item has no date in it: every put goes through. -/
theorem isJson_toLinkItem (p : Platform) (link : ResolvedLink) (host slug : String) :
    (toLinkItem p link host slug).isJson = true := by
  have hutm : ((utmValue link.utm).orElse null).isJson = true := by
    cases hutm : link.utm with
    | none => exact isJson_null
    | some utm => exact isJson_utmValue (some utm)
  simp [toLinkItem, isJson, fieldsJson, isJson_rulesValue, hutm, dateText, limitValue]

/-! ### There and back -/

theorem newDate_text (d : JsDate) : newDate (str (toISOString d.time)) = date (some d.time) := by
  rw [newDate, parseDate_toISOString d.low d.high]

/-- **A date comes back, and so does no date.** -/
theorem revived_dateText (d : Option JsDate) : revived (dateText d) = dateValue d := by
  cases d with
  | none => rfl
  | some d => exact newDate_text d

/-- What JSON makes of a date of a link. -/
theorem carry_dateValue (d : Option JsDate) : json.carry (dateValue d) = some (dateText d) := by
  cases d <;> rfl

theorem dateValue_ne_undefined (d : Option JsDate) : dateValue d ≠ undefined := by
  cases d <;> exact JsValue.noConfusion

/-- **An item gives back the link it was made of.** -/
theorem fromLinkItem_toLinkItem (p : Platform) (link : ResolvedLink) (host slug : String) :
    fromLinkItem (toLinkItem p link host slug) = link.object := by
  have hutm : ((utmValue link.utm).orElse null).orElse null = utmValue link.utm := by
    cases link.utm <;> rfl
  simp [fromLinkItem, toLinkItem, get_cons, revived_dateText, hutm, ResolvedLink.object,
    rulesValue]

/-- **The table gives it back as well.** -/
theorem fromLinkItem_stored (p : Platform) (link : ResolvedLink) (host slug : String) :
    (stored p link host slug).map fromLinkItem = some link.object := by
  rw [stored, Format.carry_of_isJson (isJson_toLinkItem p link host slug), Option.map_some,
    fromLinkItem_toLinkItem]

/-- **A cached link is the link.** -/
theorem reviveLink_stringify (link : ResolvedLink) :
    (json.carry link.object).map reviveLink = some link.object := by
  have hutm := isJson_utmValue link.utm
  have hrules := isJson_rulesValue link.rules
  simp [ResolvedLink.object, Format.carry, Format.carryFields_cons_of_isJson,
    Format.carryFields_cons (dateValue_ne_undefined _), carry_dateValue, hutm, hrules, limitValue,
    Format.carryFields, reviveLink, JsValue.set, setField, get_cons, revived_dateText]

/-- **A click that went through the queue is the click.** -/
theorem deserialize_serialize (event : ClickEvent) :
    (serializeClickEvent event).map deserializeClickEvent = some event.object := by
  simp [serializeClickEvent, ClickEvent.object, JsValue.set, setField, Format.carry,
    Format.carryFields_cons_of_isJson, Format.carryFields, deserializeClickEvent, get_cons,
    newDate_text]

/-! ### One link for all of them -/

/-- What the resolver in use and the way of a click must not change. -/
structure SameForAll (p : Platform) : Prop where
  /-- The item of a row is the link that Postgres resolves, in the table too. -/
  item : ∀ (row : LinkRow) (host slug : String),
    fromLinkItem (toLinkItem p row.projectedLink host slug) = row.resolve.object ∧
      (stored p row.projectedLink host slug).map fromLinkItem = some row.resolve.object
  /-- A link revived from the cache is the link cached. -/
  cached : ∀ link : ResolvedLink, (json.carry link.object).map reviveLink = some link.object
  /-- A click read from the queue is the click sent. -/
  click : ∀ event : ClickEvent,
    (serializeClickEvent event).map deserializeClickEvent = some event.object

/-- **The resolver in use never changes what a visitor gets.** -/
theorem same_for_all (p : Platform) : SameForAll p where
  item row host slug := by
    rw [← projectedLink_eq_resolve]
    exact ⟨fromLinkItem_toLinkItem p _ host slug, fromLinkItem_stored p _ host slug⟩
  cached := reviveLink_stringify
  click := deserialize_serialize

end SnapUrl.Projection.Resolvers
