import SnapUrl.Platform

/-!
# Who is visiting

`packages/domain/src/visitor.ts` and `client-ip.ts`: what the redirect reads off
a request about the visitor.
-/

namespace SnapUrl.Domain

inductive DeviceType where
  | ios
  | android
  | desktop
  | mobile
deriving DecidableEq, Repr

/-- Derive a per-visitor, per-link, per-day identifier. -/
def visitorHash (p : Platform) (dailySalt ip userAgent linkId : String) : String :=
  sliceTo 32 (p.hmacSha256Hex dailySalt (ip ++ " " ++ userAgent ++ " " ++ linkId))

def parseDevice (p : Platform) (userAgent : String) : DeviceType :=
  let ua := p.toLowerCase userAgent
  if includes ua "iphone" ∨ includes ua "ipod" then .ios
  else if includes ua "ipad" then .ios
  else if includes ua "android" then .android
  else if includes ua "mobile" ∨ includes ua "windows phone" ∨ includes ua "blackberry" ∨
      includes ua "opera mini" then .mobile
  else .desktop

/-- The alternatives of `BOT_PATTERN`, which is tested without regard to case. -/
def BOT_PATTERN : List String :=
  ["bot", "crawler", "spider", "crawling", "slurp", "curl", "wget", "python-requests", "axios",
    "go-http", "java/", "okhttp", "headless", "phantomjs", "puppeteer", "playwright", "lighthouse",
    "pingdom", "uptimerobot", "semrush", "ahrefs", "facebookexternalhit", "whatsapp",
    "telegrambot", "twitterbot", "linkedinbot", "slackbot", "discordbot", "preview"]

/-- Obvious automated traffic. -/
def isBot (userAgent : String) : Bool :=
  -- no user agent at all is not a browser
  userAgent = "" ||
    BOT_PATTERN.any (includes (String.ofList (userAgent.toList.map Char.toLower)))

/-- Two or three lower-case ASCII letters. -/
def isLanguageSubtag (s : String) : Bool :=
  (s.toList.length = 2 || s.toList.length = 3) && s.toList.all fun c => 'a' ≤ c && c ≤ 'z'

/-- "en-GB,en;q=0.9,fr;q=0.8" → "en" -/
def parseLanguage (p : Platform) (header : Option String) : Option String :=
  let first := trim ((splitAtChar ',' (orEmpty header)).headD "")
  let tag := p.toLowerCase (trim ((splitAtChar ';' first).headD ""))
  let primary := (splitAtChar '-' tag).headD ""
  if !truthy header ∨ first = "" ∨ tag = "" then none
  else if isLanguageSubtag primary then some primary
  else none

/-- The client address `trustedHops` proxies vouch for. -/
def clientIpFromXff (xff : List String) (socketIp : String) (trustedHops : Nat) : String :=
  if trustedHops = 0 then socketIp
  else
    let entries := ((splitAtChar ',' (String.intercalate "," xff)).map trim).filter (· ≠ "")
    if entries.length ≤ trustedHops then socketIp
    else entries.getD (entries.length - 1 - trustedHops) socketIp

end SnapUrl.Domain
