import SnapUrl.Domain.Visitor

/-!
# Deep links

`packages/domain/src/deep-link.ts`: the URL that opens an app on Android, with
the web page as its fallback.

* `buildDeepLink_eq_self`: **away from Android, or with deep linking off, the
  destination is handed over untouched**.
-/

namespace SnapUrl.Domain

open Lib FormUrlencoded

/-- Hostname → Android package, `ANDROID_PACKAGES`. -/
def androidPackages : List (String × String) :=
  [("youtube.com", "com.google.android.youtube"),
    ("youtu.be", "com.google.android.youtube"),
    ("spotify.com", "com.spotify.music"),
    ("instagram.com", "com.instagram.android"),
    ("twitter.com", "com.twitter.android"),
    ("x.com", "com.twitter.android"),
    ("tiktok.com", "com.zhiliaoapp.musically"),
    ("whatsapp.com", "com.whatsapp"),
    ("wa.me", "com.whatsapp"),
    ("facebook.com", "com.facebook.katana"),
    ("fb.com", "com.facebook.katana"),
    ("soundcloud.com", "com.soundcloud.android"),
    ("etsy.com", "com.etsy.android"),
    ("amazon.com", "com.amazon.mShop.android.shopping"),
    ("amazon.in", "com.amazon.mShop.android.shopping"),
    ("amazon.co.uk", "com.amazon.mShop.android.shopping")]

/-- Drop a leading `www.`. -/
def dropWww (host : String) : String :=
  if "www.".toList.isPrefixOf host.toList then String.ofList (host.toList.drop 4) else host

def packageFor (p : Platform) (hostname : String) : Option String :=
  let host := dropWww (p.toLowerCase hostname)
  (androidPackages.find? fun e => host = e.1 || endsWith host ("." ++ e.1)).map (·.2)

/-- Turn a destination into whatever opens the app on this device, or leave it alone. -/
def buildDeepLink (p : Platform) (destination : String) (device : Option DeviceType)
    (enabled : Bool) : String :=
  if !enabled then destination
  else if device ≠ some .android then destination
  else
    match p.parseUrl destination with
    | none => destination
    | some url =>
      if url.protocol ≠ "https:" ∧ url.protocol ≠ "http:" then destination
      else
        match packageFor p url.hostname with
        | none => destination
        | some androidPackage =>
          "intent://" ++ url.host ++ url.pathname ++ url.search ++
            "#Intent;scheme=https;package=" ++ androidPackage ++ ";S.browser_fallback_url=" ++
            String.ofList (encodeURIComponent destination.toList) ++ ";end"

theorem buildDeepLink_eq_self {p : Platform} {destination : String} {device : Option DeviceType}
    {enabled : Bool} (h : enabled = false ∨ device ≠ some .android) :
    buildDeepLink p destination device enabled = destination := by
  rw [buildDeepLink]
  rcases h with rfl | h
  · rfl
  · rw [if_pos h, ite_self]

end SnapUrl.Domain
