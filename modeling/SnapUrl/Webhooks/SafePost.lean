import SnapUrl.Links.DeniedHosts

/-!
# Requests to endpoints that users typed in

`apps/worker/src/jobs/safe-post.ts`.  What the name in a URL resolves to is up to its owner, at
every lookup anew.

* `guardedLookup`, `safePost`: the addresses that a request may be sent to.
* `isDeniedAddress_of_internal`: an answer of the name servers is told by its text.
* `safePost_external`: **no request goes to an internal address**.
-/

namespace SnapUrl.Webhooks

open Lib Links

/-- An address that a name resolves to. -/
inductive LookupAddress where
  | ipv4 (value : BitVec 32)
  | ipv6 (value : BitVec 128)
deriving DecidableEq

/-- The text of it in an answer: an IPv6 address that carries an IPv4 one ends in dots. -/
def LookupAddress.address : LookupAddress → String
  | .ipv4 value => ipv4Text value
  | .ipv6 value =>
    if value.toNat / 2 ^ 32 = 0xffff then "::ffff:" ++ ipv4Text (value.setWidth 32)
    else if 2 ≤ value.toNat ∧ value.toNat < 2 ^ 32 then "::" ++ ipv4Text (value.setWidth 32)
    else String.ofList (ipv6Text value)

/-- The same address as the host of a URL. -/
def LookupAddress.host : LookupAddress → UrlHost
  | .ipv4 value => .ipv4 value
  | .ipv6 value => .ipv6 value

section

variable (p : Platform) (resolve : String → Option (List LookupAddress)) (all : Bool)

def isDeniedAddress : LookupAddress → Bool
  | .ipv6 value => isDeniedIpv6 p (LookupAddress.ipv6 value).address
  | .ipv4 value => isDeniedIpv4 (LookupAddress.ipv4 value).address

def blockedAddress (host : String) : String :=
  "Blocked: " ++ host ++ " is, or resolves to, a private, loopback or link-local address"

/-- The socket gets every address when it asks for all, and the first one otherwise. -/
def guardedLookup (hostname : String) : Except String (List LookupAddress) :=
  match resolve hostname with
  | none => .error ("getaddrinfo ENOTFOUND " ++ hostname)
  | some list =>
    if list = [] ∨ list.any (isDeniedAddress p) = true then .error (blockedAddress hostname)
    else .ok (if all then list else list.take 1)

/-- A socket looks up names only. -/
def connect : UrlHost → Except String (List LookupAddress)
  | .ipv4 value => .ok [.ipv4 value]
  | .ipv6 value => .ok [.ipv6 value]
  | .domain name => guardedLookup p resolve all name.text

/-- The addresses the POST may go to.  `host` is what the URL's `hostname` denotes; redirects
are not followed. -/
def safePost (url : String) (host : UrlHost) : Except String (List LookupAddress) :=
  match p.parseUrl url with
  | none => .error ("Not a valid URL: " ++ url)
  | some target =>
    if target.protocol ≠ "https:" ∧ target.protocol ≠ "http:" then
      .error ("Only http and https endpoints are allowed: " ++ url)
    else if isDeniedHost p target.hostname = true then .error (blockedAddress target.hostname)
    else connect p resolve all host

end

section

variable {p : Platform} {resolve : String → Option (List LookupAddress)} {all : Bool}

/-! ### Texts of addresses -/

abbrev IsPlain (c : Char) : Prop :=
  (c.toNat < 128 ∧ c.toLower = c) ∧ c ≠ '%' ∧ c ≠ '[' ∧ c ≠ ']'

/-- What is neither in brackets nor has a zone is read as it is. -/
theorem isDeniedIpv6_eq (hlower : LowersAscii p) {text : String} (h : ∀ c ∈ text.toList, IsPlain c) :
    isDeniedIpv6 p text = isDeniedGroups text := by
  have hopening : withoutOpening text = text :=
    if_neg fun hhead => (h _ (List.mem_of_mem_head? hhead)).2.2.1 rfl
  have hclosing : withoutClosing text = text :=
    if_neg fun hlast => (h _ (List.mem_of_getLast? hlast)).2.2.2 rfl
  have hzone : (splitAtChar '%' text).headD "" = text := by
    rw [splitAtChar, List.splitOn_eq_singleton fun hmem => (h _ hmem).2.1 rfl]
    exact String.ofList_toList
  rw [isDeniedIpv6, hopening, hclosing, hzone, toLowerCase_eq hlower fun c hc => (h c hc).1]

theorem forall_mem_ipv4Text {P : Char → Prop} (hdot : P '.') (h : ∀ v < 10, P (Nat.digitChar v))
    (value : BitVec 32) : ∀ c ∈ (ipv4Text value).toList, P c := by
  have hdots : ∀ c ∈ ".".toList, P c := fun c hc => List.mem_singleton.mp hc ▸ hdot
  simp only [ipv4Text, dotted, String.toList_append, List.forall_mem_append]
  exact ⟨⟨⟨⟨⟨⟨forall_mem_toString h _, hdots⟩, forall_mem_toString h _⟩, hdots⟩,
    forall_mem_toString h _⟩, hdots⟩, forall_mem_toString h _⟩

theorem isPlain_address (value : BitVec 128) :
    ∀ c ∈ (LookupAddress.ipv6 value).address.toList, IsPlain c := by
  have htail := forall_mem_ipv4Text (P := IsPlain) (by decide) (by decide) (value.setWidth 32)
  rw [LookupAddress.address]
  split
  · rw [String.toList_append, List.forall_mem_append]
    exact ⟨forall_mem_of_all (by decide +kernel), htail⟩
  split
  · rw [String.toList_append, List.forall_mem_append]
    exact ⟨forall_mem_of_all (by decide +kernel), htail⟩
  · rw [String.toList_ofList]
    exact forall_mem_ipv6Text (by decide) (by decide) value

/-- A mapped address is told by the IPv4 address in it. -/
theorem isDeniedGroups_mapped {value : BitVec 32} (h : DeniedRange value) :
    isDeniedGroups ("::ffff:" ++ ipv4Text value) = true := by
  have hdot : '.' ∈ (ipv4Text value).toList := by simp [ipv4Text, dotted]
  have hline : (ipv4Text value).toList.takeWhile (fun c => !isLineTerminator c) =
      (ipv4Text value).toList :=
    List.takeWhile_eq_self_iff.mpr (forall_mem_ipv4Text (by decide) (by decide) value)
  have hdrop : ("::ffff:" ++ ipv4Text value).toList.drop 7 = (ipv4Text value).toList := by
    rw [String.toList_append]
    exact List.drop_left' rfl
  have hprefix : ("::ffff:" ++ ipv4Text value).toList.take 7 = "::ffff:".toList := by
    rw [String.toList_append]
    exact List.take_left' rfl
  have htail : mappedTail ("::ffff:" ++ ipv4Text value) = some (ipv4Text value) := by
    rw [mappedTail, hdrop, hprefix, hline, String.ofList_toList]
    exact if_pos ⟨rfl, List.ne_nil_of_mem hdot⟩
  have hdenied : isDeniedTail (ipv4Text value) = true := by
    rw [isDeniedTail, if_pos ((includes_singleton _ '.').mpr hdot)]
    exact (isDeniedIpv4_ipv4Text value).mpr h
  rw [isDeniedGroups, htail, Option.any_some, hdenied]
  split_ifs
  all_goals rfl

theorem told_of_internal {value : BitVec 128} (h : (UrlHost.ipv6 value).Internal) :
    (UrlHost.ipv6 value).Told := by
  obtain ⟨a, b, c, d, e, f, g, i, -, hhigh, hlow, hvalue⟩ := exists_pieces value
  have hp : Pieces value a b c d e f g i := ⟨hhigh, hlow, hvalue⟩
  have hpieces := hp.internal_iff.mp h
  simp only [UrlHost.Told, hp.first_eq]
  omega

/-- **Every internal address is denied.** -/
theorem isDeniedAddress_of_internal (hlower : LowersAscii p) {a : LookupAddress}
    (h : a.host.Internal) : isDeniedAddress p a = true := by
  cases a with
  | ipv4 value => exact (isDeniedIpv4_ipv4Text value).mpr h
  | ipv6 value =>
    obtain ⟨a, b, c, d, e, f, g, i, -, hhigh, hlow, hvalue⟩ := exists_pieces value
    have hp : Pieces value a b c d e f g i := ⟨hhigh, hlow, hvalue⟩
    have hpieces := hp.internal_iff.mp h
    rw [isDeniedAddress, isDeniedIpv6_eq hlower (isPlain_address value), LookupAddress.address]
    split
    · next hmapped =>
      refine isDeniedGroups_mapped (hp.range_iff.mpr ?_)
      rcases hpieces with hlocal | hunique | ⟨hzero, hshort | hrange⟩
      · omega
      · omega
      · omega
      · exact hrange.2
    split
    · omega
    · exact ((isDeniedGroups_ipv6Text_iff value).mpr (told_of_internal h)).mpr h

theorem isDeniedHost_of_internal (hlower : LowersAscii p) {a : LookupAddress}
    (h : a.host.Internal) : isDeniedHost p a.host.text = true := by
  refine ((isDeniedHost_iff_internal_iff hlower a.host).mpr ?_).mpr h
  cases a with
  | ipv4 value => trivial
  | ipv6 value => exact told_of_internal h

/-! ### Requests -/

/-- The answer for a name passes as a whole. -/
theorem guardedLookup_eq_ok {hostname : String} {sent : List LookupAddress}
    (h : guardedLookup p resolve all hostname = .ok sent) :
    sent ≠ [] ∧ ∀ a ∈ sent, isDeniedAddress p a = false := by
  rw [guardedLookup] at h
  split at h
  · cases h
  split at h
  · cases h
  next list hlookup hpass =>
  obtain ⟨hne, hnone⟩ := not_or.mp hpass
  have hallowed : ∀ a ∈ list, isDeniedAddress p a = false := by simpa using hnone
  obtain rfl := Except.ok.inj h
  split
  · exact ⟨hne, hallowed⟩
  · exact ⟨by simpa using hne, fun a ha => hallowed a (List.mem_of_mem_take ha)⟩

theorem external_literal (hlower : LowersAscii p) (a : LookupAddress)
    (h : ¬ isDeniedHost p a.host.text = true) : [a] ≠ [] ∧ ∀ b ∈ [a], ¬ b.host.Internal := by
  refine ⟨List.cons_ne_nil _ _, fun b hb hinternal => h ?_⟩
  obtain rfl := List.mem_singleton.mp hb
  exact isDeniedHost_of_internal hlower hinternal

/-- **No request goes to an internal address**, whatever a name resolves to when it is sent. -/
theorem safePost_external (p : Platform) (hlower : LowersAscii p)
    (resolve : String → Option (List LookupAddress)) (all : Bool) (url : String) (host : UrlHost)
    (hhost : ∀ target, p.parseUrl url = some target → target.hostname = host.text)
    (sent : List LookupAddress) (h : safePost p resolve all url host = .ok sent) :
    sent ≠ [] ∧ ∀ a ∈ sent, ¬ a.host.Internal := by
  rw [safePost] at h
  split at h
  · cases h
  next target hurl =>
  split at h
  · cases h
  split at h
  · cases h
  next hallowed =>
  rw [hhost target hurl] at hallowed
  -- an address in the URL is for the first guard, the addresses of a name for the second
  cases host with
  | ipv4 value =>
    obtain rfl := Except.ok.inj h
    exact external_literal hlower (.ipv4 value) hallowed
  | ipv6 value =>
    obtain rfl := Except.ok.inj h
    exact external_literal hlower (.ipv6 value) hallowed
  | domain name =>
    obtain ⟨hne, hpass⟩ := guardedLookup_eq_ok h
    refine ⟨hne, fun a ha hinternal => ?_⟩
    exact absurd (isDeniedAddress_of_internal hlower hinternal) (by simp [hpass a ha])

end

def exampleName : HostName where
  text := "example.com"
  ascii := by simp
  lower := by decide
  noColon := by decide
  named := by decide

def exampleAddresses : List LookupAddress := [.ipv4 (ipv4 8 8 8 8), .ipv6 (ipv6Of 0x2001)]

/-- A name with two addresses. -/
theorem safePost_external_example :
    ∃ sent, safePost Creation.sampleEnvironment.p (fun _ => some exampleAddresses) true
        "https://example.com/" (.domain exampleName) = .ok sent ∧
      sent ≠ [] ∧ ∀ a ∈ sent, ¬ a.host.Internal := by
  have hsent : safePost Creation.sampleEnvironment.p (fun _ => some exampleAddresses) true
      "https://example.com/" (.domain exampleName) = .ok exampleAddresses := by
    decide +kernel
  refine ⟨_, hsent, safePost_external _ (fun _ _ => rfl) _ _ _ _ (fun target htarget => ?_) _ hsent⟩
  obtain rfl : Creation.exampleUrl = target := Option.some.inj htarget
  rfl

end SnapUrl.Webhooks
