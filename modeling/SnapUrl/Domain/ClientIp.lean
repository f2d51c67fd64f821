import SnapUrl.Domain.Visitor

/-!
# The client's address

What the client can do to `clientIpFromXff` of `packages/domain/src/client-ip.ts`, the address its
requests are limited and counted by.

* `forwardedBy`: what the proxies make of a header, each appending the address of its peer.
* `addressKept_iff`: **what the client puts before a suffix counts for nothing just when the suffix
  has one entry more than there are proxies**.
* `address_chosen`: two addresses chosen behind one proxy.
-/

namespace SnapUrl.Domain

/-- What the header reads as: a repeated one comes as a list of lines. -/
def xffEntries (xff : List String) : List String :=
  ((splitAtChar ',' (String.intercalate "," xff)).map trim).filter (· ≠ "")

/-- A proxy appends the address of its peer to what it was sent. -/
def appendPeer (header peer : String) : String :=
  if header = "" then peer else header ++ ", " ++ peer

/-- A header after all the proxies, the first of them facing the client. -/
def forwardedBy (peers : List String) (header : String) : String :=
  peers.foldl appendPeer header

/-- The header ends in what the proxies appended, after nothing or anything of the client's. -/
def Carries (suffix : String) (xff : List String) : Prop :=
  String.intercalate "," xff = suffix ∨
    ∃ content, String.intercalate "," xff = content ++ "," ++ suffix ∨
      String.intercalate "," xff = content ++ ", " ++ suffix

/-- **The client's part of the header counts for nothing.** -/
def AddressKept (trustedHops : Nat) (suffix : String) : Prop :=
  ∀ socketIp xff xff', Carries suffix xff → Carries suffix xff' →
    clientIpFromXff xff socketIp trustedHops = clientIpFromXff xff' socketIp trustedHops

/-! ### Entries -/

/-- The entries of one line. -/
def lineEntries (line : String) : List String :=
  ((splitAtChar ',' line).map trim).filter (· ≠ "")

theorem lineEntries_append (s t : String) :
    lineEntries (s ++ "," ++ t) = lineEntries s ++ lineEntries t := by
  have hlist : (s ++ "," ++ t).toList = s.toList ++ ',' :: t.toList := by simp
  rw [lineEntries, splitAtChar, hlist, List.splitOn_append_cons_self, List.map_append,
    List.map_append, List.filter_append]
  rfl

theorem trim_space_cons (l : List Char) :
    trim (String.ofList (' ' :: l)) = trim (String.ofList l) := by
  rw [trim, trim, String.toList_ofList, String.toList_ofList,
    List.dropWhile_cons_of_pos (by decide)]

/-- The space a proxy writes after the comma is trimmed. -/
theorem lineEntries_space (t : String) : lineEntries (" " ++ t) = lineEntries t := by
  have hlist : (" " ++ t).toList = ' ' :: t.toList := by simp
  rw [lineEntries, lineEntries, splitAtChar, splitAtChar, hlist,
    List.splitOn_cons_eq_if_modifyHead, if_neg (by decide)]
  cases hpieces : t.toList.splitOn ',' with
  | nil => exact absurd hpieces (List.splitOn_ne_nil _ _)
  | cons piece pieces =>
    rw [List.modifyHead_cons, List.map_cons, List.map_cons, List.map_cons, List.map_cons,
      trim_space_cons]

theorem lineEntries_append_space (s t : String) :
    lineEntries (s ++ ", " ++ t) = lineEntries s ++ lineEntries t := by
  have hcomma : s ++ ", " ++ t = s ++ "," ++ (" " ++ t) := by
    rw [String.append_assoc, String.append_assoc]
    rfl
  rw [hcomma, lineEntries_append, lineEntries_space]

theorem xffEntries_singleton (line : String) : xffEntries [line] = lineEntries line := by
  rw [xffEntries, String.intercalate_singleton, lineEntries]

/-- What a header that carries a suffix is read as. -/
theorem xffEntries_of_carries {suffix : String} {xff : List String} (h : Carries suffix xff) :
    ∃ before, xffEntries xff = before ++ lineEntries suffix := by
  change ∃ before, lineEntries (String.intercalate "," xff) = _
  rcases h with h | ⟨content, h | h⟩
  · exact ⟨[], by rw [h, List.nil_append]⟩
  · exact ⟨lineEntries content, by rw [h, lineEntries_append]⟩
  · exact ⟨lineEntries content, by rw [h, lineEntries_append_space]⟩

/-- One line, the suffix after the client's content. -/
theorem carries_singleton (suffix content : String) :
    Carries suffix [content ++ "," ++ suffix] :=
  .inr ⟨content, .inl String.intercalate_singleton⟩

/-! ### The position -/

/-- The entry `trustedHops` places from the right, where there are that many. -/
theorem clientIpFromXff_eq {xff : List String} {socketIp : String} {trustedHops : Nat}
    (hhops : trustedHops ≠ 0) :
    clientIpFromXff xff socketIp trustedHops =
      ((xffEntries xff).reverse[trustedHops]?).getD socketIp := by
  rw [clientIpFromXff, if_neg hhops]
  change (if (xffEntries xff).length ≤ trustedHops then socketIp
    else (xffEntries xff).getD ((xffEntries xff).length - 1 - trustedHops) socketIp) = _
  split
  · next hshort =>
    rw [List.getElem?_eq_none (by rw [List.length_reverse]; exact hshort), Option.getD_none]
  · next hlong => rw [List.getElem?_reverse (not_le.mp hlong), List.getD_eq_getElem?_getD]

theorem addressKept_of_lt {trustedHops : Nat} {suffix : String}
    (h : trustedHops < (lineEntries suffix).length) : AddressKept trustedHops suffix := by
  by_cases hhops : trustedHops = 0
  · intro socketIp xff xff' _ _
    rw [clientIpFromXff, clientIpFromXff, if_pos hhops, if_pos hhops]
  · have hentry : ∀ socketIp xff, Carries suffix xff →
        clientIpFromXff xff socketIp trustedHops =
          ((lineEntries suffix).reverse[trustedHops]?).getD socketIp := by
      intro socketIp xff hxff
      obtain ⟨before, hbefore⟩ := xffEntries_of_carries hxff
      rw [clientIpFromXff_eq hhops, hbefore, List.reverse_append,
        List.getElem?_append_left (by rw [List.length_reverse]; exact h)]
    intro socketIp xff xff' hxff hxff'
    rw [hentry socketIp xff hxff, hentry socketIp xff' hxff']

/-- The client's entry, so many times and once more. -/
def padding (address : String) : Nat → String
  | 0 => address
  | n + 1 => address ++ "," ++ padding address n

theorem lineEntries_padding {address : String} (h : lineEntries address = [address]) (n : Nat) :
    lineEntries (padding address n) = List.replicate (n + 1) address := by
  induction n with
  | zero => exact h
  | succ n ih =>
    rw [padding, lineEntries_append, h, ih, List.singleton_append, ← List.replicate_succ]

/-- **Past the end of the suffix the client chooses the address.** -/
theorem clientIpFromXff_padding {suffix : String} {trustedHops : Nat} (address socketIp : String)
    (haddress : lineEntries address = [address]) (hhops : trustedHops ≠ 0)
    (h : (lineEntries suffix).length ≤ trustedHops) :
    clientIpFromXff [padding address trustedHops ++ "," ++ suffix] socketIp trustedHops =
      address := by
  rw [clientIpFromXff_eq hhops, xffEntries_singleton, lineEntries_append,
    lineEntries_padding haddress, List.reverse_append,
    List.getElem?_append_right (by rw [List.length_reverse]; exact h), List.reverse_replicate,
    List.length_reverse, List.getElem?_replicate, if_pos (by omega), Option.getD_some]

/-- **The client's part counts for nothing just when the suffix is longer than the proxies are
many.** -/
theorem addressKept_iff (trustedHops : Nat) (suffix : String) :
    AddressKept trustedHops suffix ↔
      trustedHops = 0 ∨ trustedHops < (xffEntries [suffix]).length := by
  rw [xffEntries_singleton]
  constructor
  · intro hkept
    by_contra hcontra
    obtain ⟨hhops, hlong⟩ := not_or.mp hcontra
    have hshort := not_lt.mp hlong
    have hfirst := clientIpFromXff_padding "1.1.1.1" ""
      (by decide) hhops hshort
    have hsecond := clientIpFromXff_padding "2.2.2.2" ""
      (by decide) hhops hshort
    have hsame := hkept "" _ _ (carries_singleton suffix (padding "1.1.1.1" trustedHops))
      (carries_singleton suffix (padding "2.2.2.2" trustedHops))
    rw [hfirst, hsecond] at hsame
    exact absurd hsame (by decide)
  · rintro (rfl | hlt)
    · intro socketIp xff xff' _ _
      rfl
    · exact addressKept_of_lt hlt

/-- **Behind one proxy the client is whoever it says it is.** -/
theorem address_chosen :
    clientIpFromXff [forwardedBy ["203.0.113.9"] "1.1.1.1"] "10.0.0.1" 1 = "1.1.1.1" ∧
      clientIpFromXff [forwardedBy ["203.0.113.9"] "2.2.2.2"] "10.0.0.1" 1 = "2.2.2.2" ∧
      ¬ ∀ (trustedHops : Nat) (peers : List String), peers.length = trustedHops →
        (∀ peer ∈ peers, xffEntries [peer] = [peer]) →
        AddressKept trustedHops (forwardedBy peers "") := by
  refine ⟨by decide, by decide, fun h => ?_⟩
  have hkept := h 1 ["203.0.113.9"] rfl (by decide) "10.0.0.1" ["1.1.1.1,203.0.113.9"]
    ["2.2.2.2,203.0.113.9"] (carries_singleton _ "1.1.1.1") (carries_singleton _ "2.2.2.2")
  exact absurd hkept (by decide)

end SnapUrl.Domain
