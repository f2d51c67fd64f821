import Mathlib.Data.List.Infix
import SnapUrl.Lib.HostText
import SnapUrl.Links.Targets

/-!
# Hosts that are refused

`packages/contract/src/http-url.ts`: internal targets are told by the text of the host, as a parsed
URL has it.

* `parseInt16`, `number`: what the code reads numbers with.
* `isDeniedIpv4`, `isDeniedIpv6`, `isDeniedHost`: the guards.
* `parseHttpUrl`: the schema `HttpUrl`.
* `UrlHost`: the hosts that a parsed URL has, and their texts.
* `Internal`: what a host denotes, told by its value.
* `guarded_iff`: **the text tells an internal host from any other just when the host is `Told`**.
* `hosts_mistaken`: three hosts that are not.
-/

namespace SnapUrl.Links

open Lib Lib.FormUrlencoded Redirect

/-! ### Numbers -/

def isHexDigit (c : Char) : Bool := (hexValue c.toNat).isSome

/-- The text after a sign. -/
def afterSign (chars : List Char) : List Char :=
  if chars.head? = some '-' ∨ chars.head? = some '+' then chars.tail else chars

/-- The text after `0x`. -/
def afterHexMark (chars : List Char) : List Char :=
  if chars.take 2 = ['0', 'x'] ∨ chars.take 2 = ['0', 'X'] then chars.drop 2 else chars

/-- `parseInt(text, 16)`, `none` for `NaN`. -/
def parseInt16 (text : String) : Option Int :=
  let chars := text.toList.dropWhile isJsSpace
  let digits := (afterHexMark (afterSign chars)).takeWhile isHexDigit
  if digits = [] then none
  else if chars.head? = some '-' then some (-radixValue 16 digits)
  else some (radixValue 16 digits)

/-- The exponent of a decimal literal. -/
def exponentPart : List Char → Option Int
  | [] => some 0
  | e :: rest =>
    let digits := afterSign rest
    if (e = 'e' ∨ e = 'E') ∧ digits ≠ [] ∧ digits.all Char.isDigit = true then
      some (if rest.head? = some '-' then -radixValue 10 digits else radixValue 10 digits)
    else none

def unsignedDecimal (chars : List Char) : Option ℚ :=
  let whole := chars.takeWhile Char.isDigit
  let rest := chars.dropWhile Char.isDigit
  let fraction := if rest.head? = some '.' then rest.tail.takeWhile Char.isDigit else []
  let exponent := if rest.head? = some '.' then rest.tail.dropWhile Char.isDigit else rest
  if whole ++ fraction = [] then none
  else
    (exponentPart exponent).map fun (e : Int) =>
      roundToDouble (radixValue 10 (whole ++ fraction) * 10 ^ (e - (fraction.length : Int)))

def radixLiteral (base : Nat) (digits : List Char) : Option ℚ :=
  if digits ≠ [] ∧ digits.all (fun c => (hexValue c.toNat).any (· < base)) = true then
    some (roundToDouble (radixValue base digits))
  else none

/-- `Number(text)`, `none` for `NaN` and the infinities; a number past the largest double, which
JavaScript makes infinite, stays as large. -/
def number (text : String) : Option ℚ :=
  let chars := (trim text).toList
  let mark := (chars.take 2).map Char.toLower
  if chars = [] then some 0
  else if mark = ['0', 'x'] then radixLiteral 16 (chars.drop 2)
  else if mark = ['0', 'o'] then radixLiteral 8 (chars.drop 2)
  else if mark = ['0', 'b'] then radixLiteral 2 (chars.drop 2)
  else if chars.head? = some '-' then (unsignedDecimal chars.tail).map (- ·)
  else unsignedDecimal (afterSign chars)

/-! ### The guards -/

/-- `Number(part)` where it is a whole number from 0 to 255. -/
def octetOf (part : String) : Option Nat :=
  (number part).bind fun o => if o.den = 1 ∧ 0 ≤ o ∧ o ≤ 255 then some o.num.toNat else none

/-- The ranges, by the first two octets. -/
def deniedOctets (a b : Nat) : Bool :=
  if a = 0 then true
  else if a = 10 then true
  else if a = 127 then true
  else if a = 169 ∧ b = 254 then true
  else if a = 172 ∧ 16 ≤ b ∧ b ≤ 31 then true
  else if a = 192 ∧ b = 168 then true
  else if a = 100 ∧ 64 ≤ b ∧ b ≤ 127 then true
  else false

def isDeniedIpv4 (host : String) : Bool :=
  match (splitAtChar '.' host).map octetOf with
  | [some a, some b, some _, some _] => deniedOctets a b
  | _ => false

def isLineTerminator (c : Char) : Bool := c ∈ ['\n', '\r', '\u2028', '\u2029']

/-- `/^::ffff:(.+)/`. -/
def mappedTail (host : String) : Option String :=
  let tail := (host.toList.drop 7).takeWhile fun c => !isLineTerminator c
  if host.toList.take 7 = "::ffff:".toList ∧ tail ≠ [] then some (String.ofList tail) else none

/-- The tail of a mapped address, dotted or two groups. -/
def isDeniedTail (tail : String) : Bool :=
  if includes tail "." then isDeniedIpv4 tail
  else
    match (splitAtChar ':' tail).map parseInt16 with
    | [some hi, some lo] =>
      isDeniedIpv4 (dotted (hi / 256 % 256).toNat (hi % 256).toNat (lo / 256 % 256).toNat
        (lo % 256).toNat)
    | _ => false

/-- `isDeniedIpv6` of a host without brackets and zone. -/
def isDeniedGroups (host : String) : Bool :=
  let firstGroup := parseInt16 ((splitAtChar ':' host).headD "")
  if host = "::" ∨ host = "::1" then true
  else if firstGroup.any (fun group => 0xfe80 ≤ group ∧ group ≤ 0xfebf) = true then true
  else if host.toList.take 2 = ['f', 'c'] ∨ host.toList.take 2 = ['f', 'd'] then true
  else (mappedTail host).any isDeniedTail

def withoutOpening (raw : String) : String :=
  if raw.toList.head? = some '[' then String.ofList raw.toList.tail else raw

def withoutClosing (raw : String) : String :=
  if raw.toList.getLast? = some ']' then String.ofList raw.toList.dropLast else raw

def isDeniedIpv6 (p : Platform) (raw : String) : Bool :=
  isDeniedGroups
    (p.toLowerCase ((splitAtChar '%' (withoutClosing (withoutOpening raw))).headD ""))

def isDeniedHost (p : Platform) (host : String) : Bool :=
  let h := p.toLowerCase host
  if h = "localhost" ∨ endsWith h ".localhost" = true then true
  else if includes h ":" then isDeniedIpv6 p h
  else isDeniedIpv4 h

/-- `HTTP_URL_MAX_LENGTH`, in code units. -/
def httpUrlMaxLength : Nat := 2048

/-- The `HttpUrl` schema, with the normalised text that it hands on. -/
def parseHttpUrl (p : Platform) (value : String) : Option String :=
  if httpUrlMaxLength < (value.toList.flatMap Domain.utf16Units).length then none
  else if value.toList.any (fun c => c.toNat ≤ 0x1f || c.toNat = 0x7f) = true then none
  else
    match p.parseUrl value with
    | none => none
    | some url =>
      if url.protocol ≠ "https:" ∧ url.protocol ≠ "http:" then none
      else
        match p.parseUrl url.href with
        | none => none
        | some normalised =>
          if normalised.authority ≠ "//" then none
          else if isDeniedHost p normalised.hostname = true then none
          else some url.href

/-! ### The hosts of parsed URLs -/

/-- The URL standard reads such a host as an IPv4 address, or fails. -/
def endsInNumber (text : String) : Bool :=
  let labels := splitAtChar '.' text
  let labels := if labels.length ≠ 1 ∧ labels.getLast? = some "" then labels.dropLast else labels
  let last := (labels.getLastD "").toList
  (last ≠ [] ∧ last.all Char.isDigit = true) ∨
    ((last.take 2).map Char.toLower = ['0', 'x'] ∧ (last.drop 2).all isHexDigit = true)

structure HostName where
  text : String
  ascii : ∀ c ∈ text.toList, c.toNat < 128
  lower : asciiLower text = text
  noColon : ':' ∉ text.toList
  named : endsInNumber text = false

inductive UrlHost where
  | ipv4 (address : BitVec 32)
  | ipv6 (address : BitVec 128)
  | domain (name : HostName)

/-- `hostname` of the parsed URL. -/
def UrlHost.text : UrlHost → String
  | .ipv4 address => ipv4Text address
  | .ipv6 address => String.ofList ('[' :: ipv6Text address ++ [']'])
  | .domain name => name.text

/-! ### What a host denotes -/

/-- The addresses that start with the same bits as `base`. -/
def InBlock {w : Nat} (base : BitVec w) (length : Nat) (address : BitVec w) : Prop :=
  address.toNat / 2 ^ (w - length) = base.toNat / 2 ^ (w - length)

instance {w : Nat} (base : BitVec w) (length : Nat) (address : BitVec w) :
    Decidable (InBlock base length address) := inferInstanceAs (Decidable (_ = _))

def ipv4 (a b c d : Nat) : BitVec 32 := BitVec.ofNat 32 (((a * 256 + b) * 256 + c) * 256 + d)

/-- An address whose first group is `group`, the others zero. -/
def ipv6Of (group : Nat) : BitVec 128 := BitVec.ofNat 128 (group * 65536 ^ 7)

/-- The ranges of `isDeniedIpv4`, as blocks. -/
def DeniedRange (address : BitVec 32) : Prop :=
  InBlock (ipv4 0 0 0 0) 8 address ∨ InBlock (ipv4 10 0 0 0) 8 address ∨
    InBlock (ipv4 127 0 0 0) 8 address ∨ InBlock (ipv4 169 254 0 0) 16 address ∨
    InBlock (ipv4 172 16 0 0) 12 address ∨ InBlock (ipv4 192 168 0 0) 16 address ∨
    InBlock (ipv4 100 64 0 0) 10 address

/-- A name without the dot that may end it. -/
def withoutDot (text : String) : String :=
  if endsWith text "." then String.ofList text.toList.dropLast else text

def LocalName (text : String) : Prop :=
  withoutDot text = "localhost" ∨ endsWith (withoutDot text) ".localhost" = true

/-- **An internal target.** -/
def UrlHost.Internal : UrlHost → Prop
  | .ipv4 address => DeniedRange address
  | .ipv6 address =>
    address = 0 ∨ address = 1 ∨ InBlock (ipv6Of 0xfe80) 10 address ∨
      InBlock (ipv6Of 0xfc00) 7 address ∨
      InBlock (BitVec.ofNat 128 (0xffff * 65536 ^ 2)) 96 address ∧
        DeniedRange (address.setWidth 32)
  | .domain name => LocalName name.text

/-- Four labels that `Number` reads as octets of a denied range. -/
def ReadsAsDenied (text : String) : Prop :=
  ∃ a b c d, (splitAtChar '.' text).map octetOf = [some a, some b, some c, some d] ∧
    deniedOctets a b = true

/-- **The hosts whose text tells what they are**: no address whose first group starts with `fc` or
`fd` after leading zeros, no local name that ends in a dot, and no name that reads as an address. -/
def UrlHost.Told : UrlHost → Prop
  | .ipv4 _ => True
  | .ipv6 address =>
    let first := address.toNat / 65536 ^ 7
    first ≠ 0xfc ∧ first ≠ 0xfd ∧ ¬ (0xfc0 ≤ first ∧ first ≤ 0xfdf)
  | .domain name =>
    ¬ (LocalName name.text ∧ endsWith name.text "." = true) ∧ ¬ ReadsAsDenied name.text

/-- **The guard refuses a host just when it is internal**, and no spelling of an internal one
passes the schema. -/
structure Guarded (p : Platform) (host : UrlHost) : Prop where
  denied : isDeniedHost p host.text = true ↔ host.Internal
  refused : ∀ value url, p.parseUrl value = some url → url.hostname = host.text →
    host.Internal → parseHttpUrl p value = none

/-! ### Reading numbers -/

/-- What a hexadecimal digit is, and is not. -/
structure HexFacts (c : Char) : Prop where
  hex : isHexDigit c = true
  space : isJsSpace c = false
  sign : c ≠ '-' ∧ c ≠ '+'
  mark : c ≠ 'x' ∧ c ≠ 'X'
  delimiter : c ≠ '.' ∧ c ≠ '%' ∧ c ≠ ':' ∧ c ≠ ']' ∧ c ≠ '['
  line : isLineTerminator c = false
  lower : c.toLower = c
  ascii : c.toNat < 128

theorem hexFacts_digitChar : ∀ v < 16, HexFacts (Nat.digitChar v) := by
  intro v hv
  constructor <;> (revert v; decide)

/-- What a decimal digit is, and is not. -/
structure DecimalFacts (c : Char) : Prop where
  digit : c.isDigit = true
  space : isJsSpace c = false
  sign : c ≠ '-' ∧ c ≠ '+'
  mark : c.toLower ≠ 'x' ∧ c.toLower ≠ 'o' ∧ c.toLower ≠ 'b'

theorem decimalFacts_digitChar : ∀ v < 10, DecimalFacts (Nat.digitChar v) := by
  intro v hv
  constructor <;> (revert v; decide)

theorem afterSign_eq {chars : List Char} (h : ∀ c ∈ chars, c ≠ '-' ∧ c ≠ '+') :
    afterSign chars = chars := by
  refine if_neg (not_or.mpr ⟨fun hhead => ?_, fun hhead => ?_⟩)
  · exact (h _ (List.mem_of_mem_head? hhead)).1 rfl
  · exact (h _ (List.mem_of_mem_head? hhead)).2 rfl

theorem afterHexMark_eq {chars : List Char} (h : ∀ c ∈ chars, c ≠ 'x' ∧ c ≠ 'X') :
    afterHexMark chars = chars := by
  refine if_neg (not_or.mpr ⟨fun hmark => ?_, fun hmark => ?_⟩)
  · have hmem : 'x' ∈ chars.take 2 := by rw [hmark]; decide
    exact (h _ (List.mem_of_mem_take hmem)).1 rfl
  · have hmem : 'X' ∈ chars.take 2 := by rw [hmark]; decide
    exact (h _ (List.mem_of_mem_take hmem)).2 rfl

/-- **A group is read back.** -/
theorem parseInt16_hexText (piece : Nat) :
    parseInt16 (String.ofList (hexText piece)) = some (piece : Int) := by
  have hdigit := forall_mem_hexText hexFacts_digitChar piece
  have hspace : (hexText piece).dropWhile isJsSpace = hexText piece :=
    dropWhile_isJsSpace fun c hc => (hdigit c hc).space
  have hsign : afterSign (hexText piece) = hexText piece :=
    afterSign_eq fun c hc => (hdigit c hc).sign
  have hmark : afterHexMark (hexText piece) = hexText piece :=
    afterHexMark_eq fun c hc => (hdigit c hc).mark
  have hread : (hexText piece).takeWhile isHexDigit = hexText piece :=
    List.takeWhile_eq_self_iff.mpr fun c hc => (hdigit c hc).hex
  have hpositive : ¬ (hexText piece).head? = some '-' := fun hhead =>
    (hdigit _ (List.mem_of_mem_head? hhead)).sign.1 rfl
  rw [parseInt16, String.toList_ofList]
  simp only [hspace, hsign, hmark, hread]
  rw [if_neg (hexText_ne_nil piece), if_neg hpositive, radixValue_hexText]

/-- **A decimal octet is read back.** -/
theorem octetOf_toString {n : Nat} (h : n < 256) : octetOf (toString n) = some n := by
  have hdigit := forall_mem_toString decimalFacts_digitChar n
  have htrim : trim (toString n) = toString n := trim_of_not_space fun c hc => (hdigit c hc).space
  have hne : (toString n).toList ≠ [] := by
    rw [toList_toString]
    exact Nat.toDigits_ne_nil
  have hmark : ∀ c, c = 'x' ∨ c = 'o' ∨ c = 'b' →
      ((toString n).toList.take 2).map Char.toLower ≠ ['0', c] := by
    intro c hc hmark
    have hmem : c ∈ ((toString n).toList.take 2).map Char.toLower := by rw [hmark]; simp
    obtain ⟨d, hd, hlower⟩ := List.mem_map.mp hmem
    obtain ⟨hx, ho, hb⟩ := (hdigit d (List.mem_of_mem_take hd)).mark
    rcases hc with rfl | rfl | rfl
    · exact hx hlower
    · exact ho hlower
    · exact hb hlower
  have hpositive : ¬ (toString n).toList.head? = some '-' := fun hhead =>
    (hdigit _ (List.mem_of_mem_head? hhead)).sign.1 rfl
  have hsign : afterSign (toString n).toList = (toString n).toList :=
    afterSign_eq fun c hc => (hdigit c hc).sign
  have hwhole : (toString n).toList.takeWhile Char.isDigit = (toString n).toList :=
    List.takeWhile_eq_self_iff.mpr fun c hc => (hdigit c hc).digit
  have hrest : (toString n).toList.dropWhile Char.isDigit = [] :=
    List.dropWhile_eq_nil_iff.mpr fun c hc => (hdigit c hc).digit
  have hvalue : radixValue 10 (toString n).toList = n := by
    rw [toList_toString]
    exact radixValue_toDigits (by decide) (by decide) n
  have hdecimal : unsignedDecimal (toString n).toList = some (n : ℚ) := by
    rw [unsignedDecimal]
    simp only [hwhole, hrest, List.head?_nil, reduceCtorEq, if_false, List.append_nil, hne]
    rw [exponentPart, Option.map_some, hvalue]
    have hscale : (n : ℚ) * 10 ^ ((0 : Int) - (([] : List Char).length : Int)) = n := by simp
    rw [hscale, roundToDouble_natCast (h.trans (by norm_num))]
  have hnumber : number (toString n) = some (n : ℚ) := by
    rw [number, htrim]
    simp only [hne, hmark 'x' (.inl rfl), hmark 'o' (.inr (.inl rfl)),
      hmark 'b' (.inr (.inr rfl)), hpositive, if_false, hsign, hdecimal]
  have hle : (n : ℚ) ≤ 255 := by exact_mod_cast Nat.lt_succ_iff.mp h
  rw [octetOf, hnumber, Option.bind_some, if_pos ⟨Rat.den_natCast n, Nat.cast_nonneg n, hle⟩,
    Rat.num_natCast, Int.toNat_natCast]

/-- **A dotted address is told by its octets.** -/
theorem isDeniedIpv4_dotted {a b c d : Nat} (ha : a < 256) (hb : b < 256) (hc : c < 256)
    (hd : d < 256) : isDeniedIpv4 (dotted a b c d) = deniedOctets a b := by
  have hsplit : (splitAtChar '.' (dotted a b c d)).map octetOf =
      [some a, some b, some c, some d] := by
    rw [splitAtChar, splitOn_dotted]
    simp only [List.map_cons, List.map_nil, String.ofList_toList]
    rw [octetOf_toString ha, octetOf_toString hb, octetOf_toString hc, octetOf_toString hd]
  rw [isDeniedIpv4, hsplit]

theorem isDeniedIpv4_iff {host : String} : isDeniedIpv4 host = true ↔ ReadsAsDenied host := by
  rw [isDeniedIpv4, ReadsAsDenied]
  constructor
  · intro h
    split at h
    · next a b c d hparts => exact ⟨a, b, c, d, hparts, h⟩
    · cases h
  · rintro ⟨a, b, c, d, hparts, h⟩
    rw [hparts]
    exact h

/-! ### Groups of digits -/

theorem includes_singleton (s : String) (c : Char) :
    includes s (String.ofList [c]) = true ↔ c ∈ s.toList := by
  rw [includes, String.toList_ofList, List.any_eq_true]
  constructor
  · rintro ⟨t, ht, hc⟩
    obtain ⟨u, rfl⟩ := List.isPrefixOf_iff_prefix.mp hc
    exact ((List.mem_tails _ _).mp ht).subset List.mem_cons_self
  · intro hc
    obtain ⟨a, b, hab⟩ := List.append_of_mem hc
    refine ⟨c :: b, (List.mem_tails _ _).mpr ⟨a, hab.symm⟩, ?_⟩
    exact List.isPrefixOf_iff_prefix.mpr ⟨b, rfl⟩

/-- A group that is written with `f` and the digit `v` in front. -/
def StartsWith (v piece : Nat) : Prop :=
  piece = 240 + v ∨ piece / 16 = 240 + v ∨ piece / 256 = 240 + v

theorem take_two_digits {piece : Nat} (hge : 16 ≤ piece) (hlt : piece < 256) (cs : List Char) :
    (hexText piece ++ cs).take 2 = [Nat.digitChar (piece / 16), Nat.digitChar (piece % 16)] := by
  rw [hexText_of_le hge, hexText_of_lt (by omega)]
  rfl

theorem digits_eq_iff {u w v : Nat} (hu : u < 16) (hw : w < 16) (hv : v < 16) :
    [Nat.digitChar u, Nat.digitChar w] = ['f', Nat.digitChar v] ↔ u = 15 ∧ w = v := by
  constructor
  · intro h
    obtain ⟨hfirst, hsecond⟩ := List.cons_eq_cons.mp h
    exact ⟨digitChar_inj hu (by decide) hfirst, digitChar_inj hw hv (List.head_eq_of_cons_eq hsecond)⟩
  · rintro ⟨rfl, rfl⟩
    rfl

theorem take_two_hexText {piece v : Nat} (hlt : piece < 65536) (hv : v < 16) (cs : List Char) :
    (hexText piece ++ ':' :: cs).take 2 = ['f', Nat.digitChar v] ↔ StartsWith v piece := by
  rw [StartsWith]
  rcases Nat.lt_or_ge piece 16 with hsmall | hge
  · -- one digit, the colon after it
    rw [hexText_of_lt hsmall]
    refine iff_of_false (fun h => ?_) (by omega)
    have hcolon : ':' = Nat.digitChar v := List.head_eq_of_cons_eq (List.tail_eq_of_cons_eq h)
    exact (hexFacts_digitChar v hv).delimiter.2.2.1 hcolon.symm
  · rcases Nat.lt_or_ge piece 256 with hsmall | hge
    · rw [take_two_digits (by omega) hsmall, digits_eq_iff (by omega) (by omega) hv]
      omega
    · rw [hexText_of_le (by omega), List.append_assoc]
      rcases Nat.lt_or_ge piece 4096 with hsmall | hge
      · rw [take_two_digits (by omega) (by omega), digits_eq_iff (by omega) (by omega) hv]
        omega
      · rw [hexText_of_le (by omega), List.append_assoc, take_two_digits (by omega) (by omega),
          digits_eq_iff (by omega) (by omega) hv]
        omega

/-- **A text that starts with a group is told by it.** -/
theorem isDeniedGroups_first {piece : Nat} (hlt : piece < 65536) (rest : List Char) :
    isDeniedGroups (String.ofList (hexText piece ++ ':' :: rest)) = true ↔
      (0xfe80 ≤ piece ∧ piece ≤ 0xfebf) ∨ StartsWith 12 piece ∨ StartsWith 13 piece := by
  have hhead : ∀ text : List Char, hexText piece ++ ':' :: rest ≠ ':' :: text := by
    intro text h
    cases hhex : hexText piece with
    | nil => exact hexText_ne_nil piece hhex
    | cons c cs =>
      rw [hhex] at h
      exact head_hexText_ne_colon hhex (List.head_eq_of_cons_eq h)
  have hplain : ¬ (String.ofList (hexText piece ++ ':' :: rest) = "::" ∨
      String.ofList (hexText piece ++ ':' :: rest) = "::1") := by
    rintro (h | h)
    · exact hhead [':'] (String.ofList_injective h)
    · exact hhead [':', '1'] (String.ofList_injective h)
  have hgroup : (splitAtChar ':' (String.ofList (hexText piece ++ ':' :: rest))).headD "" =
      String.ofList (hexText piece) := by
    rw [splitAtChar, String.toList_ofList, List.splitOn_append_cons_self,
      List.splitOn_eq_singleton (colon_notMem_hexText piece)]
    rfl
  have hmapped : mappedTail (String.ofList (hexText piece ++ ':' :: rest)) = none := by
    rw [mappedTail, String.toList_ofList]
    refine if_neg fun h => ?_
    cases hhex : hexText piece with
    | nil => exact hexText_ne_nil piece hhex
    | cons c cs =>
      rw [hhex] at h
      exact head_hexText_ne_colon hhex (List.head_eq_of_cons_eq h.1)
  rw [isDeniedGroups]
  simp only [hgroup, parseInt16_hexText, hplain, hmapped, if_false, String.toList_ofList,
    Option.any_some, decide_eq_true_eq]
  have hcast : ((0xfe80 : Int) ≤ piece ∧ (piece : Int) ≤ 0xfebf) ↔
      (0xfe80 ≤ piece ∧ piece ≤ 0xfebf) := by omega
  have hfc := take_two_hexText (v := 12) hlt (by decide) rest
  have hfd := take_two_hexText (v := 13) hlt (by decide) rest
  split
  · next h => exact iff_of_true rfl (.inl (hcast.mp h))
  · next h =>
    split
    · next hstarts => exact iff_of_true rfl (.inr (hstarts.imp hfc.mp hfd.mp))
    · next hstarts =>
      refine iff_of_false (by decide) (not_or.mpr ⟨fun hlocal => h (hcast.mpr hlocal), ?_⟩)
      exact fun hunique => hstarts (hunique.imp hfc.mpr hfd.mpr)

/-- The text of a compressed run, then the pieces that are left. -/
def compressedText (ps : List Nat) : String := String.ofList (':' :: ':' :: joinPieces ps)

/-- The prefix of mapped addresses is a group of its own. -/
theorem mappedTail_eq_none {ps : List Nat} (h : ∀ next rest, ps ≠ 0xffff :: next :: rest) :
    mappedTail (compressedText ps) = none := by
  rw [mappedTail, compressedText, String.toList_ofList]
  refine if_neg fun hmapped => ?_
  have htake : (joinPieces ps).take 5 = ['f', 'f', 'f', 'f', ':'] := by
    exact List.tail_eq_of_cons_eq (List.tail_eq_of_cons_eq hmapped.1)
  have hcolon : ':' ∈ joinPieces ps := by
    refine List.mem_of_mem_take (i := 5) ?_
    rw [htake]
    decide
  match ps, h, htake, hcolon with
  | [], _, _, hcolon => cases hcolon
  | [piece], _, _, hcolon => exact colon_notMem_hexText piece hcolon
  | piece :: next :: rest, h, htake, _ =>
    have hfirst : hexText piece = hexText 0xffff := by
      -- both are what stands before the first colon
      have hsplit : hexText piece ++ ':' :: joinPieces (next :: rest) =
          hexText 0xffff ++ ':' :: (joinPieces (piece :: next :: rest)).drop 5 := by
        calc hexText piece ++ ':' :: joinPieces (next :: rest)
            = (joinPieces (piece :: next :: rest)).take 5 ++
                (joinPieces (piece :: next :: rest)).drop 5 := (List.take_append_drop 5 _).symm
          _ = _ := by rw [htake]; rfl
      have hgroups := congrArg (List.splitOn ':') hsplit
      rw [List.splitOn_append_cons_self, List.splitOn_append_cons_self,
        List.splitOn_eq_singleton (colon_notMem_hexText _),
        List.splitOn_eq_singleton (colon_notMem_hexText _)] at hgroups
      exact List.head_eq_of_cons_eq hgroups
    exact h next rest (by rw [hexText_inj hfirst])

theorem joinPieces_ne_nil : ∀ {ps : List Nat}, ps ≠ [] → joinPieces ps ≠ []
  | [], h => absurd rfl h
  | [piece], _ => hexText_ne_nil piece
  | piece :: next :: ps, _ => by
    rw [joinPieces]
    exact List.append_ne_nil_of_right_ne_nil _ (List.cons_ne_nil _ _)

theorem mappedTail_mapped (next : Nat) (rest : List Nat) :
    mappedTail (compressedText (0xffff :: next :: rest)) =
      some (String.ofList (joinPieces (next :: rest))) := by
  have hlist : (compressedText (0xffff :: next :: rest)).toList =
      "::ffff:".toList ++ joinPieces (next :: rest) := by
    rw [compressedText, String.toList_ofList, joinPieces]
    rfl
  have htail : (joinPieces (next :: rest)).takeWhile (fun c => !isLineTerminator c) =
      joinPieces (next :: rest) := by
    refine List.takeWhile_eq_self_iff.mpr
      (forall_mem_joinPieces (by decide) (fun v hv => ?_) (next :: rest))
    rw [(hexFacts_digitChar v hv).line]
    rfl
  have hdrop : ("::ffff:".toList ++ joinPieces (next :: rest)).drop 7 = joinPieces (next :: rest) :=
    List.drop_left' rfl
  have hprefix : ("::ffff:".toList ++ joinPieces (next :: rest)).take 7 = "::ffff:".toList :=
    List.take_left' rfl
  rw [mappedTail, hlist]
  simp only [hdrop, hprefix, htail]
  exact if_pos ⟨trivial, joinPieces_ne_nil (List.cons_ne_nil _ _)⟩

theorem isDeniedTail_groups {hi lo : Nat} (hhi : hi < 65536) {tail : String}
    (hdot : includes tail "." = false)
    (hgroups : (splitAtChar ':' tail).map parseInt16 = [some (hi : Int), some (lo : Int)]) :
    isDeniedTail tail = deniedOctets (hi / 256) (hi % 256) := by
  have hhigh : ((hi : Int) / 256 % 256).toNat = hi / 256 := by omega
  have hlow : ((hi : Int) % 256).toNat = hi % 256 := by omega
  rw [isDeniedTail, hdot, hgroups]
  simp only [Bool.false_eq_true, if_false]
  rw [isDeniedIpv4_dotted (by omega) (by omega) (by omega) (by omega), hhigh, hlow]

/-- **A mapped address is told by its last two pieces.** -/
theorem isDeniedTail_joinPieces {piece : Nat} {ps : List Nat}
    (hlt : ∀ p ∈ piece :: ps, p < 65536) :
    isDeniedTail (String.ofList (joinPieces (piece :: ps))) = true ↔
      ∃ hi lo, piece :: ps = [hi, lo] ∧ deniedOctets (hi / 256) (hi % 256) = true := by
  have hdot : includes (String.ofList (joinPieces (piece :: ps))) "." = false := by
    refine Bool.eq_false_iff.mpr fun h => ?_
    have hmem := (includes_singleton _ '.').mp h
    rw [String.toList_ofList] at hmem
    have hne : ∀ c ∈ joinPieces (piece :: ps), c ≠ '.' :=
      forall_mem_joinPieces (by decide) (fun v hv => (hexFacts_digitChar v hv).delimiter.1) _
    exact hne '.' hmem rfl
  have hgroups : (splitAtChar ':' (String.ofList (joinPieces (piece :: ps)))).map parseInt16 =
      (piece :: ps).map fun p : Nat => some (p : Int) := by
    rw [splitAtChar, String.toList_ofList, splitOn_joinPieces (List.cons_ne_nil _ _),
      List.map_map, List.map_map]
    refine List.map_congr_left fun p _ => ?_
    simp only [Function.comp_apply]
    exact parseInt16_hexText p
  cases ps with
  | nil =>
    refine iff_of_false (fun h => ?_) (by simp)
    rw [isDeniedTail, hdot, hgroups] at h
    cases h
  | cons lo ps =>
    cases ps with
    | nil =>
      rw [isDeniedTail_groups (hlt piece (by simp)) hdot hgroups]
      constructor
      · exact fun h => ⟨piece, lo, rfl, h⟩
      · rintro ⟨hi, lo', h, hdenied⟩
        rw [List.head_eq_of_cons_eq h]
        exact hdenied
    | cons next ps =>
      refine iff_of_false (fun h => ?_) (by simp)
      rw [isDeniedTail, hdot, hgroups] at h
      cases h

/-- What is left of the address after the run is an unspecified, a loopback or a denied mapped
address. -/
def TailDenied (ps : List Nat) : Prop :=
  ps = [] ∨ ps = [1] ∨
    ∃ hi lo, ps = [0xffff, hi, lo] ∧ deniedOctets (hi / 256) (hi % 256) = true

/-- **A text that starts with two colons is told by what is left.** -/
theorem isDeniedGroups_compressed {ps : List Nat} (hlt : ∀ piece ∈ ps, piece < 65536) :
    isDeniedGroups (compressedText ps) = true ↔ TailDenied ps := by
  have hplain : (compressedText ps = "::" ∨ compressedText ps = "::1") ↔ ps = [] ∨ ps = [1] := by
    constructor
    · rintro (h | h)
      · refine .inl ?_
        by_contra hne
        have hlist : ':' :: ':' :: joinPieces ps = [':', ':'] := String.ofList_injective h
        exact joinPieces_ne_nil hne (List.tail_eq_of_cons_eq (List.tail_eq_of_cons_eq hlist))
      · refine .inr ?_
        have hlist : joinPieces ps = ['1'] := List.tail_eq_of_cons_eq (List.tail_eq_of_cons_eq
          (show ':' :: ':' :: joinPieces ps = [':', ':', '1'] from String.ofList_injective h))
        have hsplit : ps.map hexText = [hexText 1] := by
          rw [← splitOn_joinPieces (by rintro rfl; cases hlist), hlist]
          rfl
        obtain ⟨piece, rfl, hpiece⟩ := List.map_eq_singleton_iff.mp hsplit
        rw [hexText_inj hpiece]
    · rintro (rfl | rfl)
      · exact .inl rfl
      · exact .inr rfl
  have hgroup : parseInt16 ((splitAtChar ':' (compressedText ps)).headD "") = none := by
    rw [splitAtChar, compressedText, String.toList_ofList, List.splitOn_cons_eq_if_modifyHead,
      if_pos (by decide)]
    rfl
  have hstarts : ¬ ((compressedText ps).toList.take 2 = ['f', 'c'] ∨
      (compressedText ps).toList.take 2 = ['f', 'd']) := by
    rw [compressedText, String.toList_ofList]
    rintro (h | h)
    · exact absurd (List.head_eq_of_cons_eq h) (by decide)
    · exact absurd (List.head_eq_of_cons_eq h) (by decide)
  rw [isDeniedGroups, TailDenied]
  simp only [hgroup, hstarts, Option.any_none, Bool.false_eq_true, if_false]
  by_cases hfirst : ps = [] ∨ ps = [1]
  · rw [if_pos (hplain.mpr hfirst)]
    exact iff_of_true rfl (hfirst.imp_right .inl)
  · rw [if_neg fun h => hfirst (hplain.mp h), ← or_assoc, or_iff_right hfirst]
    by_cases hmapped : ∃ next rest, ps = 0xffff :: next :: rest
    · obtain ⟨next, rest, rfl⟩ := hmapped
      rw [mappedTail_mapped, Option.any_some,
        isDeniedTail_joinPieces fun piece hpiece => hlt piece (List.mem_cons_of_mem _ hpiece)]
      constructor
      · rintro ⟨hi, lo, h, hdenied⟩
        exact ⟨hi, lo, congrArg _ h, hdenied⟩
      · rintro ⟨hi, lo, h, hdenied⟩
        exact ⟨hi, lo, List.tail_eq_of_cons_eq h, hdenied⟩
    · have hnone : mappedTail (compressedText ps) = none :=
        mappedTail_eq_none fun next rest h => hmapped ⟨next, rest, h⟩
      rw [hnone]
      refine iff_of_false (by decide) ?_
      rintro ⟨hi, lo, rfl, -⟩
      exact hmapped ⟨hi, [lo], rfl⟩

/-! ### Values -/

theorem deniedOctets_iff {a b : Nat} : deniedOctets a b = true ↔
    a = 0 ∨ a = 10 ∨ a = 127 ∨ (a = 169 ∧ b = 254) ∨ (a = 172 ∧ 16 ≤ b ∧ b ≤ 31) ∨
      (a = 192 ∧ b = 168) ∨ (a = 100 ∧ 64 ≤ b ∧ b ≤ 127) := by
  rw [deniedOctets]
  repeat' split
  all_goals simp_all

/-- The blocks are those of the first two octets. -/
theorem deniedRange_iff (address : BitVec 32) :
    DeniedRange address ↔
      deniedOctets (address.toNat / 16777216) (address.toNat / 65536 % 256) = true := by
  have hlt := address.isLt
  have h0 : (ipv4 0 0 0 0).toNat = 0 := by decide
  have h10 : (ipv4 10 0 0 0).toNat = 167772160 := by decide
  have h127 : (ipv4 127 0 0 0).toNat = 2130706432 := by decide
  have h169 : (ipv4 169 254 0 0).toNat = 2851995648 := by decide
  have h172 : (ipv4 172 16 0 0).toNat = 2886729728 := by decide
  have h192 : (ipv4 192 168 0 0).toNat = 3232235520 := by decide
  have h100 : (ipv4 100 64 0 0).toNat = 1681915904 := by decide
  rw [deniedOctets_iff, DeniedRange]
  simp only [InBlock, h0, h10, h127, h169, h172, h192, h100]
  norm_num only
  refine or_congr Iff.rfl (or_congr Iff.rfl (or_congr Iff.rfl
    (or_congr ?_ (or_congr ?_ (or_congr ?_ ?_)))))
  all_goals omega

theorem isDeniedIpv4_ipv4Text (address : BitVec 32) :
    isDeniedIpv4 (ipv4Text address) = true ↔ DeniedRange address := by
  have hlt := address.isLt
  have hfirst : address.toNat / 16777216 % 256 = address.toNat / 16777216 := by omega
  rw [ipv4Text, isDeniedIpv4_dotted (Nat.mod_lt _ (by decide)) (Nat.mod_lt _ (by decide))
    (Nat.mod_lt _ (by decide)) (Nat.mod_lt _ (by decide)), deniedRange_iff, hfirst]

/-- A small number has one piece. -/
theorem piece_eq_iff {x y k : Nat} (hy : y < 65536) (hk : k < 65536) :
    x * 65536 + y = k ↔ x = 0 ∧ y = k := by
  omega

/-- A number without its last piece. -/
theorem div_piece {x y : Nat} (hy : y < 65536) : (x * 65536 + y) / 65536 = x := by
  omega

/-- A block of the first group. -/
theorem inBlock_ipv6Of {group length : Nat} (hgroup : group < 65536) (hlength : length ≤ 16)
    (address : BitVec 128) :
    InBlock (ipv6Of group) length address ↔
      address.toNat / 65536 ^ 7 / 2 ^ (16 - length) = group / 2 ^ (16 - length) := by
  have hbase : (ipv6Of group).toNat = group * 65536 ^ 7 := by
    rw [ipv6Of, BitVec.toNat_ofNat]
    omega
  have hpow : 2 ^ (128 - length) = 65536 ^ 7 * 2 ^ (16 - length) := by
    rw [show 128 - length = 112 + (16 - length) by omega, Nat.pow_add,
      show 2 ^ 112 = 65536 ^ 7 by norm_num]
  rw [InBlock, hbase, hpow, ← Nat.div_div_eq_div_mul, ← Nat.div_div_eq_div_mul,
    Nat.mul_div_cancel _ (by decide)]

section

variable {address : BitVec 128} {a b c d e f g h : Nat}

/-- The value of eight pieces. -/
def valueOfPieces (a b c d e f g h : Nat) : Nat :=
  ((((((a * 65536 + b) * 65536 + c) * 65536 + d) * 65536 + e) * 65536 + f) * 65536 + g) * 65536 + h

/-- The pieces of an address, from the highest to the lowest. -/
structure Pieces (address : BitVec 128) (a b c d e f g h : Nat) : Prop where
  high : a < 65536 ∧ b < 65536 ∧ c < 65536 ∧ d < 65536
  low : e < 65536 ∧ f < 65536 ∧ g < 65536 ∧ h < 65536
  value : address.toNat = valueOfPieces a b c d e f g h

theorem Pieces.first_eq (hp : Pieces address a b c d e f g h) : address.toNat / 65536 ^ 7 = a := by
  obtain ⟨hhigh, hlow, hvalue⟩ := hp
  rw [hvalue, valueOfPieces]
  omega

/-- The first five are zero. -/
theorem high_eq_iff (hp : Pieces address a b c d e f g h) {k : Nat} (hk : k < 65536) :
    ((((a * 65536 + b) * 65536 + c) * 65536 + d) * 65536 + e) * 65536 + f = k ↔
      (a = 0 ∧ b = 0 ∧ c = 0 ∧ d = 0 ∧ e = 0) ∧ f = k := by
  rw [piece_eq_iff hp.low.2.1 hk, piece_eq_iff hp.low.1 (by decide),
    piece_eq_iff hp.high.2.2.2 (by decide), piece_eq_iff hp.high.2.2.1 (by decide),
    piece_eq_iff hp.high.2.1 (by decide)]
  simp only [and_assoc]

theorem Pieces.toNat_eq_iff (hp : Pieces address a b c d e f g h) {k : Nat} (hk : k < 65536) :
    address.toNat = k ↔
      (a = 0 ∧ b = 0 ∧ c = 0 ∧ d = 0 ∧ e = 0) ∧ f = 0 ∧ g = 0 ∧ h = k := by
  rw [hp.value, valueOfPieces, piece_eq_iff hp.low.2.2.2 hk, piece_eq_iff hp.low.2.2.1 (by decide),
    high_eq_iff hp (by decide)]
  simp only [and_assoc]

theorem Pieces.mapped_iff (hp : Pieces address a b c d e f g h) :
    InBlock (BitVec.ofNat 128 (0xffff * 65536 ^ 2)) 96 address ↔
      (a = 0 ∧ b = 0 ∧ c = 0 ∧ d = 0 ∧ e = 0) ∧ f = 0xffff := by
  have hbase : (BitVec.ofNat 128 (0xffff * 65536 ^ 2)).toNat / 2 ^ (128 - 96) = 0xffff := by
    decide
  have hpow : 2 ^ (128 - 96) = 65536 * 65536 := by decide
  rw [InBlock, hbase, hpow, ← Nat.div_div_eq_div_mul, hp.value, valueOfPieces,
    div_piece hp.low.2.2.2, div_piece hp.low.2.2.1, high_eq_iff hp (by decide)]

theorem Pieces.range_iff (hp : Pieces address a b c d e f g h) :
    DeniedRange (address.setWidth 32) ↔ deniedOctets (g / 256) (g % 256) = true := by
  have hg := hp.low.2.2.1
  have hh := hp.low.2.2.2
  have htail : (address.setWidth 32).toNat = g * 65536 + h := by
    rw [BitVec.toNat_setWidth, hp.value, valueOfPieces]
    omega
  have hfirst : (g * 65536 + h) / 16777216 = g / 256 := by omega
  have hsecond : (g * 65536 + h) / 65536 % 256 = g % 256 := by omega
  rw [deniedRange_iff, htail, hfirst, hsecond]

/-- **An internal address, by its pieces.** -/
theorem Pieces.internal_iff (hp : Pieces address a b c d e f g h) :
    (UrlHost.ipv6 address).Internal ↔
      (0xfe80 ≤ a ∧ a ≤ 0xfebf) ∨ (0xfc00 ≤ a ∧ a ≤ 0xfdff) ∨
        (a = 0 ∧ b = 0 ∧ c = 0 ∧ d = 0 ∧ e = 0) ∧
          (f = 0 ∧ g = 0 ∧ (h = 0 ∨ h = 1) ∨
            f = 0xffff ∧ deniedOctets (g / 256) (g % 256) = true) := by
  have hzero : address = 0 ↔ address.toNat = 0 := by
    rw [← BitVec.toNat_inj]; rfl
  have hone : address = 1 ↔ address.toNat = 1 := by
    rw [← BitVec.toNat_inj]; rfl
  have hlocal : InBlock (ipv6Of 0xfe80) 10 address ↔ 0xfe80 ≤ a ∧ a ≤ 0xfebf := by
    rw [inBlock_ipv6Of (by decide) (by decide), hp.first_eq]
    omega
  have hunique : InBlock (ipv6Of 0xfc00) 7 address ↔ 0xfc00 ≤ a ∧ a ≤ 0xfdff := by
    rw [inBlock_ipv6Of (by decide) (by decide), hp.first_eq]
    omega
  rw [UrlHost.Internal, hzero, hone, hp.range_iff, hlocal, hunique, hp.mapped_iff,
    hp.toNat_eq_iff (by decide), hp.toNat_eq_iff (by decide)]
  constructor
  · rintro (⟨hhigh, hf, hg, hh⟩ | ⟨hhigh, hf, hg, hh⟩ | h | h | ⟨⟨hhigh, hf⟩, h⟩)
    · exact .inr (.inr ⟨hhigh, .inl ⟨hf, hg, .inl hh⟩⟩)
    · exact .inr (.inr ⟨hhigh, .inl ⟨hf, hg, .inr hh⟩⟩)
    · exact .inl h
    · exact .inr (.inl h)
    · exact .inr (.inr ⟨hhigh, .inr ⟨hf, h⟩⟩)
  · rintro (h | h | ⟨hhigh, ⟨hf, hg, hh | hh⟩ | ⟨hf, h⟩⟩)
    · exact .inr (.inr (.inl h))
    · exact .inr (.inr (.inr (.inl h)))
    · exact .inl ⟨hhigh, hf, hg, hh⟩
    · exact .inr (.inl ⟨hhigh, hf, hg, hh⟩)
    · exact .inr (.inr (.inr (.inr ⟨⟨hhigh, hf⟩, h⟩)))

end

/-! ### Texts and values -/

/-- What is left after the zeros in front tells an internal address. -/
theorem tailDenied_iff (b c d e f g h : Nat) :
    TailDenied ([0, b, c, d, e, f, g, h].dropWhile (· = 0)) ↔
      (b = 0 ∧ c = 0 ∧ d = 0 ∧ e = 0) ∧
        (f = 0 ∧ g = 0 ∧ (h = 0 ∨ h = 1) ∨
          f = 0xffff ∧ deniedOctets (g / 256) (g % 256) = true) := by
  have hzero (ps : List Nat) : (0 :: ps).dropWhile (· = 0) = ps.dropWhile (· = 0) :=
    List.dropWhile_cons_of_pos rfl
  have hstop {piece : Nat} (hne : piece ≠ 0) (ps : List Nat) :
      (piece :: ps).dropWhile (· = 0) = piece :: ps :=
    List.dropWhile_cons_of_neg (by simpa using hne)
  rw [hzero]
  by_cases hb : b = 0
  · rw [hb, hzero]
    by_cases hc : c = 0
    · rw [hc, hzero]
      by_cases hd : d = 0
      · rw [hd, hzero]
        by_cases he : e = 0
        · rw [he, hzero]
          by_cases hf : f = 0
          · rw [hf, hzero]
            by_cases hg : g = 0
            · rw [hg, hzero]
              by_cases hh : h = 0
              · rw [hh, hzero]
                simp [TailDenied]
              · rw [hstop hh]
                simp [TailDenied, hh]
            · rw [hstop hg]
              simp [TailDenied, hg]
          · rw [hstop hf]
            simp [TailDenied, hf]
        · rw [hstop he]
          simp [TailDenied, he]
      · rw [hstop hd]
        simp [TailDenied, hd]
    · rw [hstop hc]
      simp [TailDenied, hc]
  · rw [hstop hb]
    simp [TailDenied, hb]

/-- **The text of an address tells what it is**, leading zeros before `fc` and `fd` apart. -/
theorem isDeniedGroups_ipv6Text_iff (address : BitVec 128) :
    (isDeniedGroups (String.ofList (ipv6Text address)) = true ↔ (UrlHost.ipv6 address).Internal) ↔
      (UrlHost.ipv6 address).Told := by
  obtain ⟨a, b, c, d, e, f, g, h, hpieces, hhigh, hlow, hvalue⟩ := exists_pieces address
  have hp : Pieces address a b c d e f g h := ⟨hhigh, hlow, hvalue⟩
  rw [hp.internal_iff, UrlHost.Told, hp.first_eq, ipv6Text, hpieces]
  by_cases hcompress : compressIndex [a, b, c, d, e, f, g, h] = some 0
  · have ha : a = 0 := by
      by_contra hne
      exact compressIndex_ne_zero hne hcompress
    have hlt : ∀ piece ∈ [a, b, c, d, e, f, g, h].dropWhile (· = 0), piece < 65536 := by
      intro piece hpiece
      have hmem := (List.dropWhile_sublist _).subset hpiece
      simp only [List.mem_cons, List.not_mem_nil, or_false] at hmem
      omega
    have htext := isDeniedGroups_compressed hlt
    rw [compressedText] at htext
    rw [piecesText_of_compressed rfl hcompress, htext]
    subst ha
    rw [tailDenied_iff]
    simp
  · obtain ⟨rest, hrest⟩ := piecesText_of_not_compressed hcompress
    have hzeros : ¬ (a = 0 ∧ b = 0 ∧ c = 0 ∧ d = 0 ∧ e = 0) := by
      rintro ⟨rfl, rfl, rfl, rfl, rfl⟩
      exact hcompress (compressIndex_five_zeros f g h)
    have ha := hhigh.1
    rw [hrest, isDeniedGroups_first ha]
    simp only [StartsWith, hzeros, false_and, or_false]
    omega

/-! ### Hosts -/

section

variable {p : Platform}

theorem toLowerCase_eq (hlower : LowersAscii p) {text : String}
    (h : ∀ c ∈ text.toList, c.toNat < 128 ∧ c.toLower = c) : p.toLowerCase text = text := by
  have hmap : text.toList.map Char.toLower = text.toList := by
    conv_rhs => rw [← List.map_id text.toList]
    exact List.map_congr_left fun c hc => (h c hc).2
  rw [hlower text fun c hc => (h c hc).1, asciiLower, hmap, String.ofList_toList]

theorem endsWith_iff {s suffix : String} :
    endsWith s suffix = true ↔ ∃ before, s.toList = before ++ suffix.toList := by
  rw [endsWith, List.isSuffixOf_iff_suffix]
  exact exists_congr fun _ => eq_comm

theorem colon_mem_ipv6Text (address : BitVec 128) : ':' ∈ ipv6Text address := by
  obtain ⟨a, b, c, d, e, f, g, h, hpieces, -⟩ := exists_pieces address
  rw [ipv6Text, hpieces]
  by_cases hcompress : compressIndex [a, b, c, d, e, f, g, h] = some 0
  · rw [piecesText_of_compressed rfl hcompress]
    exact List.mem_cons_self
  · obtain ⟨rest, hrest⟩ := piecesText_of_not_compressed hcompress
    rw [hrest]
    exact List.mem_append_right _ List.mem_cons_self

/-- The brackets are taken off again. -/
theorem isDeniedHost_ipv6 (hlower : LowersAscii p) (address : BitVec 128) :
    isDeniedHost p (UrlHost.ipv6 address).text =
      isDeniedGroups (String.ofList (ipv6Text address)) := by
  have hfacts : ∀ c ∈ ipv6Text address, (c.toNat < 128 ∧ c.toLower = c) ∧ c ≠ '%' ∧ c ≠ ']' :=
    forall_mem_ipv6Text (P := fun c => (c.toNat < 128 ∧ c.toLower = c) ∧ c ≠ '%' ∧ c ≠ ']')
      (by decide) (fun v hv =>
        have hdigit := hexFacts_digitChar v hv
        ⟨⟨hdigit.ascii, hdigit.lower⟩, hdigit.delimiter.2.1, hdigit.delimiter.2.2.2.1⟩) address
  have htext : (UrlHost.ipv6 address).text.toList = '[' :: ipv6Text address ++ [']'] :=
    String.toList_ofList
  have hlow : p.toLowerCase (UrlHost.ipv6 address).text = (UrlHost.ipv6 address).text := by
    refine toLowerCase_eq hlower fun c hc => ?_
    rw [htext, List.mem_append, List.mem_cons, List.mem_singleton] at hc
    rcases hc with (rfl | hc) | rfl
    · decide
    · exact (hfacts c hc).1
    · decide
  have hnamed : ¬ ((UrlHost.ipv6 address).text = "localhost" ∨
      endsWith (UrlHost.ipv6 address).text ".localhost" = true) := by
    rintro (h | h)
    · have hlist := htext.symm.trans (congrArg String.toList h)
      exact absurd (List.head_eq_of_cons_eq hlist) (by decide)
    · obtain ⟨before, hbefore⟩ := endsWith_iff.mp h
      rw [htext] at hbefore
      have hlast := congrArg List.getLast? hbefore
      rw [List.getLast?_append, List.getLast?_append] at hlast
      have hclash : some ']' = some 't' := hlast
      exact absurd hclash (by decide)
  have hcolon : includes (UrlHost.ipv6 address).text ":" = true := by
    refine (includes_singleton _ ':').mpr ?_
    rw [htext]
    exact List.mem_append_left _ (List.mem_cons_of_mem _ (colon_mem_ipv6Text address))
  have hopening : withoutOpening (UrlHost.ipv6 address).text =
      String.ofList (ipv6Text address ++ [']']) := by
    rw [withoutOpening, htext]
    rfl
  have hclosing : withoutClosing (String.ofList (ipv6Text address ++ [']'])) =
      String.ofList (ipv6Text address) := by
    rw [withoutClosing, String.toList_ofList, List.getLast?_append, List.dropLast_concat]
    rfl
  have hzone : (splitAtChar '%' (String.ofList (ipv6Text address))).headD "" =
      String.ofList (ipv6Text address) := by
    rw [splitAtChar, String.toList_ofList,
      List.splitOn_eq_singleton fun h => (hfacts _ h).2.1 rfl]
    rfl
  have hlow' : p.toLowerCase (String.ofList (ipv6Text address)) =
      String.ofList (ipv6Text address) := by
    refine toLowerCase_eq hlower fun c hc => ?_
    rw [String.toList_ofList] at hc
    exact (hfacts c hc).1
  rw [isDeniedHost, hlow]
  simp only [hnamed, hcolon, if_false, if_true]
  rw [isDeniedIpv6, hopening, hclosing, hzone, hlow']

theorem isDeniedHost_ipv4 (hlower : LowersAscii p) (address : BitVec 32) :
    isDeniedHost p (UrlHost.ipv4 address).text = true ↔ DeniedRange address := by
  have hfacts : ∀ c ∈ (UrlHost.ipv4 address).text.toList,
      (c.toNat < 128 ∧ c.toLower = c) ∧ c ≠ 'l' ∧ c ≠ ':' := by
    have hdigit : ∀ n, ∀ c ∈ (toString n).toList,
        (c.toNat < 128 ∧ c.toLower = c) ∧ c ≠ 'l' ∧ c ≠ ':' :=
      forall_mem_toString (P := fun c => (c.toNat < 128 ∧ c.toLower = c) ∧ c ≠ 'l' ∧ c ≠ ':')
        (by decide)
    intro c hc
    simp only [UrlHost.text, ipv4Text, dotted, String.toList_append, List.mem_append] at hc
    rcases hc with (((((hc | hc) | hc) | hc) | hc) | hc) | hc
    · exact hdigit _ c hc
    · exact List.mem_singleton.mp hc ▸ by decide
    · exact hdigit _ c hc
    · exact List.mem_singleton.mp hc ▸ by decide
    · exact hdigit _ c hc
    · exact List.mem_singleton.mp hc ▸ by decide
    · exact hdigit _ c hc
  have hlow : p.toLowerCase (UrlHost.ipv4 address).text = (UrlHost.ipv4 address).text :=
    toLowerCase_eq hlower fun c hc => (hfacts c hc).1
  have hnamed : ¬ ((UrlHost.ipv4 address).text = "localhost" ∨
      endsWith (UrlHost.ipv4 address).text ".localhost" = true) := by
    rintro (h | h)
    · exact (hfacts 'l' (by rw [h]; decide)).2.1 rfl
    · obtain ⟨before, hbefore⟩ := endsWith_iff.mp h
      refine (hfacts 'l' ?_).2.1 rfl
      rw [hbefore]
      exact List.mem_append_right _ (by decide)
  have hcolon : includes (UrlHost.ipv4 address).text ":" = false :=
    Bool.eq_false_iff.mpr fun h => (hfacts ':' ((includes_singleton _ ':').mp h)).2.2 rfl
  rw [isDeniedHost, hlow]
  simp only [hnamed, hcolon, if_false, Bool.false_eq_true]
  exact isDeniedIpv4_ipv4Text address

/-- A local name has a label that is no number. -/
theorem localhost_mem_labels {text : String} (h : LocalName text) :
    "localhost" ∈ splitAtChar '.' text := by
  have hlabel : ∀ before after : List Char, (after = [] ∨ after = ['.']) →
      "localhost" ∈ ((before ++ '.' :: ("localhost".toList ++ after)).splitOn '.').map
        String.ofList := by
    intro before after hafter
    rw [List.splitOn_append_cons_self, List.map_append]
    refine List.mem_append_right _ ?_
    rcases hafter with rfl | rfl
    · decide
    · decide
  have hplain : ∀ after : List Char, (after = [] ∨ after = ['.']) →
      "localhost" ∈ (("localhost".toList ++ after).splitOn '.').map String.ofList := by
    rintro after (rfl | rfl)
    · decide
    · decide
  obtain ⟨after, hafter, htext⟩ : ∃ after, (after = [] ∨ after = ['.']) ∧
      text.toList = (withoutDot text).toList ++ after := by
    by_cases hdot : endsWith text "." = true
    · obtain ⟨before, hbefore⟩ := endsWith_iff.mp hdot
      refine ⟨['.'], .inr rfl, ?_⟩
      rw [withoutDot, if_pos hdot, String.toList_ofList, hbefore]
      change before ++ ['.'] = (before ++ ['.']).dropLast ++ ['.']
      rw [List.dropLast_concat]
    · exact ⟨[], .inl rfl, by rw [withoutDot, if_neg hdot, List.append_nil]⟩
  rw [splitAtChar, htext]
  rcases h with h | h
  · rw [h]
    exact hplain after hafter
  · obtain ⟨before, hbefore⟩ := endsWith_iff.mp h
    have hlist : (withoutDot text).toList ++ after =
        before ++ '.' :: ("localhost".toList ++ after) := by
      rw [hbefore, List.append_assoc]
      rfl
    rw [hlist]
    exact hlabel before after hafter

theorem not_readsAsDenied_of_local {text : String} (h : LocalName text) :
    ¬ ReadsAsDenied text := by
  rintro ⟨a, b, c, d, hlabels, -⟩
  have hnone : (none : Option Nat) ∈ (splitAtChar '.' text).map octetOf :=
    List.mem_map.mpr ⟨"localhost", localhost_mem_labels h, by decide +kernel⟩
  rw [hlabels] at hnone
  simp at hnone

theorem isDeniedHost_domain (hlower : LowersAscii p) (name : HostName) :
    isDeniedHost p name.text = true ↔
      (name.text = "localhost" ∨ endsWith name.text ".localhost" = true) ∨
        ReadsAsDenied name.text := by
  have hlow : p.toLowerCase name.text = name.text := (hlower name.text name.ascii).trans name.lower
  have hcolon : includes name.text ":" = false :=
    Bool.eq_false_iff.mpr fun h => name.noColon ((includes_singleton _ ':').mp h)
  rw [isDeniedHost, hlow]
  simp only [hcolon, Bool.false_eq_true, if_false]
  split
  · next h => exact iff_of_true rfl (.inl h)
  · next h => rw [isDeniedIpv4_iff, or_iff_right h]

/-- A name that ends in a dot is local when it is so without the dot. -/
theorem localName_iff {text : String} (h : endsWith text "." = false) :
    LocalName text ↔ text = "localhost" ∨ endsWith text ".localhost" = true := by
  rw [LocalName, withoutDot, if_neg (by rw [h]; decide)]

theorem not_local_of_dot {text : String} (h : endsWith text "." = true) :
    ¬ (text = "localhost" ∨ endsWith text ".localhost" = true) := by
  obtain ⟨before, hbefore⟩ := endsWith_iff.mp h
  have hlast : text.toList.getLast? = some '.' := by
    rw [hbefore, List.getLast?_append]
    rfl
  rintro (hlocal | hlocal)
  · rw [hlocal] at hlast
    exact absurd hlast (by decide)
  · obtain ⟨before', hbefore'⟩ := endsWith_iff.mp hlocal
    rw [hbefore', List.getLast?_append] at hlast
    have hclash : some 't' = some '.' := hlast
    exact absurd hclash (by decide)

/-- **The text of a host tells what it is just when it is `Told`.** -/
theorem isDeniedHost_iff_internal_iff (hlower : LowersAscii p) (host : UrlHost) :
    (isDeniedHost p host.text = true ↔ host.Internal) ↔ host.Told := by
  cases host with
  | ipv4 address => exact iff_of_true (isDeniedHost_ipv4 hlower address) trivial
  | ipv6 address =>
    rw [isDeniedHost_ipv6 hlower]
    exact isDeniedGroups_ipv6Text_iff address
  | domain name =>
    change (isDeniedHost p name.text = true ↔ LocalName name.text) ↔
      ¬ (LocalName name.text ∧ endsWith name.text "." = true) ∧ ¬ ReadsAsDenied name.text
    rw [isDeniedHost_domain hlower]
    have hdisjoint : LocalName name.text → ¬ ReadsAsDenied name.text := not_readsAsDenied_of_local
    by_cases hdot : endsWith name.text "." = true
    · have hplain := not_local_of_dot hdot
      constructor
      · intro h
        refine ⟨fun hlocal => ?_, fun hreads => hdisjoint (h.mp (.inr hreads)) hreads⟩
        exact hdisjoint hlocal.1 ((h.mpr hlocal.1).resolve_left hplain)
      · rintro ⟨hlocal, hreads⟩
        exact iff_of_false (not_or.mpr ⟨hplain, hreads⟩) fun h => hlocal ⟨h, hdot⟩
    · have hlocal := localName_iff (Bool.eq_false_iff.mpr hdot)
      constructor
      · intro h
        exact ⟨fun hlocal => hdot hlocal.2, fun hreads => hdisjoint (h.mp (.inr hreads)) hreads⟩
      · rintro ⟨-, hreads⟩
        rw [or_iff_left hreads]
        exact hlocal.symm

/-- A host that is refused passes in no spelling. -/
theorem parseHttpUrl_eq_none (hread : ReadsBack p) {value : String} {url : Url}
    (hurl : p.parseUrl value = some url) (hdenied : isDeniedHost p url.hostname = true) :
    parseHttpUrl p value = none := by
  rw [parseHttpUrl]
  split
  · rfl
  · split
    · rfl
    · rw [hurl]
      change (if url.protocol ≠ "https:" ∧ url.protocol ≠ "http:" then none else _) = none
      by_cases hprotocol : url.protocol ≠ "https:" ∧ url.protocol ≠ "http:"
      · rw [if_pos hprotocol]
      · have hhttp : url.protocol = "https:" ∨ url.protocol = "http:" := by
          rcases not_and_or.mp hprotocol with h | h
          · exact .inl (not_not.mp h)
          · exact .inr (not_not.mp h)
        rw [if_neg hprotocol, (hread value url hurl hhttp).1]
        change (if _ then none else if isDeniedHost p url.hostname = true then none else _) = none
        rw [if_pos hdenied]
        split
        · rfl
        · rfl

/-- **The guard does what it is for just when the host is `Told`.** -/
theorem guarded_iff (p : Platform) (hlower : LowersAscii p) (hread : ReadsBack p)
    (host : UrlHost) : Guarded p host ↔ host.Told := by
  rw [← isDeniedHost_iff_internal_iff hlower host]
  constructor
  · exact fun h => h.denied
  · intro hdenied
    refine ⟨hdenied, fun value url hurl hhost hinternal => ?_⟩
    exact parseHttpUrl_eq_none hread hurl (by rw [hhost]; exact hdenied.mpr hinternal)

end

/-! ### Hosts that are mistaken -/

theorem lowersAscii_eitherPlatform : LowersAscii Creation.eitherPlatform := fun _ _ => rfl

/-- The loopback address is told. -/
theorem guarded_loopback :
    LowersAscii Creation.eitherPlatform ∧ ReadsBack Creation.eitherPlatform ∧
      (Guarded Creation.eitherPlatform (.ipv6 1) ↔ (UrlHost.ipv6 1).Told) :=
  ⟨lowersAscii_eitherPlatform, Creation.readsBack_eitherPlatform,
    guarded_iff Creation.eitherPlatform lowersAscii_eitherPlatform
      Creation.readsBack_eitherPlatform (.ipv6 1)⟩

/-- `http://localhost./`. -/
def localhostDot : HostName where
  text := "localhost."
  ascii := by simp
  lower := by decide
  noColon := by decide
  named := by decide

/-- `http://10.0.0.1e1/`: no label that ends it makes it an address. -/
def tenPlain : HostName where
  text := "10.0.0.1e1"
  ascii := by simp
  lower := by decide
  noColon := by decide
  named := by decide

/-- `[fc::1]`, an address of `00fc::/16`. -/
def fcAddress : BitVec 128 := ipv6Of 0xfc + 1

/-- **An internal name passes, and an address and a name outside are refused.** -/
theorem hosts_mistaken :
    (isDeniedHost Creation.eitherPlatform (UrlHost.domain localhostDot).text = false ∧
        (UrlHost.domain localhostDot).Internal) ∧
      ((UrlHost.ipv6 fcAddress).text = "[fc::1]" ∧
        isDeniedHost Creation.eitherPlatform (UrlHost.ipv6 fcAddress).text = true ∧
        ¬ (UrlHost.ipv6 fcAddress).Internal) ∧
      (isDeniedHost Creation.eitherPlatform (UrlHost.domain tenPlain).text = true ∧
        ¬ (UrlHost.domain tenPlain).Internal) := by
  refine ⟨⟨by decide +kernel, .inl (by decide)⟩, ⟨by decide +kernel, by decide +kernel, ?_⟩,
    by decide +kernel, ?_⟩
  · rintro (h | h | h | h | ⟨h, -⟩)
    · exact absurd h (by decide)
    · exact absurd h (by decide)
    · exact absurd h (by decide)
    · exact absurd h (by decide)
    · exact absurd h (by decide)
  · rintro (h | h)
    · exact absurd h (by decide)
    · exact absurd h (by decide)

end SnapUrl.Links
