import SnapUrl.Lib.Url

/-!
# What the services get from outside the repository

The JavaScript runtime and the packages the services import, as parameters: no
statement about the services assumes anything of them.  Texts are sequences of
Unicode scalar values, instants are milliseconds since the epoch.
-/

namespace SnapUrl

open Lib

/-- A value `JSON.parse` returns, its numbers whole. -/
inductive Json where
  | null
  | bool (b : Bool)
  | num (n : Int)
  | str (s : String)
  | arr (values : List Json)
  | obj (fields : List (String × Json))

/-- The value of a field, the last one of that name. -/
def Json.get (name : String) : Json → Option Json
  | .obj fields => fields.reverse.lookup name
  | _ => none

def Json.asString : Json → Option String
  | .str s => some s
  | _ => none

def Json.asNumber : Json → Option Int
  | .num n => some n
  | _ => none

/-- The claims the redirect reads off a verified token. -/
structure TokenClaims where
  sub : Option String
  purpose : Option String
deriving DecidableEq, Repr

/-- The runtime and the packages. -/
structure Platform where
  /-- `String.prototype.toLowerCase`. -/
  toLowerCase : String → String
  /-- `String.prototype.toUpperCase`. -/
  toUpperCase : String → String
  /-- `new URL(text)`, `none` where it throws. -/
  parseUrl : String → Option Url
  /-- `new Date(text)`, `none` for an invalid date. -/
  parseDate : String → Option Int
  /-- `toISOString` of a valid date. -/
  toISOString : Int → String
  /-- `JSON.parse`, `none` where it throws. -/
  parseJson : String → Option Json
  /-- `JSON.stringify`. -/
  stringifyJson : Json → String
  /-- `createHmac("sha256", key)` over the message, in hexadecimal. -/
  hmacSha256Hex : String → String → String
  /-- `jwt.verify(token, secret)`, `none` where it throws. -/
  verifyToken : String → String → Option TokenClaims

/-! ### Small pieces of the language -/

/-- `value ?? ""` for a text that may be missing. -/
abbrev orEmpty (s : Option String) : String := s.getD ""

/-- A text that is there and not empty. -/
def truthy (s : Option String) : Bool := orEmpty s ≠ ""

/-- The characters `trim` removes. -/
def isJsSpace (c : Char) : Bool :=
  c.toNat ∈ [0x09, 0x0A, 0x0B, 0x0C, 0x0D, 0x20, 0xA0, 0x1680, 0x2028, 0x2029, 0x202F, 0x205F,
    0x3000, 0xFEFF] || (0x2000 ≤ c.toNat && c.toNat ≤ 0x200A)

/-- `String.prototype.trim`. -/
def trim (s : String) : String :=
  String.ofList ((s.toList.dropWhile isJsSpace).reverse.dropWhile isJsSpace).reverse

theorem dropWhile_isJsSpace {l : List Char} (h : ∀ c ∈ l, isJsSpace c = false) :
    l.dropWhile isJsSpace = l := by
  cases l with
  | nil => rfl
  | cons c l => rw [List.dropWhile_cons_of_neg (by simp [h c List.mem_cons_self])]

theorem trim_of_not_space {s : String} (h : ∀ c ∈ s.toList, isJsSpace c = false) : trim s = s := by
  rw [trim, dropWhile_isJsSpace h, dropWhile_isJsSpace fun c hc => h c (List.mem_reverse.mp hc),
    List.reverse_reverse, String.ofList_toList]

/-- `split` at one character. -/
def splitAtChar (c : Char) (s : String) : List String :=
  (s.toList.splitOn c).map String.ofList

/-- `includes`, which is also a test against a literal pattern. -/
def includes (s part : String) : Bool := s.toList.tails.any part.toList.isPrefixOf

/-- `endsWith`. -/
def endsWith (s suffix : String) : Bool := suffix.toList.isSuffixOf s.toList

/-- `slice(0, n)`. -/
def sliceTo (n : Nat) (s : String) : String := String.ofList (s.toList.take n)

/-- `new URLSearchParams(text)`: a leading `?` is not part of the query. -/
def urlSearchParams (s : String) : List (String × String) :=
  match s.toList with
  | '?' :: rest => FormUrlencoded.parse (String.ofList rest)
  | _ => FormUrlencoded.parse s

/-- What a test finds of every member of a list. -/
theorem forall_mem_of_all {α : Type} {P : α → Prop} [DecidablePred P] {l : List α}
    (h : (l.all fun a => decide (P a)) = true) : ∀ a ∈ l, P a := fun a ha =>
  of_decide_eq_true (List.all_eq_true.mp h a ha)

/-- Keys of two texts, wherever one is looked for in a list of them. -/
instance textPair_lawful : LawfulBEq (String × String) := inferInstance

end SnapUrl
