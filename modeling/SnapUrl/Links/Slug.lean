import Mathlib.Data.List.OfFn
import SnapUrl.Domain.Routing

/-!
# Back-halves

`packages/domain/src/slug.ts`, and the back-halves an operator reserves at runtime
(`assertSlugNotReserved` of `apps/api/src/links/links.service.ts`).

* `isSlugAvailableShape`: what a back-half that a user chooses has to pass.
* `generateSlug`: a drawn one.
* `isSlugAvailableShape_generateSlug`: **of everything that is checked, a drawn back-half
  can fail one thing only**: it may begin with one of three words.
-/

namespace SnapUrl.Links

open Domain

/-! ### Chosen back-halves -/

/-- `toLowerCase` of an ASCII text. -/
def asciiLower (s : String) : String := String.ofList (s.toList.map Char.toLower)

/-- `toLowerCase` of ASCII text. -/
def LowersAscii (p : Platform) : Prop :=
  ∀ text : String, (∀ c ∈ text.toList, c.toNat < 128) → p.toLowerCase text = asciiLower text

def RESERVED_SLUGS : List String :=
  ["api", "p", "preview", "_next", "static", "assets", "favicon.ico", "robots.txt", "sitemap.xml",
    "health", "healthz", "metrics", "status",
    "login", "register", "signup", "signin", "logout", "settings", "links", "analytics",
    "conversions", "domains", "team", "developers", "bio", "qr", "dashboard", "account",
    "admin", "root", "support", "help", "billing", "security", "abuse", "legal", "privacy",
    "terms", "www", "mail", "smtp", "ftp", "ns1", "ns2"]

/-- The words of the pattern, which is matched at the start. -/
def PROFANE : List String :=
  ["fuck", "shit", "cunt", "bitch", "nigg", "rape", "slut", "whore"]

/-- The extensions of the pattern, which is matched at the end. -/
def EXTENSIONS : List String :=
  [".htm", ".html", ".php", ".asp", ".aspx", ".jsp", ".json", ".xml", ".txt", ".js", ".css", ".map"]

/-- `[a-zA-Z0-9._-]`. -/
def isSlugChar (c : Char) : Bool :=
  c.isAlpha || c.isDigit || c = '.' || c = '_' || c = '-'

theorem toNat_lt_of_isSlugChar {c : Char} (h : isSlugChar c = true) : c.toNat < 128 := by
  change (((((decide (c.val ≥ 'A'.val ∧ c.val ≤ 'Z'.val) ||
    (decide (c.val ≥ 'a'.val) && decide (c.val ≤ 'z'.val))) ||
      (decide (c.val ≥ '0'.val) && decide (c.val ≤ '9'.val))) ||
        decide (c = '.')) || decide (c = '_')) || decide (c = '-')) = true at h
  simp only [Bool.or_eq_true, Bool.and_eq_true, decide_eq_true_eq,
    UInt32.le_iff_toNat_le] at h
  rcases h with ((((⟨-, h⟩ | ⟨-, h⟩) | ⟨-, h⟩) | rfl) | rfl) | rfl
  · exact Nat.lt_of_le_of_lt h (by decide)
  · exact Nat.lt_of_le_of_lt h (by decide)
  · exact Nat.lt_of_le_of_lt h (by decide)
  · decide
  · decide
  · decide

/-- The text begins with one of the words, in any case. -/
def beginsWith (words : List String) (s : String) : Bool :=
  words.any fun word => word.toList.isPrefixOf (asciiLower s).toList

/-- The message for a back-half that is reserved. -/
def reservedMessage (slug : String) : String :=
  "\"" ++ slug ++ "\" is reserved by SnapURL. Try another back-half."

def isSlugAvailableShape (slug : String) : Except String Unit :=
  let length := (slug.toList.flatMap utf16Units).length
  if length < 1 then .error "Give the link a back-half."
  else if 64 < length then .error "Back-halves are limited to 64 characters."
  else if !slug.toList.all isSlugChar then
    .error "Use letters, numbers, dots, dashes or underscores."
  else if slug = "." ∨ slug = ".." then
    .error "Back-halves can't be \".\" or \"..\" — browsers can never reach them."
  -- from here on the text is ASCII
  else if asciiLower slug ∈ RESERVED_SLUGS then .error (reservedMessage slug)
  else if beginsWith PROFANE slug then .error "That back-half isn't available."
  else if EXTENSIONS.any (endsWith (asciiLower slug)) then
    .error "Back-halves can't end in a file extension."
  else .ok ()

/-- The back-half is on the operator's list. -/
def isRuntimeReserved (p : Platform) (reservedSlugs : List String) (slug : String) : Bool :=
  reservedSlugs.any fun s => p.toLowerCase s = p.toLowerCase slug

def assertSlugNotReserved (p : Platform) (reservedSlugs : List String) (slug : String) :
    Except String Unit :=
  if isRuntimeReserved p reservedSlugs slug then .error (reservedMessage slug) else .ok ()

/-! ### Drawn back-halves -/

def ALPHABET : List Char := "23456789abcdefghjkmnpqrstuvwxyzABCDEFGHJKMNPQRSTUVWXYZ".toList

/-- What `randomInt` returns for the seven characters. -/
abbrev Draw := Fin 7 → Fin ALPHABET.length

theorem ALPHABET_length_pos : 0 < ALPHABET.length := by decide

def generateSlug (draw : Draw) : String := String.ofList (List.ofFn fun i => ALPHABET.get (draw i))

/-- How often a back-half is drawn. -/
def SLUG_RETRY_LIMIT : Nat := 8

/-- The words of `PROFANE` that the alphabet can spell. -/
def spelledProfane : List String := ["fuck", "cunt", "rape"]

section

variable (draw : Draw)

theorem toList_generateSlug :
    (generateSlug draw).toList = List.ofFn fun i => ALPHABET.get (draw i) :=
  String.toList_ofList

theorem length_generateSlug : (generateSlug draw).toList.length = 7 := by
  rw [toList_generateSlug, List.length_ofFn]

theorem mem_alphabet {c : Char} (h : c ∈ (generateSlug draw).toList) : c ∈ ALPHABET := by
  rw [toList_generateSlug, List.mem_ofFn] at h
  obtain ⟨i, rfl⟩ := h
  exact List.get_mem _ _

/-- The letters, in lower case, that no drawn back-half has. -/
def absentLetters : List Char := ['i', 'l', 'o', '.', '_']

/-- Every letter of the alphabet is allowed, and takes one code unit. -/
theorem alphabet_spec : ∀ c ∈ ALPHABET,
    isSlugChar c = true ∧ (utf16Units c).length = 1 ∧ c.toLower ∉ absentLetters :=
  forall_mem_of_all (by decide +kernel)

theorem notMem_asciiLower {c : Char} (h : c ∈ (asciiLower (generateSlug draw)).toList) :
    c ∉ absentLetters := by
  rw [asciiLower, String.toList_ofList, List.mem_map] at h
  obtain ⟨d, hd, rfl⟩ := h
  exact (alphabet_spec d (mem_alphabet draw hd)).2.2

/-- What is made of letters of a drawn back-half has none of the absent letters. -/
theorem not_subset_asciiLower {word : String} (h : word.toList.any (· ∈ absentLetters) = true) :
    ¬ word.toList ⊆ (asciiLower (generateSlug draw)).toList := by
  intro hsub
  obtain ⟨c, hc, habsent⟩ := List.any_eq_true.mp h
  exact notMem_asciiLower draw (hsub hc) (of_decide_eq_true habsent)

theorem length_asciiLower : (asciiLower (generateSlug draw)).toList.length = 7 := by
  rw [asciiLower, String.toList_ofList, List.length_map, length_generateSlug]

/-- A drawn back-half takes seven code units. -/
theorem utf16_generateSlug : ((generateSlug draw).toList.flatMap utf16Units).length = 7 := by
  rw [List.length_flatMap, List.map_congr_left fun c hc =>
    (alphabet_spec c (mem_alphabet draw hc)).2.1, List.map_const', List.sum_replicate_nat,
    length_generateSlug]

theorem all_isSlugChar : (generateSlug draw).toList.all isSlugChar = true :=
  List.all_eq_true.mpr fun c hc => (alphabet_spec c (mem_alphabet draw hc)).1

theorem ne_dots : ¬ (generateSlug draw = "." ∨ generateSlug draw = "..") := by
  have hlength := length_generateSlug draw
  rintro (h | h)
  · rw [h] at hlength
    exact absurd hlength (by decide)
  · rw [h] at hlength
    exact absurd hlength (by decide)

/-- The reserved words of seven letters, the extensions and the other profane words have a
letter that is absent. -/
theorem words_spec :
    (∀ word ∈ RESERVED_SLUGS, word.toList.length = 7 →
      word.toList.any (· ∈ absentLetters) = true) ∧
    (∀ word ∈ EXTENSIONS, word.toList.any (· ∈ absentLetters) = true) ∧
    ∀ word ∈ PROFANE, word ∉ spelledProfane → word.toList.any (· ∈ absentLetters) = true :=
  ⟨forall_mem_of_all (by decide +kernel), forall_mem_of_all (by decide +kernel),
    forall_mem_of_all (by decide +kernel)⟩

theorem notMem_RESERVED_SLUGS : asciiLower (generateSlug draw) ∉ RESERVED_SLUGS := by
  intro h
  have hword := words_spec.1 _ h (length_asciiLower draw)
  exact not_subset_asciiLower draw hword (List.Subset.refl _)

theorem not_endsWith_extension :
    EXTENSIONS.any (endsWith (asciiLower (generateSlug draw))) = false := by
  rw [List.any_eq_false]
  intro word hword hends
  exact not_subset_asciiLower draw (words_spec.2.1 word hword)
    (List.isSuffixOf_iff_suffix.mp hends).subset

/-- Of the profane words, the alphabet spells three. -/
theorem beginsWith_PROFANE :
    beginsWith PROFANE (generateSlug draw) = beginsWith spelledProfane (generateSlug draw) := by
  have hspelled : ∀ word ∈ spelledProfane, word ∈ PROFANE := forall_mem_of_all (by decide)
  rw [Bool.eq_iff_iff, beginsWith, beginsWith, List.any_eq_true, List.any_eq_true]
  constructor
  · rintro ⟨word, hword, hprefix⟩
    refine ⟨word, ?_, hprefix⟩
    by_contra hnot
    exact not_subset_asciiLower draw (words_spec.2.2 word hword hnot)
      (List.isPrefixOf_iff_prefix.mp hprefix).subset
  · rintro ⟨word, hword, hprefix⟩
    exact ⟨word, hspelled word hword, hprefix⟩

/-- **A drawn back-half passes the check exactly when it begins with none of the three
words**, in any case. -/
theorem isSlugAvailableShape_generateSlug :
    isSlugAvailableShape (generateSlug draw) = .ok () ↔
      beginsWith spelledProfane (generateSlug draw) = false := by
  rw [isSlugAvailableShape]
  simp only [utf16_generateSlug, all_isSlugChar, ne_dots, notMem_RESERVED_SLUGS,
    not_endsWith_extension, beginsWith_PROFANE, Bool.not_true, Bool.false_eq_true, if_false,
    Nat.reduceLT]
  cases beginsWith spelledProfane (generateSlug draw) with
  | false => simp
  | true => simp

end

end SnapUrl.Links
