import SnapUrl.Links.Slug
import SnapUrl.Text

/-!
# The rows of the bulk box

`parseBulkRows` of `web/src/lib/bulk-create-rows.ts`.

* `findSeparator`: the match of `SLUG_SEPARATOR`, which is the first one.
* `LastSeparator`: the separator that the comments speak of.
* `Clear`: no other separator stands in front of the last one.
* `parseBulkRows_prescribed_iff`: **a row is split as the comments say exactly when its line is
  clear**.
* `destination_lost`: a destination with a comma and a space.
-/

namespace SnapUrl.Links.BulkRows

/-- `/^[a-zA-Z0-9._-]+$/`. -/
def matchesSlug (slug : List Char) : Bool := slug ≠ [] && slug.all isSlugChar

/-- `/, +(\S[\s\S]*)$/` at one place of the text, with the group. -/
def separatorHere : List Char → Option (List Char)
  | ',' :: ' ' :: rest =>
    let tail := rest.dropWhile (· = ' ')
    if tail.head?.any (!isJsSpace ·) then some tail else none
  | _ => none

/-- `line.match(SLUG_SEPARATOR)`: what is in front of the match, and the group. -/
def findSeparator : List Char → Option (List Char × List Char)
  | [] => none
  | c :: cs =>
    match separatorHere (c :: cs) with
    | some tail => some ([], tail)
    | none => (findSeparator cs).map fun found => (c :: found.1, found.2)

structure BulkRow where
  line : String
  destination : String
  slug : Option String
deriving DecidableEq, Repr

def parseLine (line : String) : BulkRow :=
  match findSeparator line.toList with
  | none => ⟨line, line, none⟩
  | some (before, tail) =>
    let slug := trim (String.ofList tail)
    if matchesSlug slug.toList then ⟨line, trim (String.ofList before), some slug⟩
    else ⟨line, line, none⟩

/-- The lines that are not blank, trimmed. -/
def boxLines (text : String) : List String :=
  ((splitAtChar '\n' text).map trim).filter (· ≠ "")

def parseBulkRows (text : String) : List BulkRow := (boxLines text).map parseLine

/-! ### What the comments say -/

/-- A comma and spaces after `before`, and `tail` after them. -/
def SeparatedAt (line before tail : List Char) : Prop :=
  ∃ n, line = before ++ ',' :: (List.replicate (n + 1) ' ' ++ tail) ∧ tail.head? ≠ some ' '

/-- **The last separator of a line**: none is in what follows. -/
def LastSeparator (line before tail : List Char) : Prop :=
  SeparatedAt line before tail ∧ ∀ before' tail', ¬ SeparatedAt tail before' tail'

/-- How a line is split. -/
def Prescribed (row : BulkRow) : Prop :=
  (∃ before tail, LastSeparator row.line.toList before tail ∧ matchesSlug tail = true ∧
    row = ⟨row.line, trim (String.ofList before), some (String.ofList tail)⟩) ∨
  (∀ before tail, LastSeparator row.line.toList before tail → matchesSlug tail = false) ∧
    row = ⟨row.line, row.line, none⟩

/-- One row for each line that is not blank, in order. -/
structure Prescribes (text : String) (rows : List BulkRow) : Prop where
  lines : rows.map BulkRow.line = boxLines text
  rows : ∀ row ∈ rows, Prescribed row

/-- A comma and spaces with a character after them that is no space. -/
def Separated (l : List Char) : Prop :=
  ∃ before n c rest, l = before ++ ',' :: (List.replicate (n + 1) ' ' ++ c :: rest) ∧
    isJsSpace c = false

/-- **Nothing in front of the last separator is a separator**, where a back-half follows. -/
def Clear (line : List Char) : Prop :=
  ∀ before tail, LastSeparator line before tail → matchesSlug tail = true →
    ¬ Separated (before ++ [','])

/-! ### Runs of spaces -/

/-- A back-half has no space and no comma. -/
theorem plain_of_isSlugChar {c : Char} (h : isSlugChar c = true) :
    isJsSpace c = false ∧ c ≠ ',' := by
  have hall : ∀ n < 128, isSlugChar (Char.ofNat n) = true →
      isJsSpace (Char.ofNat n) = false ∧ Char.ofNat n ≠ ',' := by
    decide +kernel
  have hc := hall c.toNat (toNat_lt_of_isSlugChar h)
  rw [Char.ofNat_toNat] at hc
  exact hc h

theorem exists_replicate_append (l : List Char) :
    ∃ n, l = List.replicate n ' ' ++ l.dropWhile (· = ' ') := by
  refine ⟨(l.takeWhile (· = ' ')).length, ?_⟩
  have hspaces : l.takeWhile (· = ' ') = List.replicate (l.takeWhile (· = ' ')).length ' ' :=
    List.eq_replicate_of_mem fun c hc => by simpa using List.mem_takeWhile_imp hc
  rw [← hspaces, List.takeWhile_append_dropWhile]

theorem dropWhile_replicate_append (n : Nat) {tail : List Char} (h : tail.head? ≠ some ' ') :
    (List.replicate n ' ' ++ tail).dropWhile (· = ' ') = tail := by
  rw [List.dropWhile_append_of_pos fun c hc => by simp [List.eq_of_mem_replicate hc]]
  cases tail with
  | nil => rfl
  | cons c rest => exact List.dropWhile_cons_of_neg (by simpa using h)

/-- A comma is not among the spaces in front of it. -/
theorem exists_of_spaces_eq {n : Nat} {tail a r : List Char}
    (h : List.replicate n ' ' ++ tail = a ++ ',' :: r) :
    ∃ b, a = List.replicate n ' ' ++ b ∧ tail = b ++ ',' :: r := by
  rcases List.append_eq_append_iff.mp h with ⟨b, ha, htail⟩ | ⟨b, hspaces, hcomma⟩
  · exact ⟨b, ha, htail⟩
  · cases b with
    | nil => exact ⟨[], by rw [hspaces, List.append_nil, List.append_nil], hcomma.symm⟩
    | cons c b =>
      obtain ⟨rfl, -⟩ := List.cons.inj hcomma
      have hmem : ',' ∈ List.replicate n ' ' := by
        rw [hspaces]
        exact List.mem_append_right _ List.mem_cons_self
      exact absurd (List.eq_of_mem_replicate hmem) (by decide)

/-- Two runs of spaces that end are the same. -/
theorem spaces_inj {n n' : Nat} {tail tail' : List Char} (htail : tail.head? ≠ some ' ')
    (htail' : tail'.head? ≠ some ' ')
    (h : List.replicate n ' ' ++ tail = List.replicate n' ' ' ++ tail') : tail = tail' := by
  rw [← dropWhile_replicate_append n htail, h, dropWhile_replicate_append n' htail']

/-! ### The match -/

theorem separatorHere_eq_some {l tail : List Char} : separatorHere l = some tail ↔
    ∃ n c rest, l = ',' :: (List.replicate (n + 1) ' ' ++ tail) ∧ tail = c :: rest ∧
      isJsSpace c = false := by
  constructor
  · intro h
    unfold separatorHere at h
    split at h
    · next rest =>
      dsimp only at h
      split at h
      · next hhead =>
        obtain ⟨c, hc, hspace⟩ := (Option.any_eq_true _ _).mp hhead
        obtain ⟨rest', hrest'⟩ := List.head?_eq_some_iff.mp hc
        obtain ⟨n, hn⟩ := exists_replicate_append rest
        rw [← Option.some.inj h]
        refine ⟨n, c, rest', ?_, hrest', by simpa using hspace⟩
        rw [List.replicate_succ, List.cons_append, ← hn]
      · cases h
    · cases h
  · rintro ⟨n, c, rest, rfl, rfl, hc⟩
    have hne : (c :: rest).head? ≠ some ' ' := by
      rintro heq
      obtain rfl := Option.some.inj heq
      exact absurd hc (by decide)
    rw [List.replicate_succ, List.cons_append, separatorHere, dropWhile_replicate_append n hne,
      List.head?_cons, Option.any_some, hc]
    rfl

theorem separated_cons {c : Char} {l : List Char} :
    Separated (c :: l) ↔ (separatorHere (c :: l)).isSome = true ∨ Separated l := by
  constructor
  · rintro ⟨before, n, d, rest, heq, hd⟩
    cases before with
    | nil =>
      left
      rw [separatorHere_eq_some.mpr ⟨n, d, rest, heq, rfl, hd⟩]
      rfl
    | cons e before => exact Or.inr ⟨before, n, d, rest, (List.cons.inj heq).2, hd⟩
  · rintro (hsome | ⟨before, n, d, rest, rfl, hd⟩)
    · obtain ⟨tail, htail⟩ := Option.isSome_iff_exists.mp hsome
      obtain ⟨n, d, rest, heq, rfl, hd⟩ := separatorHere_eq_some.mp htail
      exact ⟨[], n, d, rest, heq, hd⟩
    · exact ⟨c :: before, n, d, rest, rfl, hd⟩

theorem findSeparator_eq_none_iff {l : List Char} : findSeparator l = none ↔ ¬ Separated l := by
  induction l with
  | nil =>
    refine iff_of_true rfl ?_
    rintro ⟨before, n, c, rest, heq, -⟩
    exact absurd heq.symm (by simp)
  | cons c l ih =>
    rw [findSeparator, separated_cons]
    cases hhere : separatorHere (c :: l) with
    | none => rw [Option.map_eq_none_iff, ih]; simp
    | some tail => simp

/-- **The match is the first separator.** -/
theorem findSeparator_eq_some {l before tail : List Char}
    (h : findSeparator l = some (before, tail)) :
    (∃ n c rest, l = before ++ ',' :: (List.replicate (n + 1) ' ' ++ tail) ∧ tail = c :: rest ∧
      isJsSpace c = false) ∧ ¬ Separated (before ++ [',']) := by
  induction l generalizing before with
  | nil => cases h
  | cons c l ih =>
    rw [findSeparator] at h
    split at h
    · next tail' hhere =>
      obtain ⟨rfl, rfl⟩ := Prod.mk.inj (Option.some.inj h)
      refine ⟨separatorHere_eq_some.mp hhere, ?_⟩
      rintro ⟨before, n, d, rest, heq, -⟩
      have hlength := congrArg List.length heq
      simp only [List.nil_append, List.length_nil, List.length_append, List.length_cons,
        List.length_replicate] at hlength
      omega
    · next hhere =>
      obtain ⟨⟨before', tail'⟩, hfound, heq⟩ := Option.map_eq_some_iff.mp h
      obtain ⟨rfl, rfl⟩ := Prod.mk.inj heq
      obtain ⟨⟨n, d, rest, rfl, rfl, hd⟩, hclear⟩ := ih hfound
      refine ⟨⟨n, d, rest, rfl, rfl, hd⟩, ?_⟩
      rw [List.cons_append, separated_cons, not_or]
      refine ⟨fun hsome => ?_, hclear⟩
      -- a separator here ends in front of the one that was found
      obtain ⟨tail, htail⟩ := Option.isSome_iff_exists.mp hsome
      obtain ⟨k, e, rest', heq, rfl, he⟩ := separatorHere_eq_some.mp htail
      obtain ⟨hcomma, hspaces⟩ := List.cons.inj heq
      have hwhole : separatorHere (c :: (before' ++ ',' :: (List.replicate (n + 1) ' ' ++
          d :: rest))) = some (e :: (rest' ++ (List.replicate (n + 1) ' ' ++ d :: rest))) := by
        refine separatorHere_eq_some.mpr ⟨k, e, _, ?_, rfl, he⟩
        rw [hcomma, List.append_cons, hspaces, List.append_assoc, List.cons_append]
      rw [hwhole] at hhere
      cases hhere

/-! ### The last separator -/

theorem matchesSlug_eq_true {slug : List Char} :
    matchesSlug slug = true ↔ slug ≠ [] ∧ ∀ c ∈ slug, isSlugChar c = true := by
  rw [matchesSlug, Bool.and_eq_true, decide_eq_true_eq, List.all_eq_true]

/-- A back-half starts with no space, and has no separator. -/
theorem exists_cons_of_matchesSlug {tail : List Char} (h : matchesSlug tail = true) :
    (∃ c rest, tail = c :: rest ∧ isJsSpace c = false) ∧
      ∀ before tail', ¬ SeparatedAt tail before tail' := by
  obtain ⟨hne, hall⟩ := matchesSlug_eq_true.mp h
  constructor
  · obtain ⟨c, rest, rfl⟩ := List.exists_cons_of_ne_nil hne
    exact ⟨c, rest, rfl, (plain_of_isSlugChar (hall c List.mem_cons_self)).1⟩
  · rintro before tail' ⟨n, rfl, -⟩
    exact (plain_of_isSlugChar (hall ',' (List.mem_append_right _ List.mem_cons_self))).2 rfl

theorem head?_ne_space {c : Char} {rest : List Char} (hc : isJsSpace c = false) :
    (c :: rest).head? ≠ some ' ' := by
  rintro heq
  obtain rfl := Option.some.inj heq
  exact absurd hc (by decide)

/-- **Two separators of a line**: they are the same, or the first one is seen in front of the
second. -/
theorem separatedAt_cases {line before tail before' tail' : List Char} {c : Char}
    {rest : List Char} (h : SeparatedAt line before tail) (htail : tail = c :: rest)
    (hc : isJsSpace c = false) (hlast : LastSeparator line before' tail') :
    before = before' ∧ tail = tail' ∨ Separated (before' ++ [',']) := by
  obtain ⟨n, rfl, hhead⟩ := h
  obtain ⟨⟨n', heq, hhead'⟩, hnone⟩ := hlast
  rcases List.append_eq_append_iff.mp heq with ⟨a, rfl, ha⟩ | ⟨a, rfl, ha⟩
  · cases a with
    | nil =>
      left
      rw [List.append_nil]
      exact ⟨rfl, spaces_inj hhead hhead' (List.cons.inj ha).2⟩
    | cons d a =>
      right
      obtain ⟨rfl, hspaces⟩ := List.cons.inj ha
      obtain ⟨b, rfl, hb⟩ := exists_of_spaces_eq hspaces
      refine ⟨before, n, c, ?_⟩
      cases b with
      | nil =>
        obtain ⟨rfl, -⟩ := List.cons.inj (htail.symm.trans hb)
        exact ⟨[], by simp, hc⟩
      | cons e b =>
        obtain ⟨rfl, -⟩ := List.cons.inj (htail.symm.trans hb)
        exact ⟨b ++ [','], by simp, hc⟩
  · cases a with
    | nil =>
      left
      rw [List.append_nil]
      exact ⟨rfl, (spaces_inj hhead' hhead (List.cons.inj ha).2).symm⟩
    | cons d a =>
      obtain ⟨rfl, hspaces⟩ := List.cons.inj ha
      obtain ⟨b, rfl, hb⟩ := exists_of_spaces_eq hspaces
      exact absurd ⟨n, hb, hhead⟩ (hnone b tail)

/-- What follows the match ends as the line does. -/
theorem trim_tail {line : String} (htrim : trim line = line) {a tail : List Char} {c : Char}
    {rest : List Char} (hline : line.toList = a ++ tail) (htail : tail = c :: rest)
    (hc : isJsSpace c = false) : trim (String.ofList tail) = String.ofList tail := by
  rw [trim_eq_self_iff] at htrim ⊢
  rw [String.toList_ofList]
  constructor
  · intro d hd
    rw [htail] at hd
    rw [← Option.some.inj hd]
    exact hc
  · intro d hd
    refine htrim.2 d ?_
    rw [hline, List.getLast?_append, hd]
    rfl

/-- **A trimmed line is split as the comments say exactly when it is clear.** -/
theorem prescribed_parseLine_iff {line : String} (htrim : trim line = line) :
    Prescribed (parseLine line) ↔ Clear line.toList := by
  rw [parseLine]
  cases hfound : findSeparator line.toList with
  | none =>
    have hnone := findSeparator_eq_none_iff.mp hfound
    have hno : ∀ before tail, LastSeparator line.toList before tail → matchesSlug tail = false := by
      rintro before tail ⟨⟨n, hline, -⟩, -⟩
      refine Bool.eq_false_iff.mpr fun hslug => hnone ?_
      obtain ⟨⟨c, rest, rfl, hc⟩, -⟩ := exists_cons_of_matchesSlug hslug
      exact ⟨before, n, c, rest, hline, hc⟩
    refine iff_of_true (Or.inr ⟨hno, rfl⟩) fun before tail hlast hslug => ?_
    rw [hno before tail hlast] at hslug
    cases hslug
  | some found =>
    obtain ⟨before, tail⟩ := found
    obtain ⟨⟨n, c, rest, hline, htail, hc⟩, hfirst⟩ := findSeparator_eq_some hfound
    have hat : SeparatedAt line.toList before tail := ⟨n, hline, by
      rw [htail]
      exact head?_ne_space hc⟩
    have hwhole : line.toList = (before ++ ',' :: List.replicate (n + 1) ' ') ++ tail := by
      rw [hline, List.append_assoc, List.cons_append]
    have hslug := trim_tail htrim hwhole htail hc
    dsimp only
    rw [hslug, String.toList_ofList]
    split
    · next hlegal =>
      have hlast : LastSeparator line.toList before tail :=
        ⟨hat, (exists_cons_of_matchesSlug hlegal).2⟩
      refine iff_of_true (Or.inl ⟨before, tail, hlast, hlegal, rfl⟩) ?_
      intro before' tail' hlast' h
      obtain ⟨⟨c', rest', htail', hc'⟩, -⟩ := exists_cons_of_matchesSlug h
      rcases separatedAt_cases hlast'.1 htail' hc' hlast with ⟨rfl, -⟩ | hearlier
      · exact hfirst
      · exact absurd hearlier hfirst
    · next hillegal =>
      constructor
      · rintro (⟨before', tail', hlast', hlegal, hrow⟩ | ⟨hno, -⟩)
        · cases hrow
        · intro before' tail' hlast' h
          rw [hno before' tail' hlast'] at h
          cases h
      · intro hclear
        refine Or.inr ⟨fun before' tail' hlast' => Bool.eq_false_iff.mpr fun h => ?_, rfl⟩
        rcases separatedAt_cases hat htail hc hlast' with ⟨-, rfl⟩ | hearlier
        · exact hillegal h
        · exact hclear before' tail' hlast' h hearlier

theorem line_parseLine (line : String) : (parseLine line).line = line := by
  rw [parseLine]
  split
  · rfl
  · dsimp only
    split <;> rfl

/-! ### A destination and a back-half -/

section

variable {destination slug : String}

/-- The line that the placeholder shows. -/
def typed (destination slug : String) : String := destination ++ ", " ++ slug

theorem toList_typed : (typed destination slug).toList =
    destination.toList ++ ',' :: (List.replicate 1 ' ' ++ slug.toList) := by
  simp [typed, String.toList_append]

theorem lastSeparator_typed (hslug : matchesSlug slug.toList = true) :
    LastSeparator (typed destination slug).toList destination.toList slug.toList := by
  obtain ⟨⟨c, rest, hcons, hc⟩, hnone⟩ := exists_cons_of_matchesSlug hslug
  refine ⟨⟨0, toList_typed, ?_⟩, hnone⟩
  rw [hcons]
  exact head?_ne_space hc

theorem trim_typed (htrim : trim destination = destination)
    (hslug : matchesSlug slug.toList = true) :
    trim (typed destination slug) = typed destination slug := by
  rw [trim_eq_self_iff] at htrim ⊢
  rw [toList_typed]
  constructor
  · intro c hc
    cases hd : destination.toList with
    | nil =>
      rw [hd] at hc
      obtain rfl := Option.some.inj hc
      decide
    | cons d rest =>
      refine htrim.1 c ?_
      rw [hd] at hc ⊢
      exact hc
  · intro c hc
    obtain ⟨hne, hall⟩ := matchesSlug_eq_true.mp hslug
    rw [List.getLast?_append, List.getLast?_cons, List.getLast?_append] at hc
    have hlast := List.getLast?_eq_some_getLast hne
    rw [hlast] at hc
    obtain rfl := Option.some.inj hc
    exact (plain_of_isSlugChar (hall _ (List.getLast_mem hne))).1

theorem boxLines_typed (htrim : trim destination = destination)
    (hline : '\n' ∉ destination.toList) (hslug : matchesSlug slug.toList = true) :
    boxLines (typed destination slug) = [typed destination slug] := by
  have hnot : '\n' ∉ (typed destination slug).toList := by
    rw [toList_typed, List.mem_append, List.mem_cons, List.mem_append]
    rintro (hmem | hmem | hmem | hmem)
    · exact hline hmem
    · exact absurd hmem (by decide)
    · exact absurd (List.eq_of_mem_replicate hmem) (by decide)
    · have hspace := (plain_of_isSlugChar ((matchesSlug_eq_true.mp hslug).2 _ hmem)).1
      exact absurd hspace (by decide)
  have hne : typed destination slug ≠ "" := by
    intro hempty
    have hnil := congrArg String.toList hempty
    rw [toList_typed] at hnil
    exact absurd hnil (by simp)
  rw [boxLines, splitAtChar, List.splitOn_eq_singleton hnot, List.map_singleton, List.map_singleton,
    String.ofList_toList, trim_typed htrim hslug]
  exact List.filter_cons_of_pos (decide_eq_true hne)

/-- A trimmed destination does not end in a separator. -/
theorem separated_append_comma_iff (htrim : trim destination = destination) :
    Separated (destination.toList ++ [',']) ↔ Separated destination.toList := by
  constructor
  · rintro ⟨before, n, c, rest, heq, hc⟩
    rcases List.eq_nil_or_concat rest with rfl | ⟨rest, d, rfl⟩
    · have hdest : destination.toList = before ++ ',' :: List.replicate (n + 1) ' ' := by
        have hsplit : destination.toList ++ [','] =
            (before ++ ',' :: List.replicate (n + 1) ' ') ++ [c] := by
          rw [heq]
          simp
        exact (List.append_inj' hsplit rfl).1
      have hlast : destination.toList.getLast? = some ' ' := by
        rw [hdest, List.replicate_succ', ← List.cons_append, ← List.append_assoc]
        exact List.getLast?_concat
      exact absurd ((trim_eq_self_iff.mp htrim).2 ' ' hlast) (by decide)
    · refine ⟨before, n, c, rest, ?_, hc⟩
      have hsplit : destination.toList ++ [','] =
          (before ++ ',' :: (List.replicate (n + 1) ' ' ++ c :: rest)) ++ [d] := by
        rw [heq]
        simp
      exact (List.append_inj' hsplit rfl).1
  · rintro ⟨before, n, c, rest, heq, hc⟩
    exact ⟨before, n, c, rest ++ [','], by rw [heq]; simp, hc⟩

theorem clear_typed_iff (hslug : matchesSlug slug.toList = true) :
    Clear (typed destination slug).toList ↔ ¬ Separated (destination.toList ++ [',']) := by
  constructor
  · exact fun hclear => hclear _ _ (lastSeparator_typed hslug) hslug
  · intro hnot before tail hlast h
    obtain ⟨⟨c, rest, htail, hc⟩, -⟩ := exists_cons_of_matchesSlug h
    rcases separatedAt_cases hlast.1 htail hc (lastSeparator_typed hslug) with ⟨rfl, -⟩ | hearlier
    · exact hnot
    · exact absurd hearlier hnot

/-- **A destination and a back-half are read as they were typed exactly when the destination has no
separator.** -/
theorem parseBulkRows_typed_iff (htrim : trim destination = destination)
    (hline : '\n' ∉ destination.toList) (hslug : matchesSlug slug.toList = true) :
    parseBulkRows (typed destination slug) =
        [⟨typed destination slug, destination, some slug⟩] ↔ ¬ Separated destination.toList := by
  have hlast : LastSeparator (typed destination slug).toList destination.toList slug.toList :=
    lastSeparator_typed hslug
  have hparse := prescribed_parseLine_iff (trim_typed htrim hslug)
  rw [clear_typed_iff hslug, separated_append_comma_iff htrim] at hparse
  rw [parseBulkRows, boxLines_typed htrim hline hslug, List.map_singleton, List.singleton_inj,
    ← hparse]
  constructor
  · intro hrow
    refine Or.inl ⟨destination.toList, slug.toList, ?_, hslug, ?_⟩
    · rw [line_parseLine]
      exact hlast
    · rw [line_parseLine, String.ofList_toList, String.ofList_toList, htrim]
      exact hrow
  · intro hprescribed
    have hnot := (separated_append_comma_iff htrim).not.mpr (hparse.mp hprescribed)
    rw [Prescribed, line_parseLine] at hprescribed
    rcases hprescribed with ⟨before, tail, hat, hlegal, hrow⟩ | ⟨hno, -⟩
    · obtain ⟨⟨c, rest, htail, hc⟩, -⟩ := exists_cons_of_matchesSlug hlegal
      rcases separatedAt_cases hat.1 htail hc hlast with ⟨rfl, rfl⟩ | hearlier
      · rw [hrow, String.ofList_toList, String.ofList_toList, htrim]
      · exact absurd hearlier hnot
    · rw [hno _ _ hlast] at hslug
      cases hslug

end

/-! ### The whole text -/

/-- **Rows are split as the comments say exactly when every line is clear**, and a destination with
a back-half after it is read as it was typed exactly when it has no separator of its own. -/
theorem parseBulkRows_prescribed_iff (text : String) :
    (Prescribes text (parseBulkRows text) ↔ ∀ line ∈ boxLines text, Clear line.toList) ∧
      ∀ destination slug : String, trim destination = destination →
        '\n' ∉ destination.toList → matchesSlug slug.toList = true →
        (parseBulkRows (typed destination slug) =
            [⟨typed destination slug, destination, some slug⟩] ↔
          ¬ Separated destination.toList) := by
  refine ⟨?_, fun destination slug => parseBulkRows_typed_iff⟩
  have htrim : ∀ line ∈ boxLines text, trim line = line := by
    intro line hline
    obtain ⟨piece, -, rfl⟩ := List.mem_map.mp (List.mem_of_mem_filter hline)
    exact trim_trim piece
  constructor
  · rintro ⟨-, hrows⟩ line hline
    exact (prescribed_parseLine_iff (htrim line hline)).mp (hrows _ (List.mem_map_of_mem hline))
  · intro hclear
    constructor
    · rw [parseBulkRows, List.map_map]
      exact List.map_congr_left (fun line _ => line_parseLine line) |>.trans (List.map_id _)
    · intro row hrow
      obtain ⟨line, hline, rfl⟩ := List.mem_map.mp hrow
      exact (prescribed_parseLine_iff (htrim line hline)).mpr (hclear line hline)

/-- A comma without a space in the query, and a back-half. -/
theorem parseBulkRows_tags :
    trim "https://e.com/?t=a,b" = "https://e.com/?t=a,b" ∧
      (parseBulkRows (typed "https://e.com/?t=a,b" "spring") =
          [⟨typed "https://e.com/?t=a,b" "spring", "https://e.com/?t=a,b", some "spring"⟩] ↔
        ¬ Separated "https://e.com/?t=a,b".toList) :=
  have htrim : trim "https://e.com/?t=a,b" = "https://e.com/?t=a,b" := by decide
  ⟨htrim, (parseBulkRows_prescribed_iff "").2 _ _ htrim (by decide) (by decide)⟩

/-- **A destination with a comma and a space keeps the back-half that was chosen**: the first
separator is taken, and what follows it is no back-half. -/
theorem destination_lost :
    parseBulkRows (typed "https://e.com/?q=a, b" "spring") =
        [⟨"https://e.com/?q=a, b, spring", "https://e.com/?q=a, b, spring", none⟩] ∧
      ¬ ∀ text : String, Prescribes text (parseBulkRows text) := by
  have hparse : parseBulkRows (typed "https://e.com/?q=a, b" "spring") =
      [⟨"https://e.com/?q=a, b, spring", "https://e.com/?q=a, b, spring", none⟩] := by
    decide
  refine ⟨hparse, fun h => ?_⟩
  have hrow := (h (typed "https://e.com/?q=a, b" "spring")).rows _
    (by rw [hparse]; exact List.mem_singleton_self _)
  rcases hrow with ⟨before, tail, -, -, heq⟩ | ⟨hno, -⟩
  · exact absurd (congrArg BulkRow.slug heq) (Option.some_ne_none _).symm
  · have hlast : LastSeparator (typed "https://e.com/?q=a, b" "spring").toList
        "https://e.com/?q=a, b".toList "spring".toList := lastSeparator_typed (by decide)
    exact absurd (hno _ _ hlast) (by decide)

end SnapUrl.Links.BulkRows
