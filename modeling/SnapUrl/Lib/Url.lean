import Mathlib.Data.List.TakeWhile
import SnapUrl.Lib.FormUrlencoded

/-!
# URL objects

What a URL parser hands to a program, and what the program can do to it without
parsing again.

* `Url`: the parts of a parsed URL.  Two of its fields say what a parser
  promises about them: no `?` and no `#` before the query, no `#` in the query.
* `href` and `search`: how the parts are written back.
* `UrlObject`: a URL with its live `searchParams`.  `set` changes the pairs and
  writes the whole query again, so **a query survives byte for byte exactly as
  long as nothing is set**; `href_setAll` says what it is written as otherwise.
* `beforeFirst_query_href`, `fromFirst_query_href`, `fromFirst_hash_href`: cutting
  an `href` at its first `#` and what is before that at its first `?` gives the
  parts back.
-/

namespace SnapUrl.Lib

open FormUrlencoded

/-- No query and no fragment can start inside `s`. -/
def NoDelimiter (s : String) : Prop := '?' ∉ s.toList ∧ '#' ∉ s.toList

instance (s : String) : Decidable (NoDelimiter s) :=
  inferInstanceAs (Decidable ('?' ∉ s.toList ∧ '#' ∉ s.toList))

theorem noDelimiter_append {s t : String} :
    NoDelimiter (s ++ t) ↔ NoDelimiter s ∧ NoDelimiter t := by
  simp only [NoDelimiter, String.toList_append, List.mem_append, not_or]
  exact and_and_and_comm

/-- A parsed URL. -/
structure Url where
  /-- With its colon, as `https:`. -/
  protocol : String
  /-- What stands between the protocol and the host, as `//` or `//user:password@`. -/
  authority : String
  hostname : String
  /-- Empty for the default port. -/
  port : String
  pathname : String
  query : Option String
  fragment : Option String
  base_clean : NoDelimiter (protocol ++ authority ++
    (if port = "" then hostname else hostname ++ ":" ++ port) ++ pathname)
  query_clean : ∀ q, query = some q → '#' ∉ q.toList

namespace Url

/-- A URL without a query has nothing to keep out of it. -/
theorem query_clean_none (q : String) (h : none = some q) : '#' ∉ q.toList := nomatch h

/-- The host with its port. -/
def host (u : Url) : String := if u.port = "" then u.hostname else u.hostname ++ ":" ++ u.port

/-- Everything up to the query. -/
def base (u : Url) : String := u.protocol ++ u.authority ++ u.host ++ u.pathname

/-- The query with its `?`, as it is written in the URL. -/
def queryPart (u : Url) : String := (u.query.map ("?" ++ ·)).getD ""

/-- The fragment with its `#`, as it is written in the URL. -/
def fragmentPart (u : Url) : String := (u.fragment.map ("#" ++ ·)).getD ""

/-- The URL serializer, which is also `toString()`. -/
def href (u : Url) : String := u.base ++ u.queryPart ++ u.fragmentPart

/-- The `search` getter, empty for a query that is there but empty. -/
def search (u : Url) : String :=
  match u.query with
  | none => ""
  | some q => if q = "" then "" else "?" ++ q

theorem noDelimiter_base (u : Url) : NoDelimiter u.base := u.base_clean

theorem hash_notMem_base_append_queryPart (u : Url) :
    '#' ∉ (u.base ++ u.queryPart).toList := by
  rw [String.toList_append, List.mem_append, not_or]
  refine ⟨u.noDelimiter_base.2, ?_⟩
  rw [queryPart]
  cases hq : u.query with
  | none => simp
  | some q => simpa [String.toList_append] using u.query_clean q hq

/-- The query written by the urlencoded serializer, and none at all when there is no pair. -/
def withParams (u : Url) (ps : List (String × String)) : Url :=
  { u with
    query := if serialize ps = "" then none else some (serialize ps)
    query_clean := by
      intro q hq
      split at hq
      · exact absurd hq (by simp)
      · rw [Option.some.injEq] at hq
        intro hmem
        have := isQueryChar_of_mem_serialize (hq ▸ hmem)
        exact absurd this (by decide) }

@[simp] theorem base_withParams (u : Url) (ps : List (String × String)) :
    (u.withParams ps).base = u.base := rfl

@[simp] theorem fragmentPart_withParams (u : Url) (ps : List (String × String)) :
    (u.withParams ps).fragmentPart = u.fragmentPart := rfl

theorem href_withParams (u : Url) (ps : List (String × String)) :
    (u.withParams ps).href =
      u.base ++ (if serialize ps = "" then "" else "?" ++ serialize ps) ++ u.fragmentPart := by
  have hquery : (u.withParams ps).query = if serialize ps = "" then none else some (serialize ps) :=
    rfl
  have hpart : (u.withParams ps).queryPart =
      if serialize ps = "" then "" else "?" ++ serialize ps := by
    rw [queryPart, hquery]
    split <;> rfl
  rw [href, hpart, base_withParams, fragmentPart_withParams]

end Url

/-! ### The live search parameters -/

/-- A URL and its `searchParams` list. -/
structure UrlObject where
  url : Url
  params : List (String × String)

namespace UrlObject

/-- What the constructor makes of a parsed URL: the list is read off the query. -/
def ofUrl (u : Url) : UrlObject := ⟨u, parse (u.query.getD "")⟩

/-- `searchParams.set`: the list changes, and the URL's query is written again from it. -/
def set (o : UrlObject) (k v : String) : UrlObject :=
  ⟨o.url.withParams (setPair k v o.params), setPair k v o.params⟩

/-- Several of them, one after the other. -/
def setAll (o : UrlObject) (ps : List (String × String)) : UrlObject :=
  ps.foldl (fun o p => o.set p.1 p.2) o

@[simp] theorem setAll_nil (o : UrlObject) : o.setAll [] = o := rfl

theorem setAll_cons (o : UrlObject) (p : String × String) (ps : List (String × String)) :
    o.setAll (p :: ps) = (o.set p.1 p.2).setAll ps := rfl

theorem setAll_append (o : UrlObject) (ps qs : List (String × String)) :
    o.setAll (ps ++ qs) = (o.setAll ps).setAll qs := List.foldl_append

theorem setAll_eq (o : UrlObject) {ps : List (String × String)} (h : ps ≠ []) :
    o.setAll ps = ⟨o.url.withParams (FormUrlencoded.setAll o.params ps),
      FormUrlencoded.setAll o.params ps⟩ := by
  induction ps generalizing o with
  | nil => exact absurd rfl h
  | cons p ps ih =>
    cases ps with
    | nil => rfl
    | cons q qs =>
      rw [setAll_cons, ih _ (by simp), FormUrlencoded.setAll_cons o.params p]
      rfl

/-- **Once something is set, the query is the serialized list.** -/
theorem href_setAll (o : UrlObject) {ps : List (String × String)} (h : ps ≠ []) :
    (o.setAll ps).url.href = (o.url.withParams (FormUrlencoded.setAll o.params ps)).href := by
  rw [setAll_eq o h]

end UrlObject

/-! ### Cutting a text at a character -/

theorem dropWhile_ne_eq_nil_or {c : Char} (l : List Char) :
    l.dropWhile (· ≠ c) = [] ∧ c ∉ l ∨ ∃ rest, l.dropWhile (· ≠ c) = c :: rest := by
  induction l with
  | nil => exact Or.inl ⟨rfl, List.not_mem_nil⟩
  | cons d l ih =>
    by_cases hd : d = c
    · subst hd
      exact Or.inr ⟨l, List.dropWhile_cons_of_neg (by simp)⟩
    · rw [List.dropWhile_cons_of_pos (by simpa using hd), List.mem_cons, not_or]
      exact ih.imp_left fun h => ⟨h.1, fun e => hd e.symm, h.2⟩

theorem notMem_takeWhile_ne (c : Char) (l : List Char) : c ∉ l.takeWhile (· ≠ c) := by
  intro hmem
  simpa using List.mem_takeWhile_imp hmem

/-- The first piece of a split is what is before the first separator. -/
theorem head?_splitOn (c : Char) (l : List Char) :
    (l.splitOn c).head? = some (l.takeWhile (· ≠ c)) := by
  have hsplit := List.takeWhile_append_dropWhile (p := fun d => decide (d ≠ c)) (l := l)
  rcases dropWhile_ne_eq_nil_or (c := c) l with ⟨hnil, hnot⟩ | ⟨rest, hrest⟩
  · rw [hnil, List.append_nil] at hsplit
    rw [List.splitOn_eq_singleton hnot, hsplit]
    rfl
  · rw [hrest] at hsplit
    rw [← hsplit, List.splitOn_append_cons_self_of_not_mem (notMem_takeWhile_ne c l), hsplit]
    rfl

/-- What is before the first `c`. -/
def beforeFirst (c : Char) (s : String) : String := String.ofList (s.toList.takeWhile (· ≠ c))

/-- What is from the first `c` on, empty when there is none. -/
def fromFirst (c : Char) (s : String) : String := String.ofList (s.toList.dropWhile (· ≠ c))

theorem beforeFirst_append {c : Char} {s t : String} (hs : c ∉ s.toList)
    (ht : t = "" ∨ t.toList.head? = some c) : beforeFirst c (s ++ t) = s := by
  have hall : ∀ a ∈ s.toList, decide (a ≠ c) = true := by
    intro a ha
    exact decide_eq_true fun e => hs (e ▸ ha)
  have htake : t.toList.takeWhile (· ≠ c) = [] := by
    rcases ht with rfl | ht
    · rfl
    · obtain ⟨r, hr⟩ := List.head?_eq_some_iff.mp ht
      rw [hr]
      simp
  rw [beforeFirst, String.toList_append, List.takeWhile_append_of_pos hall, htake, List.append_nil,
    String.ofList_toList]

theorem fromFirst_append {c : Char} {s t : String} (hs : c ∉ s.toList)
    (ht : t = "" ∨ t.toList.head? = some c) : fromFirst c (s ++ t) = t := by
  have hall : ∀ a ∈ s.toList, decide (a ≠ c) = true := by
    intro a ha
    exact decide_eq_true fun e => hs (e ▸ ha)
  have hdrop : t.toList.dropWhile (· ≠ c) = t.toList := by
    rcases ht with rfl | ht
    · rfl
    · obtain ⟨r, hr⟩ := List.head?_eq_some_iff.mp ht
      rw [hr]
      simp
  rw [fromFirst, String.toList_append, List.dropWhile_append_of_pos hall, hdrop,
    String.ofList_toList]

namespace Url

theorem queryPart_eq_empty_or (u : Url) :
    u.queryPart = "" ∨ u.queryPart.toList.head? = some '?' := by
  rw [queryPart]
  cases u.query with
  | none => exact Or.inl rfl
  | some q => right; simp [String.toList_append]

theorem fragmentPart_eq_empty_or (u : Url) :
    u.fragmentPart = "" ∨ u.fragmentPart.toList.head? = some '#' := by
  rw [fragmentPart]
  cases u.fragment with
  | none => exact Or.inl rfl
  | some q => right; simp [String.toList_append]

theorem search_eq_empty_or (u : Url) : u.search = "" ∨ u.search.toList.head? = some '?' := by
  rw [search]
  split
  · exact Or.inl rfl
  · split
    · exact Or.inl rfl
    · right; simp [String.toList_append]

theorem hash_notMem_search (u : Url) : '#' ∉ u.search.toList := by
  rw [search]
  split
  · simp
  · rename_i q hq
    split
    · simp
    · simpa [String.toList_append] using u.query_clean q hq

/-- The fragment is what follows the first `#`. -/
theorem fromFirst_hash_href (u : Url) : fromFirst '#' u.href = u.fragmentPart :=
  fromFirst_append u.hash_notMem_base_append_queryPart u.fragmentPart_eq_empty_or

/-- **The base is what stands before the first `?` of what stands before the first `#`.** -/
theorem beforeFirst_query_href (u : Url) : beforeFirst '?' (beforeFirst '#' u.href) = u.base := by
  rw [href, beforeFirst_append u.hash_notMem_base_append_queryPart u.fragmentPart_eq_empty_or,
    beforeFirst_append u.noDelimiter_base.1 u.queryPart_eq_empty_or]

/-- **The query is what follows the first `?` of what stands before the first `#`.** -/
theorem fromFirst_query_href (u : Url) :
    fromFirst '?' (beforeFirst '#' u.href) = u.queryPart := by
  rw [href, beforeFirst_append u.hash_notMem_base_append_queryPart u.fragmentPart_eq_empty_or,
    fromFirst_append u.noDelimiter_base.1 u.queryPart_eq_empty_or]

end Url

end SnapUrl.Lib
