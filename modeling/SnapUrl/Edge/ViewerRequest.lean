import SnapUrl.Projection.Item

/-!
# The edge function

`infra/functions/redirect-viewer-request.logic.mjs`: the CloudFront function that
answers plain links at the edge.  It has no URL parser, so it encodes, merges and
writes queries by hand.

* `formEncode_eq`, `serialiseParams_eq`, `setParam_eq`: **the hand-written pieces
  are the urlencoded serializer and `URLSearchParams.set`**.
* `CloudFrontQuerystring`: what CloudFront hands over of a query.
  `incomingPairs_eq` says what the function makes of it.
-/

namespace SnapUrl.Edge

open Lib FormUrlencoded Domain Projection

def edgeKey (p : Platform) (host slug : String) : String :=
  p.toLowerCase host ++ "/" ++ p.toLowerCase slug

/-! ### Encoding -/

/-- `replace(/%20/g, "+")`. -/
def replaceSpace : List Char → List Char
  | '%' :: '2' :: '0' :: rest => '+' :: replaceSpace rest
  | c :: rest => c :: replaceSpace rest
  | [] => []

/-- `replace(/c/g, text)` for one character. -/
def replaceChar (c : Char) (text : String) (s : List Char) : List Char :=
  s.flatMap fun d => if d = c then text.toList else [d]

/-- URLSearchParams-compatible encoding. -/
def formEncode (s : List Char) : List Char :=
  replaceChar '~' "%7E" <| replaceChar ')' "%29" <| replaceChar '(' "%28" <|
    replaceChar '\'' "%27" <| replaceChar '!' "%21" <| replaceSpace <| encodeURIComponent s

def serialiseParams : List (String × String) → String
  | [] => ""
  | [p] => String.ofList (formEncode p.1.toList) ++ "=" ++ String.ofList (formEncode p.2.toList)
  | p :: ps =>
    String.ofList (formEncode p.1.toList) ++ "=" ++ String.ofList (formEncode p.2.toList) ++ "&" ++
      serialiseParams ps

/-- The five substitutions after the space's. -/
def replaceMarks (s : List Char) : List Char :=
  replaceChar '~' "%7E" <| replaceChar ')' "%29" <| replaceChar '(' "%28" <|
    replaceChar '\'' "%27" <| replaceChar '!' "%21" s

theorem replaceMarks_append (s t : List Char) :
    replaceMarks (s ++ t) = replaceMarks s ++ replaceMarks t := by
  simp [replaceMarks, replaceChar, List.flatMap_append]

theorem replaceChar_eq_self {c : Char} {text : String} {s : List Char} (h : c ∉ s) :
    replaceChar c text s = s := by
  induction s with
  | nil => rfl
  | cons d s ih =>
    rw [List.mem_cons, not_or] at h
    rw [replaceChar, List.flatMap_cons, if_neg fun e => h.1 e.symm]
    exact congrArg (d :: ·) (ih h.2)

/-- What the serializer may write is left alone by the substitutions of marks. -/
theorem replaceMarks_eq_self {s : List Char} (h : ∀ d ∈ s, isQueryChar d = true) :
    replaceMarks s = s := by
  have hnot : ∀ c : Char, isQueryChar c = false → c ∉ s := by
    intro c hc hmem
    exact absurd (h c hmem) (by simp [hc])
  rw [replaceMarks, replaceChar_eq_self (hnot '!' (by decide)),
    replaceChar_eq_self (hnot '\'' (by decide)), replaceChar_eq_self (hnot '(' (by decide)),
    replaceChar_eq_self (hnot ')' (by decide)), replaceChar_eq_self (hnot '~' (by decide))]

theorem replaceSpace_cons {c : Char} (hc : c ≠ '%') (rest : List Char) :
    replaceSpace (c :: rest) = c :: replaceSpace rest := by
  rw [replaceSpace]
  rintro rest' rfl
  exact absurd rfl hc

/-- An escape is replaced as a whole or not at all. -/
theorem replaceSpace_escape {h l : Char} (hh : h ≠ '%') (hl : l ≠ '%') (hspace : h ≠ '2' ∨ l ≠ '0')
    (rest : List Char) :
    replaceSpace ('%' :: h :: l :: rest) = '%' :: h :: l :: replaceSpace rest := by
  have hstep : replaceSpace ('%' :: h :: l :: rest) = '%' :: replaceSpace (h :: l :: rest) := by
    rw [replaceSpace]
    rintro rest' _ he
    simp only [List.cons.injEq] at he
    rcases hspace with hne | hne
    · exact hne he.1
    · exact hne he.2.1
  rw [hstep, replaceSpace_cons hh, replaceSpace_cons hl]

theorem hexDigit_ne_percent {n : Nat} (h : n < 16) : hexDigit n ≠ '%' := by
  interval_cases n <;> decide

theorem eq_of_hexDigit_eq_two {n : Nat} (h : n < 16) (hd : hexDigit n = '2') : n = 2 := by
  interval_cases n <;> revert hd <;> decide

theorem eq_of_hexDigit_eq_zero {n : Nat} (h : n < 16) (hd : hexDigit n = '0') : n = 0 := by
  interval_cases n <;> revert hd <;> decide

theorem replaceSpace_percentEncodeByte {b : UInt8} (hb : b.toNat ≠ 0x20) (rest : List Char) :
    replaceSpace (percentEncodeByte b ++ rest) = percentEncodeByte b ++ replaceSpace rest := by
  have hlt : b.toNat < 256 := b.toNat_lt
  have hhigh : b.toNat / 16 < 16 := by omega
  have hlow : b.toNat % 16 < 16 := by omega
  refine replaceSpace_escape (hexDigit_ne_percent hhigh) (hexDigit_ne_percent hlow) ?_ rest
  by_contra hboth
  rw [not_or, not_not, not_not] at hboth
  have h2 := eq_of_hexDigit_eq_two hhigh hboth.1
  have h0 := eq_of_hexDigit_eq_zero hlow hboth.2
  omega

theorem replaceSpace_flatMap {bs : List UInt8} (h : ∀ b ∈ bs, b.toNat ≠ 0x20) (rest : List Char) :
    replaceSpace (bs.flatMap percentEncodeByte ++ rest) =
      bs.flatMap percentEncodeByte ++ replaceSpace rest := by
  induction bs with
  | nil => rfl
  | cons b bs ih =>
    rw [List.flatMap_cons, List.append_assoc, List.append_assoc,
      replaceSpace_percentEncodeByte (h b List.mem_cons_self),
      ih fun b hb => h b (List.mem_cons_of_mem _ hb)]

/-- Only the space has its byte in its encoding. -/
theorem ne_space_of_mem_utf8EncodeChar {c : Char} (hc : c ≠ ' ') :
    ∀ b ∈ String.utf8EncodeChar c, b.toNat ≠ 0x20 := by
  have hval : c.toNat ≠ 0x20 := by
    intro h
    exact hc (Char.ext (UInt32.toNat_inj.mp h))
  have hnat : c.val.toNat = c.toNat := rfl
  intro b hb
  simp only [String.utf8EncodeChar] at hb
  split at hb
  · simp only [List.mem_singleton] at hb
    subst hb
    simp
    omega
  split at hb
  · simp only [List.mem_cons, List.not_mem_nil, or_false] at hb
    rcases hb with rfl | rfl <;> simp <;> omega
  split at hb
  · simp only [List.mem_cons, List.not_mem_nil, or_false] at hb
    rcases hb with rfl | rfl | rfl <;> simp <;> omega
  · simp only [List.mem_cons, List.not_mem_nil, or_false] at hb
    rcases hb with rfl | rfl | rfl | rfl <;> simp <;> omega

/-- What is left of one character after the first substitution. -/
def spacedChar (c : Char) : List Char := if c = ' ' then ['+'] else encodeUriChar c

theorem ne_percent_of_isUriUnreserved {c : Char} (h : isUriUnreserved c = true) : c ≠ '%' := by
  rintro rfl
  exact absurd h (by decide)

theorem replaceSpace_encodeUriChar (c : Char) (rest : List Char) :
    replaceSpace (encodeUriChar c ++ rest) = spacedChar c ++ replaceSpace rest := by
  rw [spacedChar]
  split
  · rename_i hspace
    subst hspace
    rfl
  · rename_i hspace
    rw [encodeUriChar]
    split
    · rename_i hsafe
      exact replaceSpace_cons (ne_percent_of_isUriUnreserved hsafe) rest
    · exact replaceSpace_flatMap (ne_space_of_mem_utf8EncodeChar hspace) rest

/-- **The substitutions are the whole difference** between the two encoders of a character. -/
theorem replaceMarks_spacedChar (c : Char) : replaceMarks (spacedChar c) = serializeChar c := by
  rw [spacedChar, serializeChar]
  split
  · decide
  rw [encodeUriChar]
  by_cases hform : isFormSafe c = true
  · have huri : isUriUnreserved c = true := by
      simp only [isFormSafe, Bool.or_eq_true, decide_eq_true_eq] at hform
      rcases hform with (((h | rfl) | rfl) | rfl) | rfl
      · simp [isUriUnreserved, h]
      all_goals decide
    rw [if_pos huri, if_pos hform]
    refine replaceMarks_eq_self fun d hd => ?_
    rw [List.mem_singleton.mp hd]
    simp [isQueryChar, hform]
  · rw [if_neg hform]
    split
    · rename_i huri
      have hmark : c = '!' ∨ c = '~' ∨ c = '\'' ∨ c = '(' ∨ c = ')' := by
        simp only [isFormSafe, Bool.or_eq_true, decide_eq_true_eq, not_or] at hform
        simp only [isUriUnreserved, Bool.or_eq_true, List.contains_iff_mem] at huri
        have hmem := huri.resolve_left hform.1.1.1.1
        have hlist : "-_.!~*'()".toList =
            ['-', '_', '.', '!', '~', '*', '\'', '(', ')'] := by decide
        rw [hlist] at hmem
        simp only [List.mem_cons, List.not_mem_nil, or_false] at hmem
        tauto
      rcases hmark with rfl | rfl | rfl | rfl | rfl <;> decide
    · exact replaceMarks_eq_self fun d hd => isQueryChar_of_mem_percentEncodeChar hd

/-- **The hand-written encoder is the urlencoded serializer's.** -/
theorem formEncode_eq (s : List Char) : formEncode s = serializeText s := by
  have hloop : ∀ s : List Char,
      replaceMarks (replaceSpace (encodeURIComponent s)) = serializeText s := by
    intro s
    induction s with
    | nil => rfl
    | cons c s ih =>
      rw [encodeURIComponent, List.flatMap_cons, replaceSpace_encodeUriChar, replaceMarks_append,
        replaceMarks_spacedChar, serializeText, List.flatMap_cons]
      exact congrArg (serializeChar c ++ ·) ih
  exact hloop s

theorem serialiseParams_eq (ps : List (String × String)) : serialiseParams ps = serialize ps := by
  induction ps with
  | nil => rfl
  | cons p ps ih =>
    apply String.toList_inj.mp
    have hpair : ∀ p : String × String, (String.ofList (formEncode p.1.toList) ++ "=" ++
        String.ofList (formEncode p.2.toList)).toList = serializePair p := by
      intro p
      simp [String.toList_append, formEncode_eq, serializePair]
    cases ps with
    | nil =>
      rw [serialiseParams, hpair]
      simp [FormUrlencoded.serialize]
    | cons q qs =>
      rw [serialiseParams, ih, String.toList_append, String.toList_append, hpair]
      · simp [FormUrlencoded.serialize, List.intercalate_cons_cons]
      · simp

/-! ### Merging -/

/-- The loop of `setParam` from index `j` on, the first occurrence being at `i`. -/
def setParamFrom (i : Nat) (key value : String) : Nat → List (String × String) →
    List (String × String)
  | _, [] => []
  | j, p :: ps =>
    if j = i then (key, value) :: setParamFrom i key value (j + 1) ps
    else if p.1 ≠ key then p :: setParamFrom i key value (j + 1) ps
    else setParamFrom i key value (j + 1) ps

/-- URLSearchParams.set semantics. -/
def setParam (pairs : List (String × String)) (key value : String) : List (String × String) :=
  match pairs.findIdx? (·.1 = key) with
  | none => pairs ++ [(key, value)]
  | some i => setParamFrom i key value 0 pairs

theorem setParamFrom_of_lt {i j : Nat} (key value : String) (ps : List (String × String))
    (h : i < j) : setParamFrom i key value j ps = ps.filter fun q => q.1 ≠ key := by
  induction ps generalizing j with
  | nil => rfl
  | cons p ps ih =>
    rw [setParamFrom, if_neg (by omega), ih (by omega)]
    by_cases hp : p.1 = key
    · rw [if_neg (not_not.mpr hp), List.filter_cons_of_neg (by simpa using hp)]
    · rw [if_pos hp, List.filter_cons_of_pos (by simpa using hp)]

theorem setParamFrom_eq (key value : String) (ps : List (String × String)) :
    ∀ {i j : Nat}, ps.findIdx? (·.1 = key) = some i →
      setParamFrom (j + i) key value j ps = setPair key value ps := by
  induction ps with
  | nil => intro i j h; simp at h
  | cons p ps ih =>
    intro i j h
    rw [List.findIdx?_cons] at h
    by_cases hp : p.1 = key
    · obtain rfl : 0 = i := by simpa [hp] using h
      rw [setParamFrom, if_pos (Nat.add_zero j).symm, setPair, if_pos hp,
        setParamFrom_of_lt key value ps (by omega)]
    · simp only [hp, decide_false, Bool.false_eq_true, if_false, Option.map_eq_some_iff] at h
      obtain ⟨i', hi', rfl⟩ := h
      rw [setParamFrom, if_neg (by omega), if_pos hp, setPair, if_neg hp, ← ih hi' (j := j + 1)]
      congr 2
      omega

/-- **The hand-written setter is `URLSearchParams.set`.** -/
theorem setParam_eq (pairs : List (String × String)) (key value : String) :
    setParam pairs key value = setPair key value pairs := by
  rw [setParam]
  split
  · rename_i hnone
    refine (setPair_of_notMem fun hmem => ?_).symm
    obtain ⟨p, hp, rfl⟩ := List.mem_map.mp hmem
    simpa using List.findIdx?_eq_none_iff.mp hnone p hp
  · rename_i i hi
    simpa using setParamFrom_eq key value pairs hi (j := 0)

/-! ### The parsed query string -/

/-- An entry of CloudFront's parsed query string. -/
structure QueryEntry where
  value : String
  /-- Every value of a repeated key, empty for a key that occurs once. -/
  multiValue : List String
deriving DecidableEq, Repr

/-- The entry of a key with these values. -/
def QueryEntry.ofValues (values : List String) : QueryEntry :=
  ⟨values.headD "", if values.length ≤ 1 then [] else values⟩

/-- The keys that an object enumerates before all others. -/
def isIndexLike (name : String) : Bool :=
  match name.toList with
  | [] => false
  | ['0'] => true
  | c :: rest => '1' ≤ c && c ≤ '9' && rest.all fun d => '0' ≤ d && d ≤ '9'

/-- **What CloudFront hands over of a query**: the keys and values the query has,
repeated keys under `multiValue`, and the keys in the order they occur first but
for the integer-like ones. -/
structure CloudFrontQuerystring (pairs : List (String × String)) where
  entries : List (String × QueryEntry)
  values : ∀ e ∈ entries, e.2 = QueryEntry.ofValues (valuesOf e.1 pairs)
  keys : ∀ name, name ∈ entries.map Prod.fst ↔ name ∈ pairs.map Prod.fst
  order : (entries.map Prod.fst).filter (fun name => !isIndexLike name) =
    ((pairs.map Prod.fst).eraseDups).filter fun name => !isIndexLike name

/-- The query string as an object: the integer-like keys, then the others. -/
def CloudFrontQuerystring.ofPairs (pairs : List (String × String)) : CloudFrontQuerystring pairs :=
  let names := (pairs.map Prod.fst).eraseDups
  have hentries : ∀ names : List String, (names.map fun name =>
      (name, QueryEntry.ofValues (valuesOf name pairs))).map Prod.fst = names := by
    intro names
    rw [List.map_map]
    exact List.map_id _
  { entries := (names.filter isIndexLike ++ names.filter fun name => !isIndexLike name).map
      fun name => (name, QueryEntry.ofValues (valuesOf name pairs))
    values := by
      intro e he
      obtain ⟨name, _, rfl⟩ := List.mem_map.mp he
      rfl
    keys := by
      intro name
      rw [hentries, List.mem_append, List.mem_filter, List.mem_filter, ← List.mem_eraseDups]
      cases isIndexLike name <;> simp [names]
    order := by
      rw [hentries, List.filter_append, List.filter_filter, List.filter_filter]
      simp [names] }

/-- The value the function reads of an entry. -/
def QueryEntry.last (e : QueryEntry) : String := e.multiValue.getLast?.getD e.value

/-- Parsed querystring -> ordered pairs, none when the order is not recoverable. -/
def incomingPairs : List (String × QueryEntry) → Option (List (String × String))
  | [] => some []
  | (name, entry) :: rest =>
    if isIndexLike name then none
    else (incomingPairs rest).map ((name, entry.last) :: ·)

theorem incomingPairs_eq_some {entries : List (String × QueryEntry)}
    {pairs : List (String × String)} (h : incomingPairs entries = some pairs) :
    pairs = entries.map (fun e => (e.1, e.2.last)) ∧ ∀ e ∈ entries, isIndexLike e.1 = false := by
  induction entries generalizing pairs with
  | nil => simp_all [incomingPairs]
  | cons e rest ih =>
    obtain ⟨name, entry⟩ := e
    rw [incomingPairs] at h
    split at h
    · exact absurd h (by simp)
    · rename_i hname
      obtain ⟨ps, hps, rfl⟩ := Option.map_eq_some_iff.mp h
      obtain ⟨rfl, hrest⟩ := ih hps
      refine ⟨rfl, fun e he => ?_⟩
      rcases List.mem_cons.mp he with rfl | he
      · exact Bool.not_eq_true _ ▸ hname
      · exact hrest e he

/-- The last value, of one or of several. -/
theorem last_ofValues {values : List String} {v : String} (h : values.getLast? = some v) :
    (QueryEntry.ofValues values).last = v := by
  rw [QueryEntry.last, QueryEntry.ofValues]
  match values with
  | [] => simp at h
  | [w] => simpa using h
  | u :: w :: rest =>
    rw [if_neg (by simp)]
    simp [h]

/-- **Read in order, the entries are the pairs set one after the other.** -/
theorem incomingPairs_eq {pairs incoming : List (String × String)}
    (qs : CloudFrontQuerystring pairs) (h : incomingPairs qs.entries = some incoming) :
    incoming = setAll [] pairs := by
  obtain ⟨rfl, hindex⟩ := incomingPairs_eq_some h
  have hkeys : qs.entries.map Prod.fst = (setAll [] pairs).map Prod.fst := by
    have hentries : (qs.entries.map Prod.fst).filter (fun name => !isIndexLike name) =
        qs.entries.map Prod.fst := by
      refine List.filter_eq_self.mpr fun name hname => ?_
      obtain ⟨e, he, rfl⟩ := List.mem_map.mp hname
      simp [hindex e he]
    have hpairs : (pairs.map Prod.fst).eraseDups.filter (fun name => !isIndexLike name) =
        (pairs.map Prod.fst).eraseDups := by
      refine List.filter_eq_self.mpr fun name hname => ?_
      obtain ⟨e, he, rfl⟩ := List.mem_map.mp ((qs.keys name).mpr (List.mem_eraseDups.mp hname))
      simp [hindex e he]
    rw [map_fst_setAll_nil, ← hentries, qs.order, hpairs]
  have hentry : qs.entries.map (fun e => (e.1, e.2.last)) = (qs.entries.map Prod.fst).map
      fun name => (name, (QueryEntry.ofValues (valuesOf name pairs)).last) := by
    rw [List.map_map]
    refine List.map_congr_left fun e he => ?_
    rw [qs.values e he]
    rfl
  have hset : ((setAll [] pairs).map Prod.fst).map
      (fun name => (name, (QueryEntry.ofValues (valuesOf name pairs)).last)) = setAll [] pairs := by
    rw [List.map_map]
    conv_rhs => rw [← List.map_id (setAll [] pairs)]
    refine List.map_congr_left fun q hq => ?_
    exact Prod.ext rfl (last_ofValues (getLast_valuesOf hq))
  rw [hentry, hkeys, hset]

/-! ### The function -/

/-- Location for a KVS hit, or none = fall through. -/
def edgeLocation (parsed : KvsValue) (querystring : List (String × QueryEntry)) : Option String :=
  if !parsed.forwardQuery then some parsed.destination
  else
    match incomingPairs querystring with
    -- key order not recoverable
    | none => none
    | some [] => some parsed.destination
    | some incoming =>
      match parsed.base with
      -- a destination the writer could not decompose
      | none => none
      | some base =>
        let merged := (incoming.filter (·.1 ≠ "k")).foldl (fun merged p => setParam merged p.1 p.2)
          (parsed.params.getD [])
        let query := serialiseParams merged
        some (base ++ (if query = "" then "" else "?" ++ query) ++ parsed.hash.getD "")

structure EdgeRequest where
  method : String
  host : Option String
  uri : String
  querystring : List (String × QueryEntry)
deriving DecidableEq, Repr

inductive EdgeAnswer where
  /-- The request goes on to the Lambda. -/
  | forward
  | redirect (statusCode : Nat) (location : String)
deriving DecidableEq, Repr

/-- The one path segment of a URI, if it is that and no trust preview. -/
def slugOf (uri : String) : Option String :=
  match uri.toList with
  | '/' :: rest =>
    if rest = [] ∨ '/' ∈ rest ∨ rest.getLast? = some '+' then none else some (String.ofList rest)
  | _ => none

/-- The function, `kvsGet` being none for a miss, an error and a value that does not parse. -/
def decide (p : Platform) (req : EdgeRequest) (kvsGet : String → Option KvsValue) : EdgeAnswer :=
  if req.method ≠ "GET" then .forward
  -- a password flow, which the Lambda validates
  else if "k" ∈ req.querystring.map Prod.fst then .forward
  else
    match slugOf req.uri with
    | none => .forward
    | some slug =>
      if !truthy req.host then .forward
      else
        match kvsGet (edgeKey p (orEmpty req.host) slug) with
        | none => .forward
        | some parsed =>
          if parsed.destination = "" then .forward
          else
            match edgeLocation parsed req.querystring with
            | none => .forward
            | some location =>
              .redirect (if parsed.redirectType = .r301 then 301 else 302) location

end SnapUrl.Edge
