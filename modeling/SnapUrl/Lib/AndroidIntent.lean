import Mathlib.Data.List.DropRight
import SnapUrl.Lib.FormRoundTrip

/-!
# Intent URIs

The text that a browser on Android reads as an intent: data up to the last `#`, and after `Intent;`
the attributes, a `;` behind each of them, up to the word `end`.

* `read`: the grammar.
* `decode_encodeURIComponent`: an encoded text is decoded as it was, and has none of the
  separators in it (`separator_notMem_encodeURIComponent`).
* `read_write`: **whatever the data and the values are, an intent is read as it was written**.
-/

namespace SnapUrl.Lib.AndroidIntent

open FormUrlencoded

structure Intent where
  data : String
  attributes : List (String × String)
deriving DecidableEq, Repr

/-! ### Reading -/

/-- `Uri.decode`. -/
def decode (s : List Char) : String := String.ofList (utf8Decode (percentDecode (utf8Encode s)))

/-- A name up to the first `=`, and the value behind it. -/
def readAttribute (piece : List Char) : String × String :=
  (decode (piece.takeWhile (· ≠ '=')), decode ((piece.dropWhile (· ≠ '=')).drop 1))

def intentScheme : List Char := ['i', 'n', 't', 'e', 'n', 't', ':']

def attributesMark : List Char := ['I', 'n', 't', 'e', 'n', 't', ';']

def endWord : List Char := ['e', 'n', 'd']

/-- The attributes up to `end`, with nothing behind it. -/
def readAttributes : List (List Char) → Option (List (String × String))
  | [] => none
  | piece :: pieces =>
    -- a browser stops here, whatever else there is
    if endWord.isPrefixOf piece then if piece = endWord ∧ pieces = [] then some [] else none
    else (readAttributes pieces).map (readAttribute piece :: ·)

/-- What stands in front of the last `c`, and behind it. -/
def splitLast (c : Char) (l : List Char) : Option (List Char × List Char) :=
  if c ∈ l then some ((l.rdropWhile (· ≠ c)).dropLast, l.rtakeWhile (· ≠ c)) else none

def stripPrefix (start l : List Char) : Option (List Char) :=
  if start.isPrefixOf l then some (l.drop start.length) else none

/-- The data has the scheme of the attributes, the last one where there are several. -/
def dataOf (data : List Char) (attributes : List (String × String)) : String :=
  match attributes.reverse.lookup "scheme" with
  | some scheme => scheme ++ ":" ++ String.ofList data
  | none => String.ofList data

def read (uri : String) : Option Intent :=
  (splitLast '#' uri.toList).bind fun (before, after) =>
    (stripPrefix intentScheme before).bind fun data =>
      (stripPrefix attributesMark after).bind fun text =>
        (readAttributes (text.splitOn ';')).map fun attributes =>
          ⟨dataOf data attributes, attributes⟩

/-! ### Writing -/

def writeAttribute (a : String × String) : List Char :=
  encodeURIComponent a.1.toList ++ '=' :: encodeURIComponent a.2.toList

def write (data : List Char) (attributes : List (String × String)) : String :=
  String.ofList (intentScheme ++ data ++ '#' :: (attributesMark ++
    (attributes.flatMap fun a => writeAttribute a ++ [';']) ++ endWord))

/-! ### Encoded texts -/

section

variable {c : Char} {s : List Char} {rest : List UInt8}

theorem isUriUnreserved_ascii (h : isUriUnreserved c = true) : c.val.toNat ≤ 0x7F := by
  rw [isUriUnreserved, Bool.or_eq_true] at h
  rcases h with h | h
  · exact (isFormSafe_bytes (by simp [isFormSafe, h])).1
  · have hall : ("-_.!~*'()".toList.all fun d => decide (d.val.toNat ≤ 0x7F)) = true := by decide
    exact of_decide_eq_true (List.all_eq_true.mp hall c (by simpa using h))

theorem isUriUnreserved_hexDigit {n : Nat} (h : n < 16) : isUriUnreserved (hexDigit n) = true := by
  interval_cases n <;> decide

/-- An encoded text is made of unreserved characters and of `%`. -/
theorem of_mem_encodeURIComponent (h : c ∈ encodeURIComponent s) :
    isUriUnreserved c = true ∨ c = '%' := by
  obtain ⟨d, -, hd⟩ := List.mem_flatMap.mp h
  rw [encodeUriChar] at hd
  split at hd
  · rename_i hunreserved
    exact Or.inl (List.mem_singleton.mp hd ▸ hunreserved)
  · obtain ⟨b, -, hb⟩ := List.mem_flatMap.mp hd
    have hlt : b.toNat < 256 := b.toNat_lt
    simp only [percentEncodeByte, List.mem_cons, List.not_mem_nil, or_false] at hb
    rcases hb with rfl | rfl | rfl
    · exact Or.inr rfl
    · exact Or.inl (isUriUnreserved_hexDigit (by omega))
    · exact Or.inl (isUriUnreserved_hexDigit (by omega))

/-- **An encoded text has no separator in it.** -/
theorem separator_notMem_encodeURIComponent (s : List Char) :
    '#' ∉ encodeURIComponent s ∧ ';' ∉ encodeURIComponent s ∧ '=' ∉ encodeURIComponent s := by
  refine ⟨fun h => ?_, fun h => ?_, fun h => ?_⟩
  · exact absurd (of_mem_encodeURIComponent h) (by decide)
  · exact absurd (of_mem_encodeURIComponent h) (by decide)
  · exact absurd (of_mem_encodeURIComponent h) (by decide)

/-- A text that needs no escape is written as it is. -/
theorem encodeURIComponent_of_unreserved (h : ∀ c ∈ s, isUriUnreserved c = true) :
    encodeURIComponent s = s := by
  induction s with
  | nil => rfl
  | cons c s ih =>
    have hc : encodeUriChar c = [c] := by rw [encodeUriChar, if_pos (h c List.mem_cons_self)]
    rw [encodeURIComponent, List.flatMap_cons, hc, List.singleton_append]
    exact congrArg (c :: ·) (ih fun d hd => h d (List.mem_cons_of_mem _ hd))

/-- An escape has no `+` in it. -/
theorem plusToSpace_percentEncode (bs : List UInt8) :
    (utf8Encode (bs.flatMap percentEncodeByte)).map plusToSpace =
      utf8Encode (bs.flatMap percentEncodeByte) := by
  induction bs with
  | nil => rfl
  | cons b bs ih =>
    have hb : b.toNat < 256 := b.toNat_lt
    obtain ⟨hi, hhi, hhiplus, -⟩ := exists_hexDigit (show b.toNat / 16 < 16 by omega)
    obtain ⟨lo, hlo, hloplus, -⟩ := exists_hexDigit (show b.toNat % 16 < 16 by omega)
    have hbytes : utf8Encode (percentEncodeByte b) = [0x25, hi, lo] := by
      rw [utf8Encode, percentEncodeByte, List.flatMap_cons, List.flatMap_cons, List.flatMap_cons,
        hhi, hlo]
      rfl
    rw [List.flatMap_cons, utf8Encode_append, List.map_append, ih, hbytes, List.map_cons,
      List.map_cons, List.map_cons, hhiplus, hloplus]
    rfl

theorem percentDecode_encodeUriChar (c : Char) :
    percentDecode (utf8Encode (encodeUriChar c) ++ rest) =
      String.utf8EncodeChar c ++ percentDecode rest := by
  rw [encodeUriChar]
  split
  · rename_i h
    have hascii := isUriUnreserved_ascii h
    have hpercent : UInt8.ofNat c.val.toNat ≠ 0x25 := by
      intro heq
      have hval := congrArg UInt8.toNat heq
      rw [toNat_ofNat_of_lt (by omega)] at hval
      have hc : c = '%' := Char.toNat_inj.mp hval
      exact absurd (hc ▸ h) (by decide)
    rw [utf8Encode, List.flatMap_cons, List.flatMap_nil, List.append_nil,
      utf8EncodeChar_of_ascii hascii, List.cons_append, List.nil_append,
      percentDecode_cons hpercent]
    rfl
  · have hdecode : percentDecode ((utf8Encode
        ((String.utf8EncodeChar c).flatMap percentEncodeByte)).map plusToSpace ++ rest) =
          String.utf8EncodeChar c ++ percentDecode rest := percentDecode_percentEncode _
    rwa [plusToSpace_percentEncode] at hdecode

/-- **An encoded text is decoded as it was.** -/
theorem decode_encodeURIComponent (s : List Char) :
    decode (encodeURIComponent s) = String.ofList s := by
  have hdecode : percentDecode (utf8Encode (encodeURIComponent s)) = utf8Encode s := by
    induction s with
    | nil => rfl
    | cons c s ih =>
      rw [encodeURIComponent, List.flatMap_cons, utf8Encode_append, percentDecode_encodeUriChar]
      exact congrArg (String.utf8EncodeChar c ++ ·) ih
  rw [decode, hdecode, utf8Decode_utf8Encode]

end

/-! ### Reading what was written -/

section

variable {a : String × String} {attributes : List (String × String)}

theorem readAttribute_writeAttribute (a : String × String) :
    readAttribute (writeAttribute a) = a := by
  have hname : ∀ c ∈ encodeURIComponent a.1.toList, decide (c ≠ '=') = true := by
    intro c hc
    refine decide_eq_true ?_
    rintro rfl
    exact (separator_notMem_encodeURIComponent _).2.2 hc
  have hstop : ('=' :: encodeURIComponent a.2.toList).takeWhile (· ≠ '=') = [] :=
    List.takeWhile_cons_of_neg (by decide)
  have hdrop : ('=' :: encodeURIComponent a.2.toList).dropWhile (· ≠ '=') =
      '=' :: encodeURIComponent a.2.toList := List.dropWhile_cons_of_neg (by decide)
  rw [readAttribute, writeAttribute, List.takeWhile_append_of_pos hname,
    List.dropWhile_append_of_pos hname, hstop, hdrop, List.append_nil, List.drop_one,
    List.tail_cons, decode_encodeURIComponent, decode_encodeURIComponent, String.ofList_toList,
    String.ofList_toList]

/-- An attribute has no `#` in it and no `;`. -/
theorem separator_notMem_writeAttribute (a : String × String) :
    '#' ∉ writeAttribute a ∧ ';' ∉ writeAttribute a := by
  have hname := separator_notMem_encodeURIComponent a.1.toList
  have hvalue := separator_notMem_encodeURIComponent a.2.toList
  rw [writeAttribute, List.mem_append, List.mem_cons, List.mem_append, List.mem_cons]
  refine ⟨?_, ?_⟩
  · rintro (h | h | h)
    · exact hname.1 h
    · exact absurd h (by decide)
    · exact hvalue.1 h
  · rintro (h | h | h)
    · exact hname.2.1 h
    · exact absurd h (by decide)
    · exact hvalue.2.1 h

/-- **The attributes are the ones that were written**, as long as none of them reads as `end`. -/
theorem readAttributes_write (h : ∀ a ∈ attributes, endWord.isPrefixOf (writeAttribute a) = false) :
    readAttributes (((attributes.flatMap fun a => writeAttribute a ++ [';']) ++ endWord).splitOn
      ';') = some attributes := by
  induction attributes with
  | nil => decide
  | cons a attributes ih =>
    have hsplit : (((a :: attributes).flatMap fun a => writeAttribute a ++ [';']) ++
        endWord).splitOn ';' = writeAttribute a ::
          ((attributes.flatMap fun a => writeAttribute a ++ [';']) ++ endWord).splitOn ';' := by
      rw [List.flatMap_cons, List.append_assoc, List.append_assoc, List.singleton_append,
        List.splitOn_append_cons_self_of_not_mem (separator_notMem_writeAttribute a).2]
    rw [hsplit, readAttributes, if_neg (by rw [h a List.mem_cons_self]; decide),
      ih fun b hb => h b (List.mem_cons_of_mem _ hb), readAttribute_writeAttribute]
    rfl

theorem splitLast_append {c : Char} {before after : List Char} (h : c ∉ after) :
    splitLast c (before ++ c :: after) = some (before, after) := by
  have hall : ∀ d ∈ after.reverse, decide (d ≠ c) = true := by
    intro d hd
    refine decide_eq_true ?_
    rintro rfl
    exact h (List.mem_reverse.mp hd)
  have hstop : (c :: before.reverse).takeWhile (· ≠ c) = [] :=
    List.takeWhile_cons_of_neg (by simp)
  have hdrop : (c :: before.reverse).dropWhile (· ≠ c) = c :: before.reverse :=
    List.dropWhile_cons_of_neg (by simp)
  have hreverse : (before ++ c :: after).reverse = after.reverse ++ c :: before.reverse := by simp
  rw [splitLast, if_pos (List.mem_append_right _ List.mem_cons_self), List.rdropWhile,
    List.rtakeWhile, hreverse, List.dropWhile_append_of_pos hall, List.takeWhile_append_of_pos hall,
    hstop, hdrop, List.append_nil, List.reverse_reverse, List.reverse_cons, List.reverse_reverse,
    List.dropLast_concat]

theorem stripPrefix_append (start l : List Char) : stripPrefix start (start ++ l) = some l := by
  rw [stripPrefix, if_pos (List.isPrefixOf_iff_prefix.mpr (List.prefix_append start l)),
    List.drop_left]

/-- **An intent is read as it was written**, whatever its data and its values are. -/
theorem read_write (data : List Char) (attributes : List (String × String))
    (h : ∀ a ∈ attributes, endWord.isPrefixOf (writeAttribute a) = false) :
    read (write data attributes) = some ⟨dataOf data attributes, attributes⟩ := by
  have hhash : '#' ∉ attributesMark ++ (attributes.flatMap fun a => writeAttribute a ++ [';']) ++
      endWord := by
    rw [List.mem_append, List.mem_append, List.mem_flatMap]
    rintro ((hmem | ⟨a, -, hmem⟩) | hmem)
    · exact absurd hmem (by decide)
    · rcases List.mem_append.mp hmem with hmem | hmem
      · exact (separator_notMem_writeAttribute a).1 hmem
      · exact absurd hmem (by decide)
    · exact absurd hmem (by decide)
  have hparts : splitLast '#' (write data attributes).toList =
      some (intentScheme ++ data, attributesMark ++
        ((attributes.flatMap fun a => writeAttribute a ++ [';']) ++ endWord)) := by
    rw [write, String.toList_ofList, splitLast_append hhash, List.append_assoc]
  simp only [read, hparts, Option.bind_some, stripPrefix_append, readAttributes_write h,
    Option.map_some]

/-- Data with a `#`, and a value with both separators. -/
example : read (write ['/', '/', 'a', '#', '='] [("v", "#;")]) = some ⟨"//a#=", [("v", "#;")]⟩ := by
  decide

end

end SnapUrl.Lib.AndroidIntent
