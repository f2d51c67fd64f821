import Mathlib.Data.List.Induction
import Mathlib.Tactic.IntervalCases

/-!
# `application/x-www-form-urlencoded`

Query strings as the URL standard reads and writes them, on lists of characters.

* `parse` turns a query into its name/value pairs: it splits at `&` and at the
  first `=`, reads `+` as a space, percent-decodes and decodes the bytes as
  UTF-8, with U+FFFD where they are not UTF-8.
* `serialize` writes pairs back.
* `setPair` is `URLSearchParams.set`: the first pair of that name takes the new
  value where it stands, later ones go, and a new name goes to the end.
* `encodeURIComponent` is the ECMAScript encoder, which leaves a few more
  characters alone.

The lemmas about `setPair` say how several of them compose: `setAll_setAll_nil`,
**setting pairs one by one is setting, for each name in order of its first
occurrence, its last value**.
-/

namespace SnapUrl.Lib.FormUrlencoded

/-! ### Bytes and characters -/

/-- The UTF-8 bytes of a text. -/
def utf8Encode (s : List Char) : List UInt8 := s.flatMap String.utf8EncodeChar

/-- What a UTF-8 decoder carries between two bytes: the continuation bytes still
needed, the range the next one has to be in, and the bits read so far. -/
structure Utf8State where
  needed : Nat
  lower : Nat
  upper : Nat
  codePoint : Nat
deriving DecidableEq, Repr

/-- Between two characters. -/
def Utf8State.start : Utf8State := ⟨0, 0x80, 0xBF, 0⟩

/-- The first byte of a character. -/
def utf8First (b : Nat) : List Char × Utf8State :=
  if b ≤ 0x7F then ([Char.ofNat b], .start)
  else if 0xC2 ≤ b ∧ b ≤ 0xDF then ([], ⟨1, 0x80, 0xBF, b - 0xC0⟩)
  else if 0xE0 ≤ b ∧ b ≤ 0xEF then
    ([], ⟨2, if b = 0xE0 then 0xA0 else 0x80, if b = 0xED then 0x9F else 0xBF, b - 0xE0⟩)
  else if 0xF0 ≤ b ∧ b ≤ 0xF4 then
    ([], ⟨3, if b = 0xF0 then 0x90 else 0x80, if b = 0xF4 then 0x8F else 0xBF, b - 0xF0⟩)
  else ([Char.ofNat 0xFFFD], .start)

/-- One byte: what it completes, and where the decoder stands after it. -/
def utf8Step (q : Utf8State) (b : Nat) : List Char × Utf8State :=
  if q.needed = 0 then utf8First b
  else if q.lower ≤ b ∧ b ≤ q.upper then
    let codePoint := q.codePoint * 64 + (b - 0x80)
    if q.needed = 1 then ([Char.ofNat codePoint], .start)
    else ([], ⟨q.needed - 1, 0x80, 0xBF, codePoint⟩)
  else
    -- the byte does not continue the character: that one is lost, and the byte is read again
    (Char.ofNat 0xFFFD :: (utf8First b).1, (utf8First b).2)

/-- UTF-8 decode without BOM, errors replaced. -/
def utf8DecodeFrom : Utf8State → List UInt8 → List Char
  | q, [] => if q.needed = 0 then [] else [Char.ofNat 0xFFFD]
  | q, b :: bs => (utf8Step q b.toNat).1 ++ utf8DecodeFrom (utf8Step q b.toNat).2 bs

/-- UTF-8 decode without BOM, errors replaced, from the start. -/
def utf8Decode (bs : List UInt8) : List Char := utf8DecodeFrom .start bs

/-- The digit that stands for `n < 16` in an escape. -/
def hexDigit (n : Nat) : Char := Char.ofNat (if n < 10 then 0x30 + n else 0x41 + (n - 10))

/-- The value of a hexadecimal digit, upper or lower case. -/
def hexValue (b : Nat) : Option Nat :=
  if 0x30 ≤ b ∧ b ≤ 0x39 then some (b - 0x30)
  else if 0x41 ≤ b ∧ b ≤ 0x46 then some (b - 0x41 + 10)
  else if 0x61 ≤ b ∧ b ≤ 0x66 then some (b - 0x61 + 10)
  else none

/-- A byte as `%XX`. -/
def percentEncodeByte (b : UInt8) : List Char :=
  ['%', hexDigit (b.toNat / 16), hexDigit (b.toNat % 16)]

/-- Every byte of a character as `%XX`. -/
def percentEncodeChar (c : Char) : List Char :=
  (String.utf8EncodeChar c).flatMap percentEncodeByte

/-- Percent-decode: a `%` that two hexadecimal digits do not follow stands for itself. -/
def percentDecode : List UInt8 → List UInt8
  | 0x25 :: h :: l :: rest =>
    match hexValue h.toNat, hexValue l.toNat with
    | some x, some y => UInt8.ofNat (x * 16 + y) :: percentDecode rest
    | _, _ => 0x25 :: percentDecode (h :: l :: rest)
  | b :: rest => b :: percentDecode rest
  | [] => []

/-! ### Reading and writing pairs -/

/-- The ASCII letters and digits. -/
def isAlphanumeric (c : Char) : Bool :=
  ('a' ≤ c && c ≤ 'z') || ('A' ≤ c && c ≤ 'Z') || ('0' ≤ c && c ≤ '9')

/-- The characters the urlencoded serializer writes as they are. -/
def isFormSafe (c : Char) : Bool :=
  isAlphanumeric c || c = '*' || c = '-' || c = '.' || c = '_'

/-- One character of a name or value, serialized. -/
def serializeChar (c : Char) : List Char :=
  if c = ' ' then ['+'] else if isFormSafe c then [c] else percentEncodeChar c

/-- A name or a value, serialized. -/
def serializeText (s : List Char) : List Char := s.flatMap serializeChar

/-- One pair, serialized. -/
def serializePair (p : String × String) : List Char :=
  serializeText p.1.toList ++ '=' :: serializeText p.2.toList

/-- The urlencoded serializer. -/
def serialize (ps : List (String × String)) : String :=
  String.ofList (List.intercalate ['&'] (ps.map serializePair))

/-- A name or a value as the parser reads it: `+` is a space, then the escapes, then UTF-8. -/
def parseText (bs : List UInt8) : String :=
  String.ofList (utf8Decode (percentDecode (bs.map fun b => if b = 0x2B then 0x20 else b)))

/-- One piece between two `&`. -/
def parsePair (bs : List UInt8) : String × String :=
  (parseText (bs.takeWhile (· ≠ 0x3D)), parseText ((bs.dropWhile (· ≠ 0x3D)).drop 1))

/-- The urlencoded parser. -/
def parse (s : String) : List (String × String) :=
  (((utf8Encode s.toList).splitOn 0x26).filter (· ≠ [])).map parsePair

/-- ECMAScript's `encodeURIComponent`: what it leaves alone. -/
def isUriUnreserved (c : Char) : Bool :=
  isAlphanumeric c || "-_.!~*'()".toList.contains c

/-- ECMAScript's `encodeURIComponent`, on one character. -/
def encodeUriChar (c : Char) : List Char :=
  if isUriUnreserved c then [c] else percentEncodeChar c

/-- ECMAScript's `encodeURIComponent`. -/
def encodeURIComponent (s : List Char) : List Char := s.flatMap encodeUriChar

/-! ### Setting a pair -/

section Pairs

variable {κ ν : Type*} [DecidableEq κ]

/-- `URLSearchParams.set`. -/
def setPair (k : κ) (v : ν) : List (κ × ν) → List (κ × ν)
  | [] => [(k, v)]
  | p :: ps =>
    if p.1 = k then (k, v) :: ps.filter (fun q => q.1 ≠ k) else p :: setPair k v ps

attribute [local simp] setPair

/-- Set every pair of a list, one after the other. -/
def setAll (acc ps : List (κ × ν)) : List (κ × ν) :=
  ps.foldl (fun acc p => setPair p.1 p.2 acc) acc

@[simp] theorem setAll_nil (acc : List (κ × ν)) : setAll acc [] = acc := rfl

theorem setAll_cons (acc : List (κ × ν)) (p : κ × ν) (ps : List (κ × ν)) :
    setAll acc (p :: ps) = setAll (setPair p.1 p.2 acc) ps := rfl

theorem setAll_append (acc ps qs : List (κ × ν)) :
    setAll acc (ps ++ qs) = setAll (setAll acc ps) qs := List.foldl_append

theorem filter_ne_eq_self {k : κ} {ps : List (κ × ν)} (h : k ∉ ps.map Prod.fst) :
    ps.filter (fun q => q.1 ≠ k) = ps := by
  refine List.filter_eq_self.mpr fun q hq => ?_
  have : q.1 ≠ k := fun e => h (e ▸ List.mem_map_of_mem hq)
  simpa using this

theorem mem_keys_setPair {k j : κ} {v : ν} {ps : List (κ × ν)} :
    j ∈ (setPair k v ps).map Prod.fst ↔ j = k ∨ j ∈ ps.map Prod.fst := by
  induction ps with
  | nil => simp
  | cons p ps ih =>
    rw [setPair]
    split
    · rename_i hp
      simp only [List.map_cons, List.mem_cons, List.mem_map, List.mem_filter, hp]
      constructor
      · rintro (h | ⟨q, ⟨hq, _⟩, rfl⟩)
        · exact Or.inl h
        · exact Or.inr (Or.inr ⟨q, hq, rfl⟩)
      · rintro (h | h | ⟨q, hq, rfl⟩)
        · exact Or.inl h
        · exact Or.inl h
        · by_cases hk : q.1 = k
          · exact Or.inl hk
          · exact Or.inr ⟨q, ⟨hq, by simpa using hk⟩, rfl⟩
    · rw [List.map_cons, List.mem_cons, ih, List.map_cons, List.mem_cons]
      exact or_left_comm

/-- A name that is not there yet goes to the end. -/
theorem setPair_of_notMem {k : κ} {v : ν} {ps : List (κ × ν)} (h : k ∉ ps.map Prod.fst) :
    setPair k v ps = ps ++ [(k, v)] := by
  induction ps with
  | nil => rfl
  | cons p ps ih =>
    rw [List.map_cons, List.mem_cons, not_or] at h
    rw [setPair, if_neg fun hp => h.1 hp.symm, ih h.2, List.cons_append]

theorem setPair_ne_nil (k : κ) (v : ν) (ps : List (κ × ν)) : setPair k v ps ≠ [] := by
  cases ps with
  | nil => simp
  | cons p ps => rw [setPair]; split <;> simp

theorem setAll_ne_nil {acc ps : List (κ × ν)} (h : ps ≠ []) : setAll acc ps ≠ [] := by
  obtain ⟨qs, p, rfl⟩ := List.eq_nil_or_concat ps |>.resolve_left h
  rw [List.concat_eq_append, setAll_append]
  exact setPair_ne_nil _ _ _

/-- Dropping every pair of another name commutes with setting. -/
theorem filter_setPair {k j : κ} {v : ν} (h : k ≠ j) (ps : List (κ × ν)) :
    (setPair k v ps).filter (fun q => q.1 ≠ j) = setPair k v (ps.filter fun q => q.1 ≠ j) := by
  induction ps with
  | nil => simp [h]
  | cons p ps ih =>
    by_cases hp : p.1 = k
    · have hpj : p.1 ≠ j := hp ▸ h
      rw [setPair, if_pos hp, List.filter_cons_of_pos (by simpa using h),
        List.filter_cons_of_pos (by simpa using hpj), setPair, if_pos hp, List.filter_filter,
        List.filter_filter]
      refine congrArg _ (List.filter_congr fun q _ => ?_)
      exact Bool.and_comm _ _
    · rw [setPair, if_neg hp]
      by_cases hpj : p.1 = j
      · rw [List.filter_cons_of_neg (by simpa using hpj),
          List.filter_cons_of_neg (by simpa using hpj), ih]
      · rw [List.filter_cons_of_pos (by simpa using hpj),
          List.filter_cons_of_pos (by simpa using hpj), setPair, if_neg hp, ih]

theorem filter_setPair_self (k : κ) (v : ν) (ps : List (κ × ν)) :
    (setPair k v ps).filter (fun q => q.1 ≠ k) = ps.filter fun q => q.1 ≠ k := by
  induction ps with
  | nil => simp
  | cons p ps ih =>
    by_cases hp : p.1 = k
    · rw [setPair, if_pos hp, List.filter_cons_of_neg (by simp), List.filter_filter,
        List.filter_cons_of_neg (by simpa using hp)]
      exact List.filter_congr fun q _ => Bool.and_self _
    · rw [setPair, if_neg hp, List.filter_cons_of_pos (by simpa using hp),
        List.filter_cons_of_pos (by simpa using hp), ih]

/-- A name that is there keeps its place. -/
theorem map_fst_setPair_of_mem {k : κ} {v : ν} {ps : List (κ × ν)} (hn : (ps.map Prod.fst).Nodup)
    (h : k ∈ ps.map Prod.fst) : (setPair k v ps).map Prod.fst = ps.map Prod.fst := by
  induction ps with
  | nil => simp at h
  | cons p ps ih =>
    rw [List.map_cons, List.nodup_cons] at hn
    by_cases hp : p.1 = k
    · rw [setPair, if_pos hp, filter_ne_eq_self (hp ▸ hn.1), List.map_cons, List.map_cons, hp]
    · rw [List.map_cons, List.mem_cons] at h
      rw [setPair, if_neg hp, List.map_cons, List.map_cons,
        ih hn.2 (h.resolve_left fun e => hp e.symm)]

theorem mem_setPair {k : κ} {v : ν} {p : κ × ν} {ps : List (κ × ν)} (h : p ∈ setPair k v ps) :
    p = (k, v) ∨ p ∈ ps ∧ p.1 ≠ k := by
  induction ps with
  | nil => exact Or.inl (by simpa using h)
  | cons q ps ih =>
    by_cases hq : q.1 = k
    · rw [setPair, if_pos hq, List.mem_cons, List.mem_filter] at h
      rcases h with h | ⟨hmem, hne⟩
      · exact Or.inl h
      · exact Or.inr ⟨List.mem_cons_of_mem _ hmem, by simpa using hne⟩
    · rw [setPair, if_neg hq, List.mem_cons] at h
      rcases h with rfl | h
      · exact Or.inr ⟨List.mem_cons_self, hq⟩
      · exact (ih h).imp_right fun ⟨hmem, hne⟩ => ⟨List.mem_cons_of_mem _ hmem, hne⟩

/-- Setting a name again forgets the value set before. -/
theorem setPair_setPair (k : κ) (v w : ν) (ps : List (κ × ν)) :
    setPair k v (setPair k w ps) = setPair k v ps := by
  induction ps with
  | nil => simp
  | cons p ps ih =>
    by_cases hp : p.1 = k
    · simp [hp]
    · simp only [setPair, if_neg hp, ih]

/-- **A name that is already there can be set before or after another one.** -/
theorem setPair_comm {k j : κ} (v w : ν) {ps : List (κ × ν)} (hk : k ∈ ps.map Prod.fst)
    (h : k ≠ j) : setPair k v (setPair j w ps) = setPair j w (setPair k v ps) := by
  induction ps with
  | nil => simp at hk
  | cons p ps ih =>
    by_cases hpk : p.1 = k
    · have hpj : p.1 ≠ j := hpk ▸ h
      rw [setPair, if_neg hpj, setPair, if_pos hpk, setPair, if_pos hpk, setPair, if_neg h,
        filter_setPair h.symm]
    · have hk' : k ∈ ps.map Prod.fst := by
        rw [List.map_cons, List.mem_cons] at hk
        exact hk.resolve_left fun e => hpk e.symm
      by_cases hpj : p.1 = j
      · rw [setPair, if_pos hpj, setPair, if_neg h.symm, setPair, if_neg hpk, setPair, if_pos hpj,
          filter_setPair h]
      · rw [setPair, if_neg hpj, setPair, if_neg hpk, setPair, if_neg hpk, setPair, if_neg hpj,
          ih hk']

/-- A name set once can be set again after any others, or right away. -/
theorem setPair_setAll (k : κ) (v : ν) {ps : List (κ × ν)} (hps : k ∉ ps.map Prod.fst) :
    ∀ {acc : List (κ × ν)}, k ∈ acc.map Prod.fst →
      setPair k v (setAll acc ps) = setAll (setPair k v acc) ps := by
  induction ps with
  | nil => intro acc _; rfl
  | cons p ps ih =>
    intro acc hacc
    rw [List.map_cons, List.mem_cons, not_or] at hps
    rw [setAll_cons, ih hps.2 (mem_keys_setPair.mpr (Or.inr hacc)), setPair_comm _ _ hacc hps.1,
      ← setAll_cons]

/-- Setting a pair after a list with distinct names is setting it in the list. -/
theorem setPair_setAll_of_nodup (k : κ) (v : ν) (acc : List (κ × ν)) :
    ∀ {ps : List (κ × ν)}, (ps.map Prod.fst).Nodup →
      setPair k v (setAll acc ps) = setAll acc (setPair k v ps) := by
  intro ps
  induction ps generalizing acc with
  | nil => intro _; rfl
  | cons p ps ih =>
    intro hn
    rw [List.map_cons, List.nodup_cons] at hn
    by_cases hp : p.1 = k
    · have hk : k ∉ ps.map Prod.fst := hp ▸ hn.1
      rw [setPair, if_pos hp, filter_ne_eq_self hk, setAll_cons, setAll_cons, hp,
        setPair_setAll k v hk (mem_keys_setPair.mpr (Or.inl rfl)), setPair_setPair]
    · rw [setPair, if_neg hp, setAll_cons, setAll_cons, ih _ hn.2]

theorem nodup_setPair {k : κ} {v : ν} {ps : List (κ × ν)} (h : (ps.map Prod.fst).Nodup) :
    ((setPair k v ps).map Prod.fst).Nodup := by
  induction ps with
  | nil => simp
  | cons p ps ih =>
    rw [List.map_cons, List.nodup_cons] at h
    by_cases hp : p.1 = k
    · rw [setPair, if_pos hp, List.map_cons, List.nodup_cons]
      constructor
      · simp
      · exact h.2.sublist (List.filter_sublist.map _)
    · rw [setPair, if_neg hp, List.map_cons, List.nodup_cons, mem_keys_setPair, not_or]
      exact ⟨⟨hp, h.1⟩, ih h.2⟩

theorem nodup_setAll {acc : List (κ × ν)} (ps : List (κ × ν)) (h : (acc.map Prod.fst).Nodup) :
    ((setAll acc ps).map Prod.fst).Nodup := by
  induction ps generalizing acc with
  | nil => exact h
  | cons p ps ih => exact ih (nodup_setPair h)

/-- **Setting pairs one by one is setting, for each name in order of its first
occurrence, its last value.** -/
theorem setAll_setAll_nil (acc ps : List (κ × ν)) : setAll acc (setAll [] ps) = setAll acc ps := by
  induction ps using List.reverseRecOn with
  | nil => rfl
  | append_singleton ps p ih =>
    rw [setAll_append, setAll_append, setAll_cons, setAll_cons, setAll_nil, setAll_nil, ← ih,
      setPair_setAll_of_nodup _ _ _ (nodup_setAll ps (by simp))]

/-- Dropping a name from the result is dropping it from what is set. -/
theorem filter_setAll_nil (j : κ) (ps : List (κ × ν)) :
    (setAll [] ps).filter (fun q => q.1 ≠ j) = setAll [] (ps.filter fun q => q.1 ≠ j) := by
  induction ps using List.reverseRecOn with
  | nil => rfl
  | append_singleton ps p ih =>
    rw [setAll_append, setAll_cons, setAll_nil, List.filter_append, setAll_append]
    by_cases hp : p.1 = j
    · rw [List.filter_cons_of_neg (by simpa using hp), List.filter_nil, setAll_nil, ← ih, hp,
        filter_setPair_self]
    · rw [filter_setPair hp, ih, List.filter_cons_of_pos (by simpa using hp)]
      rfl

/-- The names are there in the order they occur first. -/
theorem map_fst_setAll_nil (ps : List (κ × ν)) :
    (setAll [] ps).map Prod.fst = (ps.map Prod.fst).eraseDups := by
  induction ps using List.reverseRecOn with
  | nil => rfl
  | append_singleton ps p ih =>
    rw [setAll_append, setAll_cons, setAll_nil, List.map_append, List.eraseDups_append, ← ih]
    have hmem : p.1 ∈ (setAll [] ps).map Prod.fst ↔ p.1 ∈ ps.map Prod.fst := by
      rw [ih, List.mem_eraseDups]
    by_cases hp : p.1 ∈ ps.map Prod.fst
    · rw [map_fst_setPair_of_mem (nodup_setAll ps (by simp)) (hmem.mpr hp), List.map_cons,
        List.map_nil, List.removeAll, List.filter_cons_of_neg (by simpa using hp)]
      simp
    · rw [setPair_of_notMem (hmem.not.mpr hp), List.map_append, List.map_cons, List.map_nil,
        List.removeAll, List.filter_cons_of_pos (by simpa using hp)]
      rfl

/-- The values a name has. -/
def valuesOf (k : κ) (ps : List (κ × ν)) : List ν := (ps.filter (·.1 = k)).map Prod.snd

/-- Every name is there with the last value it has. -/
theorem getLast_valuesOf {p : κ × ν} {ps : List (κ × ν)} (h : p ∈ setAll [] ps) :
    (valuesOf p.1 ps).getLast? = some p.2 := by
  induction ps using List.reverseRecOn generalizing p with
  | nil => simp at h
  | append_singleton ps q ih =>
    rw [setAll_append, setAll_cons, setAll_nil] at h
    rw [valuesOf, List.filter_append]
    rcases mem_setPair h with rfl | ⟨hp, hne⟩
    · simp
    · rw [List.filter_cons_of_neg (by simpa using fun e => hne e.symm), List.filter_nil,
        List.append_nil]
      exact ih hp

end Pairs

/-! ### What the serializer writes -/

/-- The characters an escape or a serialized name, value or pair is made of. -/
def isQueryChar (c : Char) : Bool := isFormSafe c || c = '%' || c = '+' || c = '&' || c = '='

theorem isQueryChar_hexDigit {n : Nat} (h : n < 16) : isQueryChar (hexDigit n) = true := by
  interval_cases n <;> decide

theorem isQueryChar_of_mem_percentEncodeChar {c d : Char} (h : d ∈ percentEncodeChar c) :
    isQueryChar d = true := by
  obtain ⟨b, _, hd⟩ := List.mem_flatMap.mp h
  have hb : b.toNat < 256 := b.toNat_lt
  simp only [percentEncodeByte, List.mem_cons, List.not_mem_nil, or_false] at hd
  rcases hd with rfl | rfl | rfl
  · decide
  · exact isQueryChar_hexDigit (by omega)
  · exact isQueryChar_hexDigit (by omega)

theorem isQueryChar_of_mem_serializeText {s : List Char} {d : Char} (h : d ∈ serializeText s) :
    isQueryChar d = true := by
  obtain ⟨c, _, hd⟩ := List.mem_flatMap.mp h
  rw [serializeChar] at hd
  split at hd
  · rw [List.mem_singleton] at hd
    exact hd ▸ by decide
  · split at hd
    · rename_i hc
      rw [List.mem_singleton] at hd
      simp [isQueryChar, hd, hc]
    · exact isQueryChar_of_mem_percentEncodeChar hd

theorem isQueryChar_of_mem_serializePair {p : String × String} {d : Char}
    (h : d ∈ serializePair p) : isQueryChar d = true := by
  rcases List.mem_append.mp h with h | h
  · exact isQueryChar_of_mem_serializeText h
  · rcases List.mem_cons.mp h with rfl | h
    · decide
    · exact isQueryChar_of_mem_serializeText h

/-- **The serializer writes no `?` and no `#`**, nor anything else that would end a query. -/
theorem isQueryChar_of_mem_serialize {ps : List (String × String)} {d : Char}
    (h : d ∈ (serialize ps).toList) : isQueryChar d = true := by
  rw [serialize, String.toList_ofList] at h
  induction ps with
  | nil => simp at h
  | cons p ps ih =>
    cases ps with
    | nil =>
      rw [List.map_cons, List.map_nil, List.intercalate_singleton] at h
      exact isQueryChar_of_mem_serializePair h
    | cons q qs =>
      rw [List.map_cons, List.map_cons, List.intercalate_cons_cons] at h
      simp only [List.mem_append, List.mem_singleton] at h
      rcases h with (h | rfl) | h
      · exact isQueryChar_of_mem_serializePair h
      · decide
      · exact ih (by rw [List.map_cons]; exact h)

end SnapUrl.Lib.FormUrlencoded
