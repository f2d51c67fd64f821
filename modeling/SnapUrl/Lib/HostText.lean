import SnapUrl.Lib.Numerals
import SnapUrl.Lib.Url

/-!
# The text of an IP address

The serializers of the URL standard for the hosts that are addresses.

* `pieces`, `ipv6Text`: the sixteen-bit pieces of an address, in hexadecimal, with the first of the
  longest runs of zeros left out.
* `ipv6Text_of_not_compressed`: a text that starts with its first piece.
* `ipv6Text_of_compressed`: a text that starts with two colons.
* `ipv4Text`: four decimal octets.
-/

namespace SnapUrl.Lib

/-! ### Pieces -/

/-- From the highest to the lowest. -/
def pieces (address : BitVec 128) : List Nat :=
  [7, 6, 5, 4, 3, 2, 1, 0].map fun place => address.toNat / 65536 ^ place % 65536

/-- The address is the number of its pieces. -/
theorem exists_pieces (address : BitVec 128) :
    ∃ a b c d e f g h : Nat, pieces address = [a, b, c, d, e, f, g, h] ∧
      (a < 65536 ∧ b < 65536 ∧ c < 65536 ∧ d < 65536) ∧
      (e < 65536 ∧ f < 65536 ∧ g < 65536 ∧ h < 65536) ∧
      address.toNat = ((((((a * 65536 + b) * 65536 + c) * 65536 + d) * 65536 + e) * 65536 + f) *
        65536 + g) * 65536 + h := by
  have hlt := address.isLt
  have hsplit : ∀ k, address.toNat / 65536 ^ k =
      address.toNat / 65536 ^ (k + 1) * 65536 + address.toNat / 65536 ^ k % 65536 := by
    intro k
    rw [Nat.pow_succ, ← Nat.div_div_eq_div_mul]
    exact (Nat.div_add_mod' _ _).symm
  have hmod : ∀ k, address.toNat / 65536 ^ k % 65536 < 65536 := fun k => Nat.mod_lt _ (by decide)
  have htop : address.toNat / 65536 ^ 8 = 0 := Nat.div_eq_of_lt (by omega)
  refine ⟨_, _, _, _, _, _, _, _, rfl, ⟨hmod 7, hmod 6, hmod 5, hmod 4⟩,
    ⟨hmod 3, hmod 2, hmod 1, hmod 0⟩, ?_⟩
  have h7 := hsplit 7
  rw [htop, Nat.zero_mul, Nat.zero_add] at h7
  beta_reduce
  rw [← h7, ← hsplit 6, ← hsplit 5, ← hsplit 4, ← hsplit 3, ← hsplit 2, ← hsplit 1, ← hsplit 0,
    Nat.pow_zero, Nat.div_one]

/-! ### The serializer -/

/-- Lower case, without leading zeros. -/
def hexText (piece : Nat) : List Char := Nat.toDigits 16 piece

/-- How many zeros follow each other from an index on. -/
def zeroRun (ps : List Nat) (index : Nat) : Nat :=
  ((ps.drop index).takeWhile (· = 0)).length

/-- The first index of the first longest run of zeros, of two at least. -/
def compressIndex (ps : List Nat) : Option Nat :=
  let runs := (List.range ps.length).map (zeroRun ps)
  let longest := runs.foldl max 0
  if longest ≤ 1 then none else runs.findIdx? (· = longest)

/-- The pieces from an index on; after the compressed run zeros are ignored. -/
def serializeFrom (compress : Option Nat) : Nat → Bool → List Nat → List Char
  | _, _, [] => []
  | index, ignore0, piece :: ps =>
    if ignore0 = true ∧ piece = 0 then serializeFrom compress (index + 1) true ps
    else if compress = some index then
      (if index = 0 then [':', ':'] else [':']) ++ serializeFrom compress (index + 1) true ps
    else
      hexText piece ++ (if index = 7 then [] else [':']) ++
        serializeFrom compress (index + 1) false ps

def piecesText (ps : List Nat) : List Char := serializeFrom (compressIndex ps) 0 false ps

def ipv6Text (address : BitVec 128) : List Char := piecesText (pieces address)

/-- Pieces with colons between them. -/
def joinPieces : List Nat → List Char
  | [] => []
  | [piece] => hexText piece
  | piece :: next :: ps => hexText piece ++ ':' :: joinPieces (next :: ps)

/-! ### Hexadecimal -/

theorem radixValue_hexText (piece : Nat) : radixValue 16 (hexText piece) = piece :=
  radixValue_toDigits (by decide) le_rfl piece

theorem hexText_inj {p q : Nat} (h : hexText p = hexText q) : p = q := by
  rw [← radixValue_hexText p, h, radixValue_hexText]

theorem hexText_ne_nil (piece : Nat) : hexText piece ≠ [] := Nat.toDigits_ne_nil

theorem mem_hexText {piece : Nat} {c : Char} (h : c ∈ hexText piece) :
    ∃ v < 16, c = Nat.digitChar v :=
  digitChar_of_mem_toDigits (by decide) h

/-- A fact about all sixteen digits. -/
theorem forall_mem_hexText {P : Char → Prop} (h : ∀ v < 16, P (Nat.digitChar v)) (piece : Nat) :
    ∀ c ∈ hexText piece, P c := by
  intro c hc
  obtain ⟨v, hv, rfl⟩ := mem_hexText hc
  exact h v hv

theorem colon_notMem_hexText (piece : Nat) : ':' ∉ hexText piece := by
  intro h
  exact forall_mem_hexText (P := (· ≠ ':')) (by decide) piece ':' h rfl

theorem head_hexText_ne_colon {piece : Nat} {c : Char} {cs : List Char}
    (h : hexText piece = c :: cs) : c ≠ ':' := by
  rintro rfl
  exact colon_notMem_hexText piece (h ▸ List.mem_cons_self)

/-! ### The compressed run -/

/-- A run that starts the address starts with a zero. -/
theorem compressIndex_ne_zero {piece : Nat} {ps : List Nat} (hne : piece ≠ 0) :
    compressIndex (piece :: ps) ≠ some 0 := by
  have hfirst : zeroRun (piece :: ps) 0 = 0 := by
    rw [zeroRun, List.drop_zero, List.takeWhile_cons_of_neg (by simpa using hne), List.length_nil]
  intro h
  rw [compressIndex, List.length_cons, List.range_succ_eq_map, List.map_cons, hfirst] at h
  split at h
  · cases h
  · next hlong =>
    rw [List.findIdx?_cons] at h
    split at h
    · next hlongest => exact hlong (of_decide_eq_true hlongest ▸ Nat.zero_le 1)
    · simp at h

/-- Five zeros in front are the longest run. -/
theorem compressIndex_five_zeros (f g h : Nat) :
    compressIndex [0, 0, 0, 0, 0, f, g, h] = some 0 := by
  by_cases hf : f = 0 <;> by_cases hg : g = 0 <;> by_cases hh : h = 0 <;>
    simp [compressIndex, zeroRun, List.range_succ_eq_map, List.findIdx?_cons, hf, hg, hh]

/-! ### The two shapes -/

section

variable {compress : Option Nat}

/-- Past the compressed run the pieces are joined. -/
theorem serializeFrom_eq_joinPieces :
    ∀ (ps : List Nat) (index : Nat), index + ps.length = 8 → (∀ i ∈ compress, i < index) →
      serializeFrom compress index false ps = joinPieces ps := by
  intro ps
  induction ps with
  | nil => exact fun _ _ _ => rfl
  | cons piece ps ih =>
    intro index hlength hpast
    have hother : compress ≠ some index := fun h => lt_irrefl _ (hpast index h)
    have hrest := ih (index + 1) (by rw [← hlength, List.length_cons]; omega)
      fun i hi => (hpast i hi).trans (Nat.lt_succ_self _)
    rw [serializeFrom, if_neg (by simp), if_neg hother, hrest]
    cases ps with
    | nil =>
      rw [List.length_singleton] at hlength
      rw [if_pos (by omega), joinPieces, joinPieces, List.append_nil, List.append_nil]
    | cons next ps =>
      rw [List.length_cons, List.length_cons] at hlength
      rw [if_neg (by omega), joinPieces, List.append_assoc, List.singleton_append]

theorem serializeFrom_ignore0 :
    ∀ (ps : List Nat) (index : Nat), index + ps.length = 8 → (∀ i ∈ compress, i < index) →
      serializeFrom compress index true ps = joinPieces (ps.dropWhile (· = 0)) := by
  intro ps
  induction ps with
  | nil => exact fun _ _ _ => rfl
  | cons piece ps ih =>
    intro index hlength hpast
    by_cases hzero : piece = 0
    · rw [serializeFrom, if_pos ⟨rfl, hzero⟩, List.dropWhile_cons_of_pos (by simpa using hzero)]
      exact ih (index + 1) (by rw [← hlength, List.length_cons]; omega)
        fun i hi => (hpast i hi).trans (Nat.lt_succ_self _)
    · have hother : compress ≠ some index := fun h => lt_irrefl _ (hpast index h)
      have hnone (ignore0 : Bool) : ¬ (ignore0 = true ∧ piece = 0) := fun h => hzero h.2
      rw [List.dropWhile_cons_of_neg (by simpa using hzero),
        ← serializeFrom_eq_joinPieces (piece :: ps) index hlength hpast]
      rw [serializeFrom, if_neg (hnone true), if_neg hother]
      rw [serializeFrom, if_neg (hnone false), if_neg hother]

end

/-- **A text that starts with its first piece.** -/
theorem piecesText_of_not_compressed {piece : Nat} {ps : List Nat}
    (h : compressIndex (piece :: ps) ≠ some 0) :
    ∃ rest, piecesText (piece :: ps) = hexText piece ++ ':' :: rest := by
  refine ⟨serializeFrom (compressIndex (piece :: ps)) 1 false ps, ?_⟩
  rw [piecesText, serializeFrom, if_neg (by simp), if_neg h, if_neg (by decide), List.append_assoc]
  rfl

/-- **A text that starts with two colons.** -/
theorem piecesText_of_compressed {ps : List Nat} (hlength : ps.length = 8)
    (h : compressIndex ps = some 0) :
    piecesText ps = ':' :: ':' :: joinPieces (ps.dropWhile (· = 0)) := by
  cases ps with
  | nil => cases hlength
  | cons piece ps =>
    rw [List.length_cons] at hlength
    have hrest : serializeFrom (some 0) 1 true ps = joinPieces (ps.dropWhile (· = 0)) :=
      serializeFrom_ignore0 ps 1 (by omega) fun i hi => by cases hi; exact Nat.one_pos
    have hzero : piece = 0 := by
      by_contra hne
      exact compressIndex_ne_zero hne h
    rw [piecesText, h, serializeFrom, if_neg (by simp), if_pos rfl, if_pos rfl, hrest,
      List.dropWhile_cons_of_pos (by simpa using hzero)]
    rfl

/-! ### What the texts are made of -/

/-- A fact about the colon and the sixteen digits. -/
theorem forall_mem_joinPieces {P : Char → Prop} (hcolon : P ':')
    (h : ∀ v < 16, P (Nat.digitChar v)) : ∀ (ps : List Nat), ∀ c ∈ joinPieces ps, P c
  | [], _, hc => absurd hc List.not_mem_nil
  | [piece], c, hc => forall_mem_hexText h piece c hc
  | piece :: next :: ps, c, hc => by
    rw [joinPieces, List.mem_append, List.mem_cons] at hc
    rcases hc with hc | rfl | hc
    · exact forall_mem_hexText h piece c hc
    · exact hcolon
    · exact forall_mem_joinPieces hcolon h (next :: ps) c hc

theorem forall_mem_serializeFrom {P : Char → Prop} (hcolon : P ':')
    (h : ∀ v < 16, P (Nat.digitChar v)) (compress : Option Nat) :
    ∀ (ps : List Nat) (index : Nat) (ignore0 : Bool),
      ∀ c ∈ serializeFrom compress index ignore0 ps, P c := by
  intro ps
  induction ps with
  | nil => exact fun _ _ c hc => absurd hc List.not_mem_nil
  | cons piece ps ih =>
    intro index ignore0 c hc
    rw [serializeFrom] at hc
    split at hc
    · exact ih _ _ c hc
    · split at hc
      · rcases List.mem_append.mp hc with hc | hc
        · have hc' : c = ':' := by
            split at hc
            · simpa using hc
            · simpa using hc
          exact hc' ▸ hcolon
        · exact ih _ _ c hc
      · rcases List.mem_append.mp hc with hc | hc
        · rcases List.mem_append.mp hc with hc | hc
          · exact forall_mem_hexText h piece c hc
          · have hc' : c = ':' := by
              split at hc
              · cases hc
              · simpa using hc
            exact hc' ▸ hcolon
        · exact ih _ _ c hc

theorem forall_mem_ipv6Text {P : Char → Prop} (hcolon : P ':')
    (h : ∀ v < 16, P (Nat.digitChar v)) (address : BitVec 128) : ∀ c ∈ ipv6Text address, P c :=
  forall_mem_serializeFrom hcolon h _ _ _ _

/-- Joined pieces split at their colons. -/
theorem splitOn_joinPieces : ∀ {ps : List Nat}, ps ≠ [] →
    (joinPieces ps).splitOn ':' = ps.map hexText
  | [], h => absurd rfl h
  | [piece], _ => List.splitOn_eq_singleton (colon_notMem_hexText piece)
  | piece :: next :: ps, _ => by
    rw [joinPieces, List.splitOn_append_cons_self,
      List.splitOn_eq_singleton (colon_notMem_hexText piece),
      splitOn_joinPieces (List.cons_ne_nil next ps)]
    rfl

theorem hexText_of_lt {piece : Nat} (h : piece < 16) : hexText piece = [Nat.digitChar piece] :=
  Nat.toDigits_of_lt_base h

theorem hexText_of_le {piece : Nat} (h : 16 ≤ piece) :
    hexText piece = hexText (piece / 16) ++ [Nat.digitChar (piece % 16)] :=
  Nat.toDigits_of_base_le (by decide) h

/-! ### Four octets -/

def dotted (a b c d : Nat) : String :=
  toString a ++ "." ++ toString b ++ "." ++ toString c ++ "." ++ toString d

def ipv4Text (address : BitVec 32) : String :=
  dotted (address.toNat / 16777216 % 256) (address.toNat / 65536 % 256)
    (address.toNat / 256 % 256) (address.toNat % 256)

theorem toList_toString (n : Nat) : (toString n).toList = Nat.toDigits 10 n := by
  rw [Nat.toString_eq_repr, Nat.repr_eq_ofList_toDigits, String.toList_ofList]

theorem forall_mem_toString {P : Char → Prop} (h : ∀ v < 10, P (Nat.digitChar v)) (n : Nat) :
    ∀ c ∈ (toString n).toList, P c := by
  intro c hc
  rw [toList_toString] at hc
  obtain ⟨v, hv, rfl⟩ := digitChar_of_mem_toDigits (by decide) hc
  exact h v hv

theorem dot_notMem_toString (n : Nat) : '.' ∉ (toString n).toList := by
  intro h
  exact forall_mem_toString (P := (· ≠ '.')) (by decide) n '.' h rfl

/-- An address splits at its dots. -/
theorem splitOn_dotted (a b c d : Nat) :
    (dotted a b c d).toList.splitOn '.' =
      [(toString a).toList, (toString b).toList, (toString c).toList, (toString d).toList] := by
  have hlist : (dotted a b c d).toList = (toString a).toList ++ '.' :: ((toString b).toList ++
      '.' :: ((toString c).toList ++ '.' :: (toString d).toList)) := by
    simp [dotted]
  rw [hlist, List.splitOn_append_cons_self, List.splitOn_append_cons_self,
    List.splitOn_append_cons_self, List.splitOn_eq_singleton (dot_notMem_toString a),
    List.splitOn_eq_singleton (dot_notMem_toString b),
    List.splitOn_eq_singleton (dot_notMem_toString c),
    List.splitOn_eq_singleton (dot_notMem_toString d)]
  rfl

end SnapUrl.Lib
