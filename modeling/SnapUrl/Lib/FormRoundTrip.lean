import SnapUrl.Lib.FormUrlencoded

/-!
# Reading what was written

The urlencoded parser reads what the urlencoded serializer writes.

* `utf8Decode_utf8Encode`: **UTF-8 decoding gives the text back**, one character after
  another (`utf8DecodeFrom_utf8EncodeChar`).
* `parseText_serializeText`: so does reading a serialized name or value.
* `parse_serialize`: **the pairs of a serialized list are the list**.
* `valuesOf_setAll`: the values of a name after several are set.
-/

namespace SnapUrl.Lib.FormUrlencoded

/-! ### UTF-8 -/

theorem toNat_ofNat_of_lt {n : Nat} (h : n < 256) : (UInt8.ofNat n).toNat = n := by
  rw [UInt8.toNat_ofNat']
  exact Nat.mod_eq_of_lt h

section

variable {q : Utf8State} {n x lower upper codePoint needed : Nat} {bs : List UInt8}

theorem utf8DecodeFrom_cons (h : n < 256) :
    utf8DecodeFrom q (UInt8.ofNat n :: bs) =
      (utf8Step q n).1 ++ utf8DecodeFrom (utf8Step q n).2 bs := by
  rw [utf8DecodeFrom, toNat_ofNat_of_lt h]

/-- The last byte of a character. -/
theorem utf8DecodeFrom_last (hx : x < 64) (hlower : lower ≤ x + 0x80) (hupper : x + 0x80 ≤ upper) :
    utf8DecodeFrom ⟨1, lower, upper, codePoint⟩ (UInt8.ofNat (x + 0x80) :: bs) =
      Char.ofNat (codePoint * 64 + x) :: utf8DecodeFrom .start bs := by
  rw [utf8DecodeFrom_cons (by omega), utf8Step, if_neg (by simp), if_pos ⟨hlower, hupper⟩]
  simp

/-- A byte in the middle of one. -/
theorem utf8DecodeFrom_middle (hneeded : 1 < needed) (hx : x < 64) (hlower : lower ≤ x + 0x80)
    (hupper : x + 0x80 ≤ upper) :
    utf8DecodeFrom ⟨needed, lower, upper, codePoint⟩ (UInt8.ofNat (x + 0x80) :: bs) =
      utf8DecodeFrom ⟨needed - 1, 0x80, 0xBF, codePoint * 64 + x⟩ bs := by
  rw [utf8DecodeFrom_cons (by omega), utf8Step, if_neg (by simp; omega), if_pos ⟨hlower, hupper⟩]
  simp only [Nat.add_sub_cancel, if_neg (show ¬ needed = 1 by omega), List.nil_append]

/-- **Decoding a character's bytes gives the character**, and the decoder stands between
two characters again. -/
theorem utf8DecodeFrom_utf8EncodeChar (c : Char) (bs : List UInt8) :
    utf8DecodeFrom .start (String.utf8EncodeChar c ++ bs) = c :: utf8DecodeFrom .start bs := by
  have hvalid : c.val.toNat < 0xD800 ∨ 0xDFFF < c.val.toNat ∧ c.val.toNat < 0x110000 := c.valid
  have hc : Char.ofNat c.val.toNat = c := Char.ofNat_toNat c
  generalize hv : c.val.toNat = v at hvalid hc
  simp only [String.utf8EncodeChar, hv]
  have hstart : ∀ b, utf8Step .start b = utf8First b := fun b => if_pos rfl
  split
  · rename_i h1
    rw [List.cons_append, List.nil_append, utf8DecodeFrom_cons (by omega), hstart, utf8First,
      if_pos h1, hc]
    rfl
  · split
    · -- two bytes
      rename_i h1 h2
      have hfirst : utf8First (v / 64 % 32 + 0xC0) = ([], ⟨1, 0x80, 0xBF, v / 64⟩) := by
        rw [utf8First, if_neg (by omega), if_pos (by omega)]
        simp only [Prod.mk.injEq, Utf8State.mk.injEq, true_and]
        omega
      rw [List.cons_append, List.cons_append, List.nil_append, utf8DecodeFrom_cons (by omega),
        hstart, hfirst, List.nil_append, utf8DecodeFrom_last (by omega) (by omega) (by omega),
        show v / 64 * 64 + v % 64 = v by omega, hc]
    · split
      · -- three bytes; the second one's range keeps out the short and the surrogate
        rename_i h1 h2 h3
        have hfirst : utf8First (v / 4096 % 16 + 0xE0) =
            ([], ⟨2, if v / 4096 = 0 then 0xA0 else 0x80, if v / 4096 = 13 then 0x9F else 0xBF,
              v / 4096⟩) := by
          rw [utf8First, if_neg (by omega), if_neg (by omega), if_pos (by omega)]
          simp only [Prod.mk.injEq, Utf8State.mk.injEq, true_and]
          refine ⟨if_congr (by omega) rfl rfl, if_congr (by omega) rfl rfl, by omega⟩
        rw [List.cons_append, List.cons_append, List.cons_append, List.nil_append,
          utf8DecodeFrom_cons (by omega), hstart, hfirst, List.nil_append,
          utf8DecodeFrom_middle (by omega) (by omega) (by split <;> omega)
            (by split <;> omega),
          utf8DecodeFrom_last (by omega) (by omega) (by omega),
          show (v / 4096 * 64 + v / 64 % 64) * 64 + v % 64 = v by omega, hc]
      · -- four bytes
        rename_i h1 h2 h3
        have hfirst : utf8First (v / 262144 % 8 + 0xF0) =
            ([], ⟨3, if v / 262144 = 0 then 0x90 else 0x80,
              if v / 262144 = 4 then 0x8F else 0xBF, v / 262144⟩) := by
          rw [utf8First, if_neg (by omega), if_neg (by omega), if_neg (by omega),
            if_pos (by omega)]
          simp only [Prod.mk.injEq, Utf8State.mk.injEq, true_and]
          refine ⟨if_congr (by omega) rfl rfl, if_congr (by omega) rfl rfl, by omega⟩
        rw [List.cons_append, List.cons_append, List.cons_append, List.cons_append,
          List.nil_append, utf8DecodeFrom_cons (by omega), hstart, hfirst, List.nil_append,
          utf8DecodeFrom_middle (by omega) (by omega) (by split <;> omega)
            (by split <;> omega),
          utf8DecodeFrom_middle (by omega) (by omega) (by omega) (by omega),
          utf8DecodeFrom_last (by omega) (by omega) (by omega),
          show ((v / 262144 * 64 + v / 4096 % 64) * 64 + v / 64 % 64) * 64 + v % 64 = v by omega,
          hc]

/-- **UTF-8 decoding gives the text back.** -/
theorem utf8Decode_utf8Encode (s : List Char) : utf8Decode (utf8Encode s) = s := by
  rw [utf8Decode, utf8Encode]
  induction s with
  | nil => rfl
  | cons c s ih => rw [List.flatMap_cons, utf8DecodeFrom_utf8EncodeChar, ih]

end

/-! ### Names and values -/

section

variable {rest : List UInt8}

def plusToSpace (b : UInt8) : UInt8 := if b = 0x2B then 0x20 else b

theorem utf8EncodeChar_of_ascii {c : Char} (h : c.val.toNat ≤ 0x7F) :
    String.utf8EncodeChar c = [UInt8.ofNat c.val.toNat] := if_pos h

theorem percentDecode_cons {b : UInt8} (h : b ≠ 0x25) :
    percentDecode (b :: rest) = b :: percentDecode rest := by
  rw [percentDecode.eq_def]
  split
  · rename_i heq
    exact absurd (List.cons.inj heq).1 h
  · rename_i heq
    rw [(List.cons.inj heq).1, (List.cons.inj heq).2]
  · rename_i heq
    exact absurd heq (by simp)

/-- A hexadecimal digit is one byte, no `+`, and is read as it was written. -/
theorem exists_hexDigit {n : Nat} (h : n < 16) :
    ∃ d : UInt8, String.utf8EncodeChar (hexDigit n) = [d] ∧ plusToSpace d = d ∧
      hexValue d.toNat = some n := by
  interval_cases n <;> exact ⟨_, rfl, by decide, by decide⟩

/-- **An escape is read as its byte.** -/
theorem percentDecode_percentEncodeByte (b : UInt8) :
    percentDecode ((utf8Encode (percentEncodeByte b)).map plusToSpace ++ rest) =
      b :: percentDecode rest := by
  have hb : b.toNat < 256 := b.toNat_lt
  obtain ⟨hi, hhi, hhiplus, hhival⟩ := exists_hexDigit (show b.toNat / 16 < 16 by omega)
  obtain ⟨lo, hlo, hloplus, hloval⟩ := exists_hexDigit (show b.toNat % 16 < 16 by omega)
  have hbytes : (utf8Encode (percentEncodeByte b)).map plusToSpace = [0x25, hi, lo] := by
    rw [utf8Encode, percentEncodeByte, List.flatMap_cons, List.flatMap_cons, List.flatMap_cons, hhi,
      hlo]
    simp only [List.flatMap_nil, List.append_nil, List.map_append, List.map_cons, List.map_nil,
      hhiplus, hloplus]
    rfl
  rw [hbytes, List.cons_append, List.cons_append, List.cons_append, List.nil_append, percentDecode]
  simp only [hhival, hloval]
  rw [show b.toNat / 16 * 16 + b.toNat % 16 = b.toNat by omega, UInt8.ofNat_toNat]

theorem percentDecode_percentEncode (bs : List UInt8) :
    percentDecode ((utf8Encode (bs.flatMap percentEncodeByte)).map plusToSpace ++ rest) =
      bs ++ percentDecode rest := by
  induction bs with
  | nil => rfl
  | cons b bs ih =>
    have hsplit : utf8Encode ((b :: bs).flatMap percentEncodeByte) =
        utf8Encode (percentEncodeByte b) ++ utf8Encode (bs.flatMap percentEncodeByte) := by
      rw [utf8Encode, List.flatMap_cons, List.flatMap_append]
      rfl
    rw [hsplit, List.map_append, List.append_assoc, percentDecode_percentEncodeByte, ih]
    rfl

/-- What is written as it is: one byte, which is neither `+` nor `%`. -/
theorem isFormSafe_bytes {c : Char} (h : isFormSafe c = true) :
    c.val.toNat ≤ 0x7F ∧ c.val.toNat ≠ 0x2B ∧ c.val.toNat ≠ 0x25 := by
  have hrange : ∀ {a b : Char}, a ≤ c ∧ c ≤ b → a.val.toNat ≤ c.val.toNat ∧
      c.val.toNat ≤ b.val.toNat := fun h => h
  simp only [isFormSafe, isAlphanumeric, Bool.or_eq_true, Bool.and_eq_true,
    decide_eq_true_eq] at h
  rcases h with (((((h | h) | h) | rfl) | rfl) | rfl) | rfl
  · have hlower : 0x61 ≤ c.val.toNat ∧ c.val.toNat ≤ 0x7A := hrange h
    omega
  · have hupper : 0x41 ≤ c.val.toNat ∧ c.val.toNat ≤ 0x5A := hrange h
    omega
  · have hdigit : 0x30 ≤ c.val.toNat ∧ c.val.toNat ≤ 0x39 := hrange h
    omega
  all_goals decide

/-- **A serialized character is read as its bytes.** -/
theorem percentDecode_serializeChar (c : Char) :
    percentDecode ((utf8Encode (serializeChar c)).map plusToSpace ++ rest) =
      String.utf8EncodeChar c ++ percentDecode rest := by
  rw [serializeChar]
  split
  · rename_i h
    subst h
    have hspace : (utf8Encode ['+']).map plusToSpace = [0x20] := by decide
    rw [hspace, List.cons_append, List.nil_append, percentDecode_cons (by decide)]
    rfl
  · split
    · rename_i h
      obtain ⟨hascii, hplus, hpercent⟩ := isFormSafe_bytes h
      have hne : ∀ n : Nat, n < 256 → c.val.toNat ≠ n →
          UInt8.ofNat c.val.toNat ≠ UInt8.ofNat n := by
        intro n hn hc heq
        refine hc ?_
        rw [← toNat_ofNat_of_lt (show c.val.toNat < 256 by omega), heq, toNat_ofNat_of_lt hn]
      have hbytes : (utf8Encode [c]).map plusToSpace = [UInt8.ofNat c.val.toNat] := by
        rw [utf8Encode, List.flatMap_cons, List.flatMap_nil, utf8EncodeChar_of_ascii hascii]
        exact congrArg (fun b => [b]) (if_neg (hne 0x2B (by omega) hplus))
      rw [hbytes, List.cons_append, List.nil_append,
        percentDecode_cons (hne 0x25 (by omega) hpercent), utf8EncodeChar_of_ascii hascii]
      rfl
    · exact percentDecode_percentEncode _

/-- **A serialized name or value is read as it was.** -/
theorem parseText_serializeText (s : List Char) :
    parseText (utf8Encode (serializeText s)) = String.ofList s := by
  have hdecode : percentDecode ((utf8Encode (serializeText s)).map plusToSpace) =
      utf8Encode s := by
    induction s with
    | nil => rfl
    | cons c s ih =>
      have hsplit : utf8Encode (serializeText (c :: s)) =
          utf8Encode (serializeChar c) ++ utf8Encode (serializeText s) := by
        rw [utf8Encode, serializeText, List.flatMap_cons, List.flatMap_append]
        rfl
      rw [hsplit, List.map_append, percentDecode_serializeChar, ih]
      rfl
  change String.ofList (utf8Decode (percentDecode
    ((utf8Encode (serializeText s)).map plusToSpace))) = _
  rw [hdecode, utf8Decode_utf8Encode]

end

/-! ### Pairs -/

section

theorem utf8Encode_append (s t : List Char) :
    utf8Encode (s ++ t) = utf8Encode s ++ utf8Encode t := List.flatMap_append

/-- A text of query characters has one byte for each. -/
theorem isQueryChar_ascii {c : Char} (h : isQueryChar c = true) : c.val.toNat ≤ 0x7F := by
  simp only [isQueryChar, Bool.or_eq_true, decide_eq_true_eq] at h
  rcases h with (((h | rfl) | rfl) | rfl) | rfl
  · exact (isFormSafe_bytes h).1
  all_goals decide

/-- A byte of such a text is its character's. -/
theorem notMem_utf8Encode {s : List Char} (h : ∀ c ∈ s, isQueryChar c = true) {d : Char}
    (hd : d.val.toNat ≤ 0x7F) (hs : d ∉ s) : UInt8.ofNat d.val.toNat ∉ utf8Encode s := by
  intro hmem
  obtain ⟨c, hc, hbyte⟩ := List.mem_flatMap.mp hmem
  have hascii := isQueryChar_ascii (h c hc)
  rw [utf8EncodeChar_of_ascii hascii, List.mem_singleton] at hbyte
  have hval : d.val.toNat = c.val.toNat := by
    rw [← toNat_ofNat_of_lt (show d.val.toNat < 256 by omega), hbyte,
      toNat_ofNat_of_lt (show c.val.toNat < 256 by omega)]
  have hchar : d = c := by
    rw [← Char.ofNat_toNat d, ← Char.ofNat_toNat c]
    exact congrArg Char.ofNat hval
  exact hs (hchar ▸ hc)

theorem hexDigit_ne_separator {n : Nat} (h : n < 16) : hexDigit n ≠ '&' ∧ hexDigit n ≠ '=' := by
  interval_cases n <;> decide

/-- A serialized name or value has neither of the two separators. -/
theorem separator_notMem_serializeText (s : List Char) :
    '&' ∉ serializeText s ∧ '=' ∉ serializeText s := by
  have hchar : ∀ c d, d ∈ serializeChar c → d ≠ '&' ∧ d ≠ '=' := by
    intro c d hd
    rw [serializeChar] at hd
    split at hd
    · exact List.mem_singleton.mp hd ▸ by decide
    · split at hd
      · rename_i hsafe
        rw [← List.mem_singleton.mp hd] at hsafe
        refine ⟨?_, ?_⟩
        · rintro rfl
          exact absurd hsafe (by decide)
        · rintro rfl
          exact absurd hsafe (by decide)
      · obtain ⟨b, -, hd⟩ := List.mem_flatMap.mp hd
        have hb : b.toNat < 256 := b.toNat_lt
        simp only [percentEncodeByte, List.mem_cons, List.not_mem_nil, or_false] at hd
        rcases hd with rfl | rfl | rfl
        · decide
        · exact hexDigit_ne_separator (by omega)
        · exact hexDigit_ne_separator (by omega)
  refine ⟨fun h => ?_, fun h => ?_⟩
  · obtain ⟨c, -, hd⟩ := List.mem_flatMap.mp h
    exact (hchar c '&' hd).1 rfl
  · obtain ⟨c, -, hd⟩ := List.mem_flatMap.mp h
    exact (hchar c '=' hd).2 rfl

theorem separator_notMem_serializePair (p : String × String) : '&' ∉ serializePair p := by
  rw [serializePair, List.mem_append, List.mem_cons]
  rintro (h | h | h)
  · exact (separator_notMem_serializeText _).1 h
  · exact absurd h (by decide)
  · exact (separator_notMem_serializeText _).1 h

/-- **A serialized pair is read as it was.** -/
theorem parsePair_serializePair (p : String × String) :
    parsePair (utf8Encode (serializePair p)) = p := by
  have hname : ∀ b ∈ utf8Encode (serializeText p.1.toList), decide (b ≠ 0x3D) = true := by
    have hnot : (0x3D : UInt8) ∉ utf8Encode (serializeText p.1.toList) :=
      notMem_utf8Encode (fun c hc => isQueryChar_of_mem_serializeText hc) (by decide)
        (separator_notMem_serializeText p.1.toList).2
    exact fun b hb => decide_eq_true fun heq => hnot (heq ▸ hb)
  have hbytes : utf8Encode (serializePair p) = utf8Encode (serializeText p.1.toList) ++
      0x3D :: utf8Encode (serializeText p.2.toList) := by
    rw [serializePair, utf8Encode_append, utf8Encode, utf8Encode, List.flatMap_cons]
    rfl
  have hstop : (0x3D :: utf8Encode (serializeText p.2.toList)).takeWhile
      (fun b : UInt8 => decide (b ≠ 0x3D)) = [] := List.takeWhile_cons_of_neg (by decide)
  have hdrop : (0x3D :: utf8Encode (serializeText p.2.toList)).dropWhile
      (fun b : UInt8 => decide (b ≠ 0x3D)) = 0x3D :: utf8Encode (serializeText p.2.toList) :=
    List.dropWhile_cons_of_neg (by decide)
  rw [parsePair, hbytes, List.takeWhile_append_of_pos hname, List.dropWhile_append_of_pos hname,
    hstop, hdrop, List.append_nil, List.drop_one, List.tail_cons, parseText_serializeText,
    parseText_serializeText, String.ofList_toList, String.ofList_toList]

theorem utf8Encode_intercalate (pieces : List (List Char)) :
    utf8Encode (List.intercalate ['&'] pieces) =
      List.intercalate [0x26] (pieces.map utf8Encode) := by
  induction pieces with
  | nil => rfl
  | cons piece pieces ih =>
    cases pieces with
    | nil => simp [List.intercalate_singleton]
    | cons piece' pieces =>
      rw [List.intercalate_cons_cons, utf8Encode_append, utf8Encode_append, ih]
      simp only [List.map_cons, List.intercalate_cons_cons]
      rfl

/-- **The pairs of a serialized list are the list.** -/
theorem parse_serialize (ps : List (String × String)) : parse (serialize ps) = ps := by
  cases ps with
  | nil => rfl
  | cons p ps =>
    have hpieces : ∀ bytes ∈ ((p :: ps).map serializePair).map utf8Encode, 0x26 ∉ bytes := by
      intro bytes hbytes
      obtain ⟨piece, hpiece, rfl⟩ := List.mem_map.mp hbytes
      obtain ⟨q, -, rfl⟩ := List.mem_map.mp hpiece
      exact notMem_utf8Encode (fun c hc => isQueryChar_of_mem_serializePair hc) (by decide)
        (separator_notMem_serializePair q)
    have hne : ∀ bytes ∈ ((p :: ps).map serializePair).map utf8Encode,
        decide (bytes ≠ []) = true := by
      intro bytes hbytes
      obtain ⟨piece, hpiece, rfl⟩ := List.mem_map.mp hbytes
      obtain ⟨q, -, rfl⟩ := List.mem_map.mp hpiece
      refine decide_eq_true ?_
      rw [serializePair, utf8Encode_append, utf8Encode, utf8Encode, List.flatMap_cons]
      exact List.append_ne_nil_of_right_ne_nil _ (by simp [utf8EncodeChar_of_ascii])
    rw [parse, serialize, String.toList_ofList, utf8Encode_intercalate,
      List.splitOn_intercalate _ hpieces (by simp), List.filter_eq_self.mpr hne, List.map_map,
      List.map_map]
    exact List.map_id'' (fun q => parsePair_serializePair q) _

end

/-! ### Values after setting -/

section

variable {κ ν : Type*} [DecidableEq κ]

theorem valuesOf_setPair (n k : κ) (v : ν) (ps : List (κ × ν)) :
    valuesOf n (setPair k v ps) = if n = k then [v] else valuesOf n ps := by
  induction ps with
  | nil =>
    by_cases hn : n = k
    · simp [setPair, valuesOf, hn]
    · simp [setPair, valuesOf, hn, Ne.symm hn]
  | cons p ps ih =>
    rw [setPair]
    by_cases hp : p.1 = k
    · rw [if_pos hp]
      by_cases hn : n = k
      · subst hn
        simp [valuesOf, List.filter_filter]
      · have hrest : (ps.filter fun q => q.1 ≠ k).filter (fun q => q.1 = n) =
            ps.filter fun q => q.1 = n := by
          rw [List.filter_filter]
          refine List.filter_congr fun q _ => ?_
          by_cases hq : q.1 = n
          · simp [hq, hn]
          · simp [hq]
        rw [if_neg hn, valuesOf, valuesOf, List.filter_cons_of_neg (by simpa using Ne.symm hn),
          List.filter_cons_of_neg (by simpa [hp] using Ne.symm hn), hrest]
    · rw [if_neg hp, valuesOf, List.filter_cons]
      by_cases hpn : p.1 = n
      · have hn : n ≠ k := hpn ▸ hp
        rw [if_neg hn] at ih ⊢
        rw [valuesOf] at ih
        simp [valuesOf, hpn, ih]
      · rw [valuesOf] at ih
        simp [valuesOf, hpn, ih]

/-- **The values of a name after several are set**: the last one that was set, or all it had. -/
theorem valuesOf_setAll (n : κ) (acc ps : List (κ × ν)) :
    valuesOf n (setAll acc ps) =
      match (valuesOf n ps).getLast? with
      | some v => [v]
      | none => valuesOf n acc := by
  induction ps using List.reverseRecOn with
  | nil => rfl
  | append_singleton ps p ih =>
    rw [setAll_append, setAll_cons, setAll_nil, valuesOf_setPair, ih]
    by_cases hn : n = p.1
    · subst hn
      simp [valuesOf, List.filter_append]
    · have hlast : valuesOf n (ps ++ [p]) = valuesOf n ps := by
        simp [valuesOf, List.filter_append, Ne.symm hn]
      rw [if_neg hn, hlast]

end

end SnapUrl.Lib.FormUrlencoded
