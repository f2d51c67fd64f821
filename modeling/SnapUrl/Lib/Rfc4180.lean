import Mathlib.Logic.Basic

/-!
# Comma-separated values

RFC 4180: records of fields, a line end behind each, and quotes around a field that has a
comma, a quote or a line end in it.

* `read`: the reader, one character at a time.  It refuses what the grammar refuses: a quote
  in a field that is not quoted, a line end that is not CRLF, quotes that are not closed.
* `read_write`: **records are read as they were written**, whatever their fields are.
-/

namespace SnapUrl.Lib.Rfc4180

/-- Where the reader stands. -/
inductive Place where
  /-- In front of a field. -/
  | start
  | plain
  | quoted
  /-- Behind a quote that closes the field or is the first of two. -/
  | quote
  /-- Behind the first character of a line end. -/
  | cr
deriving DecidableEq, Repr

structure Reader where
  records : List (List String)
  record : List String
  field : List Char
  place : Place
deriving DecidableEq, Repr

/-- The characters that a field has only between quotes. -/
def special (c : Char) : Bool := c = '"' || c = ',' || c = '\r' || c = '\n'

namespace Reader

def endField (r : Reader) : Reader := ⟨r.records, r.record ++ [String.ofList r.field], [], .start⟩

def endRecord (r : Reader) : Reader :=
  ⟨r.records ++ [r.record ++ [String.ofList r.field]], [], [], .start⟩

def add (r : Reader) (c : Char) (place : Place) : Reader :=
  ⟨r.records, r.record, r.field ++ [c], place⟩

def goTo (r : Reader) (place : Place) : Reader := ⟨r.records, r.record, r.field, place⟩

/-- What may stand behind a field. -/
def separator (r : Reader) (c : Char) : Option Reader :=
  if c = ',' then some r.endField else if c = '\r' then some (r.goTo .cr) else none

def step (r : Reader) (c : Char) : Option Reader :=
  match r.place with
  | .start =>
    if c = '"' then some (r.goTo .quoted)
    else if special c then r.separator c
    else some (r.add c .plain)
  | .plain => if special c then r.separator c else some (r.add c .plain)
  | .quoted => if c = '"' then some (r.goTo .quote) else some (r.add c .quoted)
  | .quote => if c = '"' then some (r.add '"' .quoted) else r.separator c
  | .cr => if c = '\n' then some r.endRecord else none

def run (r : Reader) : List Char → Option Reader
  | [] => some r
  | c :: cs => (r.step c).bind fun r => run r cs

/-- The records when the text ends.  The last one may have no line end. -/
def finish (r : Reader) : Option (List (List String)) :=
  match r.place with
  | .start => some (if r.record = [] then r.records else r.endRecord.records)
  | .plain | .quote => some r.endRecord.records
  | .quoted | .cr => none

end Reader

open Reader

def read (text : String) : Option (List (List String)) :=
  (run ⟨[], [], [], .start⟩ text.toList).bind finish

/-! ### Writing -/

/-- A quote is written twice. -/
def doubled (field : List Char) : List Char :=
  field.flatMap fun c => if c = '"' then ['"', '"'] else [c]

def writeField (field : String) : String :=
  if field.toList.any special then "\"" ++ String.ofList (doubled field.toList) ++ "\"" else field

def writeRecord (record : List String) : String :=
  ",".intercalate (record.map writeField) ++ "\r\n"

def write (records : List (List String)) : String := String.join (records.map writeRecord)

/-! ### One character -/

section

variable {records : List (List String)} {record : List String} {field : List Char} {place : Place}
  {c : Char} {rest : List Char}

/-- The places where a field may end. -/
def Ends (place : Place) : Prop := place = .start ∨ place = .plain ∨ place = .quote

theorem run_comma (h : Ends place) :
    run ⟨records, record, field, place⟩ (',' :: rest) =
      run ⟨records, record ++ [String.ofList field], [], .start⟩ rest := by
  rcases h with rfl | rfl | rfl <;> rfl

theorem run_lineEnd (h : Ends place) :
    run ⟨records, record, field, place⟩ ('\r' :: '\n' :: rest) =
      run ⟨records ++ [record ++ [String.ofList field]], [], [], .start⟩ rest := by
  rcases h with rfl | rfl | rfl <;> rfl

theorem run_plain (hplace : place = .start ∨ place = .plain) (hc : special c = false) :
    run ⟨records, record, field, place⟩ (c :: rest) =
      run ⟨records, record, field ++ [c], .plain⟩ rest := by
  have hquote : c ≠ '"' := by
    rintro rfl
    exact absurd hc (by decide)
  rcases hplace with rfl | rfl <;> simp [run, step, add, hc, hquote]

theorem run_inside (hc : c ≠ '"') :
    run ⟨records, record, field, .quoted⟩ (c :: rest) =
      run ⟨records, record, field ++ [c], .quoted⟩ rest := by
  simp [run, step, add, hc]

/-! ### A field -/

theorem run_doubled (cell : List Char) :
    run ⟨records, record, field, .quoted⟩ (doubled cell ++ rest) =
      run ⟨records, record, field ++ cell, .quoted⟩ rest := by
  induction cell generalizing field with
  | nil =>
    rw [List.append_nil]
    rfl
  | cons c cell ih =>
    have hstep : run ⟨records, record, field, .quoted⟩ (doubled (c :: cell) ++ rest) =
        run ⟨records, record, field ++ [c], .quoted⟩ (doubled cell ++ rest) := by
      rw [doubled, List.flatMap_cons, List.append_assoc]
      by_cases hc : c = '"'
      · rw [if_pos hc, hc]
        rfl
      · rw [if_neg hc]
        exact run_inside hc
    rw [hstep, ih, ← List.append_cons]

theorem run_unquoted {cell : List Char} (hcell : ∀ c ∈ cell, special c = false)
    (hplace : place = .start ∨ place = .plain) :
    ∃ place', Ends place' ∧ run ⟨records, record, field, place⟩ (cell ++ rest) =
      run ⟨records, record, field ++ cell, place'⟩ rest := by
  induction cell generalizing field place with
  | nil =>
    refine ⟨place, hplace.imp_right Or.inl, ?_⟩
    rw [List.nil_append, List.append_nil]
  | cons c cell ih =>
    obtain ⟨place', hends, hrun⟩ :
        ∃ place', Ends place' ∧ run ⟨records, record, field ++ [c], .plain⟩ (cell ++ rest) =
          run ⟨records, record, field ++ [c] ++ cell, place'⟩ rest :=
      ih (fun d hd => hcell d (List.mem_cons_of_mem _ hd)) (Or.inr rfl)
    refine ⟨place', hends, ?_⟩
    rw [List.cons_append, run_plain hplace (hcell c List.mem_cons_self), hrun, ← List.append_cons]

/-- **A field is read as it was written.** -/
theorem run_writeField (records : List (List String)) (record : List String) (cell : String)
    (rest : List Char) :
    ∃ place, Ends place ∧
      run ⟨records, record, [], .start⟩ ((writeField cell).toList ++ rest) =
        run ⟨records, record, cell.toList, place⟩ rest := by
  rw [writeField]
  split
  · refine ⟨.quote, Or.inr (Or.inr rfl), ?_⟩
    have htext : ("\"" ++ String.ofList (doubled cell.toList) ++ "\"").toList ++ rest =
        '"' :: (doubled cell.toList ++ '"' :: rest) := by
      simp [String.toList_append]
    have hopen : run ⟨records, record, [], .start⟩ ('"' :: (doubled cell.toList ++ '"' :: rest)) =
        run ⟨records, record, [], .quoted⟩ (doubled cell.toList ++ '"' :: rest) := rfl
    rw [htext, hopen, run_doubled, List.nil_append]
    rfl
  · rename_i hplain
    have hcell : ∀ c ∈ cell.toList, special c = false := fun c hc =>
      Bool.eq_false_iff.mpr fun hspecial => hplain (List.any_eq_true.mpr ⟨c, hc, hspecial⟩)
    exact run_unquoted hcell (Or.inl rfl)

/-! ### Records -/

/-- **A record is read as it was written.** -/
theorem run_writeRecord {cells : List String} (hcells : cells ≠ []) :
    run ⟨records, record, [], .start⟩ ((writeRecord cells).toList ++ rest) =
      run ⟨records ++ [record ++ cells], [], [], .start⟩ rest := by
  induction cells generalizing record with
  | nil => exact absurd rfl hcells
  | cons cell cells ih =>
    cases cells with
    | nil =>
      have hrecord : (writeRecord [cell]).toList ++ rest =
          (writeField cell).toList ++ '\r' :: '\n' :: rest := by
        rw [writeRecord, List.map_singleton, String.intercalate_singleton, String.toList_append,
          List.append_assoc]
        rfl
      obtain ⟨place, hends, hrun⟩ := run_writeField records record cell ('\r' :: '\n' :: rest)
      rw [hrecord, hrun, run_lineEnd hends, String.ofList_toList]
    | cons cell' cells =>
      have hrecord : (writeRecord (cell :: cell' :: cells)).toList ++ rest =
          (writeField cell).toList ++ ',' :: ((writeRecord (cell' :: cells)).toList ++ rest) := by
        rw [writeRecord, writeRecord, List.map_cons, List.map_cons, String.intercalate_cons_cons]
        simp [String.toList_append]
      obtain ⟨place, hends, hrun⟩ := run_writeField records record cell
        (',' :: ((writeRecord (cell' :: cells)).toList ++ rest))
      rw [hrecord, hrun, run_comma hends, String.ofList_toList, ih (List.cons_ne_nil _ _),
        List.append_assoc, List.singleton_append]

theorem run_write {written : List (List String)} (h : ∀ cells ∈ written, cells ≠ []) :
    run ⟨records, [], [], .start⟩ (write written).toList =
      some ⟨records ++ written, [], [], .start⟩ := by
  induction written generalizing records with
  | nil =>
    rw [List.append_nil]
    rfl
  | cons cells written ih =>
    rw [write, List.map_cons, String.join_cons, String.toList_append,
      run_writeRecord (h cells List.mem_cons_self)]
    refine (ih fun cells' hcells' => h cells' (List.mem_cons_of_mem _ hcells')).trans ?_
    rw [List.nil_append, ← List.append_cons]

/-- **Records are read as they were written.** -/
theorem read_write (written : List (List String)) (h : ∀ cells ∈ written, cells ≠ []) :
    read (write written) = some written := by
  rw [read, run_write h, Option.bind_some, List.nil_append]
  rfl

/-- Commas, quotes, line ends and an empty field. -/
example : read (write [["a,b", "c\"d\r\n", ""], ["\"", " "]]) =
    some [["a,b", "c\"d\r\n", ""], ["\"", " "]] := by decide

end

end SnapUrl.Lib.Rfc4180
