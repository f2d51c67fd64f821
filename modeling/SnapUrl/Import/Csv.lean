import SnapUrl.Platform

/-!
# Reading CSV

`parseCsv` of `web/src/lib/import/csv.ts`.

* `scan`: the loop over the text.
* `scan_plain`, `scan_doubled`: what a cell outside and inside of quotes is read as.
-/

namespace SnapUrl.Import

/-- Where the loop stands. -/
structure Scan where
  rows : List (List String)
  row : List String
  field : List Char
  inQuotes : Bool
deriving DecidableEq, Repr

def Scan.pushField (s : Scan) : Scan :=
  { s with
    row := s.row ++ [String.ofList s.field]
    field := [] }

def Scan.pushRow (s : Scan) : Scan :=
  { s.pushField with
    rows := s.rows ++ [s.pushField.row]
    row := [] }

def Scan.add (s : Scan) (c : Char) : Scan := { s with field := s.field ++ [c] }

def Scan.quotes (s : Scan) (inQuotes : Bool) : Scan := { s with inQuotes := inQuotes }

/-- The loop. -/
def scan (s : Scan) : List Char → Scan
  | [] => s
  | [c] =>
    if s.inQuotes then if c = '"' then s.quotes false else s.add c
    else if c = '"' then s.quotes true
    else if c = ',' then s.pushField
    else if c = '\r' ∨ c = '\n' then s.pushRow
    else s.add c
  | c :: d :: cs =>
    if s.inQuotes then
      if c = '"' then
        -- the escaped quote
        if d = '"' then scan (s.add '"') cs else scan (s.quotes false) (d :: cs)
      else scan (s.add c) (d :: cs)
    else if c = '"' then scan (s.quotes true) (d :: cs)
    else if c = ',' then scan s.pushField (d :: cs)
    else if c = '\r' then if d = '\n' then scan s.pushRow cs else scan s.pushRow (d :: cs)
    else if c = '\n' then scan s.pushRow (d :: cs)
    else scan (s.add c) (d :: cs)

/-- The row that is left when the text ends. -/
def Scan.flush (s : Scan) : Scan :=
  if s.field ≠ [] ∨ s.row ≠ [] then s.pushRow else s

def parseCsv (text : String) : List (List String) :=
  if text = "" then []
  else (scan ⟨[], [], [], false⟩ text.toList).flush.rows.filter fun row => row ≠ [""]

/-- A text without a character has no rows either way. -/
theorem parseCsv_eq (text : String) : parseCsv text =
    (scan ⟨[], [], [], false⟩ text.toList).flush.rows.filter fun row => row ≠ [""] := by
  rw [parseCsv]
  split
  · next hempty =>
    subst hempty
    rfl
  · rfl

/-! ### One character -/

section

variable {rows : List (List String)} {row : List String} {field : List Char} {c : Char}

/-- What a cell that is not quoted is made of. -/
def Plain (c : Char) : Prop := c ≠ '"' ∧ c ≠ ',' ∧ c ≠ '\r' ∧ c ≠ '\n'

attribute [local simp] scan

theorem scan_add (hc : Plain c) (rest : List Char) :
    scan ⟨rows, row, field, false⟩ (c :: rest) = scan ⟨rows, row, field ++ [c], false⟩ rest := by
  obtain ⟨hquote, hcomma, hcr, hlf⟩ := hc
  cases rest <;> simp [Scan.add, hquote, hcomma, hcr, hlf]

theorem scan_comma (rest : List Char) :
    scan ⟨rows, row, field, false⟩ (',' :: rest) =
      scan ⟨rows, row ++ [String.ofList field], [], false⟩ rest := by
  cases rest <;> simp [Scan.pushField]

theorem scan_newline (rest : List Char) :
    scan ⟨rows, row, field, false⟩ ('\n' :: rest) =
      scan ⟨rows ++ [row ++ [String.ofList field]], [], [], false⟩ rest := by
  cases rest <;> simp [Scan.pushField, Scan.pushRow]

theorem scan_open (rest : List Char) :
    scan ⟨rows, row, field, false⟩ ('"' :: rest) = scan ⟨rows, row, field, true⟩ rest := by
  cases rest <;> simp [Scan.quotes]

theorem scan_inside (hc : c ≠ '"') (rest : List Char) :
    scan ⟨rows, row, field, true⟩ (c :: rest) = scan ⟨rows, row, field ++ [c], true⟩ rest := by
  cases rest <;> simp [Scan.add, hc]

theorem scan_escaped (rest : List Char) :
    scan ⟨rows, row, field, true⟩ ('"' :: '"' :: rest) =
      scan ⟨rows, row, field ++ ['"'], true⟩ rest := by
  simp [Scan.add]

theorem scan_close {rest : List Char} (hrest : rest.head? ≠ some '"') :
    scan ⟨rows, row, field, true⟩ ('"' :: rest) = scan ⟨rows, row, field, false⟩ rest := by
  cases rest with
  | nil => simp [Scan.quotes]
  | cons d rest =>
    have hd : d ≠ '"' := fun heq => hrest (congrArg some heq)
    simp [Scan.quotes, hd]

/-! ### A cell -/

theorem scan_plain {cell : List Char} (hcell : ∀ c ∈ cell, Plain c) (rest : List Char) :
    scan ⟨rows, row, field, false⟩ (cell ++ rest) =
      scan ⟨rows, row, field ++ cell, false⟩ rest := by
  induction cell generalizing field with
  | nil => rw [List.nil_append, List.append_nil]
  | cons c cell ih =>
    rw [List.cons_append, scan_add (hcell c List.mem_cons_self),
      ih fun d hd => hcell d (List.mem_cons_of_mem _ hd), ← List.append_cons]

/-- A quote is written twice. -/
def doubled (cell : List Char) : List Char :=
  cell.flatMap fun c => if c = '"' then ['"', '"'] else [c]

/-- **What is written between quotes is read back.** -/
theorem scan_doubled (cell : List Char) (rest : List Char) :
    scan ⟨rows, row, field, true⟩ (doubled cell ++ rest) =
      scan ⟨rows, row, field ++ cell, true⟩ rest := by
  induction cell generalizing field with
  | nil =>
    rw [List.append_nil]
    rfl
  | cons c cell ih =>
    have hstep : scan ⟨rows, row, field, true⟩ (doubled (c :: cell) ++ rest) =
        scan ⟨rows, row, field ++ [c], true⟩ (doubled cell ++ rest) := by
      rw [doubled, List.flatMap_cons, List.append_assoc]
      by_cases hc : c = '"'
      · rw [if_pos hc, hc]
        exact scan_escaped _
      · rw [if_neg hc]
        exact scan_inside hc _
    rw [hstep, ih, ← List.append_cons]

end

end SnapUrl.Import
