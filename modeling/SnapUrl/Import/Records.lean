import Mathlib.Data.List.DropRight
import SnapUrl.Import.Csv

/-!
# Records of a CSV file

The rest of `web/src/lib/import/csv.ts`: rows under the names of their columns.

* `parseCsvRecords`, `pick`, `slugFromShortUrl`.
* `fileRows`, `dataRows`: the rows of a file with the blank ones among them, and those behind
  its header.
* `parseCsvRecords_eq`: **the records are the rows behind the header that are not blank**.
-/

namespace SnapUrl.Import

/-! ### Names of columns -/

/-- `[\s_-]`. -/
def isGap (c : Char) : Bool := isJsSpace c || c = '_' || c = '-'

/-- `replace(/[\s_-]+/g, " ")`, from inside of a run or not. -/
def collapse (inRun : Bool) : List Char → List Char
  | [] => []
  | c :: cs =>
    if isGap c then if inRun then collapse true cs else ' ' :: collapse true cs
    else c :: collapse false cs

def normalizeHeader (p : Platform) (h : String) : String :=
  String.ofList (collapse false (p.toLowerCase (trim h)).toList)

/-! ### Records -/

/-- A record, by its own fields. -/
abbrev Rec := List (String × String)

/-- The names that `in` finds in every object. -/
def inheritedNames : List String :=
  ["constructor", "hasOwnProperty", "isPrototypeOf", "propertyIsEnumerable", "toLocaleString",
    "toString", "valueOf", "__defineGetter__", "__defineSetter__", "__lookupGetter__",
    "__lookupSetter__", "__proto__"]

def Rec.has (rec : Rec) (h : String) : Bool := rec.any (·.1 = h) || inheritedNames.contains h

/-- The cells of a row under the headers. -/
def toRecord (headers cells : List String) : Rec :=
  headers.zipIdx.foldl (fun rec (h, i) =>
    -- later columns with a duplicate header do not clobber the first
    if Rec.has rec h then rec else rec ++ [(h, trim (cells.getD i ""))]) []

def parseCsvRecords (p : Platform) (text : String) : List Rec :=
  let rows := parseCsv text
  if rows.length < 2 then []
  else (rows.drop 1).map (toRecord ((rows.headD []).map (normalizeHeader p)))

/-- The first of the aliases that has a value. -/
def pick (p : Platform) (rec : Rec) (aliases : List String) : String :=
  (aliases.findSome? fun a =>
    (rec.lookup (normalizeHeader p a)).bind fun v => if v ≠ "" then some v else none).getD ""

/-! ### Back-halves -/

/-- `[a-z0-9+.-]`, in any case. -/
def isSchemeChar (c : Char) : Bool := c.isAlpha || c.isDigit || c = '+' || c = '.' || c = '-'

/-- `replace(/^[a-z][a-z0-9+.-]*:\/\//i, "")`. -/
def stripScheme (s : List Char) : List Char :=
  match s with
  | [] => []
  | c :: cs =>
    if c.isAlpha && ['/', '/'].isPrefixOf ((cs.dropWhile isSchemeChar).drop 1) &&
        (cs.dropWhile isSchemeChar).head? = some ':' then
      (cs.dropWhile isSchemeChar).drop 3
    else s

/-- The last segment of a short link's path. -/
def slugFromShortUrl (raw : String) : String :=
  match (stripScheme (trim raw).toList).dropWhile (· ≠ '/') with
  | [] => ""
  | _ :: rest =>
    let path := (rest.takeWhile fun c => c ≠ '?' ∧ c ≠ '#').rdropWhile (· = '/')
    String.ofList (((path.splitOn '/').filter (· ≠ [])).getLastD [])

/-! ### Rows and records -/

/-- The rows of a file, the blank ones among them. -/
def fileRows (text : String) : List (List String) :=
  (scan ⟨[], [], [], false⟩ text.toList).flush.rows

/-- The rows behind the header, which is the first row that is not blank. -/
def dataRows (text : String) : List (List String) :=
  ((fileRows text).dropWhile (· = [""])).drop 1

/-- The names of the columns. -/
def headersOf (p : Platform) (text : String) : List String :=
  ((parseCsv text).headD []).map (normalizeHeader p)

theorem parseCsv_eq_filter (text : String) :
    parseCsv text = (fileRows text).filter fun row => row ≠ [""] := parseCsv_eq text

theorem filter_drop_one {α : Type} (blank : α → Bool) (l : List α) :
    ((l.dropWhile blank).drop 1).filter (fun a => !blank a) =
      (l.filter fun a => !blank a).drop 1 := by
  induction l with
  | nil => rfl
  | cons a l ih =>
    by_cases ha : blank a = true
    · rw [List.dropWhile_cons_of_pos ha, ih, List.filter_cons_of_neg (by simp [ha])]
    · rw [List.dropWhile_cons_of_neg ha, List.filter_cons_of_pos (by simp [ha])]
      rfl

/-- The rows behind the header that are not blank are those that are read. -/
theorem filter_dataRows (text : String) :
    ((dataRows text).filter fun row => row ≠ [""]) = (parseCsv text).drop 1 := by
  have hfilter := filter_drop_one (fun row => decide (row = [""])) (fileRows text)
  simp only [← decide_not] at hfilter
  rw [dataRows, parseCsv_eq_filter]
  exact hfilter

/-- **The records are the rows behind the header that are not blank.** -/
theorem parseCsvRecords_eq (p : Platform) (text : String) :
    parseCsvRecords p text =
      ((dataRows text).filter fun row => row ≠ [""]).map (toRecord (headersOf p text)) := by
  rw [filter_dataRows, parseCsvRecords]
  split
  · rename_i hshort
    rw [List.drop_eq_nil_of_le (by omega)]
    rfl
  · rfl

end SnapUrl.Import
