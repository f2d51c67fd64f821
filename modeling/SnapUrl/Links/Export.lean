import SnapUrl.Import.Csv
import SnapUrl.Links.Paging

/-!
# An export that is read back

`csvCell` and `exportCsv` of `apps/api/src/links/links.service.ts`, and the reader of
`web/src/lib/import/csv.ts`.

* `csvText`: rows of cells as the exporters write them.
* `parseCsv_csvText`: **what the exporters write is read back cell by cell**, but for the guard
  against formulas.
* `parseCsv_lines`: the same of an export of links.
-/

namespace SnapUrl.Links

open Import

/-- `/^[=+\-@\t\r]/`. -/
def startsFormula (s : String) : Bool :=
  s.toList.head?.any fun c => c ∈ ['=', '+', '-', '@', '\t', '\r']

/-- A cell that would be a formula is made a text. -/
def guarded (s : String) : String := if startsFormula s then "'" ++ s else s

def csvRow (cells : List String) : String := ",".intercalate (cells.map csvCell) ++ "\n"

def csvText (rows : List (List String)) : String := String.join (rows.map csvRow)

/-! ### Cells -/

theorem startsFormula_guarded (s : String) : startsFormula (guarded s) = false := by
  rw [guarded]
  split
  · rw [startsFormula, String.toList_append]
    rfl
  · next hnot => exact Bool.eq_false_iff.mpr hnot

theorem csvCell_eq (s : String) : csvCell s =
    if (guarded s).toList.any (· ∈ ['"', ',', '\n', '\r']) then
      "\"" ++ String.ofList (doubled (guarded s).toList) ++ "\""
    else guarded s := by
  rw [csvCell, guarded, startsFormula]
  cases s.toList with
  | nil => rfl
  | cons c l =>
    simp only [List.head?_cons, Option.any_some, decide_eq_true_iff]
    rfl

section

variable {rows : List (List String)} {row : List String} {rest : List Char}

/-- **A cell is read as it was exported.** -/
theorem scan_csvCell (hrest : rest.head? ≠ some '"') (cell : String) :
    scan ⟨rows, row, [], false⟩ ((csvCell cell).toList ++ rest) =
      scan ⟨rows, row, (guarded cell).toList, false⟩ rest := by
  rw [csvCell_eq]
  split
  · have htext : ("\"" ++ String.ofList (doubled (guarded cell).toList) ++ "\"").toList ++ rest =
        '"' :: (doubled (guarded cell).toList ++ '"' :: rest) := by
      simp [String.toList_append]
    rw [htext, scan_open, scan_doubled, scan_close hrest, List.nil_append]
  · next hplain =>
    have hcell : ∀ c ∈ (guarded cell).toList, Plain c := by
      intro c hc
      have hnot : c ∉ ['"', ',', '\n', '\r'] :=
        fun hmem => hplain (List.any_eq_true.mpr ⟨c, hc, decide_eq_true hmem⟩)
      simp only [List.mem_cons, List.not_mem_nil, or_false, not_or] at hnot
      exact ⟨hnot.1, hnot.2.1, hnot.2.2.2, hnot.2.2.1⟩
    rw [scan_plain hcell, List.nil_append]

/-- **A row is read as it was exported.** -/
theorem scan_csvRow {cells : List String} (hcells : cells ≠ []) :
    scan ⟨rows, row, [], false⟩ ((csvRow cells).toList ++ rest) =
      scan ⟨rows ++ [row ++ cells.map guarded], [], [], false⟩ rest := by
  induction cells generalizing row with
  | nil => exact absurd rfl hcells
  | cons cell cells ih =>
    cases cells with
    | nil =>
      have hrow : (csvRow [cell]).toList ++ rest = (csvCell cell).toList ++ '\n' :: rest := by
        rw [csvRow, List.map_singleton, String.intercalate_singleton, String.toList_append,
          List.append_assoc]
        rfl
      rw [hrow, scan_csvCell (by simp), scan_newline, String.ofList_toList]
      rfl
    | cons cell' cells =>
      have hrow : (csvRow (cell :: cell' :: cells)).toList ++ rest =
          (csvCell cell).toList ++ ',' :: ((csvRow (cell' :: cells)).toList ++ rest) := by
        rw [csvRow, csvRow, List.map_cons, List.map_cons, String.intercalate_cons_cons]
        simp [String.toList_append]
      rw [hrow, scan_csvCell (by simp), scan_comma, String.ofList_toList,
        ih (List.cons_ne_nil _ _), List.append_assoc]
      rfl

theorem scan_csvText {exported : List (List String)} (h : ∀ cells ∈ exported, cells ≠ []) :
    scan ⟨rows, [], [], false⟩ (csvText exported).toList =
      ⟨rows ++ exported.map (List.map guarded), [], [], false⟩ := by
  induction exported generalizing rows with
  | nil =>
    rw [List.map_nil, List.append_nil]
    rfl
  | cons cells exported ih =>
    rw [csvText, List.map_cons, String.join_cons, String.toList_append,
      scan_csvRow (h cells List.mem_cons_self)]
    refine (ih fun cells' hcells' => h cells' (List.mem_cons_of_mem _ hcells')).trans ?_
    rw [List.nil_append, List.map_cons, ← List.append_cons]

end

/-! ### Texts -/

/-- **What the exporters write is read back cell by cell**, and no cell of it starts a formula. -/
theorem parseCsv_csvText (rows : List (List String)) (h : ∀ row ∈ rows, 2 ≤ row.length) :
    parseCsv (csvText rows) = rows.map (List.map guarded) ∧
      ∀ row ∈ parseCsv (csvText rows), ∀ cell ∈ row, startsFormula cell = false := by
  have hne : ∀ cells ∈ rows, cells ≠ [] := by
    rintro cells hcells rfl
    exact absurd (h [] hcells) (by decide)
  have hparse : parseCsv (csvText rows) = rows.map (List.map guarded) := by
    have hflush : (Scan.mk (rows.map (List.map guarded)) [] [] false).flush =
        ⟨rows.map (List.map guarded), [], [], false⟩ := rfl
    rw [parseCsv_eq, scan_csvText hne, List.nil_append, hflush, List.filter_eq_self]
    intro row hrow
    obtain ⟨cells, hcells, rfl⟩ := List.mem_map.mp hrow
    refine decide_eq_true fun hblank => ?_
    have hlength := congrArg List.length hblank
    rw [List.length_map, List.length_singleton] at hlength
    have htwo := h cells hcells
    omega
  refine ⟨hparse, ?_⟩
  rw [hparse]
  intro row hrow cell hcell
  obtain ⟨cells, -, rfl⟩ := List.mem_map.mp hrow
  obtain ⟨cell', -, rfl⟩ := List.mem_map.mp hcell
  exact startsFormula_guarded cell'

/-- Commas, quotes, line ends, a formula and an empty cell. -/
theorem parseCsv_csvText_awkward :
    (∀ row ∈ [["=1,2", "a\"b\r\n", ""], ["\"", "\tx"]], 2 ≤ row.length) ∧
      parseCsv (csvText [["=1,2", "a\"b\r\n", ""], ["\"", "\tx"]]) =
        [["'=1,2", "a\"b\r\n", ""], ["\"", "'\tx"]] :=
  have hlength : ∀ row ∈ [["=1,2", "a\"b\r\n", ""], ["\"", "\tx"]], 2 ≤ row.length := by decide
  ⟨hlength, (parseCsv_csvText _ hlength).1.trans (by decide)⟩

/-- The cells of a link. -/
def linkCells (p : Platform) (now : Int) (row : Row) : List String :=
  let date := fun t : Option Int => orEmpty (t.map p.toISOString)
  [row.domain ++ "/" ++ row.slug, row.destination, orEmpty row.title,
    statusText (row.toLinkRow.status p now), toString row.toLinkRow.clicks,
    toString (row.uniqueClicks.getD 0), " ".intercalate row.tags, orEmpty row.folder,
    row.redirectType, if truthy row.passwordHash then "true" else "false",
    date row.activatesAt, date row.expiresAt, row.safeBrowsingStatus,
    p.toISOString row.createdAtDate, orEmpty row.creator]

/-- **An export of links is read back link by link**, under the names of its columns. -/
theorem parseCsv_lines (p : Platform) (now : Int) (rows : List Row) :
    parseCsv (String.join (csvHeader :: rows.map (csvLine p now))) =
      csvColumns :: rows.map fun row => (linkCells p now row).map guarded := by
  have hplain : csvColumns.map csvCell = csvColumns := by decide +kernel
  have hheader : csvHeader = csvRow csvColumns := by
    rw [csvRow, hplain]
    rfl
  have hlines : String.join (csvHeader :: rows.map (csvLine p now)) =
      csvText (csvColumns :: rows.map (linkCells p now)) := by
    rw [csvText, List.map_cons, List.map_map, hheader]
    rfl
  have hlength : ∀ row ∈ csvColumns :: rows.map (linkCells p now), row.length = 15 := by
    intro row hrow
    rcases List.mem_cons.mp hrow with rfl | hrow
    · rfl
    · obtain ⟨link, -, rfl⟩ := List.mem_map.mp hrow
      rfl
  have hcells : ∀ row ∈ csvColumns :: rows.map (linkCells p now), row ≠ [] := by
    rintro row hrow rfl
    exact absurd (hlength [] hrow) (by decide)
  have hcolumns : csvColumns.map guarded = csvColumns := by decide +kernel
  rw [hlines, parseCsv_eq, scan_csvText hcells, List.nil_append, List.map_cons, hcolumns,
    List.map_map]
  refine List.filter_eq_self.mpr fun row hrow => decide_eq_true fun hblank => ?_
  -- no row of an export is blank, having a cell for every column
  rw [hblank] at hrow
  rcases List.mem_cons.mp hrow with hrow | hrow
  · exact absurd (congrArg List.length hrow) (by decide)
  · obtain ⟨link, hlink, hrow⟩ := List.mem_map.mp hrow
    have hcount := congrArg List.length hrow
    rw [Function.comp_apply, List.length_map, hlength _ (List.mem_cons_of_mem _
      (List.mem_map_of_mem hlink))] at hcount
    exact absurd hcount (by decide)

end SnapUrl.Links
