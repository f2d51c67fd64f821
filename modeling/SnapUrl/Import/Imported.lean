import SnapUrl.Import.Rfc
import SnapUrl.Import.ToLinks

/-!
# What an import makes of a file

The parsers of all sources and the pipeline behind them, for every text.

* `records`: the records of a file.  `records_of_read`: those of a well-formed CSV file are the
  standard's.
* `Account`: each of them is one row or one error, under its number.
* `Delivered`: each row is in one batch, with what it says, and the outcome of the report
  stands where the row stands.
* `imported_iff_numbers`: the parsers number the records from 0 on, **the blank rows left
  out**, and raise on a null among the links of a JSON file.
* `imported_iff`: so **the numbers are the places in the file exactly when no link is null and
  no blank row has a record behind it**.
-/

namespace SnapUrl.Import

open Lib

/-! ### Numbers of what is kept -/

section Kept

variable {α : Type}

theorem exists_eq_map_some_iff {l : List (Option α)} : (∃ xs : List α, l = xs.map some) ↔ none ∉ l := by
  refine ⟨?_, fun h => ?_⟩
  · rintro ⟨xs, rfl⟩ hnone
    obtain ⟨x, -, hx⟩ := List.mem_map.mp hnone
    cases hx
  · induction l with
    | nil => exact ⟨[], rfl⟩
    | cons o l ih =>
      obtain ⟨xs, rfl⟩ := ih fun hnone => h (List.mem_cons_of_mem _ hnone)
      cases o with
      | none => exact absurd List.mem_cons_self h
      | some x => exact ⟨x :: xs, rfl⟩

/-- **What is kept is numbered without a gap** exactly when nothing is kept behind what is not. -/
theorem map_snd_filter_zipIdx_iff (keep : α → Bool) (l : List α) (i : ℕ) :
    ((l.zipIdx i).filter fun e => keep e.1).map Prod.snd =
        List.range' i (l.filter keep).length ↔
      l.Pairwise fun a b => keep a = false → keep b = false := by
  induction l generalizing i with
  | nil => exact iff_of_true rfl List.Pairwise.nil
  | cons a l ih =>
    rw [List.zipIdx_cons, List.pairwise_cons, ← ih (i + 1)]
    by_cases ha : keep a = true
    · have hzip : ((a, i) :: l.zipIdx (i + 1)).filter (fun e => keep e.1) =
          (a, i) :: (l.zipIdx (i + 1)).filter fun e => keep e.1 := List.filter_cons_of_pos ha
      rw [hzip, List.filter_cons_of_pos ha, List.map_cons, List.length_cons, List.range'_succ,
        List.cons.injEq, and_iff_right rfl]
      exact (and_iff_right fun b _ hfalse => absurd ha (by rw [hfalse]; decide)).symm
    · have hzip : ((a, i) :: l.zipIdx (i + 1)).filter (fun e => keep e.1) =
          (l.zipIdx (i + 1)).filter fun e => keep e.1 := List.filter_cons_of_neg ha
      rw [hzip, List.filter_cons_of_neg ha]
      by_cases hnone : ∀ b ∈ l, keep b = false
      · -- nothing is kept
        have hkept : l.filter keep = [] :=
          List.filter_eq_nil_iff.mpr fun b hb => Bool.eq_false_iff.mp (hnone b hb)
        have hplaces : (l.zipIdx (i + 1)).filter (fun e => keep e.1) = [] :=
          List.filter_eq_nil_iff.mpr fun e he =>
            Bool.eq_false_iff.mp (hnone e.1 (List.fst_mem_of_mem_zipIdx he))
        rw [hkept, hplaces]
        exact iff_of_true rfl ⟨fun b hb _ => hnone b hb, rfl⟩
      · refine iff_of_false (fun heq => ?_) fun h =>
          hnone fun b hb => h.1 b hb (Bool.eq_false_iff.mpr ha)
        -- the first number would be `i`, which is the place of `a`
        have hkept : l.filter keep ≠ [] := fun hnil =>
          hnone fun b hb => Bool.eq_false_iff.mpr (List.filter_eq_nil_iff.mp hnil b hb)
        have hfirst : i ∈ List.range' i (l.filter keep).length :=
          List.mem_range'_1.mpr ⟨le_rfl, Nat.lt_add_of_pos_right (List.length_pos_iff.mpr hkept)⟩
        rw [← heq] at hfirst
        obtain ⟨e, he, hi⟩ := List.mem_map.mp hfirst
        have hplace := List.le_snd_of_mem_zipIdx (List.mem_of_mem_filter he)
        omega

end Kept

/-! ### Records and their numbers -/

/-- The rows among the outcomes of some records, each under the number of its record. -/
def mappedRows (numbers : List ℕ) (outcomes : List (Except String SourceLink)) : List MappedRow :=
  (outcomes.zip numbers).filterMap fun (outcome, n) =>
    match outcome with
    | .ok link => some ⟨link, n⟩
    | .error _ => none

/-- The errors among them. -/
def parseErrors (numbers : List ℕ) (outcomes : List (Except String SourceLink)) :
    List ParseError :=
  (outcomes.zip numbers).filterMap fun (outcome, n) =>
    match outcome with
    | .ok _ => none
    | .error message => some ⟨n, message⟩

theorem numbers_inj {outcomes : List (Except String SourceLink)} {ns ms : List ℕ}
    (hns : ns.length = outcomes.length) (hms : ms.length = outcomes.length)
    (hrows : mappedRows ns outcomes = mappedRows ms outcomes)
    (herrors : parseErrors ns outcomes = parseErrors ms outcomes) : ns = ms := by
  induction outcomes generalizing ns ms with
  | nil => rw [List.length_eq_zero_iff.mp hns, List.length_eq_zero_iff.mp hms]
  | cons outcome outcomes ih =>
    obtain ⟨n, ns, rfl⟩ := List.exists_cons_of_length_eq_add_one hns
    obtain ⟨m, ms, rfl⟩ := List.exists_cons_of_length_eq_add_one hms
    have hns' : ns.length = outcomes.length := Nat.succ_injective hns
    have hms' : ms.length = outcomes.length := Nat.succ_injective hms
    cases outcome with
    | ok link =>
      obtain ⟨hhead, htail⟩ := List.cons.inj hrows
      exact congrArg₂ List.cons (congrArg MappedRow.sourceIndex hhead)
        (ih hns' hms' htail herrors)
    | error message =>
      obtain ⟨hhead, htail⟩ := List.cons.inj herrors
      exact congrArg₂ List.cons (congrArg ParseError.sourceIndex hhead)
        (ih hns' hms' hrows htail)

section Collect

variable {α : Type} {read : α → Option (Except String SourceLink)} {records : List α}

/-- **The loop numbers the records from where it is**, and takes each into one of its lists. -/
theorem collect_eq {outcomes : List (Except String SourceLink)}
    (h : records.map read = outcomes.map some) (rows : List MappedRow) (errors : List ParseError)
    (i : ℕ) : collect read rows errors i records =
      some (rows ++ mappedRows (List.range' i outcomes.length) outcomes,
        errors ++ parseErrors (List.range' i outcomes.length) outcomes) := by
  induction records generalizing outcomes rows errors i with
  | nil =>
    obtain rfl : outcomes = [] := List.map_eq_nil_iff.mp h.symm
    rw [collect]
    simp [mappedRows, parseErrors]
  | cons a records ih =>
    cases outcomes with
    | nil => cases h
    | cons outcome outcomes =>
      obtain ⟨hread, hrest⟩ := List.cons.inj h
      rw [collect, hread, List.length_cons, List.range'_succ]
      cases outcome with
      | ok link =>
        dsimp only
        rw [ih hrest, List.append_assoc]
        rfl
      | error message =>
        dsimp only
        rw [ih hrest, List.append_assoc]
        rfl

end Collect

/-! ### The records of a file -/

/-- The links of a JSON file.  A text that is not such a file counts as one record that is
refused. -/
def Kutt.records (r : Runtime) (text : String) : List (Option (Except String SourceLink)) :=
  match r.parseJson text with
  | none => [some (.error notJson)]
  | some parsed =>
    match extractLinks parsed with
    | none => [some (.error notLinks)]
    | some links => links.map (read r.platform)

/-- The records of a file in its order, each as what it is read as: a link or the message of an
error, and none where reading it raises. -/
def records (r : Runtime) (source : ImportSource) (text : String) :
    List (Option (Except String SourceLink)) :=
  match source.format with
  | some format =>
    ((dataRows text).filter fun row => row ≠ [""]).map fun row =>
      some (format.read r.platform (toRecord (headersOf r.platform text) row))
  | none => Kutt.records r text

/-- The place of each record in the file: rows are counted behind the header, and the blank
ones count. -/
def places (r : Runtime) (source : ImportSource) (text : String) : List ℕ :=
  match source.format with
  | some _ => (((dataRows text).zipIdx).filter fun e => e.1 ≠ [""]).map Prod.snd
  | none => List.range (Kutt.records r text).length

/-- Each record is one row or one error, in order and under its number. -/
structure Account (records : List (Option (Except String SourceLink))) (numbers : List ℕ)
    (outcomes : List (Except String SourceLink)) (result : ParseResult) : Prop where
  read : records = outcomes.map some
  numbered : numbers.length = outcomes.length
  rows : result.rows = mappedRows numbers outcomes
  errors : result.errors = parseErrors numbers outcomes

theorem Account.length_eq {records : List (Option (Except String SourceLink))} {numbers : List ℕ}
    {outcomes : List (Except String SourceLink)} {result : ParseResult}
    (h : Account records numbers outcomes result) : records.length = outcomes.length := by
  rw [h.read, List.length_map]

section Parse

variable {r : Runtime} {source : ImportSource} {text : String}

theorem collect_account {α : Type} {read : α → Option (Except String SourceLink)} {file : List α}
    {outcomes : List (Except String SourceLink)} (h : file.map read = outcomes.map some)
    (dropped : List DroppedField) :
    ∃ result, (collect read [] [] 0 file).map (fun (rows, errors) =>
        ParseResult.mk rows dropped errors) = some result ∧
      Account (file.map read) (List.range outcomes.length) outcomes result := by
  rw [collect_eq h, List.nil_append, List.nil_append, ← List.range_eq_range']
  exact ⟨_, rfl, h, List.length_range, rfl, rfl⟩

theorem csvRecords_eq (format : CsvFormat) :
    (parseCsvRecords r.platform text).map (fun rec => some (format.read r.platform rec)) =
      ((dataRows text).filter fun row => row ≠ [""]).map fun row =>
        some (format.read r.platform (toRecord (headersOf r.platform text) row)) := by
  rw [parseCsvRecords_eq, List.map_map]
  rfl

theorem Kutt.parse_account {outcomes : List (Except String SourceLink)}
    (h : Kutt.records r text = outcomes.map some) :
    ∃ result, Kutt.parse r text = some result ∧
      Account (Kutt.records r text) (List.range outcomes.length) outcomes result := by
  have hrefused : ∀ message, [some (.error message)] = outcomes.map some →
      Account [some (.error message)] (List.range outcomes.length) outcomes
        ⟨[], [], [⟨0, message⟩]⟩ := by
    intro message h
    obtain ⟨outcome, rfl, houtcome⟩ := List.map_eq_singleton_iff.mp h.symm
    cases houtcome
    exact ⟨rfl, rfl, rfl, rfl⟩
  rw [Kutt.records] at h ⊢
  rw [Kutt.parse]
  cases hjson : r.parseJson text with
  | none =>
    rw [hjson] at h
    exact ⟨_, rfl, hrefused _ h⟩
  | some parsed =>
    rw [hjson] at h
    dsimp only at h ⊢
    cases hlinks : Kutt.extractLinks parsed with
    | none =>
      rw [hlinks] at h
      exact ⟨_, rfl, hrefused _ h⟩
    | some links =>
      rw [hlinks] at h
      exact collect_account h _

/-- **What is parsed is numbered from 0 on.** -/
theorem parse_account {outcomes : List (Except String SourceLink)}
    (h : records r source text = outcomes.map some) :
    ∃ result, parse r source text = some result ∧
      Account (records r source text) (List.range outcomes.length) outcomes result := by
  rw [records] at h ⊢
  rw [parse]
  cases hformat : source.format with
  | some format =>
    rw [hformat] at h
    dsimp only at h ⊢
    rw [← csvRecords_eq] at h ⊢
    exact collect_account h _
  | none =>
    rw [hformat] at h
    exact Kutt.parse_account h

theorem Kutt.read_eq_none_iff {p : Platform} {l : JsValue} :
    Kutt.read p l = none ↔ Kutt.nullish l = true := by
  rw [Kutt.read]
  split
  · rename_i hnullish
    exact iff_of_true rfl hnullish
  · rename_i hnullish
    refine iff_of_false (fun h => ?_) hnullish
    dsimp only at h
    split at h <;> cases h

/-- No link of the file is null. -/
def NoNull (r : Runtime) (text : String) : Prop :=
  ∀ links, (r.parseJson text).bind Kutt.extractLinks = some links →
    ∀ l ∈ links, Kutt.nullish l = false

/-- What a JSON file raises on. -/
theorem Kutt.none_mem_records_iff : none ∈ Kutt.records r text ↔ ¬ NoNull r text := by
  rw [Kutt.records, NoNull]
  cases hjson : r.parseJson text with
  | none => simp
  | some parsed =>
    dsimp only
    rw [Option.bind_some]
    cases hlinks : Kutt.extractLinks parsed with
    | none => simp
    | some links =>
      dsimp only
      rw [List.mem_map]
      constructor
      · rintro ⟨l, hl, hread⟩ hall
        have hnullish := Kutt.read_eq_none_iff.mp hread
        rw [hall links rfl l hl] at hnullish
        cases hnullish
      · intro hnot
        by_contra hall
        refine hnot fun links' heq l hl => Bool.eq_false_iff.mpr fun hnullish => hall ?_
        cases heq
        exact ⟨l, hl, Kutt.read_eq_none_iff.mpr hnullish⟩

/-- **Every record is read** exactly when no link is null, in a JSON file. -/
theorem none_notMem_records_iff : none ∉ records r source text ↔
    (source = .kutt → NoNull r text) := by
  have hcsv : ∀ format, source.format = some format → none ∉ records r source text := by
    intro format hformat hmem
    rw [records, hformat] at hmem
    obtain ⟨row, -, hrow⟩ := List.mem_map.mp hmem
    cases hrow
  cases source with
  | kutt =>
    exact ⟨fun h _ => by_contra fun hnot => h (Kutt.none_mem_records_iff.mpr hnot),
      fun h hmem => Kutt.none_mem_records_iff.mp hmem (h rfl)⟩
  | _ => exact iff_of_true (hcsv _ rfl) nofun

/-! ### What is delivered -/

theorem given_ne (text : String) : given text ≠ some "" := by
  rw [given]
  split
  · exact nofun
  · rename_i htext
    exact fun h => htext (Option.some.inj h)

/-- **No source gives an empty back-half or an empty expiry.** -/
theorem filled_of_mem_records {link : SourceLink}
    (h : some (.ok link) ∈ records r source text) : Filled link := by
  rw [records] at h
  cases hformat : source.format with
  | some format =>
    rw [hformat] at h
    obtain ⟨row, -, hrow⟩ := List.mem_map.mp h
    rw [Option.some.injEq, CsvFormat.read] at hrow
    dsimp only at hrow
    split at hrow
    · cases hrow
    · cases hrow
      exact ⟨given_ne _, nofun⟩
  | none =>
    rw [hformat] at h
    dsimp only at h
    rw [Kutt.records] at h
    split at h
    · cases List.mem_singleton.mp h
    · split at h
      · cases List.mem_singleton.mp h
      · obtain ⟨l, -, hl⟩ := List.mem_map.mp h
        rw [Kutt.read] at hl
        split at hl
        · cases hl
        · dsimp only at hl
          split at hl
          · cases hl
          · cases hl
            refine ⟨given_ne _, fun hexpiry => ?_⟩
            obtain ⟨iso, -, hiso⟩ := Option.bind_eq_some_iff.mp hexpiry
            exact given_ne iso hiso

theorem mem_of_mem_mappedRows {numbers : List ℕ} {outcomes : List (Except String SourceLink)}
    {row : MappedRow} (h : row ∈ mappedRows numbers outcomes) :
    Except.ok row.toSourceLink ∈ outcomes := by
  obtain ⟨⟨outcome, n⟩, hmem, hrow⟩ := List.mem_filterMap.mp h
  cases outcome with
  | ok link =>
    cases hrow
    exact (List.of_mem_zip hmem).1
  | error message => cases hrow

end Parse

/-- An outcome names this row, if it is one that failed. -/
def Names (row : MappedRow) : BulkLinkOutcome → Prop
  | .ok _ _ => True
  | .failed destination _ _ => destination = row.destination

/-- What becomes of the rows of a file: each is prepared with what it says, is in one batch, and
has its outcome at its place in the report. -/
structure Delivered (rows : List MappedRow) (domain : String) : Prop where
  kept : List.Forall₂ Keeps rows (prepareRows rows domain)
  batches : (chunk (prepareRows rows domain) BATCH_SIZE (by decide)).flatten =
    prepareRows rows domain
  capped : ∀ batch ∈ chunk (prepareRows rows domain) BATCH_SIZE (by decide),
    0 < batch.length ∧ batch.length ≤ BATCH_SIZE
  reported : ∀ {σ : Type} (bulk : List CreateLinkInput → σ → Option (List BulkLinkOutcome × σ))
    (s s' : σ) (agg : Aggregate), InOrder bulk →
      submit bulk (prepareRows rows domain) s = some (agg, s') →
        agg.Tallies ∧ List.Forall₂ Names rows agg.outcomes

theorem delivered {rows : List MappedRow} (h : ∀ row ∈ rows, Filled row.toSourceLink)
    (domain : String) : Delivered rows domain where
  kept := by
    rw [prepareRows, List.forall₂_map_right_iff, List.forall₂_same]
    exact fun row hrow => keeps_prepareRow (h row hrow) domain
  batches := chunk_flatten _ _ _
  capped := fun _ hbatch => length_of_mem_chunk hbatch
  reported := by
    intro σ bulk s s' agg hbulk hsubmit
    obtain ⟨htallies, houtcomes⟩ := submit_outcomes hbulk hsubmit
    refine ⟨htallies, ?_⟩
    rw [prepareRows, List.forall₂_map_left_iff, List.forall₂_map_left_iff] at houtcomes
    refine houtcomes.imp fun row outcome hanswer => ?_
    cases outcome with
    | ok domain slug => trivial
    | failed destination error skipped => exact hanswer

/-! ### The whole import -/

/-- The text is parsed, each of its records is one row or one error, in order and under its
number, and the rows are delivered. -/
def Imported (r : Runtime) (source : ImportSource) (text : String) (numbers : List ℕ) : Prop :=
  ∃ result outcomes, parse r source text = some result ∧
    Account (records r source text) numbers outcomes result ∧
      ∀ domain, Delivered result.rows domain

/-- No blank row has a record behind it. -/
def NoGap (text : String) : Prop :=
  (dataRows text).Pairwise fun row later => row = [""] → later = [""]

section Imported

variable {r : Runtime} {source : ImportSource} {text : String}

/-- **The numbers count the records from 0 on.** -/
theorem imported_iff_numbers (numbers : List ℕ) : Imported r source text numbers ↔
    none ∉ records r source text ∧ numbers = List.range (records r source text).length := by
  constructor
  · rintro ⟨result, outcomes, hparse, haccount, -⟩
    refine ⟨exists_eq_map_some_iff.mp ⟨outcomes, haccount.read⟩, ?_⟩
    obtain ⟨result', hparse', haccount'⟩ := parse_account haccount.read
    obtain rfl : result = result' := Option.some.inj (hparse.symm.trans hparse')
    rw [haccount.length_eq]
    exact numbers_inj haccount.numbered haccount'.numbered (haccount.rows.symm.trans haccount'.rows)
      (haccount.errors.symm.trans haccount'.errors)
  · rintro ⟨hall, rfl⟩
    obtain ⟨outcomes, hread⟩ := exists_eq_map_some_iff.mpr hall
    obtain ⟨result, hparse, haccount⟩ := parse_account hread
    rw [haccount.length_eq]
    refine ⟨result, outcomes, hparse, haccount, fun domain => delivered (fun row hrow => ?_) domain⟩
    rw [haccount.rows] at hrow
    have hmem : some (.ok row.toSourceLink) ∈ records r source text := by
      rw [hread]
      exact List.mem_map_of_mem (mem_of_mem_mappedRows hrow)
    exact filled_of_mem_records hmem

/-- **The places are numbered from 0 on** exactly when no blank row has a record behind it, in a
CSV file. -/
theorem places_eq_range_iff : places r source text = List.range (records r source text).length ↔
    (source ≠ .kutt → NoGap text) := by
  have hcsv : ∀ format, source.format = some format →
      (places r source text = List.range (records r source text).length ↔ NoGap text) := by
    intro format hformat
    rw [places, records, hformat]
    dsimp only
    rw [List.length_map, List.range_eq_range',
      map_snd_filter_zipIdx_iff (fun row => decide (row ≠ [""])) (dataRows text) 0, NoGap]
    simp only [decide_eq_false_iff_not, not_not]
  cases source with
  | kutt => exact iff_of_true rfl fun h => absurd rfl h
  | _ => exact (hcsv _ rfl).trans ⟨fun h _ => h, fun h => h nofun⟩

end Imported

/-- **What an import makes of a file.**  Every record has its place in the file as its number
exactly when no link of a JSON file is null and no blank row of a CSV file has a record behind
it.  As the numbers among the records alone they are right in every CSV file. -/
theorem imported_iff (r : Runtime) (source : ImportSource) (text : String) :
    (Imported r source text (places r source text) ↔
      (source = .kutt → NoNull r text) ∧ (source ≠ .kutt → NoGap text)) ∧
    (Imported r source text (List.range (records r source text).length) ↔
      (source = .kutt → NoNull r text)) := by
  constructor
  · rw [imported_iff_numbers, none_notMem_records_iff, places_eq_range_iff]
  · rw [imported_iff_numbers, none_notMem_records_iff, and_iff_left rfl]

/-- A runtime for ASCII texts that knows one JSON file. -/
def sampleRuntime : Runtime where
  platform := {
    toLowerCase := fun s => String.ofList (s.toList.map Char.toLower)
    toUpperCase := fun s => String.ofList (s.toList.map Char.toUpper)
    parseUrl := fun _ => none
    parseDate := fun _ => none
    toISOString := fun _ => "1970-01-01T00:00:00.000Z"
    parseJson := fun _ => none
    stringifyJson := fun _ => "null"
    hmacSha256Hex := fun _ _ => ""
    verifyToken := fun _ _ => none }
  parseJson := fun s => if s = "[null]" then some (.arr [.null]) else none

/-- A null among the links, and a blank row between two records. -/
theorem not_imported :
    ¬ Imported sampleRuntime .kutt "[null]" (places sampleRuntime .kutt "[null]") ∧
      ¬ Imported sampleRuntime .genericCsv "url\nhttps://a.com\n\nhttps://b.com"
        (places sampleRuntime .genericCsv "url\nhttps://a.com\n\nhttps://b.com") := by
  constructor
  · intro h
    have hnull := none_notMem_records_iff.mp ((imported_iff_numbers _).mp h).1 rfl
    exact absurd (hnull [.null] rfl .null List.mem_cons_self) (by decide)
  · intro h
    have hgap := places_eq_range_iff.mp ((imported_iff_numbers _).mp h).2 nofun
    rw [NoGap, dataRows, fileRows, String.toList_ofList] at hgap
    exact absurd hgap (by decide)

end SnapUrl.Import
