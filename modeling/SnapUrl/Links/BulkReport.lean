import SnapUrl.Lib.KeyedFold
import SnapUrl.Links.BulkRows

/-!
# What the bulk box says after a batch

`rowsToResubmit` and `summarizeBulkResult` of `web/src/lib/bulk-create-rows.ts`, for any list of
outcomes.

* `Settles`: what a report and the text that is put back say of a batch.
* `Box.submit`: one round, with the rows that were pasted behind those in the box.
* `pasted_rows_created_once`: **no row that was reported created is sent again and no other row
  is lost**, over any number of rounds.
-/

namespace SnapUrl.Links.BulkRows

/-- What the answer says of one row. -/
inductive BulkOutcome where
  | created (index : Int) (domain slug : String)
  | failed (index : Int) (destination error : String)
deriving DecidableEq, Repr

def BulkOutcome.index : BulkOutcome → Int
  | created index _ _ => index
  | failed index _ _ => index

def BulkOutcome.ok : BulkOutcome → Bool
  | created .. => true
  | failed .. => false

/-- The set `created`. -/
def createdIndexes (outcomes : List BulkOutcome) : List Int :=
  (outcomes.filter BulkOutcome.ok).map BulkOutcome.index

/-- The entries that were not reported created, with their places. -/
def rowsToResubmit (rows : List BulkRow) (outcomes : List BulkOutcome) : List (BulkRow × Nat) :=
  rows.zipIdx.filter fun entry => !(createdIndexes outcomes).contains (entry.2 : Int)

def boxText (remaining : List (BulkRow × Nat)) : String :=
  "\n".intercalate (remaining.map fun entry => entry.1.line)

def resubmitText (rows : List BulkRow) (outcomes : List BulkOutcome) : String :=
  boxText (rowsToResubmit rows outcomes)

inductive BulkReportItem where
  | created (domain slug : String)
  /-- The line is the one `lineOf` has, if it has one. -/
  | failed (line : Option Nat) (destination error : String)
deriving DecidableEq, Repr

def BulkReportItem.isCreated : BulkReportItem → Bool
  | created .. => true
  | failed .. => false

structure BulkReport where
  created : Nat
  failed : Nat
  items : List BulkReportItem

structure BulkResult where
  text : String
  report : BulkReport

def UNREPORTED_ROW_ERROR : String :=
  "No result came back for this row. Check the links list before sending it again."

/-- A success wins, and of others the first one. -/
def prefer : Option BulkOutcome → BulkOutcome → Option BulkOutcome
  | none, o => some o
  | some prev, o => if o.ok && !prev.ok then some o else some prev

/-- One round of the loop that fills `byIndex`. -/
def note (length : Nat) (byIndex : Int → Option BulkOutcome) (o : BulkOutcome) :
    Int → Option BulkOutcome :=
  if o.index < 0 || length ≤ o.index then byIndex
  else Function.update byIndex o.index (prefer (byIndex o.index) o)

def byIndex (length : Nat) (outcomes : List BulkOutcome) : Int → Option BulkOutcome :=
  outcomes.foldl (note length) fun _ => none

/-- `new Map(remaining.map((r, i) => [r.index, i + 1]))`. -/
def lineOf (remaining : List (BulkRow × Nat)) (index : Nat) : Option Nat :=
  (remaining.findIdx? fun entry => entry.2 = index).map (· + 1)

/-- The item of one row. -/
def reportItem (line : Option Nat) (row : BulkRow) : Option BulkOutcome → BulkReportItem
  | some (.created _ domain slug) => .created domain slug
  | some (.failed _ destination error) =>
    .failed line (if destination = "" then row.destination else destination) error
  | none => .failed line row.destination UNREPORTED_ROW_ERROR

def summarizeBulkResult (batch : List BulkRow) (outcomes : List BulkOutcome) : BulkResult :=
  let remaining := rowsToResubmit batch outcomes
  let items := batch.zipIdx.map fun (row, index) =>
    reportItem (lineOf remaining index) row (byIndex batch.length outcomes index)
  let created := items.countP BulkReportItem.isCreated
  ⟨boxText remaining, created, items.length - created, items⟩

/-! ### What is claimed of it -/

/-- The row at a place was reported created, at least once. -/
def ReportedCreated (outcomes : List BulkOutcome) (index : Nat) : Prop :=
  ∃ domain slug, BulkOutcome.created index domain slug ∈ outcomes

/-- The places of the rows that a second submit sends. -/
structure Resubmits (batch : List BulkRow) (outcomes : List BulkOutcome)
    (remaining : List (BulkRow × Nat)) : Prop where
  /-- **Every row that was not reported created, and no other.** -/
  mem_iff : ∀ row index, (row, index) ∈ remaining ↔
    batch[index]? = some row ∧ ¬ ReportedCreated outcomes index
  ordered : (remaining.map Prod.snd).Pairwise (· < ·)

/-- What the report says of one row. -/
inductive Reports (outcomes : List BulkOutcome) (text : String) (row : BulkRow) (index : Nat) :
    BulkReportItem → Prop where
  | created {domain slug : String} : BulkOutcome.created index domain slug ∈ outcomes →
      Reports outcomes text row index (.created domain slug)
  /-- **The line is the one of the row in the new text.** -/
  | failed {line : Nat} {destination error : String} : ¬ ReportedCreated outcomes index →
      (splitAtChar '\n' text)[line]? = some row.line →
      (parseBulkRows text)[line]? = some row →
      Reports outcomes text row index (.failed (some (line + 1)) destination error)

structure Settles (batch : List BulkRow) (outcomes : List BulkOutcome) (result : BulkResult) :
    Prop where
  resubmits : Resubmits batch outcomes (rowsToResubmit batch outcomes)
  text : result.text = resubmitText batch outcomes
  /-- **The text is read as exactly the rows that are left.** -/
  reparses : parseBulkRows result.text = (rowsToResubmit batch outcomes).map Prod.fst
  length : result.report.items.length = batch.length
  items : ∀ index row item, batch[index]? = some row → result.report.items[index]? = some item →
    Reports outcomes result.text row index item
  total : result.report.created + result.report.failed = batch.length

/-! ### The text that is put back -/

theorem mem_createdIndexes {outcomes : List BulkOutcome} {index : Nat} :
    (index : Int) ∈ createdIndexes outcomes ↔ ReportedCreated outcomes index := by
  rw [createdIndexes, List.mem_map]
  constructor
  · rintro ⟨o, ho, hindex⟩
    rw [List.mem_filter] at ho
    cases o with
    | created i domain slug =>
      obtain rfl : i = index := hindex
      exact ⟨domain, slug, ho.1⟩
    | failed i destination error => cases ho.2
  · rintro ⟨domain, slug, ho⟩
    exact ⟨_, List.mem_filter.mpr ⟨ho, rfl⟩, rfl⟩

theorem contains_createdIndexes {outcomes : List BulkOutcome} {index : Nat} :
    (createdIndexes outcomes).contains (index : Int) = true ↔ ReportedCreated outcomes index := by
  rw [List.contains_iff_mem, mem_createdIndexes]

theorem mem_rowsToResubmit {rows : List BulkRow} {outcomes : List BulkOutcome} {row : BulkRow}
    {index : Nat} : (row, index) ∈ rowsToResubmit rows outcomes ↔
      rows[index]? = some row ∧ ¬ ReportedCreated outcomes index := by
  rw [rowsToResubmit, List.mem_filter, List.mk_mem_zipIdx_iff_getElem?, Bool.not_eq_true',
    ← Bool.not_eq_true, contains_createdIndexes]

theorem rowsToResubmit_ordered (rows : List BulkRow) (outcomes : List BulkOutcome) :
    ((rowsToResubmit rows outcomes).map Prod.snd).Pairwise (· < ·) := by
  have hsub : ((rowsToResubmit rows outcomes).map Prod.snd).Sublist
      (rows.zipIdx.map Prod.snd) := List.filter_sublist.map _
  refine List.Pairwise.sublist hsub ?_
  rw [List.zipIdx_map_snd]
  exact List.pairwise_lt_range'

theorem notMem_of_mem_splitOn {c : Char} {l piece : List Char} (h : piece ∈ l.splitOn c) :
    c ∉ piece := by
  induction l generalizing piece with
  | nil =>
    obtain rfl := List.mem_singleton.mp h
    exact List.not_mem_nil
  | cons d l ih =>
    rw [List.splitOn_cons_eq_if_modifyHead] at h
    split at h
    · rcases List.mem_cons.mp h with rfl | h
      · exact List.not_mem_nil
      · exact ih h
    · next hd =>
      obtain ⟨first, rest, hpieces⟩ := List.exists_cons_of_ne_nil (List.splitOn_ne_nil c l)
      rw [hpieces, List.modifyHead_cons] at h
      rcases List.mem_cons.mp h with rfl | h
      · rw [List.mem_cons, not_or]
        refine ⟨fun heq => hd (by simp [heq]), ih ?_⟩
        rw [hpieces]
        exact List.mem_cons_self
      · refine ih ?_
        rw [hpieces]
        exact List.mem_cons_of_mem _ h

theorem trim_of_mem_boxLines {text line : String} (h : line ∈ boxLines text) :
    trim line = line ∧ line ≠ "" ∧ '\n' ∉ line.toList := by
  rw [boxLines, List.mem_filter, List.mem_map] at h
  obtain ⟨⟨piece, hpiece, rfl⟩, hne⟩ := h
  refine ⟨trim_trim piece, of_decide_eq_true hne, fun hmem => ?_⟩
  rw [splitAtChar, List.mem_map] at hpiece
  obtain ⟨cs, hcs, rfl⟩ := hpiece
  have hmem' := mem_of_mem_trim hmem
  rw [String.toList_ofList] at hmem'
  exact notMem_of_mem_splitOn hcs hmem'

/-- Lines with a newline between them are the lines of the text. -/
theorem splitAtChar_intercalate {lines : List String} (hne : lines ≠ [])
    (h : ∀ line ∈ lines, '\n' ∉ line.toList) :
    splitAtChar '\n' ("\n".intercalate lines) = lines := by
  rw [splitAtChar, String.toList_intercalate]
  have hsplit : (['\n'].intercalate (lines.map String.toList)).splitOn '\n' =
      lines.map String.toList :=
    List.splitOn_intercalate '\n' (by simpa using h) (by simpa using hne)
  rw [show "\n".toList = ['\n'] from rfl, hsplit, List.map_map]
  exact (List.map_congr_left fun line _ => String.ofList_toList).trans (List.map_id _)

theorem boxLines_intercalate {lines : List String}
    (h : ∀ line ∈ lines, trim line = line ∧ line ≠ "" ∧ '\n' ∉ line.toList) :
    boxLines ("\n".intercalate lines) = lines := by
  by_cases hne : lines = []
  · subst hne
    decide
  · rw [boxLines, splitAtChar_intercalate hne fun line hline => (h line hline).2.2,
      List.map_congr_left fun line hline => (h line hline).1, List.map_id', List.filter_eq_self]
    exact fun line hline => decide_eq_true (h line hline).2.1

theorem parseLine_line {text : String} {row : BulkRow} (h : row ∈ parseBulkRows text) :
    row.line ∈ boxLines text ∧ parseLine row.line = row := by
  obtain ⟨line, hline, rfl⟩ := List.mem_map.mp h
  rw [line_parseLine]
  exact ⟨hline, rfl⟩

section

variable {text : String} {rows : List BulkRow}

/-- **Kept lines are read again as the rows they were.** -/
theorem boxLines_kept (h : ∀ row ∈ rows, row ∈ parseBulkRows text) :
    boxLines ("\n".intercalate (rows.map BulkRow.line)) = rows.map BulkRow.line := by
  refine boxLines_intercalate fun line hline => ?_
  obtain ⟨row, hrow, rfl⟩ := List.mem_map.mp hline
  exact trim_of_mem_boxLines (parseLine_line (h row hrow)).1

theorem parseBulkRows_kept (h : ∀ row ∈ rows, row ∈ parseBulkRows text) :
    parseBulkRows ("\n".intercalate (rows.map BulkRow.line)) = rows := by
  rw [parseBulkRows, boxLines_kept h, List.map_map]
  exact (List.map_congr_left fun row hrow => (parseLine_line (h row hrow)).2).trans (List.map_id _)

theorem splitAtChar_kept (h : ∀ row ∈ rows, row ∈ parseBulkRows text) (hne : rows ≠ []) :
    splitAtChar '\n' ("\n".intercalate (rows.map BulkRow.line)) = rows.map BulkRow.line := by
  refine splitAtChar_intercalate (by simpa using hne) fun line hline => ?_
  obtain ⟨row, hrow, rfl⟩ := List.mem_map.mp hline
  exact (trim_of_mem_boxLines (parseLine_line (h row hrow)).1).2.2

end

theorem mem_of_mem_rowsToResubmit {rows : List BulkRow} {outcomes : List BulkOutcome}
    {row : BulkRow} (h : row ∈ (rowsToResubmit rows outcomes).map Prod.fst) : row ∈ rows := by
  obtain ⟨⟨_, index⟩, hentry, rfl⟩ := List.mem_map.mp h
  exact List.mem_of_getElem? (mem_rowsToResubmit.mp hentry).1

theorem boxText_eq (remaining : List (BulkRow × Nat)) :
    boxText remaining = "\n".intercalate ((remaining.map Prod.fst).map BulkRow.line) := by
  rw [boxText, List.map_map]
  rfl

theorem parseBulkRows_resubmitText (text : String) (outcomes : List BulkOutcome) :
    parseBulkRows (resubmitText (parseBulkRows text) outcomes) =
      (rowsToResubmit (parseBulkRows text) outcomes).map Prod.fst := by
  rw [resubmitText, boxText_eq]
  exact parseBulkRows_kept fun row hrow => mem_of_mem_rowsToResubmit hrow

/-! ### The report -/

section

variable {length index : Nat}

theorem note_apply (h : index < length) (m : Int → Option BulkOutcome) (o : BulkOutcome) :
    note length m o index = if o.index = index then prefer (m index) o else m index := by
  rw [note]
  by_cases heq : o.index = index
  · rw [if_pos heq, if_neg (by simp; omega), heq, Function.update_self]
  · rw [if_neg heq]
    split
    · rfl
    · exact Function.update_of_ne (Ne.symm heq) _ _

theorem mem_of_foldl_prefer {l : List BulkOutcome} {prev : Option BulkOutcome} {o : BulkOutcome}
    (h : l.foldl prefer prev = some o) : prev = some o ∨ o ∈ l := by
  induction l generalizing prev with
  | nil => exact Or.inl h
  | cons o' l ih =>
    rcases ih h with hprefer | hmem
    · cases prev with
      | none => exact Or.inr (List.mem_cons.mpr (Or.inl (Option.some.inj hprefer).symm))
      | some prev =>
        rw [prefer] at hprefer
        split at hprefer
        · exact Or.inr (List.mem_cons.mpr (Or.inl (Option.some.inj hprefer).symm))
        · exact Or.inl hprefer
    · exact Or.inr (List.mem_cons_of_mem _ hmem)

/-- **A success is what is left when there is one.** -/
theorem any_ok_foldl_prefer (l : List BulkOutcome) (prev : Option BulkOutcome) :
    (l.foldl prefer prev).any BulkOutcome.ok =
      (prev.any BulkOutcome.ok || l.any BulkOutcome.ok) := by
  induction l generalizing prev with
  | nil => exact (Bool.or_false _).symm
  | cons o l ih =>
    have hprefer : (prefer prev o).any BulkOutcome.ok = (prev.any BulkOutcome.ok || o.ok) := by
      cases prev with
      | none => rfl
      | some prev =>
        rw [prefer]
        cases hprev : prev.ok <;> cases ho : o.ok <;> simp [hprev, ho]
    rw [List.foldl_cons, ih, hprefer, List.any_cons, Bool.or_assoc]

theorem byIndex_cases (h : index < length) (outcomes : List BulkOutcome) :
    (∃ domain slug, byIndex length outcomes index = some (.created index domain slug) ∧
      BulkOutcome.created index domain slug ∈ outcomes) ∨
    ¬ ReportedCreated outcomes index ∧
      ∀ o, byIndex length outcomes index = some o → o.ok = false := by
  have hfold : byIndex length outcomes index =
      (outcomes.filter fun o => o.index = (index : Int)).foldl prefer none := by
    exact Lib.view_foldl_at (fun m : Int → Option BulkOutcome => m index) prefer (note_apply h)
      outcomes fun _ => none
  have hany := any_ok_foldl_prefer (outcomes.filter fun o => o.index = (index : Int)) none
  rw [← hfold, Option.any_none, Bool.false_or] at hany
  cases hok : (byIndex length outcomes index).any BulkOutcome.ok with
  | true =>
    left
    obtain ⟨o, ho, hcreated⟩ := (Option.any_eq_true _ _).mp hok
    rw [hfold] at ho
    have hmem := (mem_of_foldl_prefer ho).resolve_left (Option.some_ne_none o).symm
    rw [List.mem_filter, decide_eq_true_eq] at hmem
    rw [hfold, ho]
    cases o with
    | created i domain slug =>
      obtain rfl : i = index := hmem.2
      exact ⟨domain, slug, rfl, hmem.1⟩
    | failed i destination error => cases hcreated
  | false =>
    right
    constructor
    · rintro ⟨domain, slug, hmem⟩
      rw [hok, eq_comm, List.any_eq_false] at hany
      exact hany _ (List.mem_filter.mpr ⟨hmem, decide_eq_true rfl⟩) rfl
    · intro o ho
      rw [ho] at hok
      exact hok

theorem exists_lineOf {rows : List BulkRow} {outcomes : List BulkOutcome} {row : BulkRow}
    (hrow : rows[index]? = some row) (h : ¬ ReportedCreated outcomes index) :
    ∃ line, lineOf (rowsToResubmit rows outcomes) index = some (line + 1) ∧
      (rowsToResubmit rows outcomes)[line]? = some (row, index) := by
  have hmem := mem_rowsToResubmit.mpr ⟨hrow, h⟩
  cases hfound : (rowsToResubmit rows outcomes).findIdx? fun entry => entry.2 = index with
  | none =>
    have hnone := List.findIdx?_eq_none_iff.mp hfound _ hmem
    simp at hnone
  | some line =>
    refine ⟨line, by rw [lineOf, hfound]; rfl, ?_⟩
    obtain ⟨hlt, hindex, -⟩ := List.findIdx?_eq_some_iff_getElem.mp hfound
    have hentry := List.getElem?_eq_getElem hlt
    rcases hget : (rowsToResubmit rows outcomes)[line] with ⟨row', index'⟩
    rw [hget] at hindex hentry
    obtain rfl : index' = index := of_decide_eq_true hindex
    have hrow' := (mem_rowsToResubmit.mp (List.mem_of_getElem? hentry)).1
    rw [hrow] at hrow'
    obtain rfl := Option.some.inj hrow'
    exact hentry

end

theorem text_summarizeBulkResult (batch : List BulkRow) (outcomes : List BulkOutcome) :
    (summarizeBulkResult batch outcomes).text = resubmitText batch outcomes := by
  rw [summarizeBulkResult, resubmitText]

theorem length_summarizeBulkResult (batch : List BulkRow) (outcomes : List BulkOutcome) :
    (summarizeBulkResult batch outcomes).report.items.length = batch.length := by
  rw [summarizeBulkResult, List.length_map, List.length_zipIdx]

theorem total_summarizeBulkResult (batch : List BulkRow) (outcomes : List BulkOutcome) :
    (summarizeBulkResult batch outcomes).report.created +
      (summarizeBulkResult batch outcomes).report.failed = batch.length := by
  rw [← length_summarizeBulkResult batch outcomes, summarizeBulkResult]
  exact Nat.add_sub_cancel' List.countP_le_length

theorem getElem?_summarizeBulkResult {batch : List BulkRow} {index : Nat} {row : BulkRow}
    (h : batch[index]? = some row) (outcomes : List BulkOutcome) :
    (summarizeBulkResult batch outcomes).report.items[index]? =
      some (reportItem (lineOf (rowsToResubmit batch outcomes) index) row
        (byIndex batch.length outcomes index)) := by
  rw [summarizeBulkResult, List.getElem?_map, List.getElem?_zipIdx, h, Option.map_some,
    Option.map_some, Nat.zero_add]

/-- **A batch is settled** whatever is reported of it. -/
theorem settles (text : String) (outcomes : List BulkOutcome) :
    Settles (parseBulkRows text) outcomes
      (summarizeBulkResult (parseBulkRows text) outcomes) where
  resubmits :=
    ⟨fun _ _ => mem_rowsToResubmit, rowsToResubmit_ordered _ _⟩
  text := text_summarizeBulkResult _ _
  reparses := by
    rw [text_summarizeBulkResult, parseBulkRows_resubmitText]
  length := length_summarizeBulkResult _ _
  items := by
    intro index row item hrow hitem
    have hlt : index < (parseBulkRows text).length := (List.getElem?_eq_some_iff.mp hrow).1
    rw [getElem?_summarizeBulkResult hrow] at hitem
    obtain rfl := Option.some.inj hitem
    rw [text_summarizeBulkResult]
    rcases byIndex_cases hlt outcomes with ⟨domain, slug, hby, hmem⟩ | ⟨hnot, hfailed⟩
    · rw [hby]
      exact Reports.created hmem
    · obtain ⟨line, hline, hentry⟩ := exists_lineOf hrow hnot
      rw [hline]
      have hkept : ((rowsToResubmit (parseBulkRows text) outcomes).map Prod.fst)[line]? =
          some row := by
        rw [List.getElem?_map, hentry]
        rfl
      have hlines : (splitAtChar '\n' (resubmitText (parseBulkRows text) outcomes))[line]? =
          some row.line := by
        rw [resubmitText, boxText_eq, splitAtChar_kept fun _ => mem_of_mem_rowsToResubmit]
        · rw [List.getElem?_map, hkept]
          rfl
        · intro hnil
          rw [hnil] at hkept
          cases hkept
      have hparsed : (parseBulkRows (resubmitText (parseBulkRows text) outcomes))[line]? =
          some row := by
        rw [parseBulkRows_resubmitText]
        exact hkept
      cases hby : byIndex (parseBulkRows text).length outcomes index with
      | none => exact Reports.failed hnot hlines hparsed
      | some o =>
        cases o with
        | created i domain slug => cases hfailed _ hby
        | failed i destination error => exact Reports.failed hnot hlines hparsed
  total := total_summarizeBulkResult _ _

/-! ### Rounds -/

/-- The box, with what is behind it: the places of the pasted rows that are in it, and of those that
a round reported created. -/
structure Box where
  text : String
  rows : List Nat
  created : List Nat

/-- Entries whose place was reported created, or was not. -/
def entriesWhere {α : Type*} (outcomes : List BulkOutcome) (created : Bool) (l : List α) : List α :=
  (l.zipIdx.filter fun entry =>
    (createdIndexes outcomes).contains (entry.2 : Int) == created).map Prod.fst

def Box.pasted (text : String) : Box := ⟨text, List.range (parseBulkRows text).length, []⟩

/-- `submit` of the panel, when the answer comes. -/
def Box.submit (b : Box) (outcomes : List BulkOutcome) : Box where
  text := (summarizeBulkResult (parseBulkRows b.text) outcomes).text
  rows := entriesWhere outcomes false b.rows
  created := b.created ++ entriesWhere outcomes true b.rows

/-- Answers one after another. -/
def Box.rounds (b : Box) (answers : List (List BulkOutcome)) : Box := answers.foldl Box.submit b

/-- What holds of the box after any rounds. -/
structure Kept (pasted : List BulkRow) (b : Box) : Prop where
  /-- The rows in the box are the pasted ones, as they were. -/
  rows : (parseBulkRows b.text).map some = b.rows.map fun row => pasted[row]?
  /-- **Each pasted row is in the box or was created, and it is there once.** -/
  once : (b.created ++ b.rows).Perm (List.range pasted.length)

theorem entriesWhere_map {α β : Type*} (f : α → β) (outcomes : List BulkOutcome) (created : Bool)
    (l : List α) :
    entriesWhere outcomes created (l.map f) = (entriesWhere outcomes created l).map f := by
  rw [entriesWhere, entriesWhere, List.zipIdx_map, List.filter_map, List.map_map, List.map_map]
  rfl

theorem entriesWhere_perm {α : Type*} (outcomes : List BulkOutcome) (l : List α) :
    (entriesWhere outcomes true l ++ entriesWhere outcomes false l).Perm l := by
  have hperm := (List.filter_append_perm (fun entry : α × Nat =>
    (createdIndexes outcomes).contains (entry.2 : Int)) l.zipIdx).map Prod.fst
  rw [List.map_append, List.zipIdx_map_fst] at hperm
  simpa [entriesWhere] using hperm

theorem map_fst_rowsToResubmit (rows : List BulkRow) (outcomes : List BulkOutcome) :
    (rowsToResubmit rows outcomes).map Prod.fst = entriesWhere outcomes false rows := by
  simp [rowsToResubmit, entriesWhere]

theorem kept_pasted (text : String) : Kept (parseBulkRows text) (Box.pasted text) where
  rows := by
    refine List.ext_getElem? fun i => ?_
    simp only [Box.pasted, List.getElem?_map]
    by_cases hi : i < (parseBulkRows text).length
    · rw [List.getElem?_range hi, List.getElem?_eq_getElem hi, Option.map_some, Option.map_some,
        List.getElem?_eq_getElem hi]
    · rw [List.getElem?_eq_none (Nat.not_lt.mp hi), List.getElem?_eq_none (by simpa using hi)]
      rfl
  once := List.Perm.refl _

/-- One round keeps it. -/
theorem Kept.submit {pasted : List BulkRow} {b : Box} (h : Kept pasted b)
    (outcomes : List BulkOutcome) : Kept pasted (b.submit outcomes) where
  rows := by
    rw [Box.submit, (settles b.text outcomes).reparses, map_fst_rowsToResubmit, ← entriesWhere_map,
      h.rows, entriesWhere_map]
  once := by
    rw [Box.submit, List.append_assoc]
    exact ((entriesWhere_perm outcomes b.rows).append_left b.created).trans h.once

theorem Kept.rounds {pasted : List BulkRow} {b : Box} (h : Kept pasted b)
    (answers : List (List BulkOutcome)) : Kept pasted (b.rounds answers) := by
  induction answers generalizing b with
  | nil => exact h
  | cons outcomes answers ih => exact ih (h.submit outcomes)

/-- **Whatever the answers are, no row that was reported created is sent again and every other row
is**: after any rounds a pasted row is either in the box, as it was, or was created once. -/
theorem pasted_rows_created_once (text : String) :
    (∀ outcomes, Settles (parseBulkRows text) outcomes
      (summarizeBulkResult (parseBulkRows text) outcomes)) ∧
    ∀ answers, Kept (parseBulkRows text) ((Box.pasted text).rounds answers) ∧
      ((Box.pasted text).rounds answers).created.Nodup ∧
      ∀ row < (parseBulkRows text).length,
        (row ∈ ((Box.pasted text).rounds answers).rows ↔
          row ∉ ((Box.pasted text).rounds answers).created) := by
  refine ⟨settles text, fun answers => ?_⟩
  have hkept := (kept_pasted text).rounds answers
  have hnodup := hkept.once.nodup_iff.mpr List.nodup_range
  obtain ⟨hcreated, -, hdisjoint⟩ := List.nodup_append.mp hnodup
  refine ⟨hkept, hcreated, fun row hrow => ⟨fun hmem hcreated => ?_, fun hnot => ?_⟩⟩
  · exact hdisjoint row hcreated row hmem rfl
  · have hmem := hkept.once.mem_iff.mpr (List.mem_range.mpr hrow)
    exact (List.mem_append.mp hmem).resolve_left hnot

end SnapUrl.Links.BulkRows
