import SnapUrl.Lib.JsNumber
import SnapUrl.Lib.Rfc4180
import SnapUrl.Links.Export

/-!
# The export of the platform's analytics

`csv`, `toCsv` and `csvCell` of `apps/api/src/admin/analytics/admin-analytics.service.ts`,
where workspace names and slugs are the tenants' own texts.

* `csv`: the file for one view.
* `read_csv`: **every cell is read back as it is, in its own row and column**.
* `readsBack_iff`: what the other exporters do to a cell that starts a formula is not done
  here, so **the file is the guarded one exactly when no text in it starts a formula**.
-/

namespace SnapUrl.Admin

open Lib Links

/-! ### The data -/

structure AdminSeriesPoint where
  date : String
  value : JsNumber
deriving DecidableEq, Repr

structure AdminRankRow where
  label : String
  value : JsNumber
deriving DecidableEq, Repr

structure AdminGrowth where
  signupsSeries : List AdminSeriesPoint
deriving DecidableEq, Repr

structure AdminUsage where
  clicksSeries : List AdminSeriesPoint
  topWorkspaces : List AdminRankRow
  topLinks : List AdminRankRow
deriving DecidableEq, Repr

/-- A workspace at or above the fraction of its clicks. -/
structure NearLimit where
  workspace : String
  plan : String
  clicks : JsNumber
  included : JsNumber
  usedFraction : JsNumber
deriving DecidableEq, Repr

structure AdminBusiness where
  nearLimit : List NearLimit
deriving DecidableEq, Repr

structure AdminAbuse where
  reportsByWeek : List AdminRankRow
deriving DecidableEq, Repr

structure PlatformAnalytics where
  growth : AdminGrowth
  usage : AdminUsage
  business : AdminBusiness
  abuse : AdminAbuse
deriving DecidableEq, Repr

inductive AdminAnalyticsCsvView where
  | growth
  | usage
  | business
  | abuse
  | topWorkspaces
  | topLinks
deriving DecidableEq, Repr

/-! ### The file -/

/-- A cell, `string | number`. -/
inductive Cell where
  | text (s : String)
  | number (x : JsNumber)
deriving DecidableEq, Repr

/-- `String(value)`. -/
def Cell.toText : Cell → String
  | text s => s
  | number x => x.text

def csvCell (value : Cell) : String :=
  let s := value.toText
  if s.toList.any (· ∈ ['"', ',', '\r', '\n']) then
    "\"" ++ String.ofList (s.toList.flatMap fun c => if c = '"' then ['"', '"'] else [c]) ++ "\""
  else s

def toCsv (header : List String) (rows : List (List Cell)) : String :=
  let lines := (header.map .text :: rows).map fun cols => ",".intercalate (cols.map csvCell)
  "\r\n".intercalate lines ++ "\r\n"

/-- The CSV for one view. -/
def csv (data : PlatformAnalytics) : AdminAnalyticsCsvView → String
  | .growth =>
    toCsv ["date", "signups"] (data.growth.signupsSeries.map fun p =>
      [.text p.date, .number p.value])
  | .usage =>
    toCsv ["date", "clicks"] (data.usage.clicksSeries.map fun p =>
      [.text p.date, .number p.value])
  | .topWorkspaces =>
    toCsv ["workspace", "clicks"] (data.usage.topWorkspaces.map fun r =>
      [.text r.label, .number r.value])
  | .topLinks =>
    toCsv ["link", "clicks"] (data.usage.topLinks.map fun r => [.text r.label, .number r.value])
  | .business =>
    toCsv ["workspace", "plan", "clicks", "included", "usedFraction"]
      (data.business.nearLimit.map fun w =>
        [.text w.workspace, .text w.plan, .number w.clicks, .number w.included,
          .number w.usedFraction])
  | .abuse =>
    toCsv ["week", "reports"] (data.abuse.reportsByWeek.map fun r =>
      [.text r.label, .number r.value])

/-! ### What is in it -/

def header : AdminAnalyticsCsvView → List String
  | .growth => ["date", "signups"]
  | .usage => ["date", "clicks"]
  | .topWorkspaces => ["workspace", "clicks"]
  | .topLinks => ["link", "clicks"]
  | .business => ["workspace", "plan", "clicks", "included", "usedFraction"]
  | .abuse => ["week", "reports"]

/-- One row for each item of the view, with the item's values. -/
def items (data : PlatformAnalytics) : AdminAnalyticsCsvView → List (List Cell)
  | .growth => data.growth.signupsSeries.map fun p => [.text p.date, .number p.value]
  | .usage => data.usage.clicksSeries.map fun p => [.text p.date, .number p.value]
  | .topWorkspaces => data.usage.topWorkspaces.map fun r => [.text r.label, .number r.value]
  | .topLinks => data.usage.topLinks.map fun r => [.text r.label, .number r.value]
  | .business =>
    data.business.nearLimit.map fun w =>
      [.text w.workspace, .text w.plan, .number w.clicks, .number w.included,
        .number w.usedFraction]
  | .abuse => data.abuse.reportsByWeek.map fun r => [.text r.label, .number r.value]

theorem csv_eq (data : PlatformAnalytics) (view : AdminAnalyticsCsvView) :
    csv data view = toCsv (header view) (items data view) := by
  cases view <;> rfl

theorem csvCell_eq (value : Cell) : csvCell value = Rfc4180.writeField value.toText := by
  have hspecial : value.toText.toList.any (· ∈ ['"', ',', '\r', '\n']) =
      value.toText.toList.any Rfc4180.special := by
    refine congrArg value.toText.toList.any (funext fun c => ?_)
    simp [Rfc4180.special, Bool.or_assoc]
  rw [csvCell, Rfc4180.writeField, hspecial]
  rfl

/-- Texts joined by line ends, and one more behind the last. -/
theorem intercalate_append_end (sep line : String) (lines : List String) :
    sep.intercalate (line :: lines) ++ sep = String.join ((line :: lines).map (· ++ sep)) := by
  induction lines generalizing line with
  | nil =>
    rw [String.intercalate_singleton, List.map_singleton, String.join_cons]
    exact (String.append_empty).symm
  | cons line' lines ih =>
    rw [String.intercalate_cons_cons, List.map_cons, String.join_cons, ← ih, String.append_assoc,
      String.append_assoc]

/-- **The file is written by RFC 4180.** -/
theorem csv_eq_write (data : PlatformAnalytics) (view : AdminAnalyticsCsvView) :
    csv data view =
      Rfc4180.write (header view :: (items data view).map (List.map Cell.toText)) := by
  have hline : ∀ cols : List Cell, ",".intercalate (cols.map csvCell) ++ "\r\n" =
      Rfc4180.writeRecord (cols.map Cell.toText) := by
    intro cols
    rw [Rfc4180.writeRecord, List.map_map]
    exact congrArg (fun cells => ",".intercalate cells ++ "\r\n")
      (List.map_congr_left fun value _ => csvCell_eq value)
  have hheader : ((header view).map Cell.text).map Cell.toText = header view := by
    rw [List.map_map]
    exact List.map_id _
  rw [csv_eq, toCsv, List.map_cons, intercalate_append_end, Rfc4180.write, List.map_cons,
    List.map_cons, hline, hheader, List.map_map, List.map_map]
  exact congrArg (fun records => String.join (Rfc4180.writeRecord (header view) :: records))
    (List.map_congr_left fun cols _ => hline cols)

/-! ### What is read back -/

section

variable (data : PlatformAnalytics) (view : AdminAnalyticsCsvView)

theorem two_le_length_items : ∀ row ∈ items data view, 2 ≤ row.length := by
  intro row hrow
  cases view
  all_goals
    obtain ⟨item, -, rfl⟩ := List.mem_map.mp hrow
    exact Nat.le_add_left _ _

/-- **Every cell is read back as it is**, in its own row and column. -/
theorem read_csv : Rfc4180.read (csv data view) =
    some (header view :: (items data view).map (List.map Cell.toText)) := by
  rw [csv_eq_write]
  refine Rfc4180.read_write _ (List.forall_mem_cons.mpr ⟨?_, ?_⟩)
  · cases view <;> exact List.cons_ne_nil _ _
  · rintro cells hcells rfl
    obtain ⟨row, hrow, hnil⟩ := List.mem_map.mp hcells
    have htwo := two_le_length_items data view row hrow
    rw [List.map_eq_nil_iff.mp hnil] at htwo
    exact absurd htwo (by decide)

end

/-- A cell as the other exporters write it: a text that starts a formula is guarded. -/
def Cell.guarded : Cell → String
  | text s => Links.guarded s
  | number x => x.text

/-- A text that a spreadsheet takes for a formula. -/
def Cell.startsFormula : Cell → Bool
  | text s => Links.startsFormula s
  | number _ => false

theorem toText_eq_guarded_iff (value : Cell) :
    value.toText = value.guarded ↔ value.startsFormula = false := by
  cases value with
  | number x => exact iff_of_true rfl rfl
  | text s =>
    rw [Cell.toText, Cell.guarded, Cell.startsFormula, Links.guarded]
    split
    · rename_i hformula
      refine iff_of_false (fun heq => ?_) (by rw [hformula]; decide)
      have hlength := congrArg (fun t => t.toList.length) heq
      rw [String.toList_append, List.length_append] at hlength
      exact absurd hlength (by simp)
    · rename_i hplain
      exact iff_of_true rfl (Bool.eq_false_iff.mpr hplain)

/-- The header, and a row for each item with its values, those that start a formula guarded. -/
def ReadsBack (data : PlatformAnalytics) (view : AdminAnalyticsCsvView) : Prop :=
  Rfc4180.read (csv data view) =
    some (header view :: (items data view).map (List.map Cell.guarded))

instance (data : PlatformAnalytics) (view : AdminAnalyticsCsvView) :
    Decidable (ReadsBack data view) :=
  inferInstanceAs (Decidable (Rfc4180.read _ = some (_ :: _)))

/-- **The file of a view is the guarded one exactly when no text in it starts a formula.** -/
theorem readsBack_iff (data : PlatformAnalytics) (view : AdminAnalyticsCsvView) :
    ReadsBack data view ↔
      ∀ row ∈ items data view, ∀ value ∈ row, value.startsFormula = false := by
  have hrows : ReadsBack data view ↔
      (items data view).map (List.map Cell.toText) =
        (items data view).map (List.map Cell.guarded) := by
    rw [ReadsBack, read_csv, Option.some.injEq, List.cons.injEq, and_iff_right rfl]
  rw [hrows, List.map_inj_left]
  refine forall₂_congr fun row _ => ?_
  rw [List.map_inj_left]
  exact forall₂_congr fun value _ => toText_eq_guarded_iff value

/-- A workspace that its owner has named as a formula. -/
def sampleAnalytics : PlatformAnalytics where
  growth := ⟨[]⟩
  usage := ⟨[], [⟨"=1+1", .decimal false 5 1⟩], []⟩
  business := ⟨[]⟩
  abuse := ⟨[]⟩

/-- The formula reaches the spreadsheet as it is. -/
theorem not_readsBack : ¬ ReadsBack sampleAnalytics .topWorkspaces := by
  decide

end SnapUrl.Admin
