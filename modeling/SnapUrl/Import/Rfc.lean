import SnapUrl.Lib.Rfc4180
import SnapUrl.Import.Csv

/-!
# Reading CSV by the standard

`parseCsv` takes every text.  On a text that is well formed by RFC 4180 it is the standard's
reader.

* `scan_of_step`: a step of the reader is what the loop does with the character; the loop looks
  one character ahead where the reader waits for the next.
* `parseCsv_of_read`: **the rows of a well-formed text are its records**, the blank ones left
  out.
-/

namespace SnapUrl.Import

open Lib Rfc4180

/-- The loop where the reader stands. -/
def scanOf (r : Reader) : Scan :=
  ⟨r.records, r.record, r.field, r.place = .quoted || r.place = .quote⟩

/-- What the reader has read and the loop has not. -/
def pending : Place → List Char
  | .quote => ['"']
  | .cr => ['\r']
  | _ => []

/-- A field that is not quoted has begun exactly when it has a character. -/
def Begun (r : Reader) : Prop :=
  (r.place = .start → r.field = []) ∧ (r.place = .plain → r.field ≠ [])

theorem begun_of_place {r : Reader} (hstart : r.place ≠ .start) (hplain : r.place ≠ .plain) :
    Begun r :=
  ⟨fun h => absurd h hstart, fun h => absurd h hplain⟩

section

variable {rows : List (List String)} {row : List String} {field : List Char}

theorem scan_crlf (rest : List Char) :
    scan ⟨rows, row, field, false⟩ ('\r' :: '\n' :: rest) =
      scan ⟨rows ++ [row ++ [String.ofList field]], [], [], false⟩ rest := by
  simp [scan, Scan.pushField, Scan.pushRow]

theorem plain_of_not_special {c : Char} (h : special c = false) : Plain c := by
  simpa [special, Plain, and_assoc] using h

/-- A comma or the start of a line end, behind a field. -/
theorem scan_of_separator {r r' : Reader} {c : Char} (h : r.separator c = some r')
    (rest : List Char) :
    Begun r' ∧ scan ⟨r.records, r.record, r.field, false⟩ (c :: rest) =
      scan (scanOf r') (pending r'.place ++ rest) := by
  rw [Reader.separator] at h
  split at h
  · rename_i hcomma
    cases h
    rw [hcomma, scan_comma]
    exact ⟨⟨fun _ => rfl, by simp [Reader.endField]⟩, rfl⟩
  · split at h
    · rename_i hcr
      cases h
      rw [hcr]
      exact ⟨begun_of_place (by simp [Reader.goTo]) (by simp [Reader.goTo]), rfl⟩
    · cases h

/-- **A step of the reader is a step of the loop.** -/
theorem scan_of_step {r r' : Reader} {c : Char} (h : r.step c = some r') (rest : List Char) :
    Begun r' ∧ scan (scanOf r) (pending r.place ++ c :: rest) =
      scan (scanOf r') (pending r'.place ++ rest) := by
  obtain ⟨records, record, field, place⟩ := r
  have hadd : ∀ c, Begun ⟨records, record, field ++ [c], .plain⟩ := fun c =>
    ⟨by simp, fun _ => by simp⟩
  have hquoted : ∀ field, Begun ⟨records, record, field, .quoted⟩ := fun field =>
    begun_of_place (by simp) (by simp)
  cases place with
  | start =>
    simp only [Reader.step] at h
    split at h
    · rename_i hquote
      cases h
      rw [hquote]
      exact ⟨hquoted field, scan_open rest⟩
    · split at h
      · exact scan_of_separator h rest
      · rename_i hspecial
        cases h
        exact ⟨hadd c, scan_add (plain_of_not_special (Bool.eq_false_iff.mpr hspecial)) rest⟩
  | plain =>
    simp only [Reader.step] at h
    split at h
    · exact scan_of_separator h rest
    · rename_i hspecial
      cases h
      exact ⟨hadd c, scan_add (plain_of_not_special (Bool.eq_false_iff.mpr hspecial)) rest⟩
  | quoted =>
    simp only [Reader.step] at h
    split at h
    · rename_i hquote
      cases h
      rw [hquote]
      exact ⟨begun_of_place (by simp [Reader.goTo]) (by simp [Reader.goTo]), rfl⟩
    · rename_i hquote
      cases h
      exact ⟨hquoted _, scan_inside hquote rest⟩
  | quote =>
    simp only [Reader.step] at h
    split at h
    · rename_i hquote
      cases h
      rw [hquote]
      exact ⟨hquoted _, scan_escaped rest⟩
    · rename_i hquote
      have hclose : scan (scanOf ⟨records, record, field, .quote⟩) ('"' :: c :: rest) =
          scan ⟨records, record, field, false⟩ (c :: rest) :=
        scan_close fun hhead => hquote (Option.some.inj hhead)
      obtain ⟨hbegun, hscan⟩ := scan_of_separator h rest
      exact ⟨hbegun, hclose.trans hscan⟩
  | cr =>
    simp only [Reader.step] at h
    split at h
    · rename_i hlf
      cases h
      rw [hlf]
      exact ⟨⟨fun _ => rfl, by simp [Reader.endRecord]⟩, scan_crlf rest⟩
    · cases h

theorem scan_of_run {text : List Char} {r r' : Reader} (h : r.run text = some r') (hr : Begun r) :
    Begun r' ∧ scan (scanOf r) (pending r.place ++ text) =
      scan (scanOf r') (pending r'.place) := by
  induction text generalizing r with
  | nil =>
    cases h
    exact ⟨hr, by rw [List.append_nil]⟩
  | cons c text ih =>
    obtain ⟨next, hstep, hrun⟩ := Option.bind_eq_some_iff.mp h
    obtain ⟨hbegun, hscan⟩ := scan_of_step hstep text
    obtain ⟨hbegun', hscan'⟩ := ih hrun hbegun
    exact ⟨hbegun', hscan.trans hscan'⟩

/-- What is left when the text ends: the loop leaves out a last record of one empty field. -/
theorem flush_of_finish {r : Reader} (h : r.finish = some rows) (hr : Begun r) :
    (scan (scanOf r) (pending r.place)).flush.rows.filter (fun row => row ≠ [""]) =
      rows.filter fun row => row ≠ [""] := by
  obtain ⟨records, record, field, place⟩ := r
  cases place with
  | start =>
    cases h
    obtain rfl : field = [] := hr.1 rfl
    by_cases hrecord : record = []
    · rw [hrecord]
      rfl
    · have hflush : (Scan.mk records record [] false).flush =
          (Scan.mk records record [] false).pushRow := if_pos (Or.inr hrecord)
      exact congrArg _ ((congrArg Scan.rows hflush).trans (if_neg hrecord).symm)
  | plain =>
    cases h
    have hflush : (Scan.mk records record field false).flush =
        (Scan.mk records record field false).pushRow := if_pos (Or.inl (hr.2 rfl))
    exact congrArg _ (congrArg Scan.rows hflush)
  | quote =>
    cases h
    by_cases hempty : field ≠ [] ∨ record ≠ []
    · have hflush : (Scan.mk records record field false).flush =
          (Scan.mk records record field false).pushRow := if_pos hempty
      exact congrArg _ (congrArg Scan.rows hflush)
    · have hflush : (Scan.mk records record field false).flush =
          Scan.mk records record field false := if_neg hempty
      simp only [not_or, not_not] at hempty
      obtain ⟨rfl, rfl⟩ := hempty
      have hblank : (records ++ [[""]]).filter (fun row => row ≠ [""]) =
          records.filter fun row => row ≠ [""] := by
        rw [List.filter_append]
        exact List.append_nil _
      exact (congrArg _ (congrArg Scan.rows hflush)).trans hblank.symm
  | quoted => cases h
  | cr => cases h

/-- **The rows of a well-formed text are its records**, the blank ones left out. -/
theorem parseCsv_of_read {text : String} (h : Rfc4180.read text = some rows) :
    parseCsv text = rows.filter fun row => row ≠ [""] := by
  obtain ⟨r, hrun, hfinish⟩ := Option.bind_eq_some_iff.mp h
  obtain ⟨hbegun, hscan⟩ := scan_of_run hrun
    ⟨fun _ => rfl, by simp⟩
  rw [parseCsv_eq, ← flush_of_finish hfinish hbegun, ← hscan]
  rfl

end

end SnapUrl.Import
