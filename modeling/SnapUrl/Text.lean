import Mathlib.Data.List.DropRight
import SnapUrl.Platform

/-!
# Trimmed texts

What `trim` keeps of a text.

* `trim_trim`: nothing is left to trim.
* `trim_eq_self_iff`: a text is trimmed when no space is at either end.
-/

namespace SnapUrl

theorem mem_dropWhile {c : Char} {l : List Char} (h : c ∈ l) (hc : isJsSpace c = false) :
    c ∈ l.dropWhile isJsSpace := by
  rw [← List.takeWhile_append_dropWhile (p := isJsSpace) (l := l), List.mem_append] at h
  refine h.resolve_left fun htake => ?_
  rw [List.mem_takeWhile_imp htake] at hc
  cases hc

theorem mem_trim {c : Char} {s : String} (h : c ∈ s.toList) (hc : isJsSpace c = false) :
    c ∈ (trim s).toList := by
  rw [trim, String.toList_ofList, List.mem_reverse]
  exact mem_dropWhile (List.mem_reverse.mpr (mem_dropWhile h hc)) hc

/-- What is trimmed starts with no space. -/
theorem dropWhile_rdropWhile (l : List Char) :
    ((l.dropWhile isJsSpace).rdropWhile isJsSpace).dropWhile isJsSpace =
      (l.dropWhile isJsSpace).rdropWhile isJsSpace := by
  rw [List.dropWhile_eq_self_iff]
  intro hlength
  have hprefix := List.rdropWhile_prefix isJsSpace (l.dropWhile isJsSpace)
  have hhead := hprefix.getElem hlength
  have hnot := List.dropWhile_get_zero_not isJsSpace l (hlength.trans_le hprefix.length_le)
  rw [List.get_eq_getElem] at hnot
  rw [hhead]
  exact hnot

theorem trim_trim (s : String) : trim (trim s) = trim s := by
  have htrim : ∀ t : String, trim t =
      String.ofList ((t.toList.dropWhile isJsSpace).rdropWhile isJsSpace) := fun _ => rfl
  rw [htrim (trim s), htrim s, String.toList_ofList, dropWhile_rdropWhile,
    List.rdropWhile_idempotent]

theorem mem_of_mem_trim {c : Char} {s : String} (h : c ∈ (trim s).toList) : c ∈ s.toList := by
  rw [trim, String.toList_ofList, List.mem_reverse] at h
  have hreverse := (List.dropWhile_sublist isJsSpace).subset h
  exact (List.dropWhile_sublist isJsSpace).subset (List.mem_reverse.mp hreverse)

theorem dropWhile_isJsSpace_eq_self_iff {l : List Char} : l.dropWhile isJsSpace = l ↔
    ∀ c, l.head? = some c → isJsSpace c = false := by
  cases l with
  | nil => simp
  | cons d l =>
    by_cases hd : isJsSpace d = true
    · rw [List.dropWhile_cons_of_pos hd]
      refine iff_of_false (fun heq => ?_) fun hall => ?_
      · have hlength := (List.dropWhile_sublist isJsSpace (l := l)).length_le
        rw [heq, List.length_cons] at hlength
        omega
      · rw [hall d rfl] at hd
        cases hd
    · rw [List.dropWhile_cons_of_neg hd]
      refine iff_of_true rfl fun c hc => ?_
      rw [← Option.some.inj hc]
      exact Bool.eq_false_iff.mpr hd

/-- **Nothing is trimmed of a text with no space at either end.** -/
theorem trim_eq_self_iff {s : String} : trim s = s ↔
    (∀ c, s.toList.head? = some c → isJsSpace c = false) ∧
      ∀ c, s.toList.getLast? = some c → isJsSpace c = false := by
  rw [← List.head?_reverse, ← dropWhile_isJsSpace_eq_self_iff, ← dropWhile_isJsSpace_eq_self_iff]
  constructor
  · intro htrim
    have hlist :
        ((s.toList.dropWhile isJsSpace).reverse.dropWhile isJsSpace).reverse = s.toList := by
      rw [← String.toList_ofList (l := List.reverse _)]
      exact congrArg String.toList htrim
    have hlength := congrArg List.length hlist
    have houter := (List.dropWhile_sublist isJsSpace (l := (s.toList.dropWhile isJsSpace).reverse))
    have hinner := (List.dropWhile_sublist isJsSpace (l := s.toList))
    have houter' := houter.length_le
    have hinner' := hinner.length_le
    rw [List.length_reverse] at hlength houter'
    have hfront : s.toList.dropWhile isJsSpace = s.toList := hinner.eq_of_length (by omega)
    rw [hfront] at hlist
    exact ⟨hfront, by rw [← List.reverse_reverse (List.dropWhile _ _), hlist]⟩
  · rintro ⟨hfront, hback⟩
    rw [trim, hfront, hback, List.reverse_reverse, String.ofList_toList]

end SnapUrl
