import Mathlib.Data.Nat.Find
import Mathlib.Tactic.Ring

/-!
# Dates as texts

A date of JavaScript is a number of milliseconds before or after 1970.  `toISOString` writes it
in the calendar, and `parseDate` reads it in the form it was written.

* `dayFromYear`, `yearFromDay`, `monthFromDay`: the calendar, as the language defines it.
* `parseDate_toISOString`: **every date is read as it was written**.
-/

namespace SnapUrl.Lib.IsoDate

/-! ### The calendar -/

def isLeap (year : Int) : Bool := year % 4 = 0 ∧ (year % 100 ≠ 0 ∨ year % 400 = 0)

/-- The first day of a year, days counted from 1970. -/
def dayFromYear (year : Int) : Int :=
  365 * (year - 1970) + (year - 1969) / 4 - (year - 1901) / 100 + (year - 1601) / 400

/-- The year of a day: the mean length of a year comes within one of it. -/
def yearFromDay (day : Int) : Int :=
  let year := 1970 + 400 * day / 146097
  if day < dayFromYear year then year - 1
  else if dayFromYear (year + 1) ≤ day then year + 1
  else year

/-- The days of a year before a month, months counted from 0. -/
def monthStart (leap : Bool) (month : Nat) : Nat :=
  [0, 31, 59, 90, 120, 151, 181, 212, 243, 273, 304, 334].getD month 0 +
    if leap ∧ 2 ≤ month then 1 else 0

/-- The month of a day of the year: the months that start by then, but the first. -/
def monthFromDay (leap : Bool) (dayInYear : Nat) : Nat :=
  ((List.range 11).filter fun i => monthStart leap (i + 1) ≤ dayInYear).length

/-- **A day is in its year.** -/
theorem yearFromDay_spec (day : Int) :
    dayFromYear (yearFromDay day) ≤ day ∧ day < dayFromYear (yearFromDay day + 1) := by
  simp only [yearFromDay]
  split
  · next hbefore =>
    rw [Int.sub_add_cancel]
    refine ⟨?_, hbefore⟩
    simp only [dayFromYear]
    omega
  · next hbefore =>
    split
    · next hafter =>
      refine ⟨hafter, ?_⟩
      simp only [dayFromYear]
      omega
    · next hafter => exact ⟨by omega, by omega⟩

theorem dayFromYear_succ (year : Int) :
    dayFromYear (year + 1) = dayFromYear year + if isLeap year then 366 else 365 := by
  by_cases h4 : year % 4 = 0
  · by_cases h100 : year % 100 = 0
    · by_cases h400 : year % 400 = 0
      · have hleap : isLeap year = true := decide_eq_true ⟨h4, Or.inr h400⟩
        rw [if_pos hleap, dayFromYear, dayFromYear]
        omega
      · have hleap : isLeap year = false := decide_eq_false (by omega)
        rw [hleap, if_neg (by decide), dayFromYear, dayFromYear]
        omega
    · have hleap : isLeap year = true := decide_eq_true ⟨h4, Or.inl h100⟩
      rw [if_pos hleap, dayFromYear, dayFromYear]
      omega
  · have hleap : isLeap year = false := decide_eq_false (by omega)
    rw [hleap, if_neg (by decide), dayFromYear, dayFromYear]
    omega

/-- The day of the year is one of its 365 or 366. -/
theorem dayInYear_lt (day : Int) : (day - dayFromYear (yearFromDay day)).toNat <
    if isLeap (yearFromDay day) then 366 else 365 := by
  have hyear := yearFromDay_spec day
  have hsucc := dayFromYear_succ (yearFromDay day)
  generalize isLeap (yearFromDay day) = leap at *
  cases leap with
  | true =>
    rw [if_pos rfl] at hsucc ⊢
    omega
  | false =>
    rw [if_neg Bool.false_ne_true] at hsucc ⊢
    omega

/-- The year of a date has six digits. -/
theorem yearFromDay_bound (day : Int) (hlow : -100000000 ≤ day) (hhigh : day ≤ 100000000) :
    (yearFromDay day).natAbs < 1000000 := by
  have hyear := yearFromDay_spec day
  simp only [dayFromYear] at hyear
  omega

theorem monthStart_succ : ∀ leap : Bool, ∀ month < 11,
    monthStart leap month ≤ monthStart leap (month + 1) ∧
      monthStart leap (month + 1) ≤ monthStart leap month + 31 := by
  decide

theorem monthStart_mono {leap : Bool} {i j : Nat} (hij : i ≤ j) (hj : j ≤ 11) :
    monthStart leap i ≤ monthStart leap j := by
  induction j, hij using Nat.le_induction with
  | base => exact le_rfl
  | succ j hij ih => exact (ih (by omega)).trans (monthStart_succ leap j (by omega)).1

/-- **The month of a day is the last one that starts by then.** -/
theorem monthFromDay_bounds (leap : Bool) (dayInYear : Nat) :
    monthFromDay leap dayInYear ≤ 11 ∧
      monthStart leap (monthFromDay leap dayInYear) ≤ dayInYear ∧
      ∀ month, monthFromDay leap dayInYear < month → month ≤ 11 →
        dayInYear < monthStart leap month := by
  have hzero : monthStart leap 0 ≤ dayInYear := by
    cases leap <;> exact Nat.zero_le _
  -- the last month that starts by then
  generalize hm : Nat.findGreatest (fun m => monthStart leap m ≤ dayInYear) 11 = m
  have hle : m ≤ 11 := hm ▸ Nat.findGreatest_le 11
  have hstart : monthStart leap m ≤ dayInYear :=
    hm ▸ Nat.findGreatest_spec (P := fun m => monthStart leap m ≤ dayInYear) (Nat.zero_le 11) hzero
  have hlater : ∀ month, m < month → month ≤ 11 → dayInYear < monthStart leap month := by
    intro month hlt hmonth
    have hnot := Nat.findGreatest_is_greatest (P := fun m => monthStart leap m ≤ dayInYear)
      (hm.trans_lt hlt) hmonth
    exact not_le.mp hnot
  -- the count runs over the months before it
  have hcount : ∀ m < 12, ((List.range 11).filter fun i => i < m).length = m := by decide
  have hmonth : monthFromDay leap dayInYear = m := by
    refine Eq.trans ?_ (hcount m (by omega))
    refine congrArg List.length (List.filter_congr fun i hi => decide_eq_decide.mpr ?_)
    have hi' := List.mem_range.mp hi
    refine ⟨fun h => ?_, fun h => (monthStart_mono (by omega) hle).trans hstart⟩
    by_contra hnot
    exact absurd h (not_le.mpr (hlater (i + 1) (by omega) (by omega)))
  rw [hmonth]
  exact ⟨hle, hstart, hlater⟩

/-- A month has at most 31 days, and the first day of it is one of them. -/
theorem monthFromDay_spec : ∀ leap : Bool, ∀ dayInYear < if leap then 366 else 365,
    monthFromDay leap dayInYear < 12 ∧
      monthStart leap (monthFromDay leap dayInYear) ≤ dayInYear ∧
      dayInYear < monthStart leap (monthFromDay leap dayInYear) + 31 := by
  intro leap dayInYear h
  obtain ⟨hle, hstart, hlater⟩ := monthFromDay_bounds leap dayInYear
  generalize monthFromDay leap dayInYear = m at *
  refine ⟨by omega, hstart, ?_⟩
  rcases Nat.lt_or_eq_of_le hle with hlt | rfl
  · exact (hlater (m + 1) (Nat.lt_succ_self m) hlt).trans_le (monthStart_succ leap m hlt).2
  · cases leap with
    | true => exact h.trans_le (by decide)
    | false => exact h.trans_le (by decide)

/-! ### Digits -/

/-- A number in a fixed number of digits. -/
def digits : Nat → Nat → List Char
  | 0, _ => []
  | k + 1, n => digits k (n / 10) ++ [Nat.digitChar (n % 10)]

/-- The value of one digit. -/
def digitValue (c : Char) : Option Nat := if c.isDigit then some (c.toNat - 48) else none

/-- A number in a fixed number of digits, and the rest of the text. -/
def readDigits : Nat → Nat → List Char → Option (Nat × List Char)
  | 0, acc, cs => some (acc, cs)
  | _ + 1, _, [] => none
  | k + 1, acc, c :: cs => (digitValue c).bind fun d => readDigits k (acc * 10 + d) cs

theorem digitValue_digitChar : ∀ d < 10, digitValue (Nat.digitChar d) = some d := by decide

theorem readDigits_digits (k : Nat) : ∀ (j acc n : Nat) (cs : List Char), n < 10 ^ k →
    readDigits (k + j) acc (digits k n ++ cs) = readDigits j (acc * 10 ^ k + n) cs := by
  induction k with
  | zero =>
    intro j acc n cs hn
    rw [digits, List.nil_append, Nat.zero_add, pow_zero, Nat.mul_one]
    rw [pow_zero, Nat.lt_one_iff] at hn
    rw [hn, Nat.add_zero]
  | succ k ih =>
    intro j acc n cs hn
    have hhead : n / 10 < 10 ^ k := by rw [pow_succ] at hn; omega
    have hlast := digitValue_digitChar (n % 10) (Nat.mod_lt _ (by decide))
    rw [digits, List.append_assoc, Nat.add_assoc, Nat.add_comm 1 j, ih _ _ _ _ hhead,
      List.singleton_append, readDigits, hlast, Option.bind_some]
    congr 1
    rw [pow_succ, Nat.add_mul]
    have hn10 := Nat.div_add_mod n 10
    calc acc * 10 ^ k * 10 + n / 10 * 10 + n % 10
        = acc * 10 ^ k * 10 + (10 * (n / 10) + n % 10) := by ring
      _ = acc * (10 ^ k * 10) + n := by rw [hn10, Nat.mul_assoc]

/-- **A number that fits its digits is read as it was written.** -/
theorem readDigits_append {k n : Nat} (h : n < 10 ^ k) (cs : List Char) :
    readDigits k 0 (digits k n ++ cs) = some (n, cs) := by
  have hread := readDigits_digits k 0 0 n cs h
  rw [Nat.add_zero, Nat.zero_mul, Nat.zero_add] at hread
  rw [hread, readDigits]

/-- The rest of a text that starts with a character. -/
def skip (c : Char) : List Char → Option (List Char)
  | [] => none
  | d :: cs => if d = c then some cs else none

/-- Numbers, each after a character and in so many digits. -/
def fieldsText : List (Char × Nat) → List Nat → List Char
  | (c, k) :: fields, n :: ns => c :: (digits k n ++ fieldsText fields ns)
  | _, _ => []

/-- The numbers of a text in such a form, and the rest of it. -/
def readFields : List (Char × Nat) → List Char → Option (List Nat × List Char)
  | [], cs => some ([], cs)
  | (c, k) :: fields, cs =>
    (skip c cs).bind fun cs => (readDigits k 0 cs).bind fun r =>
      (readFields fields r.2).map fun rest => (r.1 :: rest.1, rest.2)

/-- **Numbers that fit their digits are read as they were written.** -/
theorem readFields_append {fields : List (Char × Nat)} {ns : List Nat}
    (h : List.Forall₂ (fun field n => n < 10 ^ field.2) fields ns) (cs : List Char) :
    readFields fields (fieldsText fields ns ++ cs) = some (ns, cs) := by
  induction h with
  | nil => rw [fieldsText, readFields, List.nil_append]; exact nofun
  | @cons field n fields ns hn _ ih =>
    obtain ⟨c, k⟩ := field
    rw [fieldsText, readFields, List.cons_append, List.append_assoc, skip, if_pos rfl,
      Option.bind_some, readDigits_append hn, Option.bind_some, ih, Option.map_some]

/-! ### Years -/

/-- Four digits, or a sign and six. -/
def yearText (year : Int) : List Char :=
  if 0 ≤ year ∧ year ≤ 9999 then digits 4 year.toNat
  else (if year < 0 then '-' else '+') :: digits 6 year.natAbs

/-- A year, and the rest of the text.  There is no year `-000000`. -/
def readYear : List Char → Option (Int × List Char)
  | [] => none
  | c :: cs =>
    if c = '+' then (readDigits 6 0 cs).map fun r => ((r.1 : Int), r.2)
    else if c = '-' then
      (readDigits 6 0 cs).bind fun r => if r.1 = 0 then none else some (-(r.1 : Int), r.2)
    else (readDigits 4 0 (c :: cs)).map fun r => ((r.1 : Int), r.2)

theorem digitChar_ne_sign : ∀ d < 10, Nat.digitChar d ≠ '+' ∧ Nat.digitChar d ≠ '-' := by
  decide

theorem readYear_yearText {year : Int} (h : year.natAbs < 1000000) (cs : List Char) :
    readYear (yearText year ++ cs) = some (year, cs) := by
  rw [yearText]
  split
  · next hfour =>
    have hread := readDigits_append (k := 4) (n := year.toNat) (by omega) cs
    have hsign := digitChar_ne_sign (year.toNat / 10 / 10 / 10 % 10) (Nat.mod_lt _ (by decide))
    simp only [digits, List.nil_append, List.cons_append] at hread ⊢
    rw [readYear, if_neg hsign.1, if_neg hsign.2, hread, Option.map_some,
      Int.toNat_of_nonneg hfour.1]
  · next hfour =>
    have hread := readDigits_append (k := 6) (n := year.natAbs) (by omega) cs
    rw [List.cons_append]
    by_cases hneg : year < 0
    · rw [if_pos hneg, readYear, if_neg (by decide), if_pos rfl, hread, Option.bind_some,
        if_neg (by omega)]
      have habs : -(year.natAbs : Int) = year := by omega
      rw [habs]
    · rw [if_neg hneg, readYear, if_pos rfl, hread, Option.map_some]
      have habs : (year.natAbs : Int) = year := by omega
      rw [habs]

/-! ### Dates -/

/-- The milliseconds that a date may be away from 1970. -/
def maxTime : Int := 8640000000000000

/-- What follows the year: month, day, hour, minute, second and milliseconds. -/
def isoFields : List (Char × Nat) :=
  [('-', 2), ('-', 2), ('T', 2), (':', 2), (':', 2), ('.', 3)]

/-- `toISOString` of a date. -/
def toISOString (time : Int) : String :=
  let day := time / 86400000
  let ms := (time % 86400000).toNat
  let year := yearFromDay day
  let leap := isLeap year
  let dayInYear := (day - dayFromYear year).toNat
  let month := monthFromDay leap dayInYear
  String.ofList <| yearText year ++ (fieldsText isoFields [month + 1,
    dayInYear - monthStart leap month + 1, ms / 3600000, ms / 60000 % 60, ms / 1000 % 60,
    ms % 1000] ++ ['Z'])

/-- The time of a date in the calendar: a day past the end of its month is one of the next. -/
def makeDate (year : Int) (month date hour minute second ms : Nat) : Option Int :=
  let time := (dayFromYear year + monthStart (isLeap year) (month - 1) + (date - 1)) * 86400000 +
    (hour * 3600000 + minute * 60000 + second * 1000 + ms)
  if 1 ≤ month ∧ month ≤ 12 ∧ 1 ≤ date ∧ date ≤ 31 ∧
      (hour < 24 ∨ hour = 24 ∧ minute = 0 ∧ second = 0 ∧ ms = 0) ∧ minute < 60 ∧ second < 60 ∧
      -maxTime ≤ time ∧ time ≤ maxTime then some time
  else none

/-- `new Date(text)` of a text in the form that `toISOString` writes, none for an invalid date. -/
def parseDate (text : String) : Option Int :=
  (readYear text.toList).bind fun year => (readFields isoFields year.2).bind fun
    | ([month, date, hour, minute, second, ms], ['Z']) =>
      makeDate year.1 month date hour minute second ms
    | _ => none

/-- **Every date is read as it was written.** -/
theorem parseDate_toISOString {time : Int} (hlow : -maxTime ≤ time) (hhigh : time ≤ maxTime) :
    parseDate (toISOString time) = some time := by
  simp only [toISOString]
  simp only [maxTime] at hlow hhigh
  have hyearBound := yearFromDay_bound (time / 86400000) (by omega) (by omega)
  have hday := (yearFromDay_spec (time / 86400000)).1
  have hmonth := monthFromDay_spec _ _ (dayInYear_lt (time / 86400000))
  generalize yearFromDay (time / 86400000) = year at *
  generalize hleap : isLeap year = leap at *
  generalize hinYear : (time / 86400000 - dayFromYear year).toNat = dayInYear at *
  generalize monthFromDay leap dayInYear = month at *
  generalize hms : (time % 86400000).toNat = ms
  have hfields : List.Forall₂ (fun field n => n < 10 ^ field.2) isoFields [month + 1,
      dayInYear - monthStart leap month + 1, ms / 3600000, ms / 60000 % 60, ms / 1000 % 60,
      ms % 1000] := by
    repeat' first | exact List.Forall₂.nil | refine List.Forall₂.cons ?_ ?_
    all_goals simp only; omega
  rw [parseDate, String.toList_ofList, readYear_yearText hyearBound, Option.bind_some,
    readFields_append hfields, Option.bind_some]
  simp only [makeDate, hleap, maxTime, Nat.add_sub_cancel]
  have htime : (dayFromYear year + monthStart leap month +
        ((dayInYear - monthStart leap month + 1 : Nat) - 1 : Int)) * 86400000 +
      ((ms / 3600000 : Nat) * 3600000 + (ms / 60000 % 60 : Nat) * 60000 +
        (ms / 1000 % 60 : Nat) * 1000 + (ms % 1000 : Nat)) = time := by
    omega
  rw [htime, if_pos (by omega)]

example : toISOString 1700000000123 = "2023-11-14T22:13:20.123Z" := by decide +kernel

end SnapUrl.Lib.IsoDate
