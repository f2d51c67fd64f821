import SnapUrl.Lib.IsoDate

/-!
# Years before a date

The same day of the same month some years before, or the last day of that month where it
is shorter: 29 February becomes 28 February.  This is what a database means by a date
less an interval of years.

* `minusYears`: the date, and `minusYearsTime`: the time of day with it.
* `minusYears_mono`, `minusYears_anti`: **a later day, or fewer years, give a later day.**
* `sub_minusYears_three`: three years are 1095 or 1096 days.
-/

namespace SnapUrl.Lib.IsoDate

/-- The days of a month, months counted from 0. -/
def monthLength (leap : Bool) (month : Nat) : Nat :=
  [31, if leap then 29 else 28, 31, 30, 31, 30, 31, 31, 30, 31, 30, 31].getD month 0

/-- A day of a year in another year. -/
def sameDate (leap leap' : Bool) (dayInYear : Nat) : Nat :=
  let month := monthFromDay leap dayInYear
  monthStart leap' month + min (dayInYear - monthStart leap month) (monthLength leap' month - 1)

/-- The date some years before a day, days counted from 1970. -/
def minusYears (day years : Int) : Int :=
  let year := yearFromDay day
  dayFromYear (year - years) +
    sameDate (isLeap year) (isLeap (year - years)) (day - dayFromYear year).toNat

/-- The same for a time, whose days have `unit` parts. -/
def minusYearsTime (unit time years : Int) : Int :=
  minusYears (time / unit) years * unit + time % unit

/-! ### One year -/

/-- From March on a year of either kind has the same months, one day apart. -/
theorem months_same : ∀ leap leap' : Bool, ∀ month < 12, 2 ≤ month →
    59 + leap.toNat ≤ monthStart leap month ∧
      monthStart leap' month + leap.toNat = monthStart leap month + leap'.toNat ∧
      monthLength leap' month = monthLength leap month := by
  decide

/-- A month ends where the next one starts, and the last one with the year. -/
theorem monthStart_add_monthLength : ∀ leap : Bool, ∀ month < 12,
    monthStart leap month + monthLength leap month =
      if month < 11 then monthStart leap (month + 1) else if leap then 366 else 365 := by
  decide

/-- Up to 28 February nothing moves, and from March on the leap days do. -/
theorem sameDate_eq : ∀ leap leap' : Bool, ∀ k < if leap then 366 else 365,
    sameDate leap leap' k =
      if k < 59 then k
      else if leap = true ∧ k = 59 then (if leap' then 59 else 58)
      else k + leap'.toNat - leap.toNat := by
  intro leap leap' k hk
  obtain ⟨hle, hstart, hlater⟩ := monthFromDay_bounds leap k
  rw [sameDate]
  generalize monthFromDay leap k = month at *
  have hend : k < monthStart leap month + monthLength leap month := by
    rw [monthStart_add_monthLength leap month (by omega)]
    split
    · exact hlater _ (Nat.lt_succ_self month) (by omega)
    · exact hk
  match month with
  | 0 =>
    have hzero : ∀ leap, monthStart leap 0 = 0 ∧ monthLength leap 0 = 31 := by decide
    rw [(hzero leap).1, (hzero leap).2] at hend
    rw [(hzero leap).1, (hzero leap').1, (hzero leap').2, if_pos (by omega)]
    omega
  | 1 =>
    have hone : ∀ leap, monthStart leap 1 = 31 ∧ monthLength leap 1 = 28 + leap.toNat := by decide
    rw [(hone leap).1] at hstart
    rw [(hone leap).1, (hone leap).2] at hend
    rw [(hone leap).1, (hone leap').1, (hone leap').2]
    cases leap <;> cases leap' <;> simp only [Bool.toNat_true, Bool.toNat_false] at hend ⊢ <;> grind
  | month + 2 =>
    obtain ⟨hmarch, hsame, hlength⟩ := months_same leap leap' (month + 2) (by omega) (by omega)
    rw [hlength]
    have hbefore : ¬ (k < 59 ∨ leap = true ∧ k = 59) := by
      cases leap <;> simp only [Bool.toNat_true, Bool.toNat_false] at hmarch <;> simp <;> omega
    rw [if_neg fun h => hbefore (Or.inl h), if_neg fun h => hbefore (Or.inr h)]
    omega

theorem sameDate_mono {leap : Bool} (leap' : Bool) {j k : Nat} (hjk : j ≤ k)
    (hk : k < if leap then 366 else 365) : sameDate leap leap' j ≤ sameDate leap leap' k := by
  rw [sameDate_eq leap leap' j (by omega), sameDate_eq leap leap' k hk]
  cases leap <;> cases leap' <;> grind

theorem sameDate_lt {leap : Bool} (leap' : Bool) {k : Nat} (hk : k < if leap then 366 else 365) :
    sameDate leap leap' k < if leap' then 366 else 365 := by
  rw [sameDate_eq leap leap' k hk]
  cases leap <;> cases leap' <;> grind

/-! ### Days and years -/

theorem dayFromYear_mono {year year' : Int} (h : year ≤ year') :
    dayFromYear year ≤ dayFromYear year' := by
  simp only [dayFromYear]
  omega

theorem yearFromDay_mono {day day' : Int} (h : day ≤ day') :
    yearFromDay day ≤ yearFromDay day' := by
  by_contra hlt
  have hnext := dayFromYear_mono (show yearFromDay day' + 1 ≤ yearFromDay day by omega)
  have hday := (yearFromDay_spec day).1
  have hday' := (yearFromDay_spec day').2
  omega

/-- The date is in the year it should be in. -/
theorem minusYears_spec (day years : Int) :
    dayFromYear (yearFromDay day - years) ≤ minusYears day years ∧
      minusYears day years < dayFromYear (yearFromDay day - years + 1) := by
  have hlt := sameDate_lt (isLeap (yearFromDay day - years)) (dayInYear_lt day)
  have hsucc := dayFromYear_succ (yearFromDay day - years)
  simp only [minusYears]
  cases hleap : isLeap (yearFromDay day - years) <;> grind

/-- **A later day gives a later date.** -/
theorem minusYears_mono {day day' : Int} (h : day ≤ day') (years : Int) :
    minusYears day years ≤ minusYears day' years := by
  rcases Int.lt_or_eq_of_le (yearFromDay_mono h) with hlt | heq
  · have hnext := dayFromYear_mono
      (show yearFromDay day - years + 1 ≤ yearFromDay day' - years by omega)
    have hday := (minusYears_spec day years).2
    have hday' := (minusYears_spec day' years).1
    omega
  · have hdays : (day - dayFromYear (yearFromDay day)).toNat ≤
        (day' - dayFromYear (yearFromDay day)).toNat := by omega
    have hlt := dayInYear_lt day'
    rw [← heq] at hlt
    have hmono := sameDate_mono (isLeap (yearFromDay day - years)) hdays hlt
    simp only [minusYears, ← heq]
    omega

/-- **Fewer years give a later date.** -/
theorem minusYears_anti (day : Int) {years years' : Int} (h : years ≤ years') :
    minusYears day years' ≤ minusYears day years := by
  rcases Int.lt_or_eq_of_le h with hlt | rfl
  · have hnext := dayFromYear_mono
      (show yearFromDay day - years' + 1 ≤ yearFromDay day - years by omega)
    have hbefore := (minusYears_spec day years').2
    have hafter := (minusYears_spec day years).1
    omega
  · exact le_rfl

theorem emod_of_isLeap {year : Int} (h : isLeap year = true) : year % 4 = 0 :=
  (of_decide_eq_true h).1

/-- **Three years are 1095 or 1096 days.**  One year in four is a leap year at most. -/
theorem sub_minusYears_three (day : Int) :
    1095 ≤ day - minusYears day 3 ∧ day - minusYears day 3 ≤ 1096 := by
  have hyear := yearFromDay_spec day
  have hlt := dayInYear_lt day
  have h1 := dayFromYear_succ (yearFromDay day - 1)
  have h2 := dayFromYear_succ (yearFromDay day - 2)
  have h3 := dayFromYear_succ (yearFromDay day - 3)
  have e0 : isLeap (yearFromDay day) = true → _ := emod_of_isLeap
  have e1 : isLeap (yearFromDay day - 1) = true → _ := emod_of_isLeap
  have e2 : isLeap (yearFromDay day - 2) = true → _ := emod_of_isLeap
  have e3 : isLeap (yearFromDay day - 3) = true → _ := emod_of_isLeap
  rw [Int.sub_add_cancel] at h1
  rw [show yearFromDay day - 2 + 1 = yearFromDay day - 1 by omega] at h2
  rw [show yearFromDay day - 3 + 1 = yearFromDay day - 2 by omega] at h3
  simp only [minusYears]
  rw [sameDate_eq _ _ _ hlt]
  generalize isLeap (yearFromDay day) = l0, isLeap (yearFromDay day - 1) = l1,
    isLeap (yearFromDay day - 2) = l2, isLeap (yearFromDay day - 3) = l3 at *
  cases l0 <;> cases l1 <;> cases l2 <;> cases l3 <;>
    simp only [Bool.false_eq_true, false_and, true_and, if_true, if_false, forall_const,
      Bool.toNat_true, Bool.toNat_false] at hlt h1 h2 h3 e0 e1 e2 e3 ⊢ <;>
    split_ifs <;> omega

/-- A time before the date some years ago is before that date at any time of the day. -/
theorem lt_minusYearsTime {unit time years t : Int} (hunit : 0 < unit)
    (h : t < minusYears (time / unit) years * unit) : t < minusYearsTime unit time years := by
  have hpart := Int.emod_nonneg time hunit.ne'
  rw [minusYearsTime]
  omega

end SnapUrl.Lib.IsoDate
