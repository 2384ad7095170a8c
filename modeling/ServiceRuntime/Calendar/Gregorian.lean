import Mathlib

/-!
# The Gregorian Calendar

The proleptic Gregorian calendar: a day is counted from January 1 of year 1, and a date is a year,
a month and a day of the month. The year is found by splitting off cycles of 400, 100, 4 and single
years, where the last century of four and the last year of four are one day longer.
-/

namespace ServiceRuntime.Calendar

/-! ## Years and months -/

def isLeap (year : Int) : Bool := year % 4 == 0 && (year % 100 != 0 || year % 400 == 0)

def monthLengths (leap : Bool) : List Nat :=
  [31, if leap then 29 else 28, 31, 30, 31, 30, 31, 31, 30, 31, 30, 31]

/-- The length of a month; months count from one. -/
def daysIn (month : Nat) (year : Int) : Nat := (monthLengths (isLeap year)).getD (month - 1) 0

structure Date where
  year : Int
  month : Nat
  day : Nat
  deriving DecidableEq

def daysBeforeYear (year : Int) : Int :=
  365 * (year - 1) + (year - 1) / 4 - (year - 1) / 100 + (year - 1) / 400

def daysOfDate (d : Date) : Int :=
  daysBeforeYear d.year + ((monthLengths (isLeap d.year)).take (d.month - 1)).sum + d.day - 1

/-- The month, counted from `month`, and the day in it, of a day of the year. -/
def monthAndDay : List Nat → Nat → Nat → Nat × Nat
  | [], month, day => (month, day + 1)
  | length :: rest, month, day =>
    if day < length then (month, day + 1) else monthAndDay rest (month + 1) (day - length)

/-- The year of a day, and the day of the year. -/
def yearAndDay (days : Int) : Int × Nat :=
  let in400 := days % 146097
  let n100 := min (in400 / 36524) 3
  let in100 := in400 - 36524 * n100
  let n4 := in100 / 1461
  let in4 := in100 - 1461 * n4
  let n1 := min (in4 / 365) 3
  (400 * (days / 146097) + 100 * n100 + 4 * n4 + n1 + 1, (in4 - 365 * n1).toNat)

def dateOfDays (days : Int) : Date :=
  let (year, yearDay) := yearAndDay days
  let (month, day) := monthAndDay (monthLengths (isLeap year)) 1 yearDay
  ⟨year, month, day⟩

/-! ## There and back -/

/-- A day of the year is a day of the month that is found. -/
theorem monthAndDay_spec (lengths : List Nat) (month day : Nat) (h : day < lengths.sum) :
    ∃ before, before < lengths.length ∧ (monthAndDay lengths month day).1 = month + before ∧
      1 ≤ (monthAndDay lengths month day).2 ∧
      (monthAndDay lengths month day).2 ≤ lengths.getD before 0 ∧
      (lengths.take before).sum + (monthAndDay lengths month day).2 = day + 1 := by
  induction lengths generalizing month day with
  | nil => simp at h
  | cons length rest ih =>
    unfold monthAndDay
    split
    · rename_i hday
      refine ⟨0, by simp, rfl, by simp, ?_, by simp⟩
      rw [List.getD_cons_zero]
      exact hday
    · rename_i hday
      rw [List.sum_cons] at h
      -- the day is in a later month
      obtain ⟨before, hlt, hmonth, hpos, hle, hsum⟩ := ih (month + 1) (day - length) (by omega)
      refine ⟨before + 1, by simpa using hlt, by rw [hmonth]; omega, hpos, ?_, ?_⟩
      · rw [List.getD_cons_succ]
        exact hle
      · rw [List.take_succ_cons, List.sum_cons]
        omega

theorem sum_monthLengths (leap : Bool) :
    (monthLengths leap).sum = if leap then 366 else 365 := by
  cases leap <;> rfl

/-- How a day splits into cycles. Only the last year of four can have a 366th day, and the last
    year of a century only if the century is the last of four. -/
theorem yearAndDay_cycles (days : Int) :
    ∃ n400 n100 n4 n1 : Int, (0 ≤ n100 ∧ n100 ≤ 3) ∧ (0 ≤ n4 ∧ n4 ≤ 24) ∧ (0 ≤ n1 ∧ n1 ≤ 3) ∧
      (yearAndDay days).1 = 400 * n400 + 100 * n100 + 4 * n4 + n1 + 1 ∧
      days = 146097 * n400 + 36524 * n100 + 1461 * n4 + 365 * n1 + (yearAndDay days).2 ∧
      ((yearAndDay days).2 < 365 ∨
        (yearAndDay days).2 = 365 ∧ n1 = 3 ∧ (n4 = 24 → n100 = 3)) := by
  unfold yearAndDay
  dsimp only
  refine ⟨_, _, _, _, ?_, ?_, ?_, rfl, ?_, ?_⟩
  all_goals omega

/-- The year of a day starts with the days before it, and contains the day. -/
theorem yearAndDay_spec (days : Int) :
    daysBeforeYear (yearAndDay days).1 + (yearAndDay days).2 = days ∧
      (yearAndDay days).2 < if isLeap (yearAndDay days).1 then 366 else 365 := by
  obtain ⟨n400, n100, n4, n1, h100, h4, h1, hyear, hdays, hday⟩ := yearAndDay_cycles days
  refine ⟨?_, ?_⟩
  · have hquarter : ((yearAndDay days).1 - 1) / 4 = 100 * n400 + 25 * n100 + n4 := by omega
    have hcentury : ((yearAndDay days).1 - 1) / 100 = 4 * n400 + n100 := by omega
    have hcycle : ((yearAndDay days).1 - 1) / 400 = n400 := by omega
    unfold daysBeforeYear
    rw [hquarter, hcentury, hcycle]
    omega
  · split
    · omega
    · rename_i hleap
      unfold isLeap at hleap
      simp only [Bool.and_eq_true, Bool.or_eq_true, beq_iff_eq, bne_iff_ne, ne_eq] at hleap
      rcases hday with hshort | ⟨-, rfl, hlast⟩
      · exact hshort
      -- a 366th day makes the year a leap year
      · have hquarter : (yearAndDay days).1 % 4 = 0 := by omega
        have hcycle : (yearAndDay days).1 % 100 = 0 → (yearAndDay days).1 % 400 = 0 := by
          intro hcentury
          have hn4 : n4 = 24 := by omega
          have hn100 := hlast hn4
          omega
        exact absurd ⟨hquarter, Classical.or_iff_not_imp_left.mpr fun h =>
          hcycle (not_not.mp h)⟩ hleap

/-- **The date of a day** is a date of the calendar, and its number is the day. -/
theorem dateOfDays_spec (days : Int) :
    let d := dateOfDays days
    daysOfDate d = days ∧ 1 ≤ d.month ∧ d.month ≤ 12 ∧ 1 ≤ d.day ∧ d.day ≤ daysIn d.month d.year := by
  obtain ⟨hyear, hlt⟩ := yearAndDay_spec days
  rw [← sum_monthLengths] at hlt
  obtain ⟨before, hbefore, hmonth, hpos, hle, hsum⟩ := monthAndDay_spec _ 1 _ hlt
  have hlength : (monthLengths (isLeap (yearAndDay days).1)).length = 12 := rfl
  unfold dateOfDays daysOfDate daysIn
  dsimp only
  rw [hmonth, Nat.add_sub_cancel_left]
  refine ⟨?_, by omega, by omega, hpos, hle⟩
  omega

theorem daysIn_le (month : Nat) (year : Int) : daysIn month year ≤ 31 := by
  unfold daysIn
  by_cases hmonth : month - 1 < 12
  · generalize month - 1 = k at hmonth
    cases isLeap year <;> interval_cases k <;> decide
  · rw [List.getD_eq_default _ _ (Nat.not_lt.mp hmonth)]
    decide

theorem year_dateOfDays (days : Int) : (dateOfDays days).year = (yearAndDay days).1 := rfl

theorem year_bounds (days : Int) (hlo : 0 ≤ days) (hhi : days < 3652059) :
    1 ≤ (dateOfDays days).year ∧ (dateOfDays days).year ≤ 9999 := by
  obtain ⟨n400, n100, n4, n1, h100, h4, h1, hyear, hdays, hday⟩ := yearAndDay_cycles days
  rw [year_dateOfDays]
  omega

/-! ## Later days have later dates -/

theorem daysBeforeYear_succ (year : Int) :
    daysBeforeYear (year + 1) = daysBeforeYear year + if isLeap year then 366 else 365 := by
  unfold daysBeforeYear isLeap
  split
  · rename_i hleap
    simp only [Bool.and_eq_true, Bool.or_eq_true, beq_iff_eq, bne_iff_ne, ne_eq] at hleap
    omega
  · rename_i hleap
    simp only [Bool.and_eq_true, Bool.or_eq_true, beq_iff_eq, bne_iff_ne, ne_eq] at hleap
    omega

theorem daysBeforeYear_mono {year year' : Int} (h : year ≤ year') :
    daysBeforeYear year ≤ daysBeforeYear year' := by
  unfold daysBeforeYear
  omega

theorem yearAndDay_lt {days days' : Int} (h : days < days') :
    (yearAndDay days).1 < (yearAndDay days').1 ∨
      (yearAndDay days).1 = (yearAndDay days').1 ∧ (yearAndDay days).2 < (yearAndDay days').2 := by
  obtain ⟨hdays, -⟩ := yearAndDay_spec days
  obtain ⟨hdays', hlt'⟩ := yearAndDay_spec days'
  rcases lt_trichotomy (yearAndDay days).1 (yearAndDay days').1 with hyear | hyear | hyear
  · exact .inl hyear
  · rw [hyear] at hdays
    exact .inr ⟨hyear, by omega⟩
  -- the year of the later day would be over before the earlier day
  · have hover := daysBeforeYear_mono (show (yearAndDay days').1 + 1 ≤ (yearAndDay days).1 by omega)
    rw [daysBeforeYear_succ] at hover
    split at hover
    · rename_i hleap
      rw [if_pos hleap] at hlt'
      omega
    · rename_i hleap
      rw [if_neg hleap] at hlt'
      omega

theorem le_monthAndDay (lengths : List Nat) (month day : Nat) :
    month ≤ (monthAndDay lengths month day).1 := by
  induction lengths generalizing month day with
  | nil => exact Nat.le_refl month
  | cons length rest ih =>
    unfold monthAndDay
    split
    · exact Nat.le_refl month
    · exact (Nat.le_succ month).trans (ih (month + 1) (day - length))

theorem monthAndDay_lt (lengths : List Nat) (month : Nat) {day day' : Nat} (h : day < day') :
    (monthAndDay lengths month day).1 < (monthAndDay lengths month day').1 ∨
      (monthAndDay lengths month day).1 = (monthAndDay lengths month day').1 ∧
        (monthAndDay lengths month day).2 < (monthAndDay lengths month day').2 := by
  induction lengths generalizing month day day' with
  | nil => exact .inr ⟨rfl, Nat.succ_lt_succ h⟩
  | cons length rest ih =>
    by_cases hday' : day' < length
    · have hday : day < length := by omega
      rw [monthAndDay, monthAndDay, if_pos hday, if_pos hday']
      exact .inr ⟨rfl, Nat.succ_lt_succ h⟩
    · by_cases hday : day < length
      -- only the later day is past this month
      · have hmonth : month + 1 ≤ (monthAndDay rest (month + 1) (day' - length)).1 :=
          le_monthAndDay rest (month + 1) (day' - length)
        rw [monthAndDay, monthAndDay, if_pos hday, if_neg hday']
        exact .inl hmonth
      · rw [monthAndDay, monthAndDay, if_neg hday, if_neg hday']
        exact ih (month + 1) (by omega)

/-- **A later day has a later date.** -/
theorem dateOfDays_lt {days days' : Int} (h : days < days') :
    (dateOfDays days).year < (dateOfDays days').year ∨
      (dateOfDays days).year = (dateOfDays days').year ∧
        ((dateOfDays days).month < (dateOfDays days').month ∨
          (dateOfDays days).month = (dateOfDays days').month ∧
            (dateOfDays days).day < (dateOfDays days').day) := by
  rcases yearAndDay_lt h with hyear | ⟨hyear, hday⟩
  · exact .inl hyear
  · refine .inr ⟨hyear, ?_⟩
    have hmonth := monthAndDay_lt (monthLengths (isLeap (yearAndDay days).1)) 1 hday
    unfold dateOfDays
    dsimp only
    rw [← hyear]
    exact hmonth

end ServiceRuntime.Calendar
