import Mathlib.Algebra.BigOperators.Group.List.Basic
import Mathlib.Tactic.IntervalCases
import Mathlib.Order.Lex
import Mathlib.Data.Prod.Lex

/-! # The Gregorian calendar

The calendar with its leap years on all years, those before its introduction and those before the
year 1 too. Days are counted by the lengths of the years and the months before them. -/

namespace GStore.Calendar

def IsLeap (year : ℤ) : Prop := (4 ∣ year ∧ ¬ 100 ∣ year) ∨ 400 ∣ year

instance (year : ℤ) : Decidable (IsLeap year) := inferInstanceAs (Decidable (_ ∨ _))

def monthLength (year month : ℤ) : ℤ :=
  if month = 2 then if IsLeap year then 29 else 28
  else if month = 4 ∨ month = 6 ∨ month = 9 ∨ month = 11 then 30
  else 31

structure Date where
  year : ℤ
  month : ℤ
  day : ℤ
deriving DecidableEq

namespace Date

structure Valid (date : Date) : Prop where
  month_pos : 1 ≤ date.month
  month_le : date.month ≤ 12
  day_pos : 1 ≤ date.day
  day_le : date.day ≤ monthLength date.year date.month

/-- The order of dates, by the year, then the month, then the day. -/
def Before (first second : Date) : Prop :=
  first.year < second.year ∨ first.year = second.year ∧
    (first.month < second.month ∨ first.month = second.month ∧ first.day < second.day)

end Date

/-! ## Counting days -/

/-- The days of the years from 1 up to this one, or of those from this one up to 1, as a negative
number. -/
def yearStart (year : ℤ) : ℤ :=
  365 * (year - 1) + (year - 1) / 4 - (year - 1) / 100 + (year - 1) / 400

/-- The days of the months before this one. -/
def monthStart (year month : ℤ) : ℤ :=
  ((List.range (month - 1).toNat).map fun index : ℕ => monthLength year (index + 1)).sum

/-- The days since the first of January 1970. -/
def Date.number (date : Date) : ℤ :=
  yearStart date.year - yearStart 1970 + monthStart date.year date.month + (date.day - 1)

variable {year month : ℤ} {first second date : Date}

theorem yearStart_succ (year : ℤ) :
    yearStart (year + 1) = yearStart year + if IsLeap year then 366 else 365 := by
  unfold yearStart
  by_cases leap : IsLeap year
  · rw [if_pos leap]
    unfold IsLeap at leap
    omega
  · rw [if_neg leap]
    unfold IsLeap at leap
    omega

theorem monthLength_pos (year month : ℤ) : 28 ≤ monthLength year month := by
  unfold monthLength
  split_ifs <;> omega

theorem monthStart_succ (start : 1 ≤ month) :
    monthStart year (month + 1) = monthStart year month + monthLength year month := by
  have count : (month + 1 - 1).toNat = (month - 1).toNat + 1 := by omega
  have index : (((month - 1).toNat : ℕ) : ℤ) + 1 = month := by omega
  rw [monthStart, monthStart, count, List.range_succ, List.map_append, List.sum_append,
    List.map_singleton, List.sum_singleton, index]

/-- Where the months of a year begin. -/
theorem monthStart_eq (start : 1 ≤ month) (stop : month ≤ 13) :
    monthStart year month = (367 * month - 362) / 12 -
      if month ≤ 2 then 0 else if IsLeap year then 1 else 2 := by
  have one : monthStart year 1 = 0 := rfl
  have next : ∀ before : ℤ, 1 ≤ before → monthStart year (before + 1) =
      monthStart year before + monthLength year before := fun before => monthStart_succ
  have lengths : ∀ before, monthLength year before =
      if before = 2 then if IsLeap year then 29 else 28
      else if before = 4 ∨ before = 6 ∨ before = 9 ∨ before = 11 then 30 else 31 := fun _ => rfl
  have two := next 1 (by omega)
  have three := next 2 (by omega)
  have four := next 3 (by omega)
  have five := next 4 (by omega)
  have six := next 5 (by omega)
  have seven := next 6 (by omega)
  have eight := next 7 (by omega)
  have nine := next 8 (by omega)
  have ten := next 9 (by omega)
  have eleven := next 10 (by omega)
  have twelve := next 11 (by omega)
  have thirteen := next 12 (by omega)
  simp only [lengths] at two three four five six seven eight nine ten eleven twelve thirteen
  norm_num at two three four five six seven eight nine ten eleven twelve thirteen
  by_cases leap : IsLeap year
  · simp only [leap, if_true] at three ⊢
    interval_cases month <;> norm_num <;> omega
  · simp only [leap, if_false] at three ⊢
    interval_cases month <;> norm_num <;> omega

/-- A date lies within its year. -/
theorem Date.Valid.within (valid : date.Valid) :
    0 ≤ monthStart date.year date.month + (date.day - 1) ∧
      monthStart date.year date.month + (date.day - 1) <
        yearStart (date.year + 1) - yearStart date.year := by
  have start := valid.month_pos
  have stop := valid.month_le
  have first := valid.day_pos
  have last := valid.day_le
  have here := @monthStart_eq date.year date.month start (by omega)
  have after := @monthStart_eq date.year (date.month + 1) (by omega) (by omega)
  rw [monthStart_succ start] at after
  rw [yearStart_succ]
  split_ifs at here after ⊢ <;> omega

theorem yearStart_mono {early late : ℤ} (le : early ≤ late) : yearStart early ≤ yearStart late := by
  unfold yearStart
  omega

theorem monthStart_mono {early late : ℤ} (start : 1 ≤ early) (le : early < late)
    (stop : late ≤ 12) : monthStart year early + monthLength year early ≤ monthStart year late := by
  have here := @monthStart_eq year (early + 1) (by omega) (by omega)
  have there := @monthStart_eq year late (by omega) (by omega)
  rw [monthStart_succ start] at here
  split_ifs at here there <;> omega

/-- A later date has a larger number. -/
theorem Date.Valid.number_lt (validFirst : first.Valid) (validSecond : second.Valid)
    (before : first.Before second) : first.number < second.number := by
  have insideFirst := validFirst.within
  have insideSecond := validSecond.within
  unfold Date.number
  rcases before with earlier | ⟨sameYear, earlier | ⟨sameMonth, earlier⟩⟩
  · have years := @yearStart_mono (first.year + 1) second.year (by omega)
    omega
  · have months := @monthStart_mono second.year first.month second.month validFirst.month_pos
      earlier validSecond.month_le
    have day := validFirst.day_le
    have start := validSecond.day_pos
    rw [sameYear] at day ⊢
    omega
  · rw [sameYear, sameMonth]
    omega

/-! ## Going on and back -/

/-- The date of the next day. -/
def Date.next (date : Date) : Date :=
  if date.day < monthLength date.year date.month then ⟨date.year, date.month, date.day + 1⟩
  else if date.month < 12 then ⟨date.year, date.month + 1, 1⟩
  else ⟨date.year + 1, 1, 1⟩

def Date.previous (date : Date) : Date :=
  if 1 < date.day then ⟨date.year, date.month, date.day - 1⟩
  else if 1 < date.month then
    ⟨date.year, date.month - 1, monthLength date.year (date.month - 1)⟩
  else ⟨date.year - 1, 12, 31⟩

theorem monthStart_thirteen (year : ℤ) :
    monthStart year 13 = yearStart (year + 1) - yearStart year := by
  rw [yearStart_succ, monthStart_eq (by omega) (by omega)]
  split_ifs <;> omega

theorem Date.Valid.next (valid : date.Valid) :
    date.next.Valid ∧ date.next.number = date.number + 1 := by
  obtain ⟨low, high, first, last⟩ := valid
  have lengths := monthLength_pos date.year (date.month + 1)
  have along := @monthStart_succ date.year date.month low
  have year := monthStart_thirteen date.year
  have newYear : monthStart (date.year + 1) 1 = 0 := rfl
  have january : monthLength (date.year + 1) 1 = 31 := rfl
  unfold Date.next Date.number
  split_ifs with same sameYear
  · exact ⟨⟨low, high, by dsimp only; omega, by dsimp only; omega⟩, by dsimp only; omega⟩
  · exact ⟨⟨by dsimp only; omega, by dsimp only; omega, le_refl 1, by dsimp only; omega⟩,
      by dsimp only; omega⟩
  · have december : date.month = 12 := by omega
    rw [december] at along same last
    rw [december]
    dsimp only
    rw [newYear]
    refine ⟨⟨le_refl 1, by norm_num, le_refl 1, by dsimp only; omega⟩, ?_⟩
    norm_num at along
    omega

theorem Date.Valid.previous (valid : date.Valid) :
    date.previous.Valid ∧ date.previous.number = date.number - 1 := by
  obtain ⟨low, high, first, last⟩ := valid
  have lengths := monthLength_pos date.year (date.month - 1)
  have year := monthStart_thirteen (date.year - 1)
  have newYear : monthStart date.year 1 = 0 := rfl
  have december : monthLength (date.year - 1) 12 = 31 := rfl
  unfold Date.previous Date.number
  split_ifs with same sameYear
  · exact ⟨⟨low, high, by dsimp only; omega, by dsimp only; omega⟩, by dsimp only; omega⟩
  · have along := @monthStart_succ date.year (date.month - 1) (by omega)
    rw [sub_add_cancel] at along
    exact ⟨⟨by dsimp only; omega, by dsimp only; omega, by dsimp only; omega, le_refl _⟩,
      by dsimp only; omega⟩
  · have january : date.month = 1 := by omega
    have along := @monthStart_succ (date.year - 1) 12 (by norm_num)
    norm_num at along
    rw [january]
    dsimp only
    rw [newYear]
    refine ⟨⟨by norm_num, by norm_num, by norm_num, le_of_eq december.symm⟩, ?_⟩
    rw [sub_add_cancel] at year
    omega

/-- Every number is that of a date. -/
theorem exists_date (number : ℤ) : ∃ date : Date, date.Valid ∧ date.number = number := by
  induction number with
  | zero =>
    refine ⟨⟨1970, 1, 1⟩, ⟨by norm_num, by norm_num, by norm_num, ?_⟩, rfl⟩
    exact (show (1 : ℤ) ≤ 31 by norm_num)
  | succ number induction =>
    obtain ⟨date, valid, counted⟩ := induction
    exact ⟨date.next, valid.next.1, by rw [valid.next.2, counted]⟩
  | pred number induction =>
    obtain ⟨date, valid, counted⟩ := induction
    exact ⟨date.previous, valid.previous.1, by rw [valid.previous.2, counted]⟩

end GStore.Calendar
