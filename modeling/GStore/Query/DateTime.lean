import GStore.Foundation.Calendar
import GStore.Foundation.Checked
import GStore.Model.Utf8
import GStore.Reason.Rules

/-! # Dates and times

`query/value.rs`: the parser of `xsd:dateTime`, the number of a day and the day of a number. The
steps are those of `i64`; one that overflows has no result. The digits of a fraction are kept as
they stand. -/

namespace GStore.Query.DateTime

open Calendar Reason

/-! ## The arithmetic of `i64` -/

def add (left right : ℤ) : Option ℤ := checked 64 (left + right)

def sub (left right : ℤ) : Option ℤ := checked 64 (left - right)

def mul (left right : ℤ) : Option ℤ := checked 64 (left * right)

/-! ## Parsing -/

def isAsciiDigit (byte : UInt8) : Bool := 48 ≤ byte.toNat && byte.toNat ≤ 57

/-- The loop of `digits_to_i64`. -/
def digitsFrom (value : ℤ) : Bytes → Option ℤ
  | [] => some value
  | byte :: rest => do
    if isAsciiDigit byte then
      let value ← add (← mul value 10) (byte.toNat - 48 : ℕ)
      digitsFrom value rest
    else none

def digitsToI64 (bytes : Bytes) : Option ℤ := if bytes = [] then none else digitsFrom 0 bytes

def expectByte (byte : UInt8) : Bytes → Option Bytes
  | [] => none
  | first :: rest => if first = byte then some rest else none

def takeDigits (count : ℕ) (bytes : Bytes) : Option (ℤ × Bytes) :=
  if bytes.length < count then none
  else do
    let value ← digitsToI64 (bytes.take count)
    return (value, bytes.drop count)

def isLeapYear (year : ℤ) : Bool :=
  (year.tmod 4 = 0 ∧ year.tmod 100 ≠ 0) ∨ year.tmod 400 = 0

def daysInMonth (year month : ℤ) : ℤ :=
  if month ∈ [1, 3, 5, 7, 8, 10, 12] then 31
  else if month ∈ [4, 6, 9, 11] then 30
  else if month = 2 ∧ isLeapYear year then 29
  else if month = 2 then 28
  else 0

structure DateTimeParts where
  year : ℤ
  month : ℤ
  day : ℤ
  hour : ℤ
  minute : ℤ
  second : ℤ
  frac : Bytes
  tzOffsetSecs : Option ℤ
deriving DecidableEq

def DateTimeParts.date (parts : DateTimeParts) : Date := ⟨parts.year, parts.month, parts.day⟩

/-- The digits of a fraction. The point alone is no number. -/
def parseFraction (bytes : Bytes) : Option (Bytes × Bytes) :=
  match bytes with
  | 46 :: rest =>
    if rest.takeWhile isAsciiDigit = [] then none
    else some (rest.takeWhile isAsciiDigit, rest.dropWhile isAsciiDigit)
  | _ => some ([], bytes)

/-- Hour, minute, second and fraction after a `T`. -/
def parseTime (bytes : Bytes) : Option ((ℤ × ℤ × ℤ × Bytes) × Bytes) :=
  match bytes with
  | 84 :: rest => do
    let (hour, rest) ← takeDigits 2 rest
    let rest ← expectByte 58 rest
    let (minute, rest) ← takeDigits 2 rest
    let rest ← expectByte 58 rest
    let (second, rest) ← takeDigits 2 rest
    let (frac, rest) ← parseFraction rest
    return ((hour, minute, second, frac), rest)
  | _ => some ((0, 0, 0, []), bytes)

/-- The offset after a sign. -/
def parseOffset (sign : ℤ) (bytes : Bytes) : Option (ℤ × Bytes) := do
  let (hours, rest) ← takeDigits 2 bytes
  let rest ← expectByte 58 rest
  let (minutes, rest) ← takeDigits 2 rest
  return (sign * (hours * 3600 + minutes * 60), rest)

/-- The seconds east of UTC, up to the end. -/
def parseZone (bytes : Bytes) : Option (Option ℤ) :=
  match bytes with
  | [] => some none
  | [90] => some (some 0)
  | 43 :: rest => do
    let (offset, rest) ← parseOffset 1 rest
    if rest = [] then some (some offset) else none
  | 45 :: rest => do
    let (offset, rest) ← parseOffset (-1) rest
    if rest = [] then some (some offset) else none
  | _ => none

/-- The fields, from the digits of the year on. -/
def parseFields (negYear : Bool) (bytes : Bytes) : Option DateTimeParts := do
  let digits := bytes.takeWhile isAsciiDigit
  if digits.length < 4 then none
  else
    let number ← digitsToI64 digits
    let year := if negYear then -number else number
    let rest ← expectByte 45 (bytes.dropWhile isAsciiDigit)
    let (month, rest) ← takeDigits 2 rest
    let rest ← expectByte 45 rest
    let (day, rest) ← takeDigits 2 rest
    let ((hour, minute, second, frac), rest) ← parseTime rest
    let tzOffsetSecs ← parseZone rest
    if ¬ (1 ≤ month ∧ month ≤ 12) ∨ day < 1 ∨ day > daysInMonth year month ∨ hour > 23 ∨
        minute > 59 ∨ second > 59 then none
    else some { year, month, day, hour, minute, second, frac, tzOffsetSecs }

def parseDateTimeParts (text : Text) : Option DateTimeParts :=
  match utf8 (trim text) with
  | 45 :: rest => parseFields true rest
  | bytes => parseFields false bytes

/-! ## Days -/

/-- A dividend that is not negative, or one that is moved down before the division. -/
def shiftedDown (dividend shift : ℤ) : Option ℤ :=
  if 0 ≤ dividend then some dividend else sub dividend shift

def daysFromCivil (year month day : ℤ) : Option ℤ := do
  let year ← if month ≤ 2 then sub year 1 else pure year
  let era := (← shiftedDown year 399).tdiv 400
  let yoe ← sub year (← mul era 400)
  let march ← if 2 < month then sub month 3 else add month 9
  let doy ← sub (← add ((← add (← mul 153 march) 2).tdiv 5) day) 1
  let doe ← add (← sub (← add (← mul yoe 365) (yoe.tdiv 4)) (yoe.tdiv 100)) doy
  sub (← add (← mul era 146097) doe) 719468

/-- The year of the era in which a day of the era is. -/
def yearOfEra (doe : ℤ) : Option ℤ := do
  let days ← sub (← add (← sub doe (doe.tdiv 1460)) (doe.tdiv 36524)) (doe.tdiv 146096)
  return days.tdiv 365

def dayOfYear (doe yoe : ℤ) : Option ℤ := do
  sub doe (← sub (← add (← mul 365 yoe) (yoe.tdiv 4)) (yoe.tdiv 100))

/-- The month and the day of the month, from a day of a year that begins in March. -/
def monthAndDay (doy : ℤ) : Option (ℤ × ℤ) := do
  let march := (← add (← mul 5 doy) 2).tdiv 153
  let day ← add (← sub doy ((← add (← mul 153 march) 2).tdiv 5)) 1
  let month ← if march < 10 then add march 3 else sub march 9
  return (month, day)

def civilFromDays (days : ℤ) : Option (ℤ × ℤ × ℤ) := do
  let shifted ← add days 719468
  let era := (← shiftedDown shifted 146096).tdiv 146097
  let doe ← sub shifted (← mul era 146097)
  let yoe ← yearOfEra doe
  let year ← add yoe (← mul era 400)
  let doy ← dayOfYear doe yoe
  let (month, day) ← monthAndDay doy
  let year ← if month ≤ 2 then add year 1 else pure year
  return (year, month, day)

/-- The whole seconds of the instant that `parse_xsd_datetime` computes. -/
def instantSecs (parts : DateTimeParts) : Option ℤ := do
  let days ← daysFromCivil parts.year parts.month parts.day
  let secs ← mul days 86400
  let secs ← add secs (← mul parts.hour 3600)
  let secs ← add secs (← mul parts.minute 60)
  let secs ← add secs parts.second
  sub secs (parts.tzOffsetSecs.getD 0)

/-! ## Years that begin in March -/

/-- A date as the algorithm counts it: the years begin with the first of March, so that a leap day
is the last day of its year, and four hundred years make an era. -/
structure Marches (date : Date) (year march doy : ℤ) : Prop where
  number : date.number + 719468 =
    year / 400 * 146097 + (year % 400 * 365 + year % 400 / 4 - year % 400 / 100 + doy)
  nonneg : 0 ≤ doy
  le : doy ≤ 365
  leap : doy = 365 → (4 ∣ year % 400 + 1 ∧ ¬ 100 ∣ year % 400 + 1) ∨ 400 ∣ year % 400 + 1
  day : date.day = doy - (153 * march + 2) / 5 + 1
  monthOf : (5 * doy + 2) / 153 = march

variable {date : Date}

/-- The days before a month, counted from March. -/
theorem march_days {month : ℤ} (low : 3 ≤ month) (high : month ≤ 12) :
    (153 * (month - 3) + 2) / 5 = (367 * month - 362) / 12 - 61 := by
  interval_cases month <;> rfl

/-- The month in which a day of the year is. -/
theorem month_of_day {march day : ℤ} (low : 0 ≤ march) (high : march ≤ 11) (first : 1 ≤ day)
    (last : day ≤ 31) (short : march = 1 ∨ march = 3 ∨ march = 6 ∨ march = 8 → day ≤ 30)
    (shortest : march = 11 → day ≤ 29) :
    (5 * ((153 * march + 2) / 5 + day - 1) + 2) / 153 = march := by
  interval_cases march <;> omega

theorem marches_early (valid : date.Valid) (early : date.month ≤ 2) :
    Marches date (date.year - 1) (date.month + 9)
      ((153 * (date.month + 9) + 2) / 5 + date.day - 1) := by
  obtain ⟨low, high, first, last⟩ := valid
  have start := @monthStart_eq date.year date.month low (by omega)
  have count : date.number =
      yearStart date.year - 719162 + monthStart date.year date.month + (date.day - 1) := rfl
  rw [if_pos early] at start
  unfold monthLength IsLeap at last
  unfold yearStart at count
  refine ⟨?_, ?_, ?_, ?_, by omega, ?_⟩
  · omega
  · omega
  · split_ifs at last <;> omega
  · split_ifs at last <;> omega
  · apply month_of_day (by omega) (by omega) first
    · split_ifs at last <;> omega
    · omega
    · intro february
      split_ifs at last <;> omega

theorem marches_late (valid : date.Valid) (late : 2 < date.month) :
    Marches date date.year (date.month - 3)
      ((153 * (date.month - 3) + 2) / 5 + date.day - 1) := by
  obtain ⟨low, high, first, last⟩ := valid
  have start := @monthStart_eq date.year date.month low (by omega)
  have count : date.number =
      yearStart date.year - 719162 + monthStart date.year date.month + (date.day - 1) := rfl
  have days := march_days late high
  rw [if_neg (by omega)] at start
  unfold IsLeap at start
  unfold monthLength at last
  unfold yearStart at count
  have short : date.day ≤ 31 := by split_ifs at last <;> omega
  refine ⟨?_, by omega, by omega, by omega, by omega, ?_⟩
  · split_ifs at start <;> omega
  · apply month_of_day (by omega) (by omega) first short
    · split_ifs at last <;> omega
    · omega

/-! ## An era -/

section Era

variable {yoe doy doe : ℤ} (start : 0 ≤ yoe) (stop : yoe ≤ 399) (first : 0 ≤ doy)
  (last : doy ≤ 365)
  (leap : doy = 365 → (4 ∣ yoe + 1 ∧ ¬ 100 ∣ yoe + 1) ∨ 400 ∣ yoe + 1)
  (day : doe = yoe * 365 + yoe / 4 - yoe / 100 + doy)

include start stop first last leap day

/-- The centuries before a day of the era. Only the last day of the era is in none by this
count. -/
theorem centuries_of_day : doe / 36524 - doe / 146096 = yoe / 100 := by
  have low : 36524 * (yoe / 100) ≤ doe := by omega
  by_cases final : doe = 146096
  · subst final
    omega
  · have high : doe < 36524 * (yoe / 100) + 36524 := by
      by_cases long : doy = 365
      · rcases leap long with four | all
        · have before : yoe ≤ 100 * (yoe / 100) + 95 := by omega
          omega
        · have same : yoe = 399 := by omega
          subst same
          omega
      · omega
    omega

/-- The year of a day of the era. -/
theorem year_of_day : (doe - doe / 1460 + doe / 36524 - doe / 146096) / 365 = yoe := by
  have centuries := centuries_of_day start stop first last leap day
  have upper : doe / 1460 ≤ yoe / 4 + doy := by omega
  have lower : yoe / 4 + doy - 364 ≤ doe / 1460 := by
    by_cases long : doy = 365
    · have four : 4 ∣ yoe + 1 := by
        rcases leap long with four | all <;> omega
      omega
    · omega
  omega

end Era

/-! ## The steps of the algorithms -/

section Steps

variable {α : Type} {value dividend shift : ℤ} {result : α}

theorem bind_checked {next : ℤ → Option α} :
    (checked 64 value).bind next = some result ↔ InWidth 64 value ∧ next value = some result := by
  rw [checked]
  split <;> simp_all

theorem bind_shiftedDown {next : ℤ → Option α} :
    (shiftedDown dividend shift).bind next = some result ↔
      (0 ≤ dividend ∨ InWidth 64 (dividend - shift)) ∧
        next (if 0 ≤ dividend then dividend else dividend - shift) = some result := by
  rw [shiftedDown]
  split
  · rename_i nonneg
    simp [nonneg]
  · rename_i negative
    rw [sub, bind_checked]
    simp [negative]

end Steps

/-- The days of a date are counted as far as `i64` goes. -/
structure Counted (date : Date) : Prop where
  number : InWidth 64 date.number
  shifted : InWidth 64 (date.number + 719468)

theorem daysFromCivil_eq_some (valid : date.Valid) {days : ℤ} :
    daysFromCivil date.year date.month date.day = some days ↔
      days = date.number ∧ Counted date := by
  have floor : ∀ year : ℤ, (if 0 ≤ year then year else year - 399).tdiv 400 = year / 400 :=
    @tdiv_of_shifted 400 (by norm_num)
  have modulo : ∀ year : ℤ, year - year / 400 * 400 = year % 400 := by
    intro year
    omega
  have counted : Counted date ↔ InWidth 64 date.number ∧ InWidth 64 (date.number + 719468) :=
    ⟨fun inside => ⟨inside.1, inside.2⟩, fun inside => ⟨inside.1, inside.2⟩⟩
  have low := valid.month_pos
  have high := valid.month_le
  have first := valid.day_pos
  rw [counted]
  unfold daysFromCivil
  by_cases early : date.month ≤ 2
  · have notLate : ¬ 2 < date.month := by omega
    have months : 0 ≤ 153 * (date.month + 9) + 2 := by omega
    have years : 0 ≤ (date.year - 1) % 400 := by omega
    obtain ⟨number, nonneg, le, -, -, -⟩ := marches_early valid early
    simp only [if_pos early, if_neg notLate, sub, add, mul, Option.bind_eq_bind, bind_checked,
      bind_shiftedDown, checked_eq_some, floor, modulo, Int.tdiv_eq_ediv_of_nonneg months,
      Int.tdiv_eq_ediv_of_nonneg years, inWidth_64]
    constructor <;> omega
  · have late : 2 < date.month := by omega
    have months : 0 ≤ 153 * (date.month - 3) + 2 := by omega
    have years : 0 ≤ date.year % 400 := by omega
    obtain ⟨number, nonneg, le, -, -, -⟩ := marches_late valid late
    simp only [if_neg early, if_pos late, sub, add, mul, Option.bind_eq_bind, bind_checked,
      Option.pure_def, Option.bind_some, bind_shiftedDown, checked_eq_some, floor, modulo,
      Int.tdiv_eq_ediv_of_nonneg months, Int.tdiv_eq_ediv_of_nonneg years, inWidth_64]
    constructor <;> omega

section Inverse

variable {year march doy doe yoe : ℤ}

theorem yearOfEra_of_day (inside : 0 ≤ doe ∧ doe ≤ 146096) :
    yearOfEra doe = some ((doe - doe / 1460 + doe / 36524 - doe / 146096) / 365) := by
  have above : 0 ≤ doe - doe / 1460 + doe / 36524 - doe / 146096 := by omega
  simp only [yearOfEra, sub, add, Option.bind_eq_bind, bind_checked, Option.pure_def,
    Int.tdiv_eq_ediv_of_nonneg inside.1, Int.tdiv_eq_ediv_of_nonneg above, inWidth_64, and_true]
  omega

theorem dayOfYear_of_day (days : doe = yoe * 365 + yoe / 4 - yoe / 100 + doy) (start : 0 ≤ yoe)
    (stop : yoe ≤ 399) (nonneg : 0 ≤ doy) (le : doy ≤ 365) : dayOfYear doe yoe = some doy := by
  simp only [dayOfYear, sub, add, mul, Option.bind_eq_bind, bind_checked, checked_eq_some,
    Int.tdiv_eq_ediv_of_nonneg start, inWidth_64]
  omega

theorem monthAndDay_of_day (months : 0 ≤ march ∧ march ≤ 11) (nonneg : 0 ≤ doy) (le : doy ≤ 365)
    (monthOf : (5 * doy + 2) / 153 = march) :
    monthAndDay doy = some (if march < 10 then march + 3 else march - 9,
      doy - (153 * march + 2) / 5 + 1) := by
  have fives : 0 ≤ 5 * doy + 2 := by omega
  have threes : 0 ≤ 153 * march + 2 := by omega
  simp only [monthAndDay, sub, add, mul, Option.bind_eq_bind, bind_checked, Option.pure_def,
    Int.tdiv_eq_ediv_of_nonneg fives, monthOf, Int.tdiv_eq_ediv_of_nonneg threes, inWidth_64]
  split_ifs
  · simp only [bind_checked, inWidth_64, and_true]
    omega
  · simp only [bind_checked, inWidth_64, and_true]
    omega

theorem Marches.civilFromDays (marches : Marches date year march doy)
    (months : 0 ≤ march ∧ march ≤ 11) (counted : Counted date) :
    civilFromDays date.number = some
      (if march < 10 then year else year + 1, if march < 10 then march + 3 else march - 9,
        date.day) := by
  obtain ⟨number, nonneg, le, leap, day, monthOf⟩ := marches
  obtain ⟨unshifted, shifted⟩ := counted
  have floor : ∀ year : ℤ, (if 0 ≤ year then year else year - 146096).tdiv 146097 =
    year / 146097 := @tdiv_of_shifted 146097 (by norm_num)
  have start : 0 ≤ year % 400 := by omega
  have stop : year % 400 ≤ 399 := by omega
  obtain ⟨doe, days⟩ : ∃ doe, doe = year % 400 * 365 + year % 400 / 4 - year % 400 / 100 + doy :=
    ⟨_, rfl⟩
  have inside : 0 ≤ doe ∧ doe ≤ 146096 := by omega
  have era : (date.number + 719468) / 146097 = year / 400 := by omega
  have left : date.number + 719468 - year / 400 * 146097 = doe := by omega
  rw [inWidth_64] at unshifted shifted
  unfold DateTime.civilFromDays
  simp only [sub, add, mul, Option.bind_eq_bind, bind_checked, bind_shiftedDown, floor, era, left,
    yearOfEra_of_day inside, year_of_day start stop nonneg le leap days, Option.bind_some,
    dayOfYear_of_day days start stop nonneg le, monthAndDay_of_day months nonneg le monthOf,
    inWidth_64]
  by_cases autumn : march < 10
  · have notEarly : ¬ march + 3 ≤ 2 := by omega
    simp only [if_pos autumn, if_neg notEarly, Option.pure_def, Option.bind_some,
      Option.some.injEq, Prod.mk.injEq, true_and]
    omega
  · have early : march - 9 ≤ 2 := by omega
    simp only [if_neg autumn, if_pos early, Option.pure_def, bind_checked, inWidth_64,
      Option.some.injEq, Prod.mk.injEq, true_and]
    omega

end Inverse

theorem civilFromDays_number (valid : date.Valid) (counted : Counted date) :
    civilFromDays date.number = some (date.year, date.month, date.day) := by
  have low := valid.month_pos
  have high := valid.month_le
  by_cases early : date.month ≤ 2
  · have found := (marches_early valid early).civilFromDays (by omega) counted
    rwa [if_neg (by omega), if_neg (by omega), sub_add_cancel, add_sub_cancel_right] at found
  · have found := (marches_late valid (by omega)).civilFromDays (by omega) counted
    rwa [if_pos (by omega), if_pos (by omega), sub_add_cancel] at found

/-! ## What the parser accepts -/

theorem isLeapYear_iff (year : ℤ) : isLeapYear year = true ↔ IsLeap year := by
  rw [isLeapYear, decide_eq_true_iff, IsLeap, ne_eq]
  simp only [← Int.dvd_iff_tmod_eq_zero]

theorem daysInMonth_eq {year month : ℤ} (low : 1 ≤ month) (high : month ≤ 12) :
    daysInMonth year month = monthLength year month := by
  have leap := isLeapYear_iff year
  unfold daysInMonth monthLength
  by_cases long : IsLeap year
  · simp only [leap.mpr long, long]
    interval_cases month <;> rfl
  · have short : isLeapYear year = false := by
      rw [← Bool.not_eq_true, leap]
      exact long
    simp only [short, long]
    interval_cases month <;> rfl

theorem digitsFrom_nonneg {bytes : Bytes} : ∀ {value result : ℤ}, 0 ≤ value →
    digitsFrom value bytes = some result → 0 ≤ result := by
  induction bytes with
  | nil =>
    intro value result nonneg read
    rw [← Option.some.inj read]
    exact nonneg
  | cons byte rest induction =>
    intro value result nonneg read
    rw [digitsFrom] at read
    split at read
    · obtain ⟨tens, shifted, read⟩ := Option.bind_eq_some_iff.mp read
      obtain ⟨next, added, read⟩ := Option.bind_eq_some_iff.mp read
      have tensAre := (checked_eq_some.mp shifted).2
      have nextIs := (checked_eq_some.mp added).2
      exact induction (by omega) read
    · cases read

theorem takeDigits_nonneg {count : ℕ} {bytes rest : Bytes} {value : ℤ}
    (read : takeDigits count bytes = some (value, rest)) : 0 ≤ value := by
  rw [takeDigits] at read
  split at read
  · cases read
  · obtain ⟨number, digits, same⟩ := Option.bind_eq_some_iff.mp read
    cases same
    rw [digitsToI64] at digits
    split at digits
    · cases digits
    · exact digitsFrom_nonneg (le_refl 0) digits

/-- The fields are those of a date and a time of day. -/
structure DateTimeParts.WellFormed (parts : DateTimeParts) : Prop where
  date : parts.date.Valid
  hour : 0 ≤ parts.hour ∧ parts.hour ≤ 23
  minute : 0 ≤ parts.minute ∧ parts.minute ≤ 59
  second : 0 ≤ parts.second ∧ parts.second ≤ 59

theorem parseTime_nonneg {bytes rest frac : Bytes} {hour minute second : ℤ}
    (read : parseTime bytes = some ((hour, minute, second, frac), rest)) :
    0 ≤ hour ∧ 0 ≤ minute ∧ 0 ≤ second := by
  unfold parseTime at read
  split at read
  · obtain ⟨⟨first, afterHour⟩, hours, read⟩ := Option.bind_eq_some_iff.mp read
    dsimp only at read
    obtain ⟨beforeMinute, -, read⟩ := Option.bind_eq_some_iff.mp read
    obtain ⟨⟨next, afterMinute⟩, minutes, read⟩ := Option.bind_eq_some_iff.mp read
    dsimp only at read
    obtain ⟨beforeSecond, -, read⟩ := Option.bind_eq_some_iff.mp read
    obtain ⟨⟨last, afterSecond⟩, seconds, read⟩ := Option.bind_eq_some_iff.mp read
    dsimp only at read
    obtain ⟨⟨digits, afterFrac⟩, -, read⟩ := Option.bind_eq_some_iff.mp read
    dsimp only [Option.pure_def] at read
    rw [Option.some.injEq, Prod.mk.injEq, Prod.mk.injEq, Prod.mk.injEq, Prod.mk.injEq] at read
    obtain ⟨⟨rfl, rfl, rfl, -⟩, -⟩ := read
    exact ⟨takeDigits_nonneg hours, takeDigits_nonneg minutes, takeDigits_nonneg seconds⟩
  · cases read
    exact ⟨le_refl 0, le_refl 0, le_refl 0⟩

theorem parseFields_wellFormed {negYear : Bool} {bytes : Bytes} {parts : DateTimeParts}
    (parsed : parseFields negYear bytes = some parts) : parts.WellFormed := by
  unfold parseFields at parsed
  dsimp only at parsed
  split at parsed
  · cases parsed
  · obtain ⟨number, -, parsed⟩ := Option.bind_eq_some_iff.mp parsed
    obtain ⟨afterYear, -, parsed⟩ := Option.bind_eq_some_iff.mp parsed
    obtain ⟨⟨month, afterMonth⟩, -, parsed⟩ := Option.bind_eq_some_iff.mp parsed
    obtain ⟨beforeDay, -, parsed⟩ := Option.bind_eq_some_iff.mp parsed
    obtain ⟨⟨day, afterDay⟩, -, parsed⟩ := Option.bind_eq_some_iff.mp parsed
    obtain ⟨⟨⟨hour, minute, second, frac⟩, afterTime⟩, time, parsed⟩ :=
      Option.bind_eq_some_iff.mp parsed
    obtain ⟨zone, -, parsed⟩ := Option.bind_eq_some_iff.mp parsed
    obtain ⟨hours, minutes, seconds⟩ := parseTime_nonneg time
    dsimp only at parsed
    generalize (if negYear then -number else number) = year at parsed
    split at parsed
    · cases parsed
    · rename_i proper
      push Not at proper
      obtain ⟨months, first, last, hourLe, minuteLe, secondLe⟩ := proper
      rw [daysInMonth_eq months.1 months.2] at last
      rw [← Option.some.inj parsed]
      exact ⟨⟨months.1, months.2, first, last⟩, ⟨hours, hourLe⟩, ⟨minutes, minuteLe⟩,
        ⟨seconds, secondLe⟩⟩

theorem parse_wellFormed {text : Text} {parts : DateTimeParts}
    (parsed : parseDateTimeParts text = some parts) : parts.WellFormed := by
  unfold parseDateTimeParts at parsed
  split at parsed
  · exact parseFields_wellFormed parsed
  · exact parseFields_wellFormed parsed

/-! ## Instants -/

/-- The seconds of the date and the time, without the offset. -/
def DateTimeParts.localSecs (parts : DateTimeParts) : ℤ :=
  parts.date.number * 86400 + parts.hour * 3600 + parts.minute * 60 + parts.second

/-- The day, the time on it and the instant are within the seconds of `i64`. -/
structure DateTimeParts.Countable (parts : DateTimeParts) : Prop where
  day : InWidth 64 (parts.date.number * 86400)
  time : InWidth 64 parts.localSecs
  instant : InWidth 64 (parts.localSecs - parts.tzOffsetSecs.getD 0)

theorem instantSecs_eq_some {parts : DateTimeParts} (wellFormed : parts.WellFormed) {secs : ℤ} :
    instantSecs parts = some secs ↔
      secs = parts.localSecs - parts.tzOffsetSecs.getD 0 ∧ parts.Countable := by
  have countable : parts.Countable ↔ InWidth 64 (parts.date.number * 86400) ∧
      InWidth 64 parts.localSecs ∧
      InWidth 64 (parts.localSecs - parts.tzOffsetSecs.getD 0) :=
    ⟨fun inside => ⟨inside.1, inside.2, inside.3⟩, fun inside => ⟨inside.1, inside.2.1, inside.2.2⟩⟩
  obtain ⟨date, hour, minute, second⟩ := wellFormed
  have counting : ∀ days, daysFromCivil parts.year parts.month parts.day = some days ↔
      days = parts.date.number ∧ Counted parts.date := fun days => daysFromCivil_eq_some date
  have counted : Counted parts.date ↔
      InWidth 64 parts.date.number ∧ InWidth 64 (parts.date.number + 719468) :=
    ⟨fun inside => ⟨inside.1, inside.2⟩, fun inside => ⟨inside.1, inside.2⟩⟩
  rw [countable, instantSecs]
  unfold DateTimeParts.localSecs
  simp only [Option.bind_eq_bind, Option.bind_eq_some_iff (x := daysFromCivil _ _ _), counting,
    counted, sub, add, mul, bind_checked, checked_eq_some, inWidth_64]
  constructor
  · rintro ⟨days, ⟨rfl, -⟩, steps⟩
    omega
  · rintro ⟨rfl, inside⟩
    refine ⟨_, ⟨rfl, ?_⟩, ?_⟩
    · omega
    · omega

/-! ## The calendar of the source -/

theorem daysFromCivil_increasing {first second : Date} (validFirst : first.Valid)
    (validSecond : second.Valid) (before : first.Before second) :
    (∃ early late, daysFromCivil first.year first.month first.day = some early ∧
        daysFromCivil second.year second.month second.day = some late ∧ early < late) ↔
      Counted first ∧ Counted second := by
  have less := validFirst.number_lt validSecond before
  constructor
  · rintro ⟨early, late, countedFirst, countedSecond, -⟩
    exact ⟨((daysFromCivil_eq_some validFirst).mp countedFirst).2,
      ((daysFromCivil_eq_some validSecond).mp countedSecond).2⟩
  · intro counted
    exact ⟨first.number, second.number,
      (daysFromCivil_eq_some validFirst).mpr ⟨rfl, counted.1⟩,
      (daysFromCivil_eq_some validSecond).mpr ⟨rfl, counted.2⟩, less⟩

theorem civil_of_days (valid : date.Valid) :
    (daysFromCivil date.year date.month date.day).bind civilFromDays =
        some (date.year, date.month, date.day) ↔ Counted date := by
  constructor
  · intro inverse
    obtain ⟨days, counted, -⟩ := Option.bind_eq_some_iff.mp inverse
    exact ((daysFromCivil_eq_some valid).mp counted).2
  · intro counted
    rw [(daysFromCivil_eq_some valid).mpr ⟨rfl, counted⟩, Option.bind_some]
    exact civilFromDays_number valid counted

theorem days_of_civil (days : ℤ) :
    (∃ date : Date, date.Valid ∧ civilFromDays days = some (date.year, date.month, date.day) ∧
        daysFromCivil date.year date.month date.day = some days) ↔
      InWidth 64 days ∧ InWidth 64 (days + 719468) := by
  constructor
  · rintro ⟨date, valid, -, counted⟩
    obtain ⟨rfl, inside⟩ := (daysFromCivil_eq_some valid).mp counted
    exact ⟨inside.number, inside.shifted⟩
  · rintro ⟨number, shifted⟩
    obtain ⟨date, valid, rfl⟩ := exists_date days
    have counted : Counted date := ⟨number, shifted⟩
    exact ⟨date, valid, civilFromDays_number valid counted,
      (daysFromCivil_eq_some valid).mpr ⟨rfl, counted⟩⟩

/-- A text that is accepted has an instant in `i64` when its day, its time and its offset do, days
grow with the dates, and the two conversions are inverse, wherever `i64` can count the days. -/
theorem date_arithmetic (text : Text) (first second : Date) (days : ℤ) :
    (∀ parts, parseDateTimeParts text = some parts →
        ((∃ secs, instantSecs parts = some secs) ↔ parts.Countable) ∧
        (parts.Countable →
          instantSecs parts = some (parts.localSecs - parts.tzOffsetSecs.getD 0))) ∧
      (first.Valid → second.Valid → first.Before second →
        ((∃ early late, daysFromCivil first.year first.month first.day = some early ∧
            daysFromCivil second.year second.month second.day = some late ∧ early < late) ↔
          Counted first ∧ Counted second)) ∧
      (first.Valid →
        ((daysFromCivil first.year first.month first.day).bind civilFromDays =
            some (first.year, first.month, first.day) ↔ Counted first)) ∧
      ((∃ date : Date, date.Valid ∧ civilFromDays days = some (date.year, date.month, date.day) ∧
          daysFromCivil date.year date.month date.day = some days) ↔
        InWidth 64 days ∧ InWidth 64 (days + 719468)) := by
  refine ⟨?_, daysFromCivil_increasing, civil_of_days, days_of_civil days⟩
  intro parts parsed
  have computed := @instantSecs_eq_some parts (parse_wellFormed parsed)
  constructor
  · constructor
    · rintro ⟨secs, instant⟩
      exact (computed.mp instant).2
    · intro countable
      exact ⟨_, computed.mpr ⟨rfl, countable⟩⟩
  · intro countable
    exact computed.mpr ⟨rfl, countable⟩

/-- The last day of a leap year and the day after it. -/
theorem date_arithmetic_leap :
    ∃ early late, daysFromCivil 2024 12 31 = some early ∧ daysFromCivil 2025 1 1 = some late ∧
      early < late := by
  have validFirst : Date.Valid ⟨2024, 12, 31⟩ := ⟨by decide, by decide, by decide, by decide⟩
  have validSecond : Date.Valid ⟨2025, 1, 1⟩ := ⟨by decide, by decide, by decide, by decide⟩
  have before : Date.Before ⟨2024, 12, 31⟩ ⟨2025, 1, 1⟩ := Or.inl (by decide)
  have counted : Counted ⟨2024, 12, 31⟩ ∧ Counted ⟨2025, 1, 1⟩ :=
    ⟨⟨by decide, by decide⟩, ⟨by decide, by decide⟩⟩
  exact ((date_arithmetic [] ⟨2024, 12, 31⟩ ⟨2025, 1, 1⟩ 0).2.1 validFirst validSecond before).mpr
    counted

/-- The greatest year that the parser reads has more days than `i64` counts. -/
theorem greatest_year_overflows :
    ∃ parts, parseDateTimeParts "9223372036854775807-01-01".toList = some parts ∧
      instantSecs parts = none := by
  exact ⟨⟨9223372036854775807, 1, 1, 0, 0, 0, [], none⟩, by decide, by decide⟩

end GStore.Query.DateTime
