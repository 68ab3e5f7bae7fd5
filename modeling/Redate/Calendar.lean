/-
The proleptic Gregorian calendar: leap years, lengths of months, dates that carry a proof that
they name a day, the English month names, and two-digit years.
-/

namespace Redate

/-! ## Days of the calendar -/

/-- Every fourth year is a leap year, except centuries that 400 does not divide. -/
def isLeapYear (year : Int) : Bool :=
  year % 4 == 0 && (year % 100 != 0 || year % 400 == 0)

/-- Zero for a number that is no month, so a month without days needs no case of its own. -/
def daysInMonth (year : Int) : Nat → Nat
  | 1 | 3 | 5 | 7 | 8 | 10 | 12 => 31
  | 4 | 6 | 9 | 11 => 30
  | 2 => if isLeapYear year then 29 else 28
  | _ => 0

/-- The first year of the supported range. -/
def firstYear : Int := -262143

/-- The last year of the supported range. -/
def lastYear : Int := 262142

/-- The three numbers name a day: the year is supported and the month has that day. -/
def IsDay (year : Int) (month day : Nat) : Prop :=
  (firstYear ≤ year ∧ year ≤ lastYear) ∧ 1 ≤ day ∧ day ≤ daysInMonth year month

instance (year : Int) (month day : Nat) : Decidable (IsDay year month day) :=
  inferInstanceAs (Decidable (_ ∧ _))

/-- A day of the calendar. -/
structure Date where
  year : Int
  month : Nat
  day : Nat
  isDay : IsDay year month day
  deriving DecidableEq, Repr

/-- The date of three numbers, if they name a day. -/
def Date.of? (year : Int) (month day : Nat) : Option Date :=
  if h : IsDay year month day then some ⟨year, month, day, h⟩ else none

theorem Date.of?_self (d : Date) : Date.of? d.year d.month d.day = some d :=
  dif_pos d.isDay

theorem Date.of?_eq_none_iff {year : Int} {month day : Nat} :
    Date.of? year month day = none ↔ ¬ IsDay year month day := by
  unfold Date.of?; split <;> simp_all

theorem daysInMonth_pos_iff {year : Int} {month : Nat} :
    0 < daysInMonth year month ↔ 1 ≤ month ∧ month ≤ 12 := by
  fun_cases daysInMonth year month <;> simp_all
  omega

theorem daysInMonth_le (year : Int) (month : Nat) : daysInMonth year month ≤ 31 := by
  unfold daysInMonth
  split <;> (try split) <;> omega

theorem Date.month_bounds (d : Date) : 1 ≤ d.month ∧ d.month ≤ 12 :=
  daysInMonth_pos_iff.1 (Nat.lt_of_lt_of_le d.isDay.2.1 d.isDay.2.2)

theorem Date.day_bounds (d : Date) : 1 ≤ d.day ∧ d.day ≤ 31 :=
  ⟨d.isDay.2.1, Nat.le_trans d.isDay.2.2 (daysInMonth_le _ _)⟩

/-! ## Month names -/

/-- Month names are written in full or cut to their first three letters. -/
inductive NameLength
  | full
  | short
  deriving DecidableEq, Repr

/-- The English month names in full, January first. -/
def longMonthNames : List (List Char) :=
  ["January".toList, "February".toList, "March".toList, "April".toList, "May".toList,
    "June".toList, "July".toList, "August".toList, "September".toList, "October".toList,
    "November".toList, "December".toList]

/-- The month names at their length, January first. -/
def monthNames : NameLength → List (List Char)
  | .full => longMonthNames
  | .short => longMonthNames.map (·.take 3)

theorem length_monthNames (l : NameLength) : (monthNames l).length = 12 := by
  cases l <;> rfl

/-- The name of month number `month`, counted from one. -/
def nameOfMonth (l : NameLength) (month : Nat) : List Char :=
  (monthNames l).getD (month - 1) []

/-! ## Two-digit years -/

/-- The year a two-digit year stands for: 69 to 99 are in the 1900s, 0 to 68 in the 2000s. The
value is a word: it is compared without its sign and added with it. -/
def expandYear (value : UInt32) : Int :=
  (if 69 ≤ value then 1900 else 2000) + value.toInt32.toInt

theorem expandYear_toUInt32 {n : Nat} (h : n < 100) :
    expandYear n.toUInt32 = if 69 ≤ n then 1900 + n else 2000 + n := by
  revert n; decide

/-! ## Ordinals -/

/-- The suffix that makes a day an ordinal. The last digit alone decides, so the teens read
11st, 12nd and 13rd. -/
def ordinalSuffix (day : Nat) : List Char :=
  match day % 10 with
  | 1 => ['s', 't']
  | 2 => ['n', 'd']
  | 3 => ['r', 'd']
  | _ => ['t', 'h']

end Redate
