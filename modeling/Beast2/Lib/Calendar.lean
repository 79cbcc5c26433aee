import Mathlib.Algebra.BigOperators.Group.Finset.Basic
import Mathlib.Algebra.GroupWithZero.Nat

/-!
# The Gregorian calendar

Days are counted one by one: `daysBeforeYear` adds up the lengths of the years from year 0 on, and
`daysBeforeMonth` those of the months of a year. A `DateTime` is a date and a time of day that
exist, and `unixSeconds` the seconds from the start of 1970 to it, without leap seconds. The months
are counted from 0.

`daysBeforeYear_eq` and `daysBeforeMonth_eq` are the sums in closed form.
-/

namespace Calendar

/-- A year with 29 days in February. -/
def isLeap (y : Nat) : Bool := y % 4 == 0 && (y % 100 != 0 || y % 400 == 0)

/-- The days of the months of a year. -/
def monthLengths (leap : Bool) : List Nat :=
  [31, if leap then 29 else 28, 31, 30, 31, 30, 31, 31, 30, 31, 30, 31]

/-- The days of a month of a year. -/
def monthLength (y : Nat) (m : Fin 12) : Nat := (monthLengths (isLeap y)).getD m 0

/-- The days of a year. -/
def yearLength (y : Nat) : Nat := (monthLengths (isLeap y)).sum

/-- The days from the start of year 0 to the start of a year. -/
def daysBeforeYear (y : Nat) : Nat := ∑ i ∈ Finset.range y, yearLength i

/-- The days from the start of a year to the start of a month. -/
def daysBeforeMonth (y : Nat) (m : Fin 12) : Nat := ((monthLengths (isLeap y)).take m).sum

/-- A date and a time of day. -/
structure DateTime where
  year : Nat
  month : Fin 12
  day : Nat
  hour : Nat
  minute : Nat
  second : Nat
  day_pos : 1 ≤ day
  day_le : day ≤ monthLength year month
  hour_lt : hour < 24
  minute_lt : minute < 60
  second_lt : second < 60

/-- The days from the start of year 0 to a date. -/
def DateTime.dayNumber (d : DateTime) : Nat :=
  daysBeforeYear d.year + daysBeforeMonth d.year d.month + (d.day - 1)

/-- The seconds from the start of 1970. -/
def DateTime.unixSeconds (d : DateTime) : Int :=
  ((d.dayNumber : Int) - daysBeforeYear 1970) * 86400 + d.hour * 3600 + d.minute * 60 + d.second

/-- A leap year by its remainders. -/
theorem isLeap_iff {y : Nat} : isLeap y = true ↔ y % 4 = 0 ∧ (y % 100 ≠ 0 ∨ y % 400 = 0) := by
  simp [isLeap]

/-- A year has 365 days, or one more. -/
theorem yearLength_eq (y : Nat) : yearLength y = if isLeap y then 366 else 365 := by
  unfold yearLength
  cases isLeap y with
  | true => rfl
  | false => rfl

/-- The years before a year, with the leap years among them. -/
theorem daysBeforeYear_eq (y : Nat) :
    daysBeforeYear y + (y + 99) / 100 = 365 * y + (y + 3) / 4 + (y + 399) / 400 := by
  induction y with
  | zero => rfl
  | succ y ih =>
    rw [daysBeforeYear, Finset.sum_range_succ, ← daysBeforeYear, yearLength_eq]
    by_cases hleap : isLeap y
    · rw [if_pos hleap]
      obtain ⟨hfour, hcentury⟩ := isLeap_iff.1 hleap
      omega
    · rw [if_neg hleap]
      rw [isLeap_iff, not_and_or, not_or, not_not] at hleap
      rcases hleap with hfour | ⟨hcentury, hfour⟩
      · -- each of the three counts stays as it is
        have hfours : (y + 1 + 3) / 4 = (y + 3) / 4 := by omega
        have hcenturies : (y + 1 + 99) / 100 = (y + 99) / 100 := by omega
        have hcycles : (y + 1 + 399) / 400 = (y + 399) / 400 := by omega
        rw [hfours, hcenturies, hcycles]
        omega
      · omega

/-- The months before a month, with the leap day among them. -/
theorem daysBeforeMonth_eq (y : Nat) (m : Fin 12) :
    daysBeforeMonth y m = [0, 31, 59, 90, 120, 151, 181, 212, 243, 273, 304, 334].getD m 0 +
      if isLeap y && 2 ≤ m.val then 1 else 0 := by
  unfold daysBeforeMonth
  cases isLeap y with
  | true => decide +revert
  | false => decide +revert

/-- A month has at most 31 days. -/
theorem monthLength_le (y : Nat) (m : Fin 12) : monthLength y m ≤ 31 := by
  unfold monthLength
  cases isLeap y with
  | true => decide +revert
  | false => decide +revert

end Calendar
