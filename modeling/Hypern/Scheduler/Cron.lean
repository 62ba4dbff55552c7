import Mathlib.Data.Prod.Lex
import Mathlib.Order.Fin.Basic
import Mathlib.Data.Finset.Basic
import Mathlib.Algebra.Ring.Nat

/-! `CronExpression` and the local times it is compared with. -/

namespace Hypern.Scheduler

def isLeap (year : Nat) : Bool := year % 4 = 0 && (year % 100 ≠ 0 || year % 400 = 0)

def monthLengths (year : Nat) : List Nat :=
  [31, if isLeap year then 29 else 28, 31, 30, 31, 30, 31, 31, 30, 31, 30, 31]

/-- The month and the day of the month of a day counted from the start of a year. -/
def monthDay : (month : Nat) → List Nat → Nat → Nat × Nat
  | month, [], day => (month, day + 1)
  | month, length :: lengths, day =>
    if day < length then (month, day + 1) else monthDay (month + 1) lengths (day - length)

/-- The days from Monday, the first of January of the year 1, to the start of a year. -/
def daysBefore (year : Nat) : Nat :=
  (year - 1) * 365 + (year - 1) / 4 - (year - 1) / 100 + (year - 1) / 400

instance hours_ne_zero : NeZero 24 := ⟨by decide⟩

instance minutes_ne_zero : NeZero 60 := ⟨by decide⟩

/-- A local time up to its minute: what `time.localtime` returns, where the month, the day of the
month and the weekday follow from the year and `day`, the number of the day in it. -/
structure LocalTime where
  year : Nat
  day : Nat
  hour : Fin 24
  min : Fin 60
  day_lt : day < (monthLengths year).sum
  deriving DecidableEq

namespace LocalTime

variable (t : LocalTime)

def mon : Nat := (monthDay 1 (monthLengths t.year) t.day).1

def mday : Nat := (monthDay 1 (monthLengths t.year) t.day).2

/-- Zero is Monday. -/
def wday : Nat := (daysBefore t.year + t.day) % 7

/-- `current_minute` of the loop. -/
def minuteOfDay : Nat := t.min.val + t.hour.val * 60

def key : Nat ×ₗ Nat ×ₗ Fin 24 ×ₗ Fin 60 := toLex (t.year, toLex (t.day, toLex (t.hour, t.min)))

theorem key_injective : Function.Injective key := by
  rintro ⟨y, d, h, m, hd⟩ ⟨y', d', h', m', hd'⟩ heq
  simpa [key] using heq

instance : LinearOrder LocalTime := LinearOrder.lift' key key_injective

end LocalTime

structure CronExpression where
  minute : Finset ℤ
  hour : Finset ℤ
  dom : Finset ℤ
  month : Finset ℤ
  dow : Finset ℤ

/-- `t` is what `time.localtime()` returns. -/
def CronExpression.matchesNow (expr : CronExpression) (t : LocalTime) : Bool :=
  (t.min.val : ℤ) ∈ expr.minute && (t.hour.val : ℤ) ∈ expr.hour && (t.mday : ℤ) ∈ expr.dom &&
    (t.mon : ℤ) ∈ expr.month && ((t.wday + 1) % 7 : ℕ) ∈ expr.dow

end Hypern.Scheduler
