/-
  QuickApi.Lib.Calendar

  Dates and times in UTC, as Python's `datetime` has them: the ordinal of a
  date, the texts that `strptime` reads with `%Y-%m-%d`, and `isoformat`.
-/

import Mathlib.Algebra.GroupWithZero.Nat
import Mathlib.Data.List.Basic
import QuickApi.Lib.PythonText

namespace QuickApi.Lib

-- ============================================================================
-- Dates
-- ============================================================================

def isLeap (year : Nat) : Bool := year % 4 == 0 && (year % 100 != 0 || year % 400 == 0)

def daysInMonth (year month : Nat) : Nat :=
  if month = 2 then (if isLeap year then 29 else 28)
  else if month ∈ [4, 6, 9, 11] then 30
  else 31

/-- `datetime.date`; the year, the month and the day exist. -/
structure Date where
  year : Nat
  month : Nat
  day : Nat
  year_mem : 1 ≤ year ∧ year ≤ 9999
  month_mem : 1 ≤ month ∧ month ≤ 12
  day_mem : 1 ≤ day ∧ day ≤ daysInMonth year month
deriving DecidableEq, Repr

/-- `date.toordinal()`: the first of January of the year 1 is day 1. -/
def Date.toOrdinal (date : Date) : Nat :=
  let y := date.year - 1
  y * 365 + y / 4 - y / 100 + y / 400 +
    ((List.range (date.month - 1)).map fun m => daysInMonth date.year (m + 1)).sum + date.day

/-- `date.max.toordinal()` -/
def maxOrdinal : Nat := 3652059

/-- A time in UTC. -/
structure DateTime where
  date : Date
  hour : Fin 24
  minute : Fin 60
  second : Fin 60
  microsecond : Fin 1000000
deriving DecidableEq, Repr

/-- The microseconds since the day before the first of January of the year 1. -/
def DateTime.instant (time : DateTime) : Nat :=
  (((time.date.toOrdinal * 24 + time.hour) * 60 + time.minute) * 60 + time.second) * 1000000 +
    time.microsecond

def microsecondsPerDay : Nat := 86400000000

/-- Midnight of a date. -/
def Date.instant (date : Date) : Nat := date.toOrdinal * microsecondsPerDay

/-- A number with leading zeros. -/
def padded (width n : Nat) : List Char := List.leftpad width '0' (Nat.toDigits 10 n)

/-- `time.isoformat()` -/
def DateTime.isoformat (time : DateTime) : List Char :=
  padded 4 time.date.year ++ '-' :: padded 2 time.date.month ++ '-' :: padded 2 time.date.day ++
    'T' :: padded 2 time.hour ++ ':' :: padded 2 time.minute ++ ':' :: padded 2 time.second ++
    (if time.microsecond.val = 0 then [] else '.' :: padded 6 time.microsecond) ++ "+00:00".toList

-- ============================================================================
-- strptime
-- ============================================================================

/-- Why a text is no date. -/
inductive DateError where
  | noMatch
  | unconverted (rest : List Char)
  | yearOutOfRange
  | dayOutOfRange
deriving DecidableEq, Repr

/-- The month that `%m` reads off two digits. -/
def parseMonth (c d : Char) : Option Nat :=
  if c = '0' ∧ '1' ≤ d ∧ d ≤ '9' then digitOf d
  else if c = '1' ∧ '0' ≤ d ∧ d ≤ '2' then (digitOf d).map (10 + ·)
  else none

/-- The day that `%d` reads off two digits at the end of a text. -/
def parseDay (c d : Char) : Except DateError Nat :=
  if (c = '1' ∨ c = '2') ∧ (digitOf d).isSome then
    .ok ((c.toNat - '0'.toNat) * 10 + (digitOf d).getD 0)
  else if (c = '3' ∧ (d = '0' ∨ d = '1')) ∨ (c = '0' ∧ '1' ≤ d ∧ d ≤ '9') then
    .ok ((c.toNat - '0'.toNat) * 10 + (digitOf d).getD 0)
  else if '3' ≤ c ∧ c ≤ '9' then .error (.unconverted [d])
  else .error .noMatch

/-- `datetime(year, month, day)` -/
def makeDate (year month day : Nat) : Except DateError Date :=
  if hyear : 1 ≤ year ∧ year ≤ 9999 then
    if hmonth : 1 ≤ month ∧ month ≤ 12 then
      if hday : 1 ≤ day ∧ day ≤ daysInMonth year month then
        .ok ⟨year, month, day, hyear, hmonth, hday⟩
      else .error .dayOutOfRange
    else .error .noMatch
  else .error .yearOutOfRange

/-- `re.fullmatch(r'\d{4}-\d{2}-\d{2}', text)`, with the digits it matches. -/
def matchDate : List Char → Option ((Char × Char × Char × Char) × (Char × Char) × Char × Char)
  | [y₁, y₂, y₃, y₄, '-', m₁, m₂, '-', d₁, d₂] =>
      if [y₁, y₂, y₃, y₄, m₁, m₂, d₁, d₂].all fun c => (digitOf c).isSome then
        some ((y₁, y₂, y₃, y₄), (m₁, m₂), d₁, d₂)
      else none
  | _ => none

/-- `datetime.strptime(text, '%Y-%m-%d')` of a text that `matchDate` matches. -/
def parseDate (fields : (Char × Char × Char × Char) × (Char × Char) × Char × Char) :
    Except DateError Date :=
  let ((y₁, y₂, y₃, y₄), (m₁, m₂), d₁, d₂) := fields
  match parseMonth m₁ m₂ with
  | none => .error .noMatch
  | some month => do
      let day ← parseDay d₁ d₂
      makeDate ([y₁, y₂, y₃, y₄].foldl (fun n c => n * 10 + (digitOf c).getD 0) 0) month day

end QuickApi.Lib
