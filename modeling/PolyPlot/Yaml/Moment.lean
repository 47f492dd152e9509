import PolyPlot.Decimal.Digits
import PolyPlot.Yaml.Basic

namespace PolyPlot.Yaml

/-- The fields of a day and of a moment, as they are written. -/
structure MomentText where
  year : Nat
  month : Nat
  day : Nat
  /-- Hour, minute and second. -/
  time? : Option (Nat × Nat × Nat) := none
  /-- The digits behind the point of the seconds. -/
  fraction : List Char := []
  /-- The distance from universal time in minutes. -/
  offset? : Option Int := none
  deriving DecidableEq, Repr

namespace MomentText

/-- The number of a text of digits whose count is in a range. -/
def number? (least most : Nat) (s : List Char) : Option Nat :=
  if s.all Char.isDigit ∧ least ≤ s.length ∧ s.length ≤ most then
    some (Decimal.ofAscii s)
  else none

def minutes? (s : List Char) : Option Nat :=
  match s.splitOn ':' with
  | [hour] => (number? 1 2 hour).map (60 * ·)
  | [hour, minute] => do return 60 * (← number? 1 2 hour) + (← number? 2 2 minute)
  | _ => none

/-- A distance from universal time; none is written for a moment without one. -/
def zone? (s : List Char) : Option (Option Int) :=
  match s.dropWhile isPad with
  | [] => if s.isEmpty then some none else none
  | ['Z'] => some (some 0)
  | '-' :: body => (minutes? body).map fun n => some (-(n : Int))
  | '+' :: body => (minutes? body).map fun n => some (n : Int)
  | _ => none

/-- The second, its fraction and the distance from universal time. -/
def second? (s : List Char) : Option (Nat × List Char × Option Int) := do
  let second ← number? 2 2 (s.take 2)
  let (fraction, rest) :=
    match s.drop 2 with
    | '.' :: rest => (rest.takeWhile Char.isDigit, rest.dropWhile Char.isDigit)
    | rest => ([], rest)
  return (second, fraction, ← zone? rest)

/-- The day in front of the time. -/
def date? (least : Nat) (s : List Char) : Option MomentText :=
  match s.splitOn '-' with
  | [year, month, day] => do
    return { year := ← number? 4 4 year, month := ← number? least 2 month, day := ← number? least 2 day }
  | _ => none

/-- The time behind a day, given the text behind the mark between them. -/
def withTime? (s : List Char) (m : MomentText) : Option MomentText := do
  let hour := s.takeWhile (· ≠ ':')
  match (s.dropWhile (· ≠ ':')).drop 1 with
  | a :: b :: ':' :: rest =>
    let (second, fraction, offset?) ← second? rest
    return { m with
      time? := some (← number? 1 2 hour, ← number? 2 2 [a, b], second), fraction, offset? }
  | _ => none

/-- A day or a moment. The month and the day of a day alone have so many digits at least. -/
def read? (least : Nat) (s : List Char) : Option MomentText :=
  let date := s.takeWhile fun c => c.isDigit || c = '-'
  match s.dropWhile fun c => c.isDigit || c = '-' with
  | [] => date? least date
  | mark :: rest =>
    if mark = 'T' ∨ mark = 't' then (date? 1 date).bind (withTime? rest)
    else if isPad mark then (date? 1 date).bind (withTime? (rest.dropWhile isPad))
    else none

end MomentText

/-- The time of a moment. -/
structure Clock where
  hour : Nat
  minute : Nat
  second : Nat
  micros : Nat
  /-- The distance from universal time in minutes, if it is told. -/
  offset? : Option Int
  deriving DecidableEq, Repr

/-- A day of the calendar, or a moment of it. -/
structure Moment where
  year : Nat
  month : Nat
  day : Nat
  clock? : Option Clock
  deriving DecidableEq, Repr

namespace Moment

def isLeap (year : Nat) : Bool :=
  year % 4 = 0 && (year % 100 ≠ 0 || year % 400 = 0)

/-- The count of days of a month. -/
def monthLength (year month : Nat) : Nat :=
  if month = 2 then if isLeap year then 29 else 28
  else if [4, 6, 9, 11].contains month then 30
  else 31

/-- The number of microseconds that the digits behind a point begin with. -/
def micros (fraction : List Char) : Nat :=
  Decimal.ofAscii (fraction.take 6 ++ List.replicate (6 - fraction.length) '0')

/-- The moment that is written, if its day is in the calendar, its time on the clock, and its distance
from universal time less than a day. -/
def ofText (m : MomentText) : Except Error Moment := do
  if m.year = 0 ∨ m.month = 0 ∨ 12 < m.month ∨ m.day = 0 ∨ monthLength m.year m.month < m.day then
    throw .noSuchMoment
  match m.time? with
  | none => return ⟨m.year, m.month, m.day, none⟩
  | some (hour, minute, second) =>
    if 23 < hour ∨ 59 < minute ∨ 59 < second ∨ m.offset?.any fun n => 1440 ≤ n.natAbs then
      throw .noSuchMoment
    return ⟨m.year, m.month, m.day, some ⟨hour, minute, second, micros m.fraction, m.offset?⟩⟩

/-- A distance from universal time in hours and minutes. -/
def offsetText (minutes : Int) : String :=
  (if minutes < 0 then "-" else "+") ++ Decimal.zeroFilled 2 (minutes.natAbs / 60) ++ ":"
    ++ Decimal.zeroFilled 2 (minutes.natAbs % 60)

/-- The time of a moment, with microseconds if there are some. -/
def Clock.text (c : Clock) : String :=
  Decimal.zeroFilled 2 c.hour ++ ":" ++ Decimal.zeroFilled 2 c.minute ++ ":"
    ++ Decimal.zeroFilled 2 c.second
    ++ (if c.micros = 0 then "" else "." ++ Decimal.zeroFilled 6 c.micros)
    ++ (c.offset?.map offsetText).getD ""

/-- A day, or a day and a time. -/
def text (m : Moment) : String :=
  let day := Decimal.zeroFilled 4 m.year ++ "-" ++ Decimal.zeroFilled 2 m.month ++ "-"
    ++ Decimal.zeroFilled 2 m.day
  match m.clock? with
  | some clock => day ++ " " ++ Clock.text clock
  | none => day

end Moment

end PolyPlot.Yaml
