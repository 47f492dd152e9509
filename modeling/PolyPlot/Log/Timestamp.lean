import PolyPlot.Decimal.Digits

namespace PolyPlot.Log

/-- Why a moment has no text. -/
inductive MomentError where
  /-- The moment is not a number. -/
  | undefined
  /-- The seconds are beyond sixty-four bits. -/
  | beyondClock
  /-- The year is beyond thirty-two bits. -/
  | beyondCalendar
  /-- The year has not from one to four digits. -/
  | beyondYears
  deriving DecidableEq, Repr

/-- The seconds since the start of 1970 and the microseconds behind them. The microseconds come from
the product of the double behind the point, rounded with a half going to the even neighbour. -/
def secondsOf (moment : Float) : Except MomentError (Int × Nat) :=
  match Double.truncate moment with
  | .error .notANumber => .error .undefined
  | .error _ => .error .beyondClock
  | .ok whole =>
    let product := (moment - Float.ofInt whole) * 1000000
    let micros : Int :=
      match Binary.ofFloat product with
      | .finite negative m e =>
        Binary.signed negative (divideToEven (Binary.numerator m e) (Binary.denominator e))
      | _ => 0
    let (seconds, micros) :=
      if 1000000 ≤ micros then (whole + 1, micros - 1000000)
      else if micros < 0 then (whole - 1, micros + 1000000)
      else (whole, micros)
    if -0x8000000000000000 ≤ seconds ∧ seconds < 0x8000000000000000 then .ok (seconds, micros.toNat)
    else .error .beyondClock

/-- A day by its year, month and day of the month. -/
structure Date where
  year : Int
  month : Nat
  day : Nat
  deriving DecidableEq, Repr

/-- The day that comes so many days after the first of 1970. Years are counted from March on, so that a
leap day ends its year, and in spans of four hundred years, which are equally long. -/
def Date.ofDays (days : Int) : Date :=
  let shifted := days + 719468
  let era := shifted.fdiv 146097
  let dayOfEra := (shifted - era * 146097).toNat
  let yearOfEra := (dayOfEra - dayOfEra / 1460 + dayOfEra / 36524 - dayOfEra / 146096) / 365
  let dayOfYear := dayOfEra - (365 * yearOfEra + yearOfEra / 4 - yearOfEra / 100)
  let shiftedMonth := (5 * dayOfYear + 2) / 153
  let day := dayOfYear - (153 * shiftedMonth + 2) / 5 + 1
  let month := if shiftedMonth < 10 then shiftedMonth + 3 else shiftedMonth - 9
  let year := era * 400 + (yearOfEra : Int) + (if month ≤ 2 then 1 else 0)
  ⟨year, month, day⟩

/-- The last year whose number is a sum of 1900 and a number of thirty-one bits. -/
def lastCalendarYear : Int := 2147485547

/-- A moment, in seconds since the start of 1970, cut to milliseconds. -/
def timestamp (moment : Float) : Except MomentError String := do
  let (seconds, micros) ← secondsOf moment
  let date := Date.ofDays (seconds.fdiv 86400)
  let second := (seconds.fmod 86400).toNat
  if date.year < 1900 - 0x80000000 ∨ lastCalendarYear < date.year then throw .beyondCalendar
  if date.year < 1 ∨ 9999 < date.year then throw .beyondYears
  return Decimal.zeroFilled 4 date.year.toNat ++ "-" ++ Decimal.zeroFilled 2 date.month ++ "-"
    ++ Decimal.zeroFilled 2 date.day ++ "T" ++ Decimal.zeroFilled 2 (second / 3600) ++ ":"
    ++ Decimal.zeroFilled 2 (second / 60 % 60) ++ ":" ++ Decimal.zeroFilled 2 (second % 60) ++ "."
    ++ Decimal.zeroFilled 3 (micros / 1000) ++ "Z"

end PolyPlot.Log
