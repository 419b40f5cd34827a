import Reckoner.Number.Machine
import Reckoner.Number.Numeral

/-!
# Timestamps

When something was logged, written as date and time of day in universal time,
with microseconds unless there are none. Time is given in seconds since the
start of 1970, as a double or as a whole number. Only the years from 1 to 9999
can be written, and the first day of the year 1 is out of reach too, because the
day before it has to have a date as well.

The date is found by counting days in cycles of 400 years, each starting on the
first of March, so that the leap day is the last day of its year.

## Main definitions

* `TimeFault`: Why a number of seconds is no time.
* `Timestamp`: Seconds and microseconds since the start of 1970.
* `Timestamp.ofDouble`: The time at a number of seconds.
* `Timestamp.date`: Year, month and day.
* `Timestamp.checkYear`: Whether the time can be written.
* `Timestamp.iso`: Date and time in one word.
* `Timestamp.clock`: The time of day.
-/

namespace Reckoner

/-- Why a number of seconds is no time: it is no number at all, it does not fit
    into a machine word, its year does not fit into half of one, or its year has
    not four digits. -/
inductive TimeFault
  | indefinite
  | tooLarge
  | unreachable
  | badYear (year : Int)
deriving DecidableEq, Repr

/-- The wording of a fault in a time. -/
def TimeFault.message : TimeFault → String
  | .indefinite => "Invalid value NaN (not a number)"
  | .tooLarge => "timestamp out of range for platform time_t"
  | .unreachable => "[Errno 75] Value too large for defined data type"
  | .badYear year => s!"year {year} is out of range"

/-- The largest year that fits into half a machine word. -/
def yearLimit : Int := maxHalfWord

/-- A point in time: whole seconds since the start of 1970, and microseconds. -/
structure Timestamp where
  seconds : Int
  micros : Nat
deriving DecidableEq, Repr

namespace Timestamp

/-- Seconds in a day. -/
def daySeconds : Int := 86400

/-- Year, month and day. -/
def date (t : Timestamp) : Int × Nat × Nat :=
  -- Days since the first of March of the year zero.
  let days := t.seconds / daySeconds + 719468
  let era := days / 146097
  let dayOfEra := (days % 146097).toNat
  let yearOfEra :=
    (dayOfEra - dayOfEra / 1460 + dayOfEra / 36524 - dayOfEra / 146096) / 365
  let dayOfYear := dayOfEra - (365 * yearOfEra + yearOfEra / 4 - yearOfEra / 100)
  let shifted := (5 * dayOfYear + 2) / 153
  let day := dayOfYear - (153 * shifted + 2) / 5 + 1
  let month := if shifted < 10 then shifted + 3 else shifted - 9
  let year := era * 400 + yearOfEra + (if month ≤ 2 then 1 else 0)
  (year, month, day)

/-- The time a day earlier. -/
def dayBefore (t : Timestamp) : Timestamp := ⟨t.seconds - daySeconds, t.micros⟩

/-- The time itself, if its year and that of the day before it can be written. -/
def checkYear (t : Timestamp) : Except TimeFault Timestamp :=
  let year := t.date.1
  let earlier := t.dayBefore.date.1
  if yearLimit < year ∨ year < -yearLimit then .error .unreachable
  else if year < 1 ∨ 9999 < year then .error (.badYear year)
  else if earlier < 1 then .error (.badYear earlier)
  else .ok t

/-- The time at a number of seconds. The fraction is counted in microseconds in
    double precision, and then to the nearest, ties to even. -/
def ofDouble (created : Double) : Except TimeFault Timestamp :=
  match created.toRat? with
  | none => .error (if created = .nan then .indefinite else .tooLarge)
  | some q =>
    let whole := Rounding.towardZero q
    let scaled := ((Double.ofRat ((q - whole) * 1000000)).toRat?).getD 0
    let micros := Rounding.halfEven scaled
    if whole < -maxWord - 1 ∨ maxWord < whole then .error .tooLarge
    else if 1000000 ≤ micros then checkYear ⟨whole + 1, (micros - 1000000).toNat⟩
    else if micros < 0 then checkYear ⟨whole - 1, (micros + 1000000).toNat⟩
    else checkYear ⟨whole, micros.toNat⟩

/-- The second of the day. -/
def secondOfDay (t : Timestamp) : Nat := (t.seconds % daySeconds).toNat

/-- Hours, minutes and seconds between colons. -/
def clockChars (t : Timestamp) : List Char :=
  let s := t.secondOfDay
  Numeral.padded 2 (s / 3600) ++ ':' :: Numeral.padded 2 (s / 60 % 60) ++
    ':' :: Numeral.padded 2 (s % 60)

/-- The time of day. -/
def clock (t : Timestamp) : String := String.ofList t.clockChars

/-- Date and time in one word. -/
def iso (t : Timestamp) : String :=
  let (year, month, day) := t.date
  let fraction := if t.micros = 0 then [] else '.' :: Numeral.padded 6 t.micros
  String.ofList
    (Numeral.padded 4 year.toNat ++ '-' :: Numeral.padded 2 month ++ '-' ::
      Numeral.padded 2 day ++ 'T' :: t.clockChars ++ fraction)

end Timestamp

end Reckoner
