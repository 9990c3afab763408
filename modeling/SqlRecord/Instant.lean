import SqlRecord.BoundedInt
import SqlRecord.Digits

/-!
# Instants

An instant is a count of seconds from the start of 1970 (UTC) and the nanoseconds within that
second; a leap second is written as the second before it with a billion nanoseconds or more.
`Instant.nanoseconds` is the total that a database cell stores, and `Instant.text` the calendar
form, in the Gregorian calendar extended to all years.
-/

namespace SqlRecord

/-- An instant: whole seconds since the start of 1970 and nanoseconds within the second. -/
structure Instant where
  seconds : Int
  nanos : Nat
  deriving DecidableEq, Inhabited

namespace Instant

def nanosPerSecond : Nat := 1000000000

/-- Nanoseconds since the start of 1970. -/
def nanoseconds (t : Instant) : Int := t.seconds * nanosPerSecond + t.nanos

/-- The instant a count of nanoseconds denotes. -/
def ofNanoseconds (n : Int) : Instant := ⟨n.fdiv nanosPerSecond, (n.fmod nanosPerSecond).toNat⟩

/-- The nanoseconds of some seconds and of what is added to them, if both the product and the sum
fit a cell. -/
def checkedNanos (seconds rest : Int) : Option CellInt := do
  let whole : CellInt ← BoundedInt.ofInt? _ _ (seconds * nanosPerSecond)
  BoundedInt.ofInt? _ _ (whole.val + rest)

/-- The nanoseconds of an instant as a cell, if they can be counted in 64 bits. Before 1970 they are
counted back from the end of the second, which is not as far away as its start. -/
def cell? (t : Instant) : Option CellInt :=
  if t.seconds < 0 then checkedNanos (t.seconds + 1) (t.nanos - nanosPerSecond)
  else checkedNanos t.seconds t.nanos

/-- The nanoseconds of an instant as a cell; an instant that has none becomes the first or the last
one, so that it compares with every stored instant as before. -/
def nearestCell (t : Instant) : CellInt :=
  t.cell?.getD (if t.seconds < 0 then .first else .last)

/-- A date of the Gregorian calendar. -/
structure Date where
  year : Int
  month : Nat
  day : Nat
  deriving DecidableEq

/-- The date that lies `days` days after the start of 1970. Years are counted from March in cycles
of 400, so that the leap day is the last of its year. -/
def Date.ofDays (days : Int) : Date :=
  let shifted := days + 719468
  let cycle := shifted.fdiv 146097
  let dayOfCycle := (shifted.fmod 146097).toNat
  let yearOfCycle :=
    (dayOfCycle - dayOfCycle / 1460 + dayOfCycle / 36524 - dayOfCycle / 146096) / 365
  let dayOfYear := dayOfCycle - (365 * yearOfCycle + yearOfCycle / 4 - yearOfCycle / 100)
  let marchMonth := (5 * dayOfYear + 2) / 153
  let month := if marchMonth < 10 then marchMonth + 3 else marchMonth - 9
  { year := yearOfCycle + cycle * 400 + (if month ≤ 2 then 1 else 0)
    month
    day := dayOfYear - (153 * marchMonth + 2) / 5 + 1 }

/-- The text of a year: four digits, and a sign in front outside the years 0 to 9999. -/
def yearText (year : Int) : List Char :=
  if 0 ≤ year ∧ year ≤ 9999 then Digits.padded 4 year.toNat
  else (if year < 0 then '-' else '+') :: Digits.padded 4 year.natAbs

/-- The text of a fraction of a second: none when zero, else three, six or nine digits, as few as
are exact. -/
def fractionText (nanos : Nat) : List Char :=
  if nanos = 0 then []
  else if nanos % 1000000 = 0 then '.' :: Digits.padded 3 (nanos / 1000000)
  else if nanos % 1000 = 0 then '.' :: Digits.padded 6 (nanos / 1000)
  else '.' :: Digits.padded 9 nanos

/-- The calendar text of an instant, in UTC. -/
def text (t : Instant) : String :=
  let date := Date.ofDays (t.seconds.fdiv 86400)
  let second := (t.seconds.fmod 86400).toNat
  let two := Digits.padded 2
  String.ofList (yearText date.year ++ '-' :: two date.month ++ '-' :: two date.day ++
    'T' :: two (second / 3600) ++ ':' :: two (second / 60 % 60) ++
    ':' :: two (second % 60 + t.nanos / nanosPerSecond) ++
    fractionText (t.nanos % nanosPerSecond) ++ "+00:00".toList)

end Instant

end SqlRecord
