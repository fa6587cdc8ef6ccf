import ConfigNotation.Calendar.Civil

/-!
Instants on the UTC time line, and their text.
-/

namespace ConfigNotation

/-- Seconds since the start of 1970 and nanoseconds within the second. A second
that was a leap second is the one before it with a billion nanoseconds more. -/
structure Instant where
  seconds : Int
  nanos : Nat
  deriving DecidableEq, Repr, Inhabited

/-- A date and a time of day, on a clock that is ahead of UTC by an offset in
seconds. -/
structure LocalTime where
  date : CivilDate
  hour : Nat
  minute : Nat
  second : Nat
  nanos : Nat
  offset : Int
  deriving DecidableEq, Repr

namespace Instant

def secondsPerDay : Int := 86400

def date (instant : Instant) : CivilDate := .ofDays (instant.seconds / secondsPerDay)

def secondOfDay (instant : Instant) : Nat := (instant.seconds % secondsPerDay).toNat

/-- The instant of a local time, if date, time and offset exist. A sixtieth
second is a leap second. -/
def ofLocal? (time : LocalTime) : Option Instant :=
  let leap := time.second == 60
  let second := if leap then 59 else time.second
  let nanos := time.nanos + if leap then 1000000000 else 0
  let ofDay : Int := time.hour * 3600 + time.minute * 60 + second
  let instant : Instant := ⟨time.date.toDays * secondsPerDay + ofDay - time.offset, nanos⟩
  if time.date.isValid && time.hour < 24 && time.minute < 60 && time.second ≤ 60 &&
      time.nanos < 1000000000 && time.offset.natAbs < 86400 && instant.date.isValid then
    some instant
  else none

def padded (width n : Nat) : List Char :=
  let digits := Nat.toDigits 10 n
  List.replicate (width - digits.length) '0' ++ digits

/-- A year; outside of four digits it has a sign. -/
def yearText (year : Int) : List Char :=
  if 0 ≤ year ∧ year ≤ 9999 then padded 4 year.toNat
  else (if year < 0 then '-' else '+') :: padded 4 year.natAbs

/-- Date, time to milliseconds, and the letter of UTC. -/
def chars (instant : Instant) : List Char :=
  let leap := 1000000000 ≤ instant.nanos
  let second := instant.secondOfDay % 60 + if leap then 1 else 0
  let nanos := instant.nanos - if leap then 1000000000 else 0
  yearText instant.date.year ++ '-' :: padded 2 instant.date.month ++
    '-' :: padded 2 instant.date.day ++ 'T' :: padded 2 (instant.secondOfDay / 3600) ++
    ':' :: padded 2 (instant.secondOfDay / 60 % 60) ++ ':' :: padded 2 second ++
    '.' :: padded 3 (nanos / 1000000) ++ ['Z']

def text (instant : Instant) : String := String.ofList instant.chars

end Instant

end ConfigNotation
