import ConfigNotation.Calendar.Instant
import ConfigNotation.Number.Text
import ConfigNotation.Text.Reader
import ConfigNotation.Text.Slice

/-!
The forms of a date literal: date and time with an offset, dates of messages
with the name of the month, date and time without offset, and plain dates.
The first form that fits decides. Without an offset a time is in UTC.
-/

namespace ConfigNotation

namespace Reader

/-- At least `least` and at most `most` digits: their number and their value. -/
def digits (least most : Nat) : Reader (Nat × Nat) := fun text =>
  let found := (text.take most).takeWhile Char.isDigit
  if found.length < least then none
  else
    (Number.digitValues? 10 found).map fun values =>
      ((found.length, Number.ofDigitValues 10 values), text.drop found.length)

def number (least most : Nat) : Reader Nat := Prod.snd <$> digits least most

/-- All digits that follow, and at least one. -/
def wholeNumber (least : Nat) : Reader (Nat × Nat) := fun text => digits least text.length text

def letters : Reader (List Char) := fun text =>
  let found := text.takeWhile Char.isAlpha
  some (found, text.drop found.length)

/-- A word of three letters in either case, as its place in a list of names. -/
def name (names : List String) : Reader Nat := fun text =>
  let lower := (text.take 3).map Char.toLower
  (names.findIdx? fun name => name.toList == lower).map fun index => (index, text.drop 3)

/-- A fraction of a second in nanoseconds: at least one digit; digits after the
ninth are dropped. -/
def nanoseconds : Reader Nat := do
  let (count, value) ← digits 1 9
  modify (·.dropWhile Char.isDigit)
  return value * Nat.pow 10 (9 - count)

/-- A point and a fraction of a second, or nothing. -/
def fraction : Reader Nat := do
  if ← charIf '.' then nanoseconds else return 0

/-- An offset from UTC in seconds: a sign, two digits for hours, two for
minutes. -/
def signedOffset (signs : List (Char × Bool)) (separator : Reader Unit) : Reader Int := do
  let sign ← satisfying fun c => (signs.lookup c).isSome
  let hours ← number 2 2
  separator
  let minutes ← number 2 2
  if 60 ≤ minutes then failure
  let size : Int := hours * 3600 + minutes * 60
  return if signs.lookup sign == some true then -size else size

/-- An offset with a colon; `Z` is UTC. The sign may be a typographic minus. -/
def isoOffset : Reader Int := do
  if ← charIf 'Z' then return 0
  else if ← charIf 'z' then return 0
  else
    let offset ← signedOffset [('+', false), ('-', true), ('\u2212', true)] (char ':')
    if 86400 ≤ offset.natAbs then failure
    return offset

def isoInstant : Reader LocalTime := do
  let year ← number 4 4
  char '-'
  let month ← number 2 2
  char '-'
  let day ← number 2 2
  let _ ← satisfying ("tT ".toList.contains ·)
  let hour ← number 2 2
  char ':'
  let minute ← number 2 2
  char ':'
  let second ← number 2 2
  let nanos ← fraction
  let offset ← isoOffset
  return ⟨⟨year, month, day⟩, hour, minute, second, nanos, offset⟩

def weekdayNames : List String := ["mon", "tue", "wed", "thu", "fri", "sat", "sun"]

def monthNames : List String :=
  ["jan", "feb", "mar", "apr", "may", "jun", "jul", "aug", "sep", "oct", "nov", "dec"]

/-- The hours by which named zones are behind UTC. -/
def zoneHours : List (String × Nat) :=
  [("gmt", 0), ("ut", 0), ("z", 0), ("edt", 4), ("est", 5), ("cdt", 5), ("cst", 6), ("mdt", 6),
    ("mst", 7), ("pdt", 7), ("pst", 8)]

/-- A zone of a message: a name, a single letter other than `J`, which says
nothing, or a sign and four digits. -/
def messageZone : Reader Int := do
  let zone := String.ofList ((← letters).map Char.toLower)
  if zone.isEmpty then signedOffset [('+', false), ('-', true)] (pure ())
  else
    match zoneHours.lookup zone with
    | some hours => return -(hours * 3600)
    | none => if zone.length == 1 && zone != "j" then return 0 else failure

/-- Whether a text holds only comments in parentheses with blanks before each.
Comments may be nested; a backslash protects the character behind it. -/
def isComments (depth : Nat) (escaped : Bool) : List Char → Bool
  | [] => depth == 0
  | c :: rest =>
      if depth = 0 then
        if c = '(' then isComments 1 false rest
        else Text.isBlank c && isComments 0 false rest
      else if escaped then isComments depth false rest
      else if c = ')' then isComments (depth - 1) false rest
      else if c = '(' then isComments (depth + 1) false rest
      else isComments depth (c == '\\') rest

def comments : Reader Unit := fun text =>
  if isComments 0 false text then some ((), []) else none

/-- The year of a message: two digits mean a year from 1950 to 2049, three
digits count from 1900. -/
def messageYear : Reader Nat := do
  let (count, value) ← wholeNumber 2
  if count = 2 then return if value ≤ 49 then value + 2000 else value + 1900
  else if count = 3 then return value + 1900
  else return value

def messageWeekday : Reader (Option Nat) := fun text =>
  match (name weekdayNames).run text with
  | some (day, rest) => ((char ',').run rest).map fun (_, after) => (some day, after)
  | none => some (none, text)

def messageSeconds : Reader Nat := fun text =>
  match Text.trimStart text with
  | ':' :: rest => (number 2 2).run rest
  | _ => some (0, text)

/-- The date of a message. A day of the week has to be the right one. -/
def messageInstant : Reader LocalTime := do
  blanks
  let weekday ← messageWeekday
  blanks
  let day ← number 1 2
  someBlanks
  let month ← name monthNames
  someBlanks
  let year ← messageYear
  someBlanks
  let hour ← number 2 2
  blanks
  char ':'
  blanks
  let minute ← number 2 2
  let second ← messageSeconds
  someBlanks
  let offset ← messageZone
  comments
  let date : CivilDate := ⟨year, month + 1, day⟩
  if weekday.any (· != date.weekday) then failure
  return ⟨date, hour, minute, second, 0, offset⟩

/-- A field of a form without fixed width: blanks and up to `most` digits. -/
def field (most : Nat) : Reader Nat := do
  blanks
  number 1 most

/-- A year of up to four digits, or of any number of digits behind a sign. -/
def signedYear : Reader Int := do
  blanks
  if ← charIf '-' then return -(← wholeNumber 1).2
  else if ← charIf '+' then return (← wholeNumber 1).2
  else return (← number 1 4)

def dashedDate : Reader CivilDate := do
  let year ← signedYear
  char '-'
  let month ← field 2
  char '-'
  return ⟨year, month, ← field 2⟩

def slashedDate : Reader CivilDate := do
  let month ← field 2
  char '/'
  let day ← field 2
  char '/'
  return ⟨← signedYear, month, day⟩

def clock (withSeconds : Bool) : Reader (Nat × Nat × Nat × Nat) := do
  let hour ← field 2
  char ':'
  let minute ← field 2
  if withSeconds then
    char ':'
    let second ← field 2
    return (hour, minute, second, ← fraction)
  else return (hour, minute, 0, 0)

def dashedTime (separator : Reader Unit) (withSeconds : Bool) : Reader LocalTime := do
  let date ← dashedDate
  separator
  let (hour, minute, second, nanos) ← clock withSeconds
  return ⟨date, hour, minute, second, nanos, 0⟩

/-- Whether the second half of the day is named, in either case of letters. -/
def isAfternoon : Reader Bool := do
  let letter ← satisfying ("aApP".toList.contains ·)
  let _ ← satisfying ("mM".toList.contains ·)
  return letter.toLower == 'p'

/-- A date with slashes, a comma and a time on a clock of twelve hours. -/
def slashedTime : Reader LocalTime := do
  let date ← slashedDate
  char ','
  blanks
  let hour ← field 2
  if hour < 1 || 12 < hour then failure
  char ':'
  let minute ← field 2
  char ':'
  let second ← field 2
  blanks
  let afternoon ← isAfternoon
  return ⟨date, hour % 12 + (if afternoon then 12 else 0), minute, second, 0, 0⟩

/-- The forms with a time of day in the order in which they are tried. -/
def timeForms : List (Reader LocalTime) :=
  [isoInstant, messageInstant, dashedTime (char 'T') true, dashedTime (char 'T') false,
    dashedTime blanks true, slashedTime]

end Reader

namespace Instant

/-- A date without a time of day. Four digits are a year and seven bytes a year
and a month, of which the first day is meant. -/
def dateOnly? (text : List Char) : Option CivilDate :=
  let size := Text.byteSize text
  if size = 4 ∧ text.all Char.isDigit then Reader.dashedDate.readAll? (text ++ "-01-01".toList)
  else if size = 7 then Reader.dashedDate.readAll? (text ++ "-01".toList)
  else
    ((Reader.dashedDate.readAll? text).filter CivilDate.isValid) <|>
      Reader.slashedDate.readAll? text

def ofText? (text : List Char) : Option Instant :=
  let text := Text.trim text
  (Reader.timeForms.findSome? fun form => (form.readAll? text).bind ofLocal?) <|>
    (dateOnly? text).bind fun date => ofLocal? ⟨date, 0, 0, 0, 0, 0⟩

end Instant

end ConfigNotation
