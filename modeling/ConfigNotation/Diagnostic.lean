import ConfigNotation.Text.Lines

/-!
Reports for the user: a code, a message, a position and notes, and their
rendering with the line that they point at.
-/

namespace ConfigNotation

inductive ErrorCode where
  | lexical
  | unexpectedToken | unexpectedEnd | mixedKeys | malformedNumber | malformedDate
  | malformedRegExp | unknownEncoding | missingFile | notAFile | misplacedRest
  | destructuringWithAs | missingExport | trailingInput
  | undefinedVariable | unknownClass | unknownBase | unknownMixin | unexpectedArguments
  | unexpectedBody | spreadMismatch
  | typeMismatch | tupleLength | missingField | unknownFields | unknownType | literalMismatch
  | unreadableFile | importCycle | importFailed | undecodableFile
  deriving DecidableEq, Repr, Inhabited

namespace ErrorCode

/-- The number of a code. Its thousands tell the stage: characters, grammar,
references, types, files. -/
def number : ErrorCode → Nat
  | lexical => 1
  | unexpectedToken => 1001
  | unexpectedEnd => 1002
  | mixedKeys => 1003
  | malformedNumber => 1004
  | malformedDate => 1005
  | malformedRegExp => 1006
  | unknownEncoding => 1007
  | missingFile => 1008
  | notAFile => 1009
  | misplacedRest => 1010
  | destructuringWithAs => 1011
  | missingExport => 1012
  | trailingInput => 1013
  | undefinedVariable => 2001
  | unknownClass => 2002
  | unknownBase => 2003
  | unknownMixin => 2004
  | unexpectedArguments => 2005
  | unexpectedBody => 2006
  | spreadMismatch => 2007
  | typeMismatch => 3001
  | tupleLength => 3002
  | missingField => 3003
  | unknownFields => 3004
  | unknownType => 3005
  | literalMismatch => 3006
  | unreadableFile => 4001
  | importCycle => 4002
  | importFailed => 4003
  | undecodableFile => 4004

/-- The letter E and four digits. -/
def text (code : ErrorCode) : String :=
  let digits := toString code.number
  "E" ++ "".pushn '0' (4 - digits.length) ++ digits

def all : List ErrorCode :=
  [lexical, unexpectedToken, unexpectedEnd, mixedKeys, malformedNumber, malformedDate,
    malformedRegExp, unknownEncoding, missingFile, notAFile, misplacedRest, destructuringWithAs,
    missingExport, trailingInput, undefinedVariable, unknownClass, unknownBase, unknownMixin,
    unexpectedArguments, unexpectedBody, spreadMismatch, typeMismatch, tupleLength, missingField,
    unknownFields, unknownType, literalMismatch, unreadableFile, importCycle, importFailed,
    undecodableFile]

def ofText? (text : String) : Option ErrorCode := all.find? (·.text == text)

/-- Whether the text itself is at fault, before any meaning is given to it. -/
def isSyntaxError (code : ErrorCode) : Bool := code.number < 2000

def isTypeError (code : ErrorCode) : Bool := code.number / 1000 == 3

end ErrorCode

inductive Severity where
  | error | warning | note
  deriving DecidableEq, Repr, Inhabited

def Severity.text : Severity → String
  | error => "error"
  | warning => "warning"
  | note => "note"

structure Diagnostic where
  code : ErrorCode
  severity : Severity
  message : String
  position : Option Position
  notes : List String
  deriving DecidableEq, Repr

namespace Diagnostic

def isError (report : Diagnostic) : Bool := report.severity == .error

def headline (report : Diagnostic) : String :=
  s!"{report.severity.text}[{report.code.text}]: {report.message}"

/-- A report on one line. -/
def text (report : Diagnostic) : String :=
  match report.position with
  | some position => s!"{report.headline} at {position.line}:{position.column}"
  | none => report.headline

/-- The line that a position lies in, with a mark below the column. It is left
out if the text has no such line. -/
def excerpt (source : String) (position : Position) : List String :=
  let text := source.toList
  match (LineTable.ofText text).lineText? text position.line with
  | some line =>
      let gutter := "".pushn ' ' (toString position.line).length
      let margin := "".pushn ' ' (position.column - 1)
      [s!"{gutter} |", s!"{position.line} | {String.ofList line}", s!"{gutter} | {margin}^"]
  | none => []

/-- The lines of a report. `origin` names the file that the text was read
from. -/
def lines (report : Diagnostic) (source origin : Option String) : List String :=
  let file := origin.getD "<input>"
  let place := match report.position with
    | some position =>
        s!"  --> {file}:{position.line}:{position.column}" ::
          (source.map (excerpt · position)).getD []
    | none => []
  report.headline :: place ++ report.notes.map ("  = note: " ++ ·)

def render (report : Diagnostic) (source origin : Option String) : String :=
  String.join ((report.lines source origin).map (· ++ "\n"))

end Diagnostic

end ConfigNotation
