import ConfigNotation.Calendar.Reader
import ConfigNotation.Regex.Validity
import ConfigNotation.Syntax.Cursor
import ConfigNotation.Syntax.Expr

/-!
The values of literal tokens. A literal that is malformed is refused where it
stands, and so is a file literal that names no file.
-/

namespace ConfigNotation

/-- What the literals of a text depend on: a configuration and a file
system, where file literals lead, and what is said of a pattern and its
flags that are refused. -/
structure Workspace where
  config : Config
  files : FileSystem
  explain : List Char → List Char → String

namespace Text

def dropLeading (c : Char) : List Char → List Char
  | [] => []
  | d :: rest => if d = c then rest else d :: rest

def dropTrailing (c : Char) (text : List Char) : List Char :=
  if text.getLast? = some c then text.dropLast else text

/-- Splits a text at the last place where a mark stands, and leaves the mark
out. -/
def splitAtLast? (mark : List Char) : List Char → Option (List Char × List Char)
  | [] => none
  | c :: rest =>
      match splitAtLast? mark rest with
      | some (before, after) => some (c :: before, after)
      | none =>
          if mark.isPrefixOf (c :: rest) then some ([], (c :: rest).drop mark.length) else none

def unquoted (text : List Char) : List Char := dropTrailing '"' (dropLeading '"' text)

end Text

namespace Literal

def splitRadix (text : List Char) : Bool × Nat × List Char :=
  let (negative, body) := match text with
    | '-' :: rest => (true, rest)
    | _ => (false, text)
  match body with
  | '0' :: mark :: digits =>
      if mark = 'x' ∨ mark = 'X' then (negative, 16, digits)
      else if mark = 'o' ∨ mark = 'O' then (negative, 8, digits)
      else if mark = 'b' ∨ mark = 'B' then (negative, 2, digits)
      else (negative, 10, body)
  | _ => (negative, 10, body)

def withoutUnderscores (text : List Char) : List Char := text.filter (· != '_')

/-- Reads a number without its sign. -/
def readMagnitude? (radix : Nat) (digits : List Char) : Option Number :=
  if digits.isEmpty then none
  else if radix ≠ 10 then Number.ofRadixDigits? radix digits
  else if digits = "Infinity".toList then some (.infinity false)
  else if digits = "NaN".toList then some .nan
  else if digits.any Char.isDigit then Number.ofDecimalText? digits
  else none

/-- Reads a number: underscores do not count, a minus sign may stand before
it. -/
def readNumber? (text : List Char) : Option Number :=
  let (negative, radix, digits) := splitRadix (withoutUnderscores text)
  (readMagnitude? radix digits).map fun value => if negative then value.negate else value

def readUnsigned? (radix : Nat) (text : List Char) : Option Nat :=
  let digits := match text with
    | '+' :: rest => if rest.head? = some '+' then text else rest
    | _ => text
  if digits.isEmpty then none
  else (Number.digitValues? radix digits).map (Number.ofDigitValues radix)

def readSigned? (radix : Nat) (text : List Char) : Option Int :=
  match text with
  | '-' :: rest =>
      if rest.head? = some '+' then none else (readUnsigned? radix rest).map fun n => -(n : Int)
  | _ => (readUnsigned? radix text).map Int.ofNat

def readBigInt? (text : List Char) : Option Int :=
  if text.getLast? = some 'n' then
    let (negative, radix, digits) := splitRadix (withoutUnderscores text.dropLast)
    (readSigned? radix digits).map fun value => if negative then -value else value
  else none

def dateBody (text : List Char) : List Char :=
  Text.unquoted ((Text.takeBytes? (Text.byteSize text - 5) text).getD text)

def splitRegExp (text : List Char) : List Char × List Char :=
  let inner := Text.dropLeading '/' text
  (Text.splitAtLast? ['/'] inner).getD (inner, [])

/-- Reads a regular expression. The reason for which a pattern is refused is
given. -/
def readRegExp (explain : List Char → List Char → String) (text : List Char) :
    Except ParseFault RegExp :=
  let (pattern, flags) := splitRegExp text
  if Regex.isValid pattern flags then .ok ⟨String.ofList pattern, String.ofList flags⟩
  else .error (.invalidRegExp (String.ofList pattern) (explain pattern flags))

/-- Finds the file that a literal names. It has to exist and be a file. -/
def readFile (workspace : Workspace) (text : List Char) : Except ParseFault FileRef :=
  let (quoted, name) := (Text.splitAtLast? "\".".toList text).getD (text, [])
  match Encoding.ofChars? name with
  | none => .error (.unknownEncoding (String.ofList name))
  | some encoding =>
      let path := workspace.config.base.resolve ⟨String.ofList (Text.dropLeading '"' quoted)⟩
      if !workspace.files.isPresent path then .error (.missingFile path)
      else if !workspace.files.isFile path then .error (.notAFile path)
      else .ok ⟨path, encoding⟩

def ofToken (workspace : Workspace) (token : Token) : Except ParseFault Literal :=
  let text := token.text.toList
  match token.kind with
  | .string => .ok (.string (String.ofList (Text.unquoted text)))
  | .number =>
      match readNumber? text with
      | some value => .ok (.number value)
      | none => .error (.invalidNumber token.text)
  | .bigInt =>
      match readBigInt? text with
      | some value => .ok (.bigInt value)
      | none => .error (.invalidBigInt token.text)
  | .boolean => .ok (.boolean (token.text == "True"))
  | .null => .ok .null
  | .undefined => .ok .undefined
  | .date =>
      match Instant.ofText? (dateBody text) with
      | some value => .ok (.date value)
      | none => .error (.invalidDate (String.ofList (dateBody text)))
  | .file => (readFile workspace text).map .file
  | .regExp => (readRegExp workspace.explain text).map .regExp
  | _ => .error (.unexpectedToken "a literal" s!"\"{token.text}\"")

end Literal

end ConfigNotation
