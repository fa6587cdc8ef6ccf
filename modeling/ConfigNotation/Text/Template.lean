import ConfigNotation.Text.CharClass
import ConfigNotation.Text.Split

/-!
The body of a string as a template: escapes, placeholders in brackets, and plain
characters. How a body is taken apart depends on the body alone, and what fills
a placeholder is not looked at again.
-/

namespace ConfigNotation

/-- A placeholder as it was written, the dotted path that it asks for, and its
default. -/
structure Placeholder where
  written : List Char
  path : String
  default : Option (List Char)
  deriving DecidableEq, Repr

namespace Placeholder

/-- The blanks of ASCII that may stand around the question mark. -/
def isGap (c : Char) : Bool :=
  c == ' ' || c == '\t' || c == '\n' || c == '\x0c' || c == '\r'

/-- The name that a text starts with, or nothing. -/
def leadingName : List Char → List Char
  | [] => []
  | c :: rest => if isIdentStart c then c :: rest.takeWhile isWordChar else []

def leadingSegment (text : List Char) : List Char :=
  if (leadingName text).isEmpty then text.takeWhile Char.isDigit else leadingName text

/-- The points, each with a segment behind it, that a text starts with. -/
def leadingSegments : List Char → List Char
  | [] => []
  | c :: rest =>
      let segment := leadingSegment rest
      if c = '.' ∧ segment ≠ [] then c :: segment ++ leadingSegments (rest.drop segment.length)
      else []
termination_by text => text.length
decreasing_by simp only [List.length_drop, List.length_cons]; omega

def leadingPath (text : List Char) : List Char :=
  let name := leadingName text
  if name.isEmpty then [] else name ++ leadingSegments (text.drop name.length)

/-- What stands up to and with the closing quote. A backslash takes the next
character with it. -/
def upToQuote? : List Char → Option (List Char)
  | [] => none
  | '"' :: _ => some ['"']
  | '\\' :: c :: rest => (upToQuote? rest).map ('\\' :: c :: ·)
  | c :: rest => (upToQuote? rest).map (c :: ·)

/-- The quoted run that a text starts with, if the closing bracket follows it. -/
def quotedRun? : List Char → Option (List Char)
  | '"' :: rest => do
      let run ← upToQuote? rest
      if (rest.drop run.length).head? = some ']' then some ('"' :: run) else none
  | _ => none

/-- What stands before the closing bracket, if that is anything. -/
def plainRun? (text : List Char) : Option (List Char) :=
  let run := text.takeWhile (· != ']')
  if run.isEmpty || (text.drop run.length).isEmpty then none else some run

/-- The default behind a question mark, with the gap before it. A gap counts as
the default if there is nothing else. -/
def gapAndDefault? (text : List Char) : Option (List Char × List Char) :=
  let gap := text.takeWhile isGap
  let body := text.drop gap.length
  match quotedRun? body with
  | some run => some (gap, run)
  | none =>
      if body.head? = some ']' then (plainRun? text).map fun run => ([], run)
      else (plainRun? body).map fun run => (gap, run)

def scan? (text : List Char) : Option Placeholder :=
  let path := leadingPath text
  let after := text.drop path.length
  let gap := after.takeWhile isGap
  if path.isEmpty then none
  else if after.head? = some ']' then
    some ⟨'[' :: path ++ [']'], String.ofList path, none⟩
  else
    match after.drop gap.length with
    | '?' :: afterMark => do
        let (innerGap, run) ← gapAndDefault? afterMark
        let written := '[' :: path ++ gap ++ '?' :: innerGap ++ run ++ [']']
        return ⟨written, String.ofList path, some run⟩
    | _ => none

/-- The character that a letter behind a backslash stands for. -/
def meaning? (c : Char) : Option Char :=
  match c with
  | 'b' => some '\x08'
  | 'f' => some '\x0c'
  | 'n' => some '\n'
  | 'r' => some '\r'
  | 't' => some '\t'
  | 'v' => some '\x0b'
  | '\\' | '"' => some c
  | _ => none

/-- Replaces escapes inside a quoted default; other backslashes stay. -/
def unescape : List Char → List Char
  | '\\' :: c :: rest =>
      match meaning? c with
      | some meaning => meaning :: unescape rest
      | none => '\\' :: c :: unescape rest
  | c :: rest => c :: unescape rest
  | [] => []

def betweenMarks? (mark text : List Char) : Option (List Char) :=
  if 2 * mark.length ≤ text.length ∧ mark.isPrefixOf text ∧ mark.isSuffixOf text then
    some ((text.drop mark.length).take (text.length - 2 * mark.length))
  else none

def wordText (word : List Char) : List Char :=
  if word = "True".toList then "true".toList
  else if word = "False".toList then "false".toList
  else if word = "Null".toList then "null".toList
  else if word = "Undefined".toList then "undefined".toList
  else word

/-- The text that a default stands for. Its quotes may be escaped. -/
def defaultText (default : List Char) : List Char :=
  let body := Text.trim default
  match betweenMarks? ['\\', '"'] body <|> betweenMarks? ['"'] body with
  | some inner => unescape inner
  | none => wordText body

/-- The text in place of a placeholder, given what was found for its path. -/
def fill (placeholder : Placeholder) (found : Option String) : List Char :=
  match found, placeholder.default with
  | some text, _ => text.toList
  | none, some default => defaultText default
  | none, none => placeholder.written

def segments (placeholder : Placeholder) : List String :=
  (Text.splitOn '.' placeholder.path.toList).map String.ofList

end Placeholder

inductive TemplatePiece where
  /-- A backslash with a character, and what the two stand for. -/
  | escape (c meaning : Char)
  | placeholder (value : Placeholder)
  | plain (c : Char)
  deriving DecidableEq, Repr

namespace TemplatePiece

def written : TemplatePiece → List Char
  | escape c _ => ['\\', c]
  | placeholder value => value.written
  | plain c => [c]

def fill (lookup : String → Option String) : TemplatePiece → List Char
  | escape _ meaning => [meaning]
  | placeholder value => value.fill (lookup value.path)
  | plain c => [c]

end TemplatePiece

structure Template where
  pieces : List TemplatePiece
  deriving DecidableEq, Repr

namespace Template

/-- The character that one behind a backslash stands for in a string. -/
def meaning? (c : Char) : Option Char :=
  if c = '[' ∨ c = ']' then some c else Placeholder.meaning? c

/-- Takes a body apart. A backslash or a bracket that starts nothing is plain. -/
def piecesOf : List Char → List TemplatePiece
  | [] => []
  | c :: rest =>
      if c = '\\' then
        match rest with
        | [] => [.plain c]
        | d :: after =>
            match meaning? d with
            | some meaning => .escape d meaning :: piecesOf after
            | none => .plain c :: piecesOf (d :: after)
      else if c = '[' then
        match Placeholder.scan? rest with
        | some value => .placeholder value :: piecesOf (rest.drop (value.written.length - 1))
        | none => .plain c :: piecesOf rest
      else .plain c :: piecesOf rest
termination_by text => text.length
decreasing_by all_goals simp; try omega

def ofText (body : String) : Template := ⟨piecesOf body.toList⟩

def paths (template : Template) : List String :=
  template.pieces.filterMap fun
    | .placeholder value => some value.path
    | _ => none

/-- The text with every placeholder filled. `lookup` gives the text for a path,
if there is any. -/
def fill (template : Template) (lookup : String → Option String) : String :=
  String.ofList (template.pieces.flatMap (·.fill lookup))

end Template

end ConfigNotation
