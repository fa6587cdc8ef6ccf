import ConfigNotation.Diagnostic
import ConfigNotation.Text.Span

/-!
Why a text cannot be cut into tokens.
-/

namespace ConfigNotation

inductive LexFault where
  /-- No kind of token starts with this character. -/
  | unexpectedCharacter (c : Char)
  | unterminatedString
  | unterminatedBlockComment
  deriving DecidableEq, Repr

/-- A fault and the place of the character that it was noticed at. -/
structure LexError where
  fault : LexFault
  span : Span
  position : Position
  deriving DecidableEq, Repr

def LexFault.message : LexFault → String
  | unexpectedCharacter c => s!"unexpected character \"{c}\""
  | unterminatedString => "unterminated string literal"
  | unterminatedBlockComment => "unterminated block comment"

def LexFault.notes : LexFault → List String
  | unexpectedCharacter _ => []
  | unterminatedString => ["add a closing `\"`"]
  | unterminatedBlockComment => ["block comments open and close with `'`"]

namespace LexError

def message (error : LexError) : String := error.fault.message ++ error.position.phrase

def diagnostic (error : LexError) : Diagnostic where
  code := .lexical
  severity := .error
  message := error.fault.message
  position := some error.position
  notes := error.fault.notes

end LexError

end ConfigNotation
