import ConfigNotation.Diagnostic
import ConfigNotation.File.Path
import ConfigNotation.Token.Lexer

/-!
Why tokens form no module.
-/

namespace ConfigNotation

inductive ParseContext where
  | importStatement | useStatement | destructuring | classDecl | classParameters | classField
  | exportStatement | container | arguments | typeExpr
  deriving DecidableEq, Repr

def ParseContext.description : ParseContext → String
  | importStatement => "an import statement"
  | useStatement => "a use statement"
  | destructuring => "a destructuring pattern"
  | classDecl => "a class declaration"
  | classParameters => "constructor parameters"
  | classField => "a class field"
  | exportStatement => "the export statement"
  | container => "a record or sequence literal"
  | arguments => "constructor arguments"
  | typeExpr => "a type annotation"

inductive ParseFault where
  | unexpectedToken (expected found : String)
  | unexpectedEnd (expected : String)
  | invalidStatement (found : String)
  | mixedKeys
  | invalidNumber (text : String)
  | invalidBigInt (text : String)
  | invalidDate (text : String)
  | invalidRegExp (pattern reason : String)
  | unknownEncoding (name : String)
  | missingFile (path : Path)
  | notAFile (path : Path)
  | restNotLast (name : String)
  | destructuringWithAs
  | missingExport
  | trailingInput (found : String)
  deriving DecidableEq, Repr

namespace ParseFault

def message : ParseFault → String
  | unexpectedToken expected found => s!"expected {expected}, found {found}"
  | unexpectedEnd expected => s!"unexpected end of input, expected {expected}"
  | invalidStatement found =>
      s!"expected import, class, use, export, or a value, found {found}"
  | mixedKeys => "cannot mix @key and @* entries in one literal"
  | invalidNumber text => s!"invalid number literal {text}"
  | invalidBigInt text => s!"invalid bigint literal {text}"
  | invalidDate text => s!"invalid date \"{text}\""
  | invalidRegExp pattern reason => s!"invalid regular expression /{pattern}/: {reason}"
  | unknownEncoding name => s!"unknown encoding \"{name}\""
  | missingFile path => s!"file \"{path.text}\" does not exist"
  | notAFile path => s!"\"{path.text}\" is not a file"
  | restNotLast name => s!"spread parameter \"{name}\" must be the last parameter"
  | destructuringWithAs => "cannot use destructuring syntax with \"as\" keyword"
  | missingExport => "module has no export statement"
  | trailingInput found => s!"unexpected {found} after the export statement"

def code : ParseFault → ErrorCode
  | unexpectedToken .. | invalidStatement _ => .unexpectedToken
  | unexpectedEnd _ => .unexpectedEnd
  | mixedKeys => .mixedKeys
  | invalidNumber _ | invalidBigInt _ => .malformedNumber
  | invalidDate _ => .malformedDate
  | invalidRegExp .. => .malformedRegExp
  | unknownEncoding _ => .unknownEncoding
  | missingFile _ => .missingFile
  | notAFile _ => .notAFile
  | restNotLast _ => .misplacedRest
  | destructuringWithAs => .destructuringWithAs
  | missingExport => .missingExport
  | trailingInput _ => .trailingInput

end ParseFault

/-- A fault at a token, with the innermost context that was being read. -/
structure ParseError where
  fault : ParseFault
  span : Span
  position : Position
  context : Option ParseContext
  deriving DecidableEq, Repr

namespace ParseError

/-- A fault at a token, before a context is known. -/
def atToken (fault : ParseFault) (token : Token) : ParseError :=
  ⟨fault, token.span, token.position, none⟩

/-- Records a context, unless a narrower one is known already. -/
def within (context : ParseContext) (error : ParseError) : ParseError :=
  { error with context := error.context <|> some context }

def message (error : ParseError) : String := error.fault.message ++ error.position.phrase

def diagnostic (error : ParseError) : Diagnostic where
  code := error.fault.code
  severity := .error
  message := error.fault.message
  position := some error.position
  notes := error.context.toList.map fun context => "while parsing " ++ context.description

end ParseError

def inContext {α : Type} (context : ParseContext) (result : Except ParseError α) :
    Except ParseError α :=
  result.mapError (·.within context)

end ConfigNotation
