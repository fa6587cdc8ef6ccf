import ConfigNotation.Syntax.Error
import ConfigNotation.File.Encoding

/-!
Why a module has no value. A fault in an imported file carries the whole failure
of that file.
-/

namespace ConfigNotation

inductive Selector where
  | field (name : String)
  | index (place : Nat)
  deriving DecidableEq, Repr

/-- A part of a value, as messages name it: steps from a class or its value. -/
structure Place where
  root : String
  selectors : List Selector
  deriving DecidableEq, Repr

namespace Selector

def text : Selector → String
  | field name => s!".{name}"
  | index place => s!"[{place}]"

end Selector

namespace Place

def text (place : Place) : String := place.root ++ String.join (place.selectors.map (·.text))

def select (place : Place) (selector : Selector) : Place :=
  { place with selectors := place.selectors ++ [selector] }

end Place

mutual

inductive EvalFault where
  | undefinedVariable (name : String)
  | unknownClass (name : String)
  | unknownBase (name : String)
  | unknownMixin (name : String)
  /-- A class without parameters was called. -/
  | unexpectedArguments (className : String)
  /-- A class with parameters was given a body. -/
  | missingArguments (className : String)
  | spreadIntoArray (found : String)
  | spreadIntoObject (found : String)
  | spreadArgument (found : String)
  | typeMismatch (place : Place) (expected found : String)
  | tupleLength (place : Place) (expected found : Nat)
  | missingField (field className : String)
  | missingConstructorValue (field className : String)
  | missingNestedField (field : String) (place : Place) (className : Option String)
  | unknownFields (className : String) (fields : List String)
  | unknownNestedFields (place : Place) (fields : List String) (className : Option String)
  | unknownType (name : String)
  | literalMismatch (place : Place) (expected found : String)
  | unreadableFile (path : Path) (reason : String)
  /-- The files from the outermost one to the one that is met again. -/
  | importCycle (chain : List Path)
  | importFailed (path : Path) (cause : Failure)
  | undecodableFile (path : Path) (cause : DecodeFault)

/-- A fault with the innermost part of the module that it arose in. The position
is known once the text is at hand. -/
structure EvalError where
  fault : EvalFault
  span : Option Span
  position : Option Position

inductive Failure where
  | lex (error : LexError)
  | parse (error : ParseError)
  | eval (error : EvalError)

end

def classClause (opening : String) : Option String → String
  | some className => s!" ({opening} class {className})"
  | none => ""

mutual

def EvalFault.message : EvalFault → String
  | .undefinedVariable name => s!"Undefined variable: {name}"
  | .unknownClass name => s!"Class \"{name}\" not found"
  | .unknownBase name => s!"Base class \"{name}\" not found"
  | .unknownMixin name => s!"Mixin class \"{name}\" not found"
  | .unexpectedArguments className =>
      s!"Class \"{className}\" is a validator and cannot be called with arguments"
  | .missingArguments className =>
      s!"Class \"{className}\" is a constructor and requires arguments"
  | .spreadIntoArray found => s!"Cannot spread non-array value in array (got {found})"
  | .spreadIntoObject found => s!"Cannot spread non-object value in object (got {found})"
  | .spreadArgument found => s!"Spread operator can only be used with arrays (got {found})"
  | .typeMismatch place expected found =>
      s!"Type mismatch at {place.text}: expected {expected}, got {found}"
  | .tupleLength place expected found =>
      s!"Tuple length mismatch at {place.text}: expected {expected}, got {found}"
  | .missingField field className =>
      s!"Missing required field \"{field}\" in class \"{className}\""
  | .missingConstructorValue field className =>
      s!"Missing value for required field \"{field}\" in constructor of class \"{className}\""
  | .missingNestedField field place className =>
      s!"Missing required field \"{field}\" at {place.text}" ++
        classClause "expected by" className
  | .unknownFields className fields =>
      s!"Unknown fields in class \"{className}\": " ++ String.intercalate ", " fields
  | .unknownNestedFields place fields className =>
      s!"Unknown fields at {place.text}: " ++ String.intercalate ", " fields ++
        classClause "not defined in" className
  | .unknownType name => s!"Unknown type: {name}"
  | .literalMismatch place expected found =>
      s!"Type mismatch at {place.text}: expected literal \"{expected}\", got {found}"
  | .unreadableFile path reason => s!"cannot read \"{path.text}\": {reason}"
  | .importCycle chain => "import cycle: " ++ String.intercalate " -> " (chain.map (·.text))
  | .importFailed path cause => s!"in imported file \"{path.text}\": " ++ cause.message
  | .undecodableFile path cause => s!"cannot decode \"{path.text}\": " ++ cause.message

def EvalError.message : EvalError → String
  | ⟨fault, _, _⟩ => fault.message

def Failure.message : Failure → String
  | .lex error => error.message
  | .parse error => error.message
  | .eval error => error.message

end

def Failure.position? : Failure → Option Position
  | .lex error => some error.position
  | .parse error => some error.position
  | .eval error => error.position

namespace EvalFault

def code : EvalFault → ErrorCode
  | undefinedVariable _ => .undefinedVariable
  | unknownClass _ => .unknownClass
  | unknownBase _ => .unknownBase
  | unknownMixin _ => .unknownMixin
  | unexpectedArguments _ => .unexpectedArguments
  | missingArguments _ => .unexpectedBody
  | spreadIntoArray _ | spreadIntoObject _ | spreadArgument _ => .spreadMismatch
  | typeMismatch .. => .typeMismatch
  | tupleLength .. => .tupleLength
  | missingField .. | missingConstructorValue .. | missingNestedField .. => .missingField
  | unknownFields .. | unknownNestedFields .. => .unknownFields
  | unknownType _ => .unknownType
  | literalMismatch .. => .literalMismatch
  | unreadableFile .. => .unreadableFile
  | importCycle _ => .importCycle
  | importFailed .. => .importFailed
  | undecodableFile .. => .undecodableFile

/-- The position of a failure in an imported file, as a note on the import. -/
def notes : EvalFault → List String
  | importFailed _ cause =>
      cause.position?.toList.map fun position =>
        s!"imported file failed at {position.line}:{position.column}"
  | _ => []

end EvalFault

namespace EvalError

/-- A fault before its place is known. -/
def raise (fault : EvalFault) : EvalError := ⟨fault, none, none⟩

/-- Records where an error arose, unless a narrower place is known already. -/
def within (span : Span) (error : EvalError) : EvalError :=
  { error with span := error.span <|> some span }

def diagnostic (error : EvalError) : Diagnostic where
  code := error.fault.code
  severity := .error
  message := error.message
  position := error.position
  notes := error.fault.notes

end EvalError

namespace Failure

def diagnostic : Failure → Diagnostic
  | lex error => error.diagnostic
  | parse error => error.diagnostic
  | eval error => error.diagnostic

end Failure

end ConfigNotation
