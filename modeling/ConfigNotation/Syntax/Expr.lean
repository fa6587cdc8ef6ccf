import ConfigNotation.Calendar.Instant
import ConfigNotation.File.System
import ConfigNotation.Number.Double
import ConfigNotation.Text.Span

/-!
Expressions as they are written: names, literals, bracketed containers, calls of
constructors, instances of classes, and conditionals. Every expression knows the
span of its tokens.
-/

namespace ConfigNotation

structure RegExp where
  source : String
  flags : String
  deriving DecidableEq, Repr

def RegExp.text (regExp : RegExp) : String := s!"/{regExp.source}/{regExp.flags}"

structure FileRef where
  path : Path
  encoding : Encoding
  deriving DecidableEq, Repr

/-- A literal with its value. A string keeps its body as it was written: escapes
and placeholders are resolved when it is evaluated. -/
inductive Literal where
  | null
  | undefined
  | boolean (value : Bool)
  | number (value : Number)
  | bigInt (value : Int)
  | string (body : String)
  | date (value : Instant)
  | regExp (value : RegExp)
  | file (value : FileRef)
  deriving DecidableEq, Repr

/-- What a container holds: entries with keys or elements without. The kind of a
container with nothing but spreads is found when it is evaluated. -/
inductive ContainerKind where
  | object | array | unknown
  deriving DecidableEq, Repr, Inhabited

def ContainerKind.name : ContainerKind → String
  | object => "object"
  | array => "array"
  | unknown => "unknown"

/-- A member of a container, over the type of its value. -/
inductive Member (ε : Type) where
  | property (key : String) (value : ε)
  | element (value : ε)
  | spread (value : ε)
  deriving Repr

def Member.value {ε : Type} : Member ε → ε
  | property _ value => value
  | element value => value
  | spread value => value

structure Container (ε : Type) where
  kind : ContainerKind
  members : List (Member ε)
  deriving Repr

/-- An argument of a constructor. A spread argument stands for several values. -/
structure Argument (ε : Type) where
  isSpread : Bool
  value : ε
  deriving Repr

/-- An expression. The span covers its first to its last token. -/
inductive Expr where
  | ident (span : Span) (name : String)
  | path (span : Span) (segments : List String)
  | literal (span : Span) (value : Literal)
  | container (span : Span) (body : Container Expr)
  | call (span : Span) (className : String) (arguments : List (Argument Expr))
  | classInstance (span : Span) (className : String) (body : Container Expr)
  /-- The left side, or the right one if the left side is null or undefined. -/
  | conditional (span : Span) (left right : Expr)
  deriving Repr

def Expr.span : Expr → Span
  | ident span _ | path span _ | literal span _ | container span _ | call span _ _
  | classInstance span _ _ | conditional span _ _ => span

end ConfigNotation
