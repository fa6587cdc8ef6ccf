import ConfigNotation.Syntax.Expr

/-!
Types of fields, classes, bindings and modules.
-/

namespace ConfigNotation

/-- A field of a class or of an object type, over the type of its annotation. -/
structure Field (τ : Type) where
  name : String
  type : τ
  optional : Bool
  default : Option Expr
  span : Span
  deriving Repr

def Field.isRequired {τ : Type} (field : Field τ) : Bool :=
  !field.optional && field.default.isNone

inductive TypeExpr where
  /-- A built-in type or a class. -/
  | reference (name : String)
  | object (fields : List (Field TypeExpr))
  /-- An array whose elements are not looked at. -/
  | array
  | arrayOf (element : TypeExpr)
  | tuple (elements : List TypeExpr)
  /-- The string with a given body. -/
  | literal (body : String)
  deriving Repr

namespace TypeExpr

/-- The type of a field without annotation. -/
def any : TypeExpr := reference "Any"

mutual

def text : TypeExpr → String
  | reference name => name
  | object fields => "[" ++ fieldsText fields ++ " ]"
  | array => "[]"
  | arrayOf element => "[" ++ element.text ++ "]"
  | tuple elements => "[" ++ elementsText elements ++ "]"
  | literal body => "\"" ++ body ++ "\""

/-- The text of the fields of an object type; defaults are left out. -/
def fieldsText : List (Field TypeExpr) → String
  | [] => ""
  | ⟨name, type, optional, _, _⟩ :: rest =>
      " @" ++ name ++ (if optional then "?" else "") ++ ": " ++ type.text ++ ";" ++ fieldsText rest

def elementsText : List TypeExpr → String
  | [] => ""
  | element :: rest =>
      element.text ++ ";" ++ (if rest.isEmpty then "" else " ") ++ elementsText rest

end

end TypeExpr

/-- A parameter of a constructor. A rest parameter takes all remaining values. -/
structure Parameter where
  name : String
  isRest : Bool
  deriving DecidableEq, Repr

structure ClassDecl where
  name : String
  parameters : List Parameter
  base : Option String
  mixins : List String
  fields : List (Field TypeExpr)
  span : Span
  deriving Repr

/-- A name that a pattern binds to what is reached by a path of keys. -/
structure Leaf where
  path : List String
  name : String
  deriving DecidableEq, Repr

inductive Binding where
  | name (name : String)
  | pattern (leaves : List Leaf)
  deriving DecidableEq, Repr

structure Import where
  source : FileRef
  binding : Binding
  span : Span
  deriving Repr

structure Use where
  value : Expr
  binding : Binding
  span : Span
  deriving Repr

/-- A module: its statements by kind, and the expression that it exports. -/
structure Module where
  imports : List Import
  uses : List Use
  classes : List ClassDecl
  body : Expr
  deriving Repr

end ConfigNotation
