import ConfigNotation.Eval.Error
import ConfigNotation.Syntax.Module
import ConfigNotation.Value.Record

/-!
Classes with their inheritance resolved. A class takes the fields of its mixins,
of its base and its own, in this order; a field that comes again replaces the
earlier one in its place.
-/

namespace ConfigNotation

structure Class where
  name : String
  parameters : List Parameter
  fields : Record (Field TypeExpr)
  deriving Repr

/-- A class with parameters is called with arguments; one without checks a
body. -/
def Class.isConstructor (cls : Class) : Bool := !cls.parameters.isEmpty

abbrev ClassTable := Record Class

namespace ClassTable

/-- The base of a class, which has to be known already. -/
def baseOf (classes : ClassTable) (decl : ClassDecl) : Except EvalError (Option Class) :=
  match decl.base with
  | none => .ok none
  | some name =>
      match classes.get? name with
      | some base => .ok (some base)
      | none => .error (.raise (.unknownBase name))

/-- A mixin, which has to be known already. -/
def mixin (classes : ClassTable) (name : String) : Except EvalError Class :=
  match classes.get? name with
  | some cls => .ok cls
  | none => .error (.raise (.unknownMixin name))

/-- The class that a declaration makes of the classes before it. Without
parameters of its own it takes those of its base. -/
def resolve (classes : ClassTable) (decl : ClassDecl) : Except EvalError Class := do
  let base ← classes.baseOf decl
  let mixins ← decl.mixins.mapM classes.mixin
  let inherited := (mixins ++ base.toList).flatMap (·.fields.entries)
  let own := decl.fields.map fun field => (field.name, field)
  let parameters :=
    if decl.parameters.isEmpty then (base.map (·.parameters)).getD [] else decl.parameters
  return ⟨decl.name, parameters, .ofEntries (inherited ++ own)⟩

/-- Adds a class, in the place of one with the same name. -/
def register (classes : ClassTable) (decl : ClassDecl) : Except EvalError ClassTable := do
  return classes.insert decl.name (← classes.resolve decl)

def registerAll (classes : ClassTable) (decls : List ClassDecl) : Except EvalError ClassTable :=
  decls.foldlM (fun classes decl => (classes.register decl).mapError (·.within decl.span)) classes

end ClassTable

end ConfigNotation
