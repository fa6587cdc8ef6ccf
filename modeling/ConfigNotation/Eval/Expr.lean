import ConfigNotation.Eval.Conformance
import ConfigNotation.Eval.Scope

/-!
Values of expressions. How an expression is built from its parts is stated over
any way to evaluate the parts; the last definition closes the circle with an
allowance for the depth of nesting. An expression that needs more depth than is
allowed has no outcome, and one that has an outcome keeps it when more is
allowed.
-/

namespace ConfigNotation

abbrev Evaluator := Expr → Ambient → Evaluation Value

namespace Container

/-- Adds the value of a member to an array. A spread adds the elements of an
array. -/
def addToArray (items : List Value) (member : Member Expr) (value : Value) :
    Evaluation Value :=
  match member, value with
  | .spread _, .array more => return .array (items ++ more)
  | .spread argument, value =>
      (Evaluation.fail (.spreadIntoArray value.typeName)).within argument.span
  | .element _, value => return .array (items ++ [value])
  | .property .., _ => return .array items

/-- Adds the value of a member to a record. A spread adds the entries of a
record. -/
def addToObject (record : Record Value) (member : Member Expr) (value : Value) :
    Evaluation Value :=
  match member, value with
  | .spread _, .object more => return .object (record.insertAll more.entries)
  | .spread argument, value =>
      (Evaluation.fail (.spreadIntoObject value.typeName)).within argument.span
  | .property key _, value => return .object (record.insert key value)
  | .element _, _ => return .object record

def add (container : Value) (member : Member Expr) (value : Value) : Evaluation Value :=
  match container with
  | .array items => addToArray items member value
  | .object record => addToObject record member value
  | other => return other

/-- Adds members one after the other. Each of them sees what is built so far. -/
def addMembers (eval : Evaluator) (ambient : Ambient) (container : Value) :
    List (Member Expr) → Evaluation Value
  | [] => return container
  | member :: rest => do
      let value ← eval member.value (ambient.inside container)
      addMembers eval ambient (← add container member value) rest

/-- The empty container of the kind that a first spread gives. -/
def emptyFor : Value → Value
  | .array _ => .array []
  | _ => .object .empty

/-- The value of a container. One with spreads only takes its kind from the
first, which is evaluated once, before there is a container. -/
def evaluate (eval : Evaluator) (ambient : Ambient) (body : Container Expr) :
    Evaluation Value :=
  match body.kind, body.members with
  | .array, members => addMembers eval ambient (.array []) members
  | .unknown, .spread argument :: rest => do
      let first ← eval argument ambient
      addMembers eval ambient (← add (emptyFor first) (.spread argument) first) rest
  | _, members => addMembers eval ambient (.object .empty) members

end Container

namespace Class

def argumentValues (eval : Evaluator) (ambient : Ambient) :
    List (Argument Expr) → Evaluation (List Value)
  | [] => return []
  | ⟨isSpread, argument⟩ :: rest => do
      let value ← eval argument ambient
      let values ← match isSpread, value with
        | false, value => pure [value]
        | true, .array items => pure items
        | true, value =>
            (Evaluation.fail (.spreadArgument value.typeName)).within argument.span
      return values ++ (← argumentValues eval ambient rest)

/-- Binds parameters to values. A parameter without a value is undefined, and a
rest parameter takes all values that are left. -/
def bindParameters (bound : Record Value) : List Parameter → List Value → Record Value
  | [], _ => bound
  | ⟨name, true⟩ :: rest, values => bindParameters (bound.insert name (.array values)) rest []
  | ⟨name, false⟩ :: rest, values =>
      bindParameters (bound.insert name (values.headD .undefined)) rest values.tail

/-- Builds an instance field by field. `choose` gives the value of a field, or
none to leave it out. -/
def build (cls : Class) (classes : ClassTable)
    (choose : Field TypeExpr → Evaluation (Option Value)) (built : Record Value) :
    List (Field TypeExpr) → Evaluation (Record Value)
  | [] => return built
  | field :: rest => do
      match ← choose field with
      | some value => do
          .ofExcept (value.check classes field.type ⟨cls.name, [.field field.name]⟩)
          build cls classes choose (built.insert field.name value) rest
      | none => build cls classes choose built rest

/-- The value of a field in a constructor. An optional field is left out if its
default is null or undefined. -/
def constructed (eval : Evaluator) (ambient : Ambient) (cls : Class) (field : Field TypeExpr) :
    Evaluation (Option Value) :=
  match field.default with
  | some default => do
      let value ← eval default ambient
      return if field.optional && value.isNullish then none else some value
  | none =>
      if field.optional then return none
      else .fail (.missingConstructorValue field.name cls.name)

/-- The value of a field of which the body of an instance may say something. -/
def completed (eval : Evaluator) (ambient : Ambient) (cls : Class) (provided : Record Value)
    (field : Field TypeExpr) : Evaluation (Option Value) :=
  match provided.get? field.name, field.default with
  | some value, _ => return some value
  | none, some default => some <$> eval default ambient
  | none, none =>
      if field.optional then return none else .fail (.missingField field.name cls.name)

/-- An instance that a constructor builds from arguments. Parameters of
enclosing constructors stay visible under other names. -/
def construct (eval : Evaluator) (ambient : Ambient) (classes : ClassTable) (cls : Class)
    (arguments : List (Argument Expr)) : Evaluation Value := do
  let values ← argumentValues eval ambient arguments
  let bound := bindParameters ambient.parameters cls.parameters values
  let inner := { ambient with parameters := bound }
  return .object (← cls.build classes (constructed eval inner cls) .empty cls.fields.values)

/-- An instance with the fields of a body and the defaults of the others. -/
def instantiate (eval : Evaluator) (ambient : Ambient) (classes : ClassTable) (cls : Class)
    (body : Container Expr) : Evaluation Value := do
  match ← Container.evaluate eval ambient body with
  | .object provided =>
      let record ←
        cls.build classes (completed eval ambient cls provided) .empty cls.fields.values
      let extra := provided.keys.filter fun key => !cls.fields.contains key
      if extra.isEmpty then return .object record
      else .fail (.unknownFields cls.name extra)
  | other =>
      .fail (.typeMismatch ⟨cls.name, []⟩ s!"instance of {cls.name}" other.typeName)

end Class

namespace Scope

def findClass (scope : Scope) (name : String) : Evaluation Class :=
  match scope.classes.get? name with
  | some cls => return cls
  | none => .fail (.unknownClass name)

def evalParts (scope : Scope) (eval : Evaluator) (ambient : Ambient) : Expr → Evaluation Value
  | .ident _ name => scope.named ambient name
  | .path _ segments => scope.reference ambient segments
  | .literal _ value => scope.literal ambient value
  | .container _ body => body.evaluate eval ambient
  | .call _ className arguments => do
      let cls ← scope.findClass className
      if cls.isConstructor then cls.construct eval ambient scope.classes arguments
      else .fail (.unexpectedArguments className)
  | .classInstance _ className body => do
      let cls ← scope.findClass className
      if cls.isConstructor then .fail (.missingArguments className)
      else cls.instantiate eval ambient scope.classes body
  | .conditional _ left right => do
      let value ← eval left ambient
      if value.isNullish then eval right ambient else return value

/-- The value of an expression whose nesting, that of the classes it uses
included, is less than a given depth. -/
def eval (scope : Scope) : Nat → Evaluator
  | 0, _, _ => .exhausted
  | depth + 1, expr, ambient =>
      (scope.evalParts (scope.eval depth) ambient expr).within expr.span

end Scope

end ConfigNotation
