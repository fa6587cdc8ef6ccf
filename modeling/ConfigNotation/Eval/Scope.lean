import ConfigNotation.Eval.Error
import ConfigNotation.Eval.Class
import ConfigNotation.Text.Template
import ConfigNotation.Value.Text

/-!
What names stand for. `Main` and `This` are the outermost and the innermost
container that is being built; other names are bindings of the module first and
parameters of a constructor second.
-/

namespace ConfigNotation

/-- The outcome of an evaluation: a value, an error, or none of them if the
depth that was allowed did not suffice. -/
abbrev Evaluation := ExceptT EvalError Option

namespace Evaluation

def fail {α : Type} (fault : EvalFault) : Evaluation α := throw (.raise fault)

/-- The outcome if no more depth is allowed. -/
def exhausted {α : Type} : Evaluation α := ExceptT.mk none

def ofExcept {α : Type} (result : Except EvalError α) : Evaluation α := ExceptT.mk (some result)

/-- Records where an error arose, unless a narrower place is known already. -/
def within {α : Type} (span : Span) (evaluation : Evaluation α) : Evaluation α :=
  ExceptT.mk (evaluation.run.map (·.mapError (·.within span)))

end Evaluation

/-- What is the same all over a module. -/
structure Scope where
  classes : ClassTable
  bindings : Record Value
  files : FileSystem

/-- What surrounds an expression: the containers that are being built, as far as
they are, and the parameters of the constructors that are called. -/
structure Ambient where
  main : Option Value
  this : Option Value
  parameters : Record Value

namespace Ambient

/-- Outside of all containers and constructors. -/
def none : Ambient := ⟨.none, .none, .empty⟩

def inside (ambient : Ambient) (container : Value) : Ambient :=
  { ambient with main := ambient.main <|> some container, this := some container }

end Ambient

namespace Scope

def root? (scope : Scope) (ambient : Ambient) (name : String) : Option Value :=
  if name = "Main" then some (ambient.main.getD .undefined)
  else if name = "This" then some (ambient.this.getD .undefined)
  else scope.bindings.get? name <|> ambient.parameters.get? name

def root (scope : Scope) (ambient : Ambient) (name : String) : Evaluation Value :=
  match scope.root? ambient name with
  | some value => return value
  | none => .fail (.undefinedVariable name)

/-- A name by itself. The containers are only reached by the head of a path. -/
def named (scope : Scope) (ambient : Ambient) (name : String) : Evaluation Value :=
  if name = "Main" ∨ name = "This" then .fail (.undefinedVariable name)
  else scope.root ambient name

/-- A dotted path. It is undefined where it leads nowhere. -/
def reference (scope : Scope) (ambient : Ambient) : List String → Evaluation Value
  | [] => .fail (.undefinedVariable "")
  | name :: keys => do return (← scope.root ambient name).follow keys

/-- The text that fills a placeholder, if its path leads to a value that is
neither null nor undefined. -/
def textAt? (scope : Scope) (ambient : Ambient) (path : String) : Option String :=
  match (Text.splitOn '.' path.toList).map String.ofList with
  | [] => none
  | name :: keys => do
      let value ← (← scope.root? ambient name).follow? keys
      if value.isNullish then none else some value.text

/-- The value of a literal. The file of a file literal is read now. -/
def literal (scope : Scope) (ambient : Ambient) : Literal → Evaluation Value
  | .null => return .null
  | .undefined => return .undefined
  | .boolean value => return .boolean value
  | .number value => return .number value
  | .bigInt value => return .bigInt value
  | .string body => return .string ((Template.ofText body).fill (scope.textAt? ambient))
  | .date value => return .date value
  | .regExp value => return .regExp value
  | .file file =>
      match scope.files.read file.path with
      | .ok bytes => return .buffer ⟨file.encoding, bytes⟩
      | .error reason => .fail (.unreadableFile file.path reason)

end Scope

end ConfigNotation
