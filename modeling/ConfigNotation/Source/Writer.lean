import ConfigNotation.Source.Quoted
import ConfigNotation.Text.CharClass
import ConfigNotation.Text.Printable
import ConfigNotation.Value.Text

/-!
Values as modules: the text that has a given value. A container without entries
reads as a record, so an empty array is written as a name that two declarations
in front bind to one.
-/

namespace ConfigNotation

inductive SourceFault where
  /-- Only arrays and records can be exported. -/
  | notAContainer (found : String)
  /-- A key has to be an identifier. -/
  | invalidKey (key : String)
  deriving DecidableEq, Repr

def SourceFault.message : SourceFault → String
  | notAContainer found => s!"cannot stringify {found}: expected an object or an array"
  | invalidKey key => s!"cannot stringify key {Text.visible key}: keys must be identifiers"

namespace Source

/-- A part of a module, and whether it uses the name for the empty array. -/
structure Part where
  text : String
  usesEmptyArray : Bool
  deriving DecidableEq, Repr

namespace Part

def plain (text : String) : Part := ⟨text, false⟩

def append (first second : Part) : Part :=
  ⟨first.text ++ second.text, first.usesEmptyArray || second.usesEmptyArray⟩

instance : Append Part := ⟨append⟩

end Part

def emptyArray : Part := ⟨"empty.items", true⟩

/-- What the name for the empty array means: what a rest parameter is bound to
if there are no arguments. -/
def emptyArrayDeclarations : List String :=
  ["class EmptyList(...items) [@items => items;];", "use EmptyList() as empty;"]

def leafText : Value → String
  | .null => "Null"
  | .undefined => "Undefined"
  | .boolean true => "True"
  | .boolean false => "False"
  | .number value => value.text
  | .bigInt value => toString value ++ "n"
  | .string text => quoted text
  | .date value => quoted value.text ++ ".date"
  | .regExp value => value.text
  | .buffer value => quoted value.text
  | .array _ | .object _ => ""

/-- A new line at a level of nesting. Without indentation all is on one line. -/
def lineBreak (indent level : Nat) : String :=
  if indent = 0 then "" else "\n".pushn ' ' (level * indent)

def arrow (indent : Nat) : String := if indent = 0 then "=>" else " => "

def entry (indent level : Nat) (key : String) (value : Part) : Part :=
  .plain (lineBreak indent level ++ "@" ++ key ++ arrow indent) ++ value ++ .plain ";"

/-- A container around its entries. Nothing stands between the brackets of one
without entries. -/
def bracketed (indent level : Nat) (isEmpty : Bool) (entries : Part) : Part :=
  .plain "[" ++ entries ++ .plain ((if isEmpty then "" else lineBreak indent level) ++ "]")

/-- How a value that is no container is written at a level of nesting. -/
abbrev LeafWriter := Nat → Value → Except SourceFault Part

mutual

def writeValue (leaf : LeafWriter) (indent level : Nat) : Value → Except SourceFault Part
  | .array [] => .ok emptyArray
  | .array items => do
      return bracketed indent level false (← writeItems leaf indent (level + 1) items)
  | .object ⟨entries⟩ => do
      return bracketed indent level entries.isEmpty
        (← writeEntries leaf indent (level + 1) entries)
  | other => leaf level other

def writeItems (leaf : LeafWriter) (indent level : Nat) :
    List Value → Except SourceFault Part
  | [] => .ok (.plain "")
  | item :: rest => do
      let first := entry indent level "*" (← writeValue leaf indent level item)
      return first ++ (← writeItems leaf indent level rest)

def writeEntries (leaf : LeafWriter) (indent level : Nat) :
    List (String × Value) → Except SourceFault Part
  | [] => .ok (.plain "")
  | (key, item) :: rest => do
      if !isIdentifier key.toList then throw (.invalidKey key)
      let first := entry indent level key (← writeValue leaf indent level item)
      return first ++ (← writeEntries leaf indent level rest)

end

def plainLeaf : LeafWriter := fun _ value => .ok (.plain (leafText value))

/-- What a leaf is replaced by. What comes in its place is not replaced again. -/
def replacedLeaf (replace : Value → Value) (indent : Nat) : LeafWriter :=
  fun level value => writeValue plainLeaf indent level (replace value)

def leafWriter (replace? : Option (Value → Value)) (indent : Nat) : LeafWriter :=
  match replace? with
  | some replace => replacedLeaf replace indent
  | none => plainLeaf

def exportPart (leaf : LeafWriter) (indent : Nat) (value : Value) : Except SourceFault Part :=
  match value with
  | .array _ | .object _ => do
      return .plain "export " ++ (← writeValue leaf indent 0 value) ++ .plain ";"
  | leaf => .error (.notAContainer leaf.typeName)

/-- The declarations in front of a module that uses the empty array. -/
def declarations (indent : Nat) : List String :=
  emptyArrayDeclarations.flatMap fun line => if indent = 0 then [line] else [line, "\n"]

end Source

namespace Value

/-- The pieces in which the module of a value is written: the declarations that
it needs, and all the rest at once. -/
def sourcePieces (value : Value) (replace? : Option (Value → Value)) (indent : Nat) :
    Except SourceFault (List String) := do
  let part ← Source.exportPart (Source.leafWriter replace? indent) indent value
  let front := if part.usesEmptyArray then Source.declarations indent else []
  return front ++ [part.text]

/-- The module that exports a value. `replace?` is asked once about each value
that is no container, and `indent` is the number of spaces for each level. -/
def source (value : Value) (replace? : Option (Value → Value)) (indent : Nat) :
    Except SourceFault String := do
  return String.join (← value.sourcePieces replace? indent)

end Value

end ConfigNotation
