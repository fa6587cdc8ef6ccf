import ConfigNotation.Eval.Class
import ConfigNotation.Value.Text

/-!
Whether a value conforms to a type. Names of built-in types come before classes,
and a class asks for a record with exactly its fields. Classes may refer to
themselves: the check ends because it goes down into the value.
-/

namespace ConfigNotation

inductive BuiltInType where
  | string | number | boolean | bigInt | date | regExp | array | object | any | null | undefined
  deriving DecidableEq, Repr

namespace BuiltInType

def name : BuiltInType → String
  | string => "String"
  | number => "Number"
  | boolean => "Boolean"
  | bigInt => "BigInt"
  | date => "Date"
  | regExp => "RegExp"
  | array => "Array"
  | object => "Object"
  | any => "Any"
  | null => "Null"
  | undefined => "Undefined"

def all : List BuiltInType :=
  [string, number, boolean, bigInt, date, regExp, array, object, any, null, undefined]

def ofName? (name : String) : Option BuiltInType := all.find? (·.name == name)

/-- Whether a value is of a built-in type. The contents of a file pass for a
string, and a number that is none passes for nothing. -/
def admits : BuiltInType → Value → Bool
  | string, .string _ => true
  | string, .buffer _ => true
  | number, .number value => !value.isNaN
  | boolean, .boolean _ => true
  | bigInt, .bigInt _ => true
  | date, .date _ => true
  | regExp, .regExp _ => true
  | array, .array _ => true
  | object, .object _ => true
  | any, _ => true
  | null, .null => true
  | undefined, .undefined => true
  | _, _ => false

end BuiltInType

namespace Value

def mismatch (value : Value) (place : Place) (expected : String) : EvalError :=
  .raise (.typeMismatch place expected value.typeName)

/-- Fails if a record has names that no field declares. -/
def checkNames (record : Record Value) (fields : List (Field TypeExpr)) (place : Place)
    (className : Option String) : Except EvalError Unit :=
  let extra := record.keys.filter fun key => !fields.any (·.name == key)
  if extra.isEmpty then .ok ()
  else .error (.raise (.unknownNestedFields place extra className))

mutual

/-- Fails at the first part of a value that does not conform to its type. -/
def check (classes : ClassTable) (value : Value) (type : TypeExpr) (place : Place) :
    Except EvalError Unit :=
  match type, value with
  | .reference name, value =>
      match BuiltInType.ofName? name with
      | some builtIn =>
          if builtIn.admits value then .ok () else .error (value.mismatch place name)
      | none =>
          match classes.get? name, value with
          | none, _ => .error (.raise (.unknownType name))
          | some cls, .object record => do
              checkFields classes record cls.fields.values place (some name)
              checkNames record cls.fields.values place (some name)
          | some _, value => .error (value.mismatch place s!"instance of {name}")
  | .object fields, .object record => do
      checkFields classes record fields place none
      checkNames record fields place none
  | .object _, value => .error (value.mismatch place "object")
  | .array, .array _ => .ok ()
  | .arrayOf element, .array items => checkItems classes items element place 0
  | .array, value | .arrayOf _, value => .error (value.mismatch place "array")
  | .tuple elements, .array items =>
      if items.length = elements.length then checkTuple classes items elements place 0
      else .error (.raise (.tupleLength place elements.length items.length))
  | .tuple _, value => .error (value.mismatch place "tuple")
  | .literal body, .string text =>
      if text = body then .ok ()
      else .error (.raise (.literalMismatch place body (Value.string text).quotation))
  | .literal body, value => .error (.raise (.literalMismatch place body value.quotation))
termination_by (sizeOf value, 0)

/-- Checks the fields that a record has, and asks for those that are required. -/
def checkFields (classes : ClassTable) (record : Record Value)
    (fields : List (Field TypeExpr)) (place : Place) (className : Option String) :
    Except EvalError Unit :=
  match fields with
  | [] => .ok ()
  | field :: rest => do
      match _hvalue : Record.lookup field.name record.entries with
      | some value => check classes value field.type (place.select (.field field.name))
      | none =>
          if field.isRequired then
            throw (.raise (.missingNestedField field.name place className))
      checkFields classes record rest place className
termination_by (sizeOf record, fields.length)
decreasing_by
  · apply Prod.Lex.right
    simp
  · have := Record.sizeOf_lookup_lt _hvalue
    cases record
    apply Prod.Lex.left
    simp_all
    omega

def checkItems (classes : ClassTable) (items : List Value) (element : TypeExpr) (place : Place)
    (index : Nat) : Except EvalError Unit :=
  match items with
  | [] => .ok ()
  | item :: rest => do
      check classes item element (place.select (.index index))
      checkItems classes rest element place (index + 1)
termination_by (sizeOf items, 0)

def checkTuple (classes : ClassTable) (items : List Value) (elements : List TypeExpr)
    (place : Place) (index : Nat) : Except EvalError Unit :=
  match items, elements with
  | item :: rest, element :: elements => do
      check classes item element (place.select (.index index))
      checkTuple classes rest elements place (index + 1)
  | _, _ => .ok ()
termination_by (sizeOf items, 0)

end

end Value

end ConfigNotation
