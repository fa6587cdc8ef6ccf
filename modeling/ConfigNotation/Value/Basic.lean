import ConfigNotation.Number.Text
import ConfigNotation.Syntax.Expr
import ConfigNotation.Value.Record

/-!
The values that expressions have. Instances of classes are plain records: their
fields are checked once, when they are built.
-/

namespace ConfigNotation

inductive Value where
  | null
  | undefined
  | boolean (value : Bool)
  | number (value : Number)
  | bigInt (value : Int)
  | string (text : String)
  | date (value : Instant)
  | regExp (value : RegExp)
  | buffer (value : Buffer)
  | array (items : List Value)
  | object (record : Record Value)
  deriving Repr, Inhabited

namespace Value

def isNullish : Value → Bool
  | null | undefined => true
  | _ => false

def typeName : Value → String
  | null => "null"
  | undefined => "undefined"
  | boolean _ => "boolean"
  | number _ => "number"
  | bigInt _ => "BigInt"
  | string _ => "string"
  | date _ => "Date"
  | regExp _ => "RegExp"
  | buffer _ => "Buffer"
  | array _ => "Array"
  | object _ => "object"

/-- The place that a key names in an array: decimal digits, perhaps behind a
plus sign. -/
def placeOf? (key : String) : Option Nat :=
  match key.toList with
  | '+' :: digits => Number.decimalNat? digits
  | digits => Number.decimalNat? digits

/-- The entry of a record, or the element of an array, under a key. -/
def get? (value : Value) (key : String) : Option Value :=
  match value with
  | object record => record.get? key
  | array items => (placeOf? key).bind (items[·]?)
  | _ => none

/-- What is reached by a path of keys, if every key leads on. -/
def follow? (value : Value) : List String → Option Value
  | [] => some value
  | key :: keys => (value.get? key).bind fun next => next.follow? keys

/-- What is reached by a path of keys, or undefined. -/
def follow (value : Value) (path : List String) : Value := (value.follow? path).getD undefined

mutual

/-- Whether two values are equal. The order of entries does not count, and a
number that is none differs from itself. -/
def equals : Value → Value → Bool
  | null, null => true
  | undefined, undefined => true
  | boolean a, boolean b => a == b
  | number a, number b => a.equals b
  | bigInt a, bigInt b => a == b
  | string a, string b => a == b
  | date a, date b => a == b
  | regExp a, regExp b => a == b
  | buffer a, buffer b => a == b
  | array a, array b => itemsEqual a b
  | object ⟨a⟩, object b => a.length == b.size && entriesEqual a b
  | _, _ => false

def itemsEqual : List Value → List Value → Bool
  | [], [] => true
  | a :: as, b :: bs => a.equals b && itemsEqual as bs
  | _, _ => false

/-- Whether a record has equal values under the names of all entries. -/
def entriesEqual : List (String × Value) → Record Value → Bool
  | [], _ => true
  | (key, a) :: rest, record =>
      (match record.get? key with
        | some b => a.equals b
        | none => false) && entriesEqual rest record

end

end Value

end ConfigNotation
