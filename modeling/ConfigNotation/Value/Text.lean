import ConfigNotation.Value.Basic

/-!
Two texts of a value: the one that placeholders are filled with, and the one
that messages quote.
-/

namespace ConfigNotation.Value

mutual

def text : Value → String
  | null => "null"
  | undefined => "undefined"
  | boolean value => if value then "true" else "false"
  | number value => value.text
  | bigInt value => toString value
  | string text => text
  | date value => value.text
  | regExp value => value.text
  | buffer value => value.text
  | array items => String.intercalate "," (itemTexts items)
  | object _ => "[object Object]"

/-- The texts of the elements of an array. Null and undefined show nothing. -/
def itemTexts : List Value → List String
  | [] => []
  | item :: rest => (if item.isNullish then "" else item.text) :: itemTexts rest

end

def quotedChar (c : Char) : List Char :=
  match c with
  | '"' => ['\\', '"']
  | '\\' => ['\\', '\\']
  | '\n' => ['\\', 'n']
  | '\r' => ['\\', 'r']
  | '\t' => ['\\', 't']
  | c =>
      if c.toNat < 0x20 then
        ['\\', 'u', '0', '0', Nat.digitChar (c.toNat / 16), Nat.digitChar (c.toNat % 16)]
      else [c]

def quoted (text : String) : String :=
  "\"" ++ String.ofList (text.toList.flatMap quotedChar) ++ "\""

mutual

/-- A value as JSON. Numbers that JSON cannot write and elements that are
undefined become null, and members that are undefined are left out. -/
def json : Value → String
  | null | undefined => "null"
  | boolean value => if value then "true" else "false"
  | number value => if value.isFinite then value.text else "null"
  | bigInt value => toString value
  | string text => quoted text
  | date value => quoted value.text
  | regExp _ => "\x7b\x7d"
  | buffer value => quoted value.text
  | array items => "[" ++ String.intercalate "," (itemsJson items) ++ "]"
  | object ⟨entries⟩ => "\x7b" ++ String.intercalate "," (entriesJson entries) ++ "\x7d"

def itemsJson : List Value → List String
  | [] => []
  | item :: rest => item.json :: itemsJson rest

def entriesJson : List (String × Value) → List String
  | [] => []
  | (_, undefined) :: rest => entriesJson rest
  | (key, value) :: rest => (quoted key ++ ":" ++ value.json) :: entriesJson rest

end

/-- A value as messages quote it: JSON, but for undefined by itself. -/
def quotation : Value → String
  | undefined => "undefined"
  | value => value.json

end ConfigNotation.Value
