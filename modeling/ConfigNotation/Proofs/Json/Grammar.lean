import ConfigNotation.Proofs.Number.Numeral
import ConfigNotation.Proofs.Text.Utf16
import ConfigNotation.Proofs.Token.Numerals

/-!
The grammar of JSON, with what its texts denote. Numbers are exact, the members of an object
stand in the order of the text, and strings are made of characters: half of a surrogate pair
denotes nothing.
-/

namespace ConfigNotation

inductive Json where
  | null
  | boolean (value : Bool)
  | number (value : ℚ)
  | string (text : String)
  | array (items : List Json)
  | object (members : List (String × Json))

namespace Json

def isBlank (c : Char) : Bool := c == ' ' || c == '\t' || c == '\n' || c == '\r'

def AreBlanks (text : List Char) : Prop := ∀ c ∈ text, isBlank c = true

/-- An exponent, and whether it is negative with its digits. A plus sign may be
left out. -/
inductive IsExponent : List Char → Option (Bool × List Char) → Prop where
  | absent : IsExponent [] none
  | present {mark : Char} {sign digits : List Char} (hmark : mark ∈ ['e', 'E'])
      (hsign : sign ∈ [[], ['+'], ['-']]) (hne : digits ≠ []) (hdigits : AreDigits digits) :
      IsExponent (mark :: (sign ++ digits)) (some (sign == ['-'], digits))

def signed (negative : Bool) (value : ℚ) : ℚ := if negative then -value else value

/-- A number. No zero stands in front of other digits of the whole part. -/
inductive IsNumber : List Char → ℚ → Prop where
  | intro (negative : Bool) {numeral : Numeral} {exponent : List Char}
      (hwell : numeral.WellFormed) (hzero : numeral.whole.head? = some '0' → numeral.whole = ['0'])
      (hexponent : IsExponent exponent numeral.exponent) :
      IsNumber (minusChars negative ++ (numeral.whole ++
        (Numeral.fractionChars numeral.fraction ++ exponent)))
        (signed negative numeral.decimal.value)

def escaped? : Char → Option Char
  | '"' => some '"'
  | '\\' => some '\\'
  | '/' => some '/'
  | 'b' => some '\x08'
  | 'f' => some '\x0C'
  | 'n' => some '\n'
  | 'r' => some '\r'
  | 't' => some '\t'
  | _ => none

/-- Units of sixteen bits, each written with four hexadecimal digits. -/
inductive AreUnits : List Char → List Nat → Prop where
  | nil : AreUnits [] []
  | cons {digits text : List Char} {values units : List Nat} (hlength : digits.length = 4)
      (hvalues : Number.digitValues? 16 digits = some values) (hrest : AreUnits text units) :
      AreUnits ('\\' :: 'u' :: (digits ++ text)) (Number.ofDigitValues 16 values :: units)

/-- One character of a string: as it is, by a letter, or by its units. -/
inductive IsChar : List Char → Char → Prop where
  | plain {c : Char} (hquote : c ≠ '"') (hbackslash : c ≠ '\\') (hcontrol : 0x20 ≤ c.toNat) :
      IsChar [c] c
  | letter {mark c : Char} (hmeaning : escaped? mark = some c) : IsChar ['\\', mark] c
  | units {text : List Char} {c : Char} (hunits : AreUnits text (Utf16.unitsOf c)) : IsChar text c

inductive AreChars : List Char → List Char → Prop where
  | nil : AreChars [] []
  | cons {text rest chars : List Char} {c : Char} (hfirst : IsChar text c)
      (hrest : AreChars rest chars) : AreChars (text ++ rest) (c :: chars)

inductive IsString : List Char → String → Prop where
  | intro {text : List Char} {value : String} (hchars : AreChars text value.toList) :
      IsString ('"' :: (text ++ ['"'])) value

/-- What stands between brackets: blanks only, or parts of one sort with commas
between them. -/
inductive Listed {α : Type} (rule : List Char → α → Prop) : List Char → List α → Prop where
  | none {blanks : List Char} (hblanks : AreBlanks blanks) : Listed rule blanks []
  | last {text : List Char} {part : α} (hpart : rule text part) : Listed rule text [part]
  | cons {text rest : List Char} {part : α} {parts : List α} (hpart : rule text part)
      (hrest : Listed rule rest parts) (hne : parts ≠ []) :
      Listed rule (text ++ ',' :: rest) (part :: parts)

mutual

/-- A value without blanks around it. -/
inductive IsValue : List Char → Json → Prop where
  | null : IsValue ['n', 'u', 'l', 'l'] null
  | yes : IsValue ['t', 'r', 'u', 'e'] (boolean true)
  | no : IsValue ['f', 'a', 'l', 's', 'e'] (boolean false)
  | number {text : List Char} {value : ℚ} (hnumber : IsNumber text value) :
      IsValue text (number value)
  | string {text : List Char} {value : String} (hstring : IsString text value) :
      IsValue text (string value)
  | array {text : List Char} {items : List Json} (hitems : Listed Denotes text items) :
      IsValue ('[' :: (text ++ [']'])) (array items)
  | object {text : List Char} {members : List (String × Json)}
      (hmembers : Listed IsMember text members) :
      IsValue ('\x7b' :: (text ++ ['\x7d'])) (object members)

/-- A value with blanks around it, which is what a whole text is. -/
inductive Denotes : List Char → Json → Prop where
  | intro {before text after : List Char} {json : Json} (hbefore : AreBlanks before)
      (hvalue : IsValue text json) (hafter : AreBlanks after) :
      Denotes (before ++ (text ++ after)) json

inductive IsMember : List Char → String × Json → Prop where
  | intro {before name after text : List Char} {key : String} {json : Json}
      (hbefore : AreBlanks before) (hkey : IsString name key) (hafter : AreBlanks after)
      (hvalue : Denotes text json) :
      IsMember (before ++ (name ++ (after ++ ':' :: text))) (key, json)

end

end Json

end ConfigNotation
