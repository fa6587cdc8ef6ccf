import ConfigNotation.Number.Shortest

/-!
How numbers are written, and how the digits of a literal are read.
-/

namespace ConfigNotation

namespace Decimal

def significantDigits (decimal : Decimal) : List Char :=
  ((Nat.toDigits 10 decimal.digits).reverse.dropWhile (· == '0')).reverse

/-- The number of digits before the point: the decimal is below ten to this
power and not below a tenth of it. -/
def pointPlace (decimal : Decimal) : Int := digitCount decimal.digits + decimal.exponent

def positional (decimal : Decimal) : List Char :=
  let digits := decimal.significantDigits
  let place := decimal.pointPlace
  if place ≤ 0 then "0.".toList ++ List.replicate (-place).toNat '0' ++ digits
  else
    let whole := digits.take place.toNat
    let fraction := digits.drop place.toNat
    whole ++ List.replicate (place.toNat - whole.length) '0' ++
      (if fraction.isEmpty then [] else '.' :: fraction)

/-- A decimal with one digit before the point and an exponent with its sign. -/
def scientific (decimal : Decimal) : List Char :=
  let power := decimal.pointPlace - 1
  let fraction := decimal.significantDigits.drop 1
  decimal.significantDigits.take 1 ++ (if fraction.isEmpty then [] else '.' :: fraction) ++
    'e' :: (if power < 0 then '-' else '+') :: Nat.toDigits 10 power.natAbs

/-- Numbers from `10 ^ -6` up to below `10 ^ 21` are written without exponent. -/
def text (decimal : Decimal) : List Char :=
  if -6 < decimal.pointPlace ∧ decimal.pointPlace ≤ 21 then decimal.positional
  else decimal.scientific

end Decimal

namespace Number

/-- The text of a number: the shortest decimal that reads back. Both zeros are
`0`. -/
def text : Number → String
  | nan => "NaN"
  | infinity negative => if negative then "-Infinity" else "Infinity"
  | finite negative magnitude =>
      if magnitude.isZero then "0"
      else String.ofList ((if negative then ['-'] else []) ++ magnitude.shortest.text)

/-- The value of a digit in a radix of at most sixteen, for both cases of
letters. -/
def digitValue? (radix : Nat) (c : Char) : Option Nat :=
  let value? :=
    if c.isDigit then some (c.toNat - '0'.toNat)
    else if 'a' ≤ c ∧ c ≤ 'f' then some (c.toNat - 'a'.toNat + 10)
    else if 'A' ≤ c ∧ c ≤ 'F' then some (c.toNat - 'A'.toNat + 10)
    else none
  value?.bind fun value => if value < radix then some value else none

def digitValues? (radix : Nat) (text : List Char) : Option (List Nat) :=
  text.mapM (digitValue? radix)

def ofDigitValues (radix : Nat) (digits : List Nat) : Nat :=
  digits.foldl (fun value digit => value * radix + digit) 0

def decimalNat? (text : List Char) : Option Nat :=
  if text.isEmpty then none else (digitValues? 10 text).map (ofDigitValues 10)

def splitSign : List Char → Bool × List Char
  | '-' :: rest => (true, rest)
  | '+' :: rest => (false, rest)
  | text => (false, text)

/-- The exponent behind the digits of a decimal: absent, or a mark and an
integer. -/
def exponentValue? : List Char → Option Int
  | [] => some 0
  | c :: rest =>
      if c = 'e' ∨ c = 'E' then
        let (negative, digits) := splitSign rest
        (decimalNat? digits).map fun value => if negative then -value else value
      else none

/-- Reads a decimal with an optional sign, point and exponent. It needs a digit
before or behind the point. -/
def ofDecimalText? (text : List Char) : Option Number := do
  let (negative, body) := splitSign text
  let whole := body.takeWhile Char.isDigit
  let afterWhole := body.drop whole.length
  let fraction := match afterWhole with
    | '.' :: rest => rest.takeWhile Char.isDigit
    | _ => []
  let afterFraction := match afterWhole with
    | '.' :: rest => rest.drop fraction.length
    | _ => afterWhole
  let digits ← decimalNat? (whole ++ fraction)
  let exponent ← exponentValue? afterFraction
  return ofMagnitude? negative (Magnitude.ofDecimal? ⟨digits, exponent - fraction.length⟩)

/-- Reads the digits of an integer in a radix, rounding after each step. -/
def ofRadixDigits? (radix : Nat) (text : List Char) : Option Number := do
  let digits ← digitValues? radix text
  let magnitude := digits.foldl
    (fun sum digit => sum.bind fun m => (m.timesNat? radix).bind (·.plusNat? digit))
    (some Magnitude.zero)
  return ofMagnitude? false magnitude

end Number

end ConfigNotation
