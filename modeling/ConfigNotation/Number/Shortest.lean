import ConfigNotation.Number.Double

/-!
The shortest decimal of a magnitude: of all decimals that are read back as the
magnitude it has the fewest digits, and of those it is the nearest one. Of two
equally near ones the larger is taken.
-/

namespace ConfigNotation

/-- The decimal `digits * 10 ^ exponent`. -/
structure Decimal where
  digits : Nat
  exponent : Int
  deriving DecidableEq, Repr, Inhabited

def digitCount (n : Nat) : Nat := (Nat.toDigits 10 n).length

namespace Magnitude

/-- A power of ten that makes every magnitude except zero larger than one. -/
def decimalShift : Nat := 400

/-- The reals that round to a magnitude, as an interval in quarters of a unit.
Its ends belong to it exactly if the significand is even. -/
def roundingInterval (magnitude : Magnitude) : Nat × Nat :=
  let middle := 4 * magnitude.units
  let step := Nat.pow 2 magnitude.scale
  let narrowBelow := magnitude.significand == 0x10000000000000 && magnitude.scale != 0
  (middle - (if narrowBelow then step else 2 * step), middle + 2 * step)

/-- Whether `point * unit` lies in the rounding interval, all of it scaled by
`10 ^ decimalShift`. -/
def readsBack (magnitude : Magnitude) (point unit : Nat) : Bool :=
  let low := magnitude.roundingInterval.1 * Nat.pow 10 decimalShift
  let high := magnitude.roundingInterval.2 * Nat.pow 10 decimalShift
  let place := point * unit
  if magnitude.significand % 2 = 0 then low ≤ place && place ≤ high
  else low < place && place < high

/-- The number of digits of a magnitude that is scaled by `10 ^ decimalShift`. -/
def scaledWidth (magnitude : Magnitude) : Nat :=
  digitCount (magnitude.units * Nat.pow 10 decimalShift / unitsPerOne)

/-- Of the decimals with `count` digits the nearest one that reads back. Only
the two neighbours of the magnitude on this grid come into question. -/
def decimalOfWidth? (magnitude : Magnitude) (count : Nat) : Option Decimal :=
  let width := magnitude.scaledWidth
  let unit := Nat.pow 10 (width - count) * (4 * unitsPerOne)
  let target := 4 * magnitude.units * Nat.pow 10 decimalShift
  let below := target / unit
  let above := below + 1
  let decimal (digits : Nat) : Decimal := ⟨digits, (width - count : Int) - decimalShift⟩
  match magnitude.readsBack below unit, magnitude.readsBack above unit with
  | true, true =>
      some (decimal (if target - below * unit < above * unit - target then below else above))
  | true, false => some (decimal below)
  | false, true => some (decimal above)
  | false, false => none

/-- All digits of a magnitude: a unit is `5 ^ 1074 * 10 ^ -1074`. -/
def exactDecimal (magnitude : Magnitude) : Decimal :=
  ⟨magnitude.units * Nat.pow 5 1074, -1074⟩

/-- The shortest decimal of a magnitude. Seventeen digits always suffice. -/
def shortest (magnitude : Magnitude) : Decimal :=
  ((List.range 17).findSome? fun count => magnitude.decimalOfWidth? (count + 1)).getD
    magnitude.exactDecimal

/-- The magnitude nearest to a decimal; absent if the decimal is too large.
Exponents beyond the range are decided by the number of digits alone. -/
def ofDecimal? (decimal : Decimal) : Option Magnitude :=
  let place : Int := digitCount decimal.digits + decimal.exponent
  if decimal.digits = 0 ∨ place < -decimalShift then some zero
  else if decimalShift < place then none
  else if 0 ≤ decimal.exponent then
    ofQuotient? (decimal.digits * Nat.pow 10 decimal.exponent.toNat) 1
  else ofQuotient? decimal.digits (Nat.pow 10 (-decimal.exponent).toNat)

end Magnitude

end ConfigNotation
