/-!
Double-precision numbers, exactly: a number is not a number, an infinity, or a
sign with a magnitude `significand * 2 ^ scale` counted in units of `2 ^ -1074`,
the smallest positive magnitude. All rounding is to the nearest magnitude, and
between two equally near ones to the one with an even significand.
-/

namespace ConfigNotation

/-- Whether a significand and a scale are the ones that a magnitude is stored
with: a significand has at most 53 bits, and just as many where the scale is not
the least. -/
def IsCanonical (significand scale : Nat) : Prop :=
  significand < 0x20000000000000 ∧ scale ≤ 2045 ∧ (scale = 0 ∨ 0x10000000000000 ≤ significand)

instance (significand scale : Nat) : Decidable (IsCanonical significand scale) :=
  inferInstanceAs (Decidable (_ ∧ _ ∧ (_ ∨ _)))

/-- A finite magnitude: `significand * 2 ^ scale` units of `2 ^ -1074`. -/
structure Magnitude where
  significand : Nat
  scale : Nat
  canonical : IsCanonical significand scale
  deriving DecidableEq, Repr

namespace Magnitude

def zero : Magnitude := ⟨0, 0, by decide⟩

instance : Inhabited Magnitude := ⟨zero⟩

def unitsPerOne : Nat := Nat.pow 2 1074

def units (magnitude : Magnitude) : Nat := magnitude.significand * Nat.pow 2 magnitude.scale

def isZero (magnitude : Magnitude) : Bool := magnitude.significand == 0

/-- The position of a magnitude among all magnitudes in increasing order. -/
def rank (magnitude : Magnitude) : Nat :=
  magnitude.scale * 0x10000000000000 + magnitude.significand

/-- The nearest integer to a quotient, and the even one of two equally near. -/
def roundQuotient (numerator denominator : Nat) : Nat :=
  let whole := numerator / denominator
  let rest := 2 * (numerator % denominator)
  if rest < denominator || (rest == denominator && whole % 2 == 0) then whole else whole + 1

/-- A magnitude from a significand that may have been rounded up to `2 ^ 53`;
absent if it is too large. -/
def ofRounded? (significand scale : Nat) : Option Magnitude :=
  if h : IsCanonical significand scale then some ⟨significand, scale, h⟩
  else if h : IsCanonical (significand / 2) (scale + 1) then some ⟨significand / 2, scale + 1, h⟩
  else none

/-- The magnitude nearest to a quotient; absent if the quotient is too large. -/
def ofQuotient? (numerator denominator : Nat) : Option Magnitude :=
  let wanted := numerator * unitsPerOne
  let scale := (wanted / denominator).log2 - 52
  ofRounded? (roundQuotient wanted (denominator * Nat.pow 2 scale)) scale

def ofUnits? (units : Nat) : Option Magnitude :=
  let scale := units.log2 - 52
  ofRounded? (roundQuotient units (Nat.pow 2 scale)) scale

/-- The magnitude nearest to a product. -/
def timesNat? (magnitude : Magnitude) (factor : Nat) : Option Magnitude :=
  ofUnits? (magnitude.units * factor)

/-- The magnitude nearest to a sum. -/
def plusNat? (magnitude : Magnitude) (summand : Nat) : Option Magnitude :=
  ofUnits? (magnitude.units + summand * unitsPerOne)

end Magnitude

inductive Number where
  | nan
  | infinity (negative : Bool)
  | finite (negative : Bool) (magnitude : Magnitude)
  deriving DecidableEq, Repr, Inhabited

namespace Number

/-- A magnitude with a sign; an absent magnitude is too large to be finite. -/
def ofMagnitude? (negative : Bool) : Option Magnitude → Number
  | some magnitude => finite negative magnitude
  | none => infinity negative

def ofNat (n : Nat) : Number := ofMagnitude? false (Magnitude.ofQuotient? n 1)

def isNaN : Number → Bool
  | nan => true
  | _ => false

def isFinite : Number → Bool
  | finite _ _ => true
  | _ => false

def isZero : Number → Bool
  | finite _ magnitude => magnitude.isZero
  | _ => false

def negate : Number → Number
  | nan => nan
  | infinity negative => infinity !negative
  | finite negative magnitude => finite (!negative) magnitude

def timesNat (number : Number) (factor : Nat) : Number :=
  match number with
  | finite negative magnitude => ofMagnitude? negative (magnitude.timesNat? factor)
  | other => other

/-- Numeric equality: `nan` differs from itself, and both zeros are equal. -/
def equals : Number → Number → Bool
  | infinity a, infinity b => a == b
  | finite a m, finite b n => m == n && (a == b || m.isZero)
  | _, _ => false

/-- The number with the given fields of a bit pattern: the eleven bits that give
the scale and the lower bits of the significand. -/
def ofFields (negative : Bool) (field fraction : Nat) (hfraction : fraction < 0x10000000000000) :
    Number :=
  if hzero : field = 0 then finite negative ⟨fraction, 0, by omega, by omega, .inl rfl⟩
  else if hnormal : field ≤ 2046 then
    finite negative ⟨fraction + 0x10000000000000, field - 1, by omega, by omega, .inr (by omega)⟩
  else if fraction = 0 then infinity negative
  else nan

def ofBits (bits : Nat) : Number :=
  ofFields (bits / 0x8000000000000000 % 2 == 1) (bits / 0x10000000000000 % 0x800)
    (bits % 0x10000000000000)
    (Nat.mod_lt bits (by decide))

/-- The bit pattern of a number; `nan` has the quiet one. -/
def toBits : Number → Nat
  | nan => 0x7FF8000000000000
  | infinity negative => (if negative then 0x8000000000000000 else 0) + 0x7FF0000000000000
  | finite negative magnitude => (if negative then 0x8000000000000000 else 0) + magnitude.rank

end Number

end ConfigNotation
