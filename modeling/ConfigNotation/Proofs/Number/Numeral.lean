import Mathlib.Tactic.IntervalCases
import ConfigNotation.Number.Text
import ConfigNotation.Proofs.Number.ReadBack

/-!
Decimal numerals: digits with a point and an exponent. Every decimal is written as
a numeral with the same value, and reading a numeral gives the number nearest to
its value, so that the text of a finite number is read as that number.
-/

namespace ConfigNotation

theorem takeWhile_append_stop {α : Type} {condition : α → Bool} {first rest : List α}
    (hfirst : ∀ a ∈ first, condition a = true) (hrest : ∀ a ∈ rest.head?, condition a = false) :
    (first ++ rest).takeWhile condition = first := by
  rw [List.takeWhile_append_of_pos hfirst]
  cases rest with
  | nil => simp
  | cons a rest =>
      have hstop : condition a = false := hrest a rfl
      simp [hstop]

theorem isDigit_cases {c : Char} (h : c.isDigit = true) :
    c ∈ ['0', '1', '2', '3', '4', '5', '6', '7', '8', '9'] := by
  have hrange := Char.isDigit_iff_toNat.1 h
  have hlower : 48 ≤ c.toNat := hrange.1
  have hupper : c.toNat ≤ 57 := hrange.2
  have hall : ∀ n, 48 ≤ n → n ≤ 57 →
      Char.ofNat n ∈ ['0', '1', '2', '3', '4', '5', '6', '7', '8', '9'] := by
    intro n hlower hupper
    interval_cases n <;> decide
  have hmember := hall c.toNat hlower hupper
  rwa [Char.ofNat_toNat] at hmember

def AreDigits (text : List Char) : Prop := ∀ c ∈ text, c.isDigit = true

theorem areDigits_append {first second : List Char} :
    AreDigits (first ++ second) ↔ AreDigits first ∧ AreDigits second := by
  simp only [AreDigits, List.mem_append, or_imp, forall_and]

theorem areDigits_toDigits (n : Nat) : AreDigits (Nat.toDigits 10 n) :=
  fun _ hmember => Nat.isDigit_of_mem_toDigits (by decide) (by decide) hmember

theorem areDigits_zeros (count : Nat) : AreDigits (List.replicate count '0') := by
  intro c hmember
  rw [List.eq_of_mem_replicate hmember]
  decide

namespace Number

theorem digitValue?_of_isDigit {c : Char} (h : c.isDigit = true) :
    digitValue? 10 c = some (c.toNat - '0'.toNat) := by
  have hrange := Char.isDigit_iff_toNat.1 h
  have hnine : '9'.toNat = 57 := rfl
  have hzero : '0'.toNat = 48 := rfl
  have hsmall : c.toNat - '0'.toNat < 10 := by omega
  simp only [digitValue?, h, if_true, Option.bind_some, hsmall]

/-- A text of digits has their values. -/
theorem digitValues?_of_forall {radix : Nat} {value : Char → Nat} {text : List Char}
    (h : ∀ c ∈ text, digitValue? radix c = some (value c)) :
    digitValues? radix text = some (text.map value) := by
  induction text with
  | nil => rfl
  | cons c rest ih =>
      obtain ⟨hfirst, hrest⟩ := List.forall_mem_cons.1 h
      have hvalues := ih hrest
      unfold digitValues? at hvalues ⊢
      rw [List.mapM_cons, hfirst, hvalues]
      rfl

/-- Decimal digits are read one by one by the place of their characters behind
that of zero. -/
theorem digitValues?_of_areDigits {text : List Char} (h : AreDigits text) :
    digitValues? 10 text = some (text.map fun c => c.toNat - '0'.toNat) :=
  digitValues?_of_forall fun c hc => digitValue?_of_isDigit (h c hc)

theorem ofDigitValues_eq_ofDigitChars (text : List Char) :
    ofDigitValues 10 (text.map fun c => c.toNat - '0'.toNat) = Nat.ofDigitChars 10 text 0 := by
  rw [Nat.ofDigitChars_eq_foldl, ofDigitValues, List.foldl_map]
  simp only [Nat.mul_comm]

/-- A text of digits is read as the number that these digits denote, however
many they are. -/
theorem decimalNat?_of_areDigits {text : List Char} (hne : text ≠ []) (h : AreDigits text) :
    decimalNat? text = some (Nat.ofDigitChars 10 text 0) := by
  have hnotEmpty : text.isEmpty = false := by simpa using hne
  rw [decimalNat?, hnotEmpty, digitValues?_of_areDigits h, ← ofDigitValues_eq_ofDigitChars]
  rfl

end Number

/-- A numeral: digits before and behind the point, and whether the exponent is
negative with its digits. -/
structure Numeral where
  whole : List Char
  fraction : List Char
  exponent : Option (Bool × List Char)

namespace Numeral

/-- The point and the digits behind it; no point stands before nothing. -/
def fractionChars (fraction : List Char) : List Char :=
  if fraction.isEmpty then [] else '.' :: fraction

def signChar (negative : Bool) : Char := if negative then '-' else '+'

def exponentChars : Option (Bool × List Char) → List Char
  | none => []
  | some (negative, digits) => 'e' :: signChar negative :: digits

def chars (numeral : Numeral) : List Char :=
  numeral.whole ++ fractionChars numeral.fraction ++ exponentChars numeral.exponent

/-- A numeral has digits in all its parts, and at least one before the point. -/
structure WellFormed (numeral : Numeral) : Prop where
  whole_ne_nil : numeral.whole ≠ []
  whole : AreDigits numeral.whole
  fraction : AreDigits numeral.fraction
  exponent : ∀ negative digits, numeral.exponent = some (negative, digits) →
    digits ≠ [] ∧ AreDigits digits

def exponentValue : Option (Bool × List Char) → Int
  | none => 0
  | some (negative, digits) =>
      if negative then -(Nat.ofDigitChars 10 digits 0 : Int) else Nat.ofDigitChars 10 digits 0

/-- The decimal that a numeral is read as, before rounding. -/
def decimal (numeral : Numeral) : Decimal :=
  ⟨Nat.ofDigitChars 10 (numeral.whole ++ numeral.fraction) 0,
    exponentValue numeral.exponent - numeral.fraction.length⟩

/-- The exponent that a numeral is written with is read back with its sign. -/
theorem exponentValue?_exponentChars {numeral : Numeral} (h : numeral.WellFormed) :
    Number.exponentValue? (exponentChars numeral.exponent) =
      some (exponentValue numeral.exponent) := by
  have hexponent := h.exponent
  cases hcase : numeral.exponent with
  | none => rfl
  | some parts =>
      obtain ⟨negative, digits⟩ := parts
      obtain ⟨hne, hdigits⟩ := hexponent negative digits hcase
      have hvalue := Number.decimalNat?_of_areDigits hne hdigits
      cases negative <;>
        simp [Number.exponentValue?, exponentChars, signChar, Number.splitSign, hvalue,
          exponentValue]

theorem head?_exponentChars_not_digit (exponent : Option (Bool × List Char)) :
    ∀ c ∈ (exponentChars exponent).head?, c.isDigit = false := by
  cases exponent with
  | none => simp [exponentChars]
  | some parts =>
      simp only [exponentChars, List.head?_cons, Option.mem_some_iff, forall_eq']
      decide

theorem head?_behind_whole_not_digit (numeral : Numeral) :
    ∀ c ∈ (fractionChars numeral.fraction ++ exponentChars numeral.exponent).head?,
      c.isDigit = false := by
  unfold fractionChars
  split
  · exact head?_exponentChars_not_digit numeral.exponent
  · simp only [List.cons_append, List.head?_cons, Option.mem_some_iff, forall_eq']
    decide

/-- A digit at the start is no sign. -/
theorem splitSign_of_isDigit {c : Char} (rest : List Char) (h : c.isDigit = true) :
    Number.splitSign (c :: rest) = (false, c :: rest) := by
  unfold Number.splitSign
  split
  · next heq => cases heq; exact absurd h (by decide)
  · next heq => cases heq; exact absurd h (by decide)
  · rfl

/-- A numeral is read as the number nearest to its decimal. -/
theorem ofDecimalText?_chars {numeral : Numeral} (h : numeral.WellFormed) :
    Number.ofDecimalText? numeral.chars =
      some (Number.ofMagnitude? false (Magnitude.ofDecimal? numeral.decimal)) := by
  obtain ⟨first, others, hwhole⟩ := List.exists_cons_of_ne_nil h.whole_ne_nil
  have hsign : Number.splitSign numeral.chars = (false, numeral.chars) := by
    simp only [chars, hwhole, List.cons_append]
    exact splitSign_of_isDigit _ (h.whole first (by simp [hwhole]))
  have hrun : numeral.chars.takeWhile Char.isDigit = numeral.whole := by
    rw [chars, List.append_assoc]
    exact takeWhile_append_stop h.whole (head?_behind_whole_not_digit numeral)
  have hafter : numeral.chars.drop numeral.whole.length =
      fractionChars numeral.fraction ++ exponentChars numeral.exponent := by
    rw [chars, List.append_assoc, List.drop_left]
  have hdigits : Number.decimalNat? (numeral.whole ++ numeral.fraction) =
      some (Nat.ofDigitChars 10 (numeral.whole ++ numeral.fraction) 0) :=
    Number.decimalNat?_of_areDigits (by simp [hwhole]) (areDigits_append.2 ⟨h.whole, h.fraction⟩)
  have hexponent := exponentValue?_exponentChars h
  have hstop := head?_exponentChars_not_digit numeral.exponent
  simp only [Number.ofDecimalText?, hsign, hrun, hafter, decimal]
  by_cases hempty : numeral.fraction = []
  · have hmark : ∀ tail, exponentChars numeral.exponent ≠ '.' :: tail := by
      intro tail heq
      cases hcase : numeral.exponent <;> simp [hcase, exponentChars] at heq
    rw [hempty] at hdigits
    -- Without a point the exponent, or nothing, follows the digits.
    simp only [hempty, fractionChars, List.isEmpty_nil, if_true, List.nil_append]
    rw [hdigits, hexponent]
    rfl
  · have hnotEmpty : numeral.fraction.isEmpty = false := by simpa using hempty
    simp only [fractionChars, hnotEmpty, Bool.false_eq_true, if_false, List.cons_append,
      takeWhile_append_stop h.fraction hstop, List.drop_left]
    simp [hdigits, hexponent]

end Numeral

namespace Decimal

/-- Only zeros at the end of the digits are left out. -/
theorem significantDigits_append_zeros (decimal : Decimal) :
    ∃ count, Nat.toDigits 10 decimal.digits =
      decimal.significantDigits ++ List.replicate count '0' := by
  refine ⟨((Nat.toDigits 10 decimal.digits).reverse.takeWhile (· == '0')).length, ?_⟩
  have hsplit := List.takeWhile_append_dropWhile (p := (· == '0'))
    (l := (Nat.toDigits 10 decimal.digits).reverse)
  have hzeros : (Nat.toDigits 10 decimal.digits).reverse.takeWhile (· == '0') =
      List.replicate
        ((Nat.toDigits 10 decimal.digits).reverse.takeWhile (· == '0')).length '0' := by
    apply List.eq_replicate_of_mem
    intro c hmember
    have hall := List.all_takeWhile (p := (· == '0'))
      (l := (Nat.toDigits 10 decimal.digits).reverse)
    simpa using List.all_eq_true.1 hall c hmember
  rw [significantDigits, ← List.reverse_replicate, ← hzeros, ← List.reverse_append, hsplit,
    List.reverse_reverse]

theorem areDigits_significantDigits (decimal : Decimal) : AreDigits decimal.significantDigits := by
  obtain ⟨count, hdigits⟩ := decimal.significantDigits_append_zeros
  have hall := areDigits_toDigits decimal.digits
  rw [hdigits] at hall
  exact (areDigits_append.1 hall).1

/-- The value of a decimal by its significant digits and the place of its
point. -/
theorem value_eq (decimal : Decimal) :
    decimal.value = Nat.ofDigitChars 10 decimal.significantDigits 0 *
      (10 : ℚ) ^ (decimal.pointPlace - decimal.significantDigits.length) := by
  obtain ⟨count, hdigits⟩ := decimal.significantDigits_append_zeros
  have hnumber : decimal.digits =
      10 ^ count * Nat.ofDigitChars 10 decimal.significantDigits 0 := by
    rw [← Nat.ofDigitChars_replicate_zero, ← Nat.ofDigitChars_append, ← hdigits,
      Nat.ofDigitChars_ten_toDigits]
  have hcount : digitCount decimal.digits = decimal.significantDigits.length + count := by
    rw [digitCount, hdigits, List.length_append, List.length_replicate]
  have hexponent : decimal.pointPlace - decimal.significantDigits.length =
      count + decimal.exponent := by
    rw [pointPlace, hcount]
    omega
  rw [hexponent, zpow_add₀ (by norm_num), zpow_natCast, value]
  have hcast : (decimal.digits : ℚ) =
      10 ^ count * Nat.ofDigitChars 10 decimal.significantDigits 0 := by exact_mod_cast hnumber
  rw [hcast]
  ring

theorem significantDigits_ne_nil {decimal : Decimal} (h : decimal.digits ≠ 0) :
    decimal.significantDigits ≠ [] := by
  intro hnil
  obtain ⟨count, hdigits⟩ := decimal.significantDigits_append_zeros
  apply h
  rw [← Nat.ofDigitChars_ten_toDigits (n := decimal.digits), hdigits, hnil, List.nil_append,
    Nat.ofDigitChars_replicate_zero, Nat.mul_zero]

end Decimal

namespace Numeral

/-- The numeral for the digits behind the point, shifted to the given place:
with an exponent only where the zeros would get many. -/
def placed (digits : List Char) (place : Int) : Numeral :=
  if -6 < place ∧ place ≤ 21 then
    if place ≤ 0 then ⟨['0'], List.replicate (-place).toNat '0' ++ digits, none⟩
    else
      ⟨digits.take place.toNat ++
        List.replicate (place.toNat - (digits.take place.toNat).length) '0',
        digits.drop place.toNat, none⟩
  else
    ⟨digits.take 1, digits.drop 1, some (place - 1 < 0, Nat.toDigits 10 (place - 1).natAbs)⟩

/-- Placing the point among digits gives a numeral that is well formed: zeros
are filled in where the point lies outside. -/
theorem placed_wellFormed {digits : List Char} (place : Int) (hne : digits ≠ [])
    (hdigits : AreDigits digits) : (placed digits place).WellFormed := by
  have htake (count : Nat) : AreDigits (digits.take count) :=
    fun c hmember => hdigits c (List.mem_of_mem_take hmember)
  have hdrop (count : Nat) : AreDigits (digits.drop count) :=
    fun c hmember => hdigits c (List.mem_of_mem_drop hmember)
  unfold placed
  split
  · split
    · exact ⟨by simp, areDigits_zeros 1, areDigits_append.2 ⟨areDigits_zeros _, hdigits⟩, by simp⟩
    · next hplace =>
      refine ⟨?_, areDigits_append.2 ⟨htake _, areDigits_zeros _⟩, hdrop _, by simp⟩
      simp [hne]
      omega
  · refine ⟨by simp [hne], htake 1, hdrop 1, ?_⟩
    rintro negative parts heq
    cases heq
    exact ⟨Nat.toDigits_ne_nil, areDigits_toDigits _⟩

theorem value_placed_integer (digits : List Char) (place : Nat) :
    (decimal ⟨digits.take place ++ List.replicate (place - (digits.take place).length) '0',
      digits.drop place, none⟩).value =
      Nat.ofDigitChars 10 digits 0 * (10 : ℚ) ^ ((place : Int) - digits.length) := by
  simp only [Numeral.decimal, Decimal.value, exponentValue]
  rcases Nat.le_total digits.length place with hshort | hlong
  · have hall : Nat.ofDigitChars 10 (digits ++ List.replicate (place - digits.length) '0') 0 =
        10 ^ (place - digits.length) * Nat.ofDigitChars 10 digits 0 := by
      rw [Nat.ofDigitChars_append, Nat.ofDigitChars_replicate_zero]
    have hexponent : (place : Int) - digits.length = ((place - digits.length : Nat) : Int) := by
      omega
    simp only [List.take_of_length_le hshort, List.drop_of_length_le hshort, List.append_nil,
      hall, hexponent, zpow_natCast]
    push_cast
    simp
    ring
  · have hwhole : place - (digits.take place).length = 0 := by
      rw [List.length_take]
      omega
    have hexponent : (0 : Int) - (digits.drop place).length = place - digits.length := by
      rw [List.length_drop]
      omega
    rw [hwhole, List.replicate_zero, List.append_nil, List.take_append_drop, hexponent]

/-- A placed numeral stands for its digits, read as an integer, at its place. -/
theorem value_placed {digits : List Char} (place : Int) (hne : digits ≠ []) :
    (placed digits place).decimal.value =
      Nat.ofDigitChars 10 digits 0 * (10 : ℚ) ^ (place - digits.length) := by
  have hlength : 0 < digits.length := List.length_pos_iff.2 hne
  unfold placed
  split
  · split
    · have hzeros : Nat.ofDigitChars 10
          (['0'] ++ (List.replicate (-place).toNat '0' ++ digits)) 0 =
          Nat.ofDigitChars 10 digits 0 := by
        rw [Nat.ofDigitChars_append, Nat.ofDigitChars_append]
        simp [Nat.ofDigitChars_cons]
      have hexponent : (0 : Int) - (List.replicate (-place).toNat '0' ++ digits).length =
          place - digits.length := by
        rw [List.length_append, List.length_replicate]
        omega
      simp only [Numeral.decimal, Decimal.value, exponentValue, hzeros, hexponent]
    · next hplace =>
      have hcast : (place.toNat : Int) = place := by omega
      rw [value_placed_integer, hcast]
  · have hpower : exponentValue
        (some (decide (place - 1 < 0), Nat.toDigits 10 (place - 1).natAbs)) = place - 1 := by
      simp only [exponentValue, Nat.ofDigitChars_ten_toDigits, decide_eq_true_eq]
      split <;> omega
    have hexponent : place - 1 - (digits.drop 1).length = place - digits.length := by
      rw [List.length_drop]
      omega
    simp only [Numeral.decimal, Decimal.value, hpower, hexponent, List.take_append_drop]

end Numeral

namespace Decimal

def numeral (decimal : Decimal) : Numeral :=
  .placed decimal.significantDigits decimal.pointPlace

/-- The text of a decimal is the text of its numeral, in the notation that its
size asks for. -/
theorem text_eq_chars {decimal : Decimal} (h : decimal.digits ≠ 0) :
    decimal.text = decimal.numeral.chars := by
  have hne := significantDigits_ne_nil h
  unfold text numeral Numeral.placed
  split
  · unfold positional
    dsimp only
    split
    · simp [Numeral.chars, Numeral.fractionChars, Numeral.exponentChars, hne]
    · simp [Numeral.chars, Numeral.fractionChars, Numeral.exponentChars]
  · simp [scientific, Numeral.chars, Numeral.fractionChars, Numeral.exponentChars,
      Numeral.signChar]

/-- The numeral of a decimal is well formed, in the plain notation and in the
one with an exponent. -/
theorem numeral_wellFormed {decimal : Decimal} (h : decimal.digits ≠ 0) :
    decimal.numeral.WellFormed :=
  Numeral.placed_wellFormed _ (significantDigits_ne_nil h) decimal.areDigits_significantDigits

/-- The numeral of a decimal has the value of the decimal, in both notations.
Rounding plays no part in it. -/
theorem numeral_value {decimal : Decimal} (h : decimal.digits ≠ 0) :
    decimal.numeral.decimal.value = decimal.value := by
  rw [value_eq decimal, numeral, Numeral.value_placed _ (significantDigits_ne_nil h)]

end Decimal

namespace Magnitude

theorem shortest_digits_ne_zero {magnitude : Magnitude} (hzero : magnitude.isZero = false) :
    magnitude.shortest.digits ≠ 0 := by
  intro hnone
  have hhalf := (inInterval_shortest hzero).half_le hzero
  rw [Decimal.value, hnone, Nat.cast_zero, zero_mul, zero_mul, mul_zero] at hhalf
  exact absurd hhalf (by norm_num)

/-- The numeral of a magnitude is read as that magnitude. -/
theorem ofDecimalText?_shortest {magnitude : Magnitude} (hzero : magnitude.isZero = false) :
    Number.ofDecimalText? magnitude.shortest.numeral.chars = some (.finite false magnitude) := by
  have hdigits := shortest_digits_ne_zero hzero
  rw [Numeral.ofDecimalText?_chars (Decimal.numeral_wellFormed hdigits),
    ofDecimal?_eq_of_value_eq hzero (Decimal.numeral_value hdigits)]
  rfl

end Magnitude

end ConfigNotation
