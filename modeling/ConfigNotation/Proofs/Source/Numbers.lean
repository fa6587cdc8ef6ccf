import ConfigNotation.Proofs.Number.Decoding

/-!
Numbers as they are written. A numeral is a token for numbers as a whole, and reading
it gives back the number, but for the sign of zero. The same holds of integers with
their letter.
-/

namespace ConfigNotation

open Text Pattern

theorem isWordChar_of_isDecimalChar {c : Char} (h : isDecimalChar c = true) :
    isWordChar c = true := by
  simp only [isDecimalChar, isWordChar, Char.isAlphanum, Bool.or_eq_true] at h ⊢
  exact h.imp_left .inr

theorem Stops.endsNumeral {rest : List Char} (h : Stops rest) : EndsNumeral rest := by
  intro c hc
  obtain ⟨hword, hpoint⟩ := h c hc
  refine ⟨?_, hpoint, ?_⟩
  · cases hdecimal : isDecimalChar c with
    | true => rw [isWordChar_of_isDecimalChar hdecimal] at hword; cases hword
    | false => rfl
  · rintro rfl
    exact absurd hword (by decide)

theorem Stops.not_isRadixMark {rest : List Char} (h : Stops rest) :
    ∀ c ∈ rest.head?, ¬IsRadixMark c := by
  have hall : ∀ c ∈ ['x', 'X', 'o', 'O', 'b', 'B'], isWordChar c = true := by decide
  intro c hc hmark
  have hword := (h c hc).1
  rw [hall c hmark] at hword
  cases hword

namespace Numeral

def spelled (numeral : Numeral) : NumberText :=
  .decimal numeral.whole (if numeral.fraction.isEmpty then none else some numeral.fraction)
    (numeral.exponent.map fun parts => ([signChar parts.1], parts.2))

theorem chars_spelled (numeral : Numeral) : numeral.spelled.chars = numeral.chars := by
  obtain ⟨whole, fraction, exponent⟩ := numeral
  rw [spelled, NumberText.chars, chars]
  congr 1
  · unfold fractionChars
    split <;> rfl
  · cases exponent <;> rfl

namespace WellFormed

variable {numeral : Numeral} (h : numeral.WellFormed)

include h

theorem fraction_spec : ∀ digits ∈ if numeral.fraction.isEmpty then none else some numeral.fraction,
    digits ≠ [] ∧ AreDigits digits := by
  intro digits hdigits
  rw [Option.mem_def, Option.ite_none_left_eq_some] at hdigits
  obtain ⟨hne, hsame⟩ := hdigits
  cases hsame
  exact ⟨by simpa using hne, h.fraction⟩

theorem any_isDigit (behind : List Char) :
    (numeral.whole ++ behind).any Char.isDigit = true := by
  obtain ⟨first, others, hfirst⟩ := List.exists_cons_of_ne_nil h.whole_ne_nil
  rw [hfirst, List.cons_append, List.any_cons, h.whole first (by simp [hfirst]), Bool.true_or]

theorem spelled : numeral.spelled.WellFormed := by
  refine .decimal h.whole.areSpaced ?_ (h.any_isDigit _) ?_
  · intro digits hdigits
    obtain ⟨hne, hfraction⟩ := h.fraction_spec digits hdigits
    exact ⟨hne, hfraction.areSpaced⟩
  · intro parts hparts
    obtain ⟨⟨negative, digits⟩, hexponent, rfl⟩ := Option.map_eq_some_iff.1 hparts
    obtain ⟨hne, hdigits⟩ := h.exponent negative digits hexponent
    refine ⟨?_, hne, hdigits.areSpaced⟩
    cases negative <;> simp [signChar]

end WellFormed

def IsNumeralChar (c : Char) : Prop := c.isDigit = true ∨ c ∈ ['.', 'e', '+', '-']

/-- A numeral consists of digits, a point, a mark of an exponent and signs.
Neither quotes nor marks of comments are among them. -/
theorem isNumeralChar_of_mem {numeral : Numeral} (h : numeral.WellFormed) :
    ∀ c ∈ numeral.chars, IsNumeralChar c := by
  intro c hmember
  rw [chars, List.mem_append, List.mem_append] at hmember
  rcases hmember with (hwhole | hfraction) | hexponent
  · exact .inl (h.whole c hwhole)
  · unfold fractionChars at hfraction
    split at hfraction
    · cases hfraction
    · rcases List.mem_cons.1 hfraction with rfl | hfraction
      · exact .inr (by simp)
      · exact .inl (h.fraction c hfraction)
  · have hdigits := h.exponent
    cases hcase : numeral.exponent with
    | none => rw [hcase] at hexponent; cases hexponent
    | some parts =>
        obtain ⟨negative, digits⟩ := parts
        rw [hcase, exponentChars, List.mem_cons, List.mem_cons] at hexponent
        rcases hexponent with rfl | rfl | hexponent
        · exact .inr (by decide)
        · cases negative <;> exact .inr (by decide)
        · exact .inl ((hdigits negative digits hcase).2 c hexponent)

theorem IsNumeralChar.isCodeChar {c : Char} (h : IsNumeralChar c) : IsCodeChar c := by
  rcases h with hdigit | hmark
  · exact isCodeChar_of_isWordChar (isWordChar_of_isDecimalChar (isDecimalChar_of_isDigit hdigit))
  · have hall : ∀ c ∈ ['.', 'e', '+', '-'], IsCodeChar c := by decide
    exact hall c hmark

theorem IsNumeralChar.ne_underscore {c : Char} (h : IsNumeralChar c) : c ≠ '_' := by
  rintro rfl
  revert h
  simp [IsNumeralChar]

/-- A numeral starts with a digit. -/
theorem chars_eq_cons {numeral : Numeral} (h : numeral.WellFormed) :
    ∃ c tail, c.isDigit = true ∧ numeral.chars = c :: tail := by
  obtain ⟨c, others, hwhole⟩ := List.exists_cons_of_ne_nil h.whole_ne_nil
  refine ⟨c, others ++ (fractionChars numeral.fraction ++ exponentChars numeral.exponent), ?_, ?_⟩
  · exact h.whole c (hwhole ▸ List.mem_cons_self)
  · rw [chars, hwhole, List.append_assoc, List.cons_append]

end Numeral

namespace Pattern

/-- Only numbers start with a digit. -/
theorem longestMatch_digit {c : Char} (h : c.isDigit = true) (previous : Option Char)
    (rest : List Char) :
    longestMatch previous (c :: rest) =
      [(⟨.number, fun _ => number?⟩ : Pattern), ⟨.bigInt, fun _ => bigInt?⟩].foldl
        (prefer previous (c :: rest)) none := by
  have hcases := isDigit_cases h
  simp only [List.mem_cons, List.not_mem_nil, or_false] at hcases
  rw [longestMatch, all_eq]
  rcases hcases with rfl | rfl | rfl | rfl | rfl | rfl | rfl | rfl | rfl | rfl <;> rfl

/-- Behind a minus sign only the two patterns of numbers are left, since none of
the others starts with it. -/
theorem longestMatch_minus (previous : Option Char) (rest : List Char) :
    longestMatch previous ('-' :: rest) =
      [(⟨.number, fun _ => number?⟩ : Pattern), ⟨.bigInt, fun _ => bigInt?⟩].foldl
        (prefer previous ('-' :: rest)) none := by
  rw [longestMatch, all_eq]
  rfl

end Pattern

/-- Of these two, the number is kept where no integer of any size matches. -/
theorem foldl_number {previous : Option Char} {text : List Char} {size : Nat}
    (hnumber : number? text = some size) (hpositive : 0 < size) (hbigInt : bigInt? text = none) :
    [(⟨.number, fun _ => number?⟩ : Pattern), ⟨.bigInt, fun _ => bigInt?⟩].foldl
      (prefer previous text) none = some (.number, size) := by
  simp [prefer, hnumber, hbigInt, matchSize, hpositive]

/-- The integer is kept where the number in front of its letter is shorter,
which it always is. -/
theorem foldl_bigInt {previous : Option Char} {text : List Char} {size : Nat}
    (hnumber : ∀ shorter, number? text = some shorter → shorter < size) (hpositive : 0 < size)
    (hbigInt : bigInt? text = some size) :
    [(⟨.number, fun _ => number?⟩ : Pattern), ⟨.bigInt, fun _ => bigInt?⟩].foldl
      (prefer previous text) none = some (.bigInt, size) := by
  refine foldl_prefer_last [⟨.number, fun _ => number?⟩] ?_ hpositive hbigInt
  intro other hother n hn
  cases List.mem_singleton.1 hother
  exact hnumber n hn

theorem longestMatch_minusChars {negative : Bool} {c : Char} (h : c.isDigit = true)
    (previous : Option Char) (rest : List Char) :
    longestMatch previous (minusChars negative ++ c :: rest) =
      [(⟨.number, fun _ => number?⟩ : Pattern), ⟨.bigInt, fun _ => bigInt?⟩].foldl
        (prefer previous (minusChars negative ++ c :: rest)) none := by
  cases negative with
  | true => exact longestMatch_minus previous _
  | false => exact longestMatch_digit h previous rest

theorem isVerbatim_minusChars (negative : Bool) : IsVerbatim (minusChars negative) :=
  .of_codeChars (by cases negative <;> decide)

theorem starts_minusChars {negative : Bool} {c : Char} (h : c.isDigit = true) (tail : List Char) :
    ∃ first rest, minusChars negative ++ c :: tail = first :: rest ∧ isBlank first = false := by
  cases negative with
  | true => exact ⟨'-', c :: tail, rfl, by decide⟩
  | false =>
      have hword := isWordChar_of_isDecimalChar (isDecimalChar_of_isDigit h)
      exact ⟨c, tail, rfl, isBlank_of_isWordChar hword⟩

/-- A numeral with its sign is a number, as no letter follows that makes it an
integer. -/
theorem isLexeme_numeral (negative : Bool) {numeral : Numeral} (h : numeral.WellFormed) :
    IsLexeme Apart .number (minusChars negative ++ numeral.chars) := by
  obtain ⟨c, tail, hdigit, hchars⟩ := Numeral.chars_eq_cons h
  refine ⟨⟨?_, ?_⟩, (isVerbatim_minusChars negative).append
    (.of_codeChars fun c hc => (Numeral.isNumeralChar_of_mem h c hc).isCodeChar)⟩
  · rw [hchars]
    exact starts_minusChars hdigit _
  · intro previous rest hfits
    have hstops := hfits.2
    have hletter : 'n' ∉ rest.head? := fun hn => absurd (hstops 'n' hn).1 (by decide)
    have hnumber := h.spelled.number?_append hstops.endsNumeral hstops.not_isRadixMark negative
    have hbigInt := h.spelled.bigInt?_append hstops.endsNumeral hstops.not_isRadixMark hletter
      negative
    rw [← Numeral.spelled, Numeral.chars_spelled] at hnumber hbigInt
    rw [← List.append_assoc] at hnumber hbigInt
    have hpositive : 0 < (minusChars negative ++ numeral.chars).length := by simp [hchars]
    rw [← List.length_append] at hnumber
    rw [← foldl_number hnumber hpositive hbigInt, hchars, List.append_assoc, List.cons_append]
    exact longestMatch_minusChars hdigit previous _

/-- An integer is a token together with its letter, as the number in front of
the letter is shorter. -/
theorem Literal.isLexeme_integer_text (value : Int) :
    IsLexeme Apart .bigInt (toString value ++ "n").toList := by
  have hwell := IntegerText.wellFormed_ofInt value
  have hdigits := areDigits_toDigits value.natAbs
  obtain ⟨c, others, hcons⟩ := List.exists_cons_of_ne_nil
    (Nat.toDigits_ne_nil (n := value.natAbs) (b := 10))
  rw [hcons] at hdigits
  have hdigit := hdigits c List.mem_cons_self
  have hchars : (IntegerText.ofInt value).chars =
      minusChars (value < 0) ++ c :: (others ++ ['n']) := by
    rw [IntegerText.chars, IntegerText.ofInt, hcons]
    rfl
  rw [← IntegerText.chars_ofInt]
  refine ⟨⟨?_, ?_⟩, hwell.isVerbatim_chars⟩
  · rw [hchars]
    exact starts_minusChars hdigit _
  · intro previous rest _
    have hpositive : 0 < (IntegerText.ofInt value).chars.length := by simp [hchars]
    rw [← foldl_bigInt (fun _ hn => hwell.length_of_number? hn) hpositive
      (hwell.bigInt?_append rest), hchars, List.append_assoc, List.cons_append]
    exact longestMatch_minusChars hdigit previous _

namespace Literal

/-- A numeral with a sign is read as its decimal with that sign. -/
theorem readNumber?_numeral {negative : Bool} {numeral : Numeral} {value : Number}
    (h : numeral.WellFormed) (hvalue : Number.ofDecimalText? numeral.chars = some value) :
    readNumber? (minusChars negative ++ numeral.chars) =
      some (if negative then value.negate else value) := by
  have hplain : withoutUnderscores numeral.chars = numeral.chars :=
    withoutUnderscores_of_not_mem fun hunderscore =>
      (Numeral.isNumeralChar_of_mem h '_' hunderscore).ne_underscore rfl
  have htext : withoutUnderscores (minusChars negative ++ numeral.chars) =
      minusChars negative ++ numeral.spelled.chars := by
    rw [withoutUnderscores_append, withoutUnderscores_sign, hplain, Numeral.chars_spelled]
  have hread := NumberText.readNumber?_of_digits h.whole
    (fun digits hdigits => (h.fraction_spec digits hdigits).2) (h.any_isDigit _) htext
  rw [← Numeral.spelled, Numeral.chars_spelled, hvalue] at hread
  exact hread

end Literal

namespace Magnitude

theorem eq_zero_of_isZero {magnitude : Magnitude} (h : magnitude.isZero = true) :
    magnitude = zero := by
  obtain ⟨significand, scale, hcanonical⟩ := magnitude
  have hsignificand : significand = 0 := eq_of_beq h
  have hscale : scale = 0 := by
    rcases hcanonical.2.2 with hscale | hlarge
    · exact hscale
    · omega
  subst hsignificand hscale
  rfl

end Magnitude

namespace Number

/-- What a number is read as after it was written: zero loses its sign. -/
def readBack : Number → Number
  | finite negative magnitude => finite (negative && !magnitude.isZero) magnitude
  | other => other

/-- The text of a finite number is a sign and a numeral that reads back as the
number. The sign is left out for zero, which loses it. -/
theorem text_finite (negative : Bool) (magnitude : Magnitude) :
    ∃ numeral : Numeral, numeral.WellFormed ∧
      (finite negative magnitude).text.toList =
        minusChars (negative && !magnitude.isZero) ++ numeral.chars ∧
      ofDecimalText? numeral.chars = some (finite false magnitude) := by
  cases hzero : magnitude.isZero with
  | true =>
      have hwell : Numeral.WellFormed ⟨['0'], [], none⟩ :=
        ⟨by simp, areDigits_zeros 1, by simp [AreDigits], by simp⟩
      refine ⟨_, hwell, ?_, ?_⟩
      · simp [text, hzero, minusChars, Numeral.chars, Numeral.fractionChars, Numeral.exponentChars]
      · rw [Magnitude.eq_zero_of_isZero hzero]
        decide +kernel
  | false =>
      have hdigits := Magnitude.shortest_digits_ne_zero hzero
      refine ⟨_, Decimal.numeral_wellFormed hdigits, ?_, Magnitude.ofDecimalText?_shortest hzero⟩
      simp [text, hzero, minusChars, Decimal.text_eq_chars hdigits]

/-- Every number is read back from its own text, `nan` and the infinities
included; zero alone loses its sign. -/
theorem readNumber?_text (value : Number) :
    Literal.readNumber? value.text.toList = some value.readBack := by
  cases value with
  | nan => decide +kernel
  | infinity negative => cases negative <;> decide +kernel
  | finite negative magnitude =>
      obtain ⟨numeral, hwell, htext, hvalue⟩ := text_finite negative magnitude
      rw [htext, Literal.readNumber?_numeral hwell hvalue, readBack]
      cases negative <;> cases magnitude.isZero <;> rfl

/-- The text of a number is one token, in front of anything that does not go on
with it. -/
theorem isLexeme_text (value : Number) : IsLexeme Apart .number value.text.toList := by
  have hword {word : List Char} (hname : isIdentifier word = true)
      (hlongest : ∀ previous rest, longestMatch previous (word ++ rest) =
        namePatterns.foldl (prefer previous (word ++ rest)) (some (.number, word.length))) :
      IsLexeme Apart .number word := by
    apply isLexeme_of_isIdentifier hname
    intro previous rest hfits
    rw [hlongest, foldl_namePatterns _ hname hfits.2]
    simp [matchSize]
  cases value with
  | nan =>
      have hnan : IsLexeme Apart .number ['N', 'a', 'N'] := hword rfl fun previous rest => by
        rw [longestMatch, all_eq]
        rfl
      exact hnan
  | infinity negative =>
      cases negative with
      | false =>
          have hinfinity : IsLexeme Apart .number ['I', 'n', 'f', 'i', 'n', 'i', 't', 'y'] :=
            hword rfl fun previous rest => by
              rw [longestMatch, all_eq]
              rfl
          exact hinfinity
      | true =>
          have hnegative : IsMark .number ['-', 'I', 'n', 'f', 'i', 'n', 'i', 't', 'y'] :=
            isMark_of_listed rfl (by decide) fun previous rest => by
              rw [longestMatch, all_eq]
              rfl
          exact hnegative.mono fun _ _ _ => trivial
  | finite negative magnitude =>
      obtain ⟨numeral, hwell, htext, _⟩ := text_finite negative magnitude
      rw [htext]
      exact isLexeme_numeral _ hwell

end Number

end ConfigNotation
