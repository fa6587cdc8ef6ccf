import ConfigNotation.Proofs.Number.Integers

/-!
Which numbers can be read. A token for a number needs less than a reader of numbers: behind the
mark of a radix and in an exponent it does with underscores. Exactly such numbers are refused.
-/

namespace ConfigNotation

open Text Pattern Literal

namespace Literal

theorem any_isDigit_withoutUnderscores (text : List Char) :
    (withoutUnderscores text).any Char.isDigit = text.any Char.isDigit := by
  rw [withoutUnderscores, List.any_filter]
  congr 1
  funext c
  by_cases hunderscore : c = '_'
  · rw [hunderscore]
    rfl
  · simp [hunderscore]

end Literal

namespace NumberText

/-- Behind the mark of the radix, or in the exponent, stand underscores only. -/
def LacksDigits : NumberText → Prop
  | integer _ digits => ∀ c ∈ digits, c = '_'
  | decimal _ _ (some (_, digits)) => ∀ c ∈ digits, c = '_'
  | _ => False

section

variable {whole : List Char} {fraction : Option (List Char)}
  {exponent : Option (List Char × List Char)}

theorem splitSign_digits {sign digits : List Char} (hsign : sign ∈ [[], ['+'], ['-']])
    (hdigits : AreDigits digits) :
    ∃ negative, Number.splitSign (sign ++ digits) = (negative, digits) := by
  simp only [List.mem_cons, List.not_mem_nil, or_false] at hsign
  rcases hsign with rfl | rfl | rfl
  · cases digits with
    | nil => exact ⟨false, rfl⟩
    | cons c others =>
        exact ⟨false, Numeral.splitSign_of_isDigit others (hdigits c List.mem_cons_self)⟩
  · exact ⟨false, rfl⟩
  · exact ⟨true, rfl⟩

/-- A decimal starts with no sign. -/
theorem splitSign_unsigned {c : Char} (tail : List Char) (h : StartsDecimal c) :
    Number.splitSign (c :: tail) = (false, c :: tail) := by
  unfold Number.splitSign
  split
  · next heq =>
    cases heq
    exact absurd rfl (h.ne rfl (by decide))
  · next heq =>
    cases heq
    exact absurd rfl (h.ne rfl (by decide))
  · rfl

/-- An exponent can be read if it is absent or has a digit. -/
theorem exponentValue?_eq_none_iff
    (h : ∀ parts ∈ exponent, parts.1 ∈ [[], ['+'], ['-']] ∧ AreDigits parts.2) :
    Number.exponentValue? (exponentChars exponent) = none ↔ ∃ sign, exponent = some (sign, []) := by
  cases exponent with
  | none => simp [exponentChars, Number.exponentValue?]
  | some parts =>
      obtain ⟨sign, digits⟩ := parts
      obtain ⟨hsign, hdigits⟩ := h (sign, digits) rfl
      obtain ⟨negative, hsplit⟩ := splitSign_digits hsign hdigits
      have hvalue : Number.exponentValue? (exponentChars (some (sign, digits))) =
          (Number.decimalNat? digits).map fun value =>
            if negative then -(value : Int) else value := by
        simp only [exponentChars, Number.exponentValue?, true_or, if_true, hsplit]
      rw [hvalue, Option.map_eq_none_iff]
      by_cases hnil : digits = []
      · subst hnil
        simp [Number.decimalNat?]
      · rw [Number.decimalNat?_of_areDigits hnil hdigits]
        simp [hnil]

theorem decimal_starts_digits (exponent : Option (List Char × List Char))
    (hwhole : AreDigits whole) (hfraction : ∀ digits ∈ fraction, AreDigits digits)
    (hdigit : (whole ++ fractionChars fraction).any Char.isDigit = true) :
    ∃ c tail, chars (.decimal whole fraction exponent) = c :: tail ∧
      StartsDecimal c ∧ ∀ d ∈ tail.head?, ¬IsRadixMark d := by
  apply decimal_starts exponent hwhole.areSpaced fun digits hd => (hfraction digits hd).areSpaced
  intro hnil
  rw [hnil] at hdigit
  cases hdigit

/-- A decimal with a digit before its exponent can be read unless its exponent
has none. -/
theorem ofDecimalText?_eq_none_iff (hwhole : AreDigits whole)
    (hfraction : ∀ digits ∈ fraction, AreDigits digits)
    (hexponent : ∀ parts ∈ exponent, parts.1 ∈ [[], ['+'], ['-']] ∧ AreDigits parts.2)
    (hdigit : (whole ++ fractionChars fraction).any Char.isDigit = true) :
    Number.ofDecimalText? (chars (.decimal whole fraction exponent)) = none ↔
      ∃ sign, exponent = some (sign, []) := by
  obtain ⟨c, tail, hchars, hfirst, _⟩ := decimal_starts_digits exponent hwhole hfraction hdigit
  have hsign : Number.splitSign (chars (.decimal whole fraction exponent)) =
      (false, chars (.decimal whole fraction exponent)) := by
    rw [hchars, splitSign_unsigned tail hfirst]
  have hbehind : ∀ d ∈ (fractionChars fraction ++ exponentChars exponent).head?,
      d.isDigit = false := by
    intro d hd
    rcases head?_behind_whole fraction exponent d hd with rfl | rfl <;> rfl
  have hrun : (chars (.decimal whole fraction exponent)).takeWhile Char.isDigit = whole := by
    rw [chars, List.append_assoc]
    exact takeWhile_append_stop hwhole hbehind
  have hafter : (chars (.decimal whole fraction exponent)).drop whole.length =
      fractionChars fraction ++ exponentChars exponent := by
    rw [chars, List.append_assoc, List.drop_left]
  rw [← exponentValue?_eq_none_iff hexponent]
  apply Iff.trans _ Option.eq_none_iff_forall_ne_some.symm
  simp only [Number.ofDecimalText?, hsign, hrun, hafter]
  cases fraction with
  | none =>
      have hne : whole ≠ [] := by
        rintro rfl
        cases hdigit
      have hvalue := Number.decimalNat?_of_areDigits hne hwhole
      -- without a point the exponent, or nothing, follows the digits
      cases exponent <;> simp [fractionChars, exponentChars, hvalue]
  | some digits =>
      have hne : whole ++ digits ≠ [] := by
        intro hnil
        rw [List.append_eq_nil_iff] at hnil
        rw [hnil.1, hnil.2] at hdigit
        cases hdigit
      have hvalue := Number.decimalNat?_of_areDigits hne
        (areDigits_append.2 ⟨hwhole, hfraction digits rfl⟩)
      have hstop : (digits ++ exponentChars exponent).takeWhile Char.isDigit = digits := by
        apply takeWhile_append_stop (hfraction digits rfl)
        intro d hd
        rw [head?_exponentChars exponent d hd]
        rfl
      simp [fractionChars, hstop, hvalue]

theorem withoutUnderscores_fractionChars (fraction : Option (List Char)) :
    withoutUnderscores (fractionChars fraction) =
      fractionChars (fraction.map withoutUnderscores) := by
  cases fraction <;> rfl

theorem withoutUnderscores_decimal (negative : Bool) (whole : List Char)
    (fraction : Option (List Char)) (h : ∀ parts ∈ exponent, parts.1 ∈ [[], ['+'], ['-']]) :
    withoutUnderscores (minusChars negative ++ chars (.decimal whole fraction exponent)) =
      minusChars negative ++
        chars (.decimal (withoutUnderscores whole) (fraction.map withoutUnderscores)
          (exponent.map fun parts => (parts.1, withoutUnderscores parts.2))) := by
  have hexponent : withoutUnderscores (exponentChars exponent) =
      exponentChars (exponent.map fun parts => (parts.1, withoutUnderscores parts.2)) := by
    cases exponent with
    | none => rfl
    | some parts =>
        obtain ⟨sign, digits⟩ := parts
        have hsign := h (sign, digits) rfl
        simp only [List.mem_cons, List.not_mem_nil, or_false] at hsign
        rcases hsign with rfl | rfl | rfl <;> rfl
  rw [chars, withoutUnderscores_append, withoutUnderscores_append, withoutUnderscores_append,
    withoutUnderscores_sign, withoutUnderscores_fractionChars, hexponent]
  rfl

theorem readMagnitude?_decimal {c : Char} {tail : List Char} (hfirst : StartsDecimal c)
    (hdigit : (c :: tail).any Char.isDigit = true) :
    readMagnitude? 10 (c :: tail) = Number.ofDecimalText? (c :: tail) := by
  have hword {first : Char} {word : List Char} (hletter : isDecimalChar first = false)
      (hpoint : first ≠ '.') :
      c :: tail ≠ first :: word := by
    intro heq
    cases heq
    exact hfirst.ne hletter hpoint rfl
  have hinfinity : c :: tail ≠ "Infinity".toList := hword rfl (by decide)
  have hnan : c :: tail ≠ "NaN".toList := hword rfl (by decide)
  rw [readMagnitude?, List.isEmpty_cons, if_neg nofun, if_neg (by simp), if_neg hinfinity,
    if_neg hnan, if_pos hdigit]

/-- Without underscores a decimal is read as it is written. -/
theorem readNumber?_of_digits {negative : Bool} {text : List Char} (hwhole : AreDigits whole)
    (hfraction : ∀ digits ∈ fraction, AreDigits digits)
    (hdigit : (whole ++ fractionChars fraction).any Char.isDigit = true)
    (htext : withoutUnderscores text =
      minusChars negative ++ chars (.decimal whole fraction exponent)) :
    readNumber? text = (Number.ofDecimalText? (chars (.decimal whole fraction exponent))).map
      fun value => if negative then value.negate else value := by
  obtain ⟨c, tail, hchars, hfirst, hmark⟩ := decimal_starts_digits exponent hwhole hfraction hdigit
  have hsome : (c :: tail).any Char.isDigit = true := by
    rw [← hchars, chars, List.any_append, hdigit, Bool.true_or]
  rw [readNumber?, htext, hchars, splitRadix_unmarked negative (hfirst.ne rfl (by decide)) hmark]
  dsimp only
  rw [readMagnitude?_decimal hfirst hsome]

end

namespace WellFormed

/-- An integer with the mark of its radix can be read if it has a digit. -/
theorem readNumber?_integer {radix : Radix} {digits : List Char}
    (h : WellFormed (.integer radix digits)) (negative : Bool) :
    readNumber? (minusChars negative ++ chars (.integer radix digits)) = none ↔
      ∀ c ∈ digits, c = '_' := by
  cases h with
  | integer hmarked hne hspaced =>
      have hdigits := hspaced.isDigit
      have hsplit := splitRadix_digits negative hdigits fun hsame => absurd hsame hmarked
      have hbase : radix.base ≠ 10 := by
        cases radix with
        | decimal => exact absurd rfl hmarked
        | hexadecimal => decide
        | octal => decide
        | binary => decide
      have hvalues : Number.digitValues? radix.base (withoutUnderscores digits) =
          some ((withoutUnderscores digits).map digitPlace) :=
        Number.digitValues?_of_forall fun c hc => (Radix.isDigit_spec (hdigits c hc)).2
      rw [readNumber?, chars, withoutUnderscores_append, withoutUnderscores_append,
        withoutUnderscores_sign, withoutUnderscores_opening, hsplit]
      rw [← withoutUnderscores_eq_nil_iff]
      by_cases hnil : withoutUnderscores digits = []
      · simp [hnil, readMagnitude?]
      · simp [hnil, readMagnitude?, hbase, Number.ofRadixDigits?, hvalues]

/-- A decimal can be read unless it has an exponent without digit. -/
theorem readNumber?_decimal {whole : List Char} {fraction : Option (List Char)}
    {exponent : Option (List Char × List Char)} (h : WellFormed (.decimal whole fraction exponent))
    (negative : Bool) :
    readNumber? (minusChars negative ++ chars (.decimal whole fraction exponent)) = none ↔
      LacksDigits (.decimal whole fraction exponent) := by
  cases h with
  | decimal hwhole hfraction hdigit hexponent =>
      have htext := withoutUnderscores_decimal negative whole fraction fun parts hparts =>
        (hexponent parts hparts).1
      have hfractionDigits : ∀ digits ∈ fraction.map withoutUnderscores, AreDigits digits := by
        intro digits hmember
        obtain ⟨spaced, hspaced, rfl⟩ := Option.map_eq_some_iff.1 hmember
        exact (hfraction spaced hspaced).2.isDigit
      have hexponentDigits : ∀ parts ∈
          exponent.map fun parts => (parts.1, withoutUnderscores parts.2),
          parts.1 ∈ [[], ['+'], ['-']] ∧ AreDigits parts.2 := by
        intro parts hmember
        obtain ⟨spaced, hspaced, rfl⟩ := Option.map_eq_some_iff.1 hmember
        obtain ⟨hsign, _, hdigits⟩ := hexponent spaced hspaced
        exact ⟨hsign, hdigits.isDigit⟩
      have hsome : (withoutUnderscores whole ++
          fractionChars (fraction.map withoutUnderscores)).any Char.isDigit = true := by
        rw [← withoutUnderscores_fractionChars, ← withoutUnderscores_append,
          any_isDigit_withoutUnderscores]
        exact hdigit
      rw [readNumber?_of_digits hwhole.isDigit hfractionDigits hsome htext,
        Option.map_eq_none_iff,
        ofDecimalText?_eq_none_iff hwhole.isDigit hfractionDigits hexponentDigits hsome]
      cases exponent with
      | none => simp [LacksDigits]
      | some parts => simp [LacksDigits, ← withoutUnderscores_eq_nil_iff]

/-- A number that is spelled well can be read unless it lacks digits. -/
theorem readNumber?_eq_none_iff {number : NumberText} (h : number.WellFormed) (negative : Bool) :
    readNumber? (minusChars negative ++ number.chars) = none ↔ number.LacksDigits := by
  cases number with
  | integer radix digits => exact h.readNumber?_integer negative
  | infinity =>
      have hsome : (readNumber? (minusChars negative ++ chars .infinity)).isSome = true := by
        cases negative <;> decide +kernel
      simpa [LacksDigits] using Option.ne_none_iff_isSome.2 hsome
  | nan =>
      have hsome : (readNumber? (minusChars negative ++ chars .nan)).isSome = true := by
        cases negative <;> decide +kernel
      simpa [LacksDigits] using Option.ne_none_iff_isSome.2 hsome
  | decimal whole fraction exponent => exact h.readNumber?_decimal negative

end WellFormed

end NumberText

end ConfigNotation
