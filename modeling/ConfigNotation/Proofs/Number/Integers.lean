import Mathlib.Data.Nat.Digits.Defs
import ConfigNotation.Proofs.Token.Numerals
import ConfigNotation.Proofs.Token.Origins
import ConfigNotation.Proofs.Token.Spelling
import ConfigNotation.Proofs.Token.Tiling

/-!
What integers of any size denote. Their digits count by their places in the radix, and the
underscores among them do not count. Every integer can be written as one in decimal.
-/

namespace ConfigNotation

open Text Pattern Literal

/-- The value of a digit: its place among the digits of all radices. -/
def digitPlace (c : Char) : Nat :=
  ['0', '1', '2', '3', '4', '5', '6', '7', '8', '9', 'a', 'b', 'c', 'd', 'e', 'f'].idxOf c.toLower

namespace IntegerText

def HasDigit (integer : IntegerText) : Prop := ∃ c ∈ integer.digits, c ≠ '_'

/-- The values of the digits without the underscores, most significant first. -/
def places (integer : IntegerText) : List Nat :=
  (withoutUnderscores integer.digits).map digitPlace

/-- The number that the digits denote by their places in the radix, with its
sign. -/
def value (integer : IntegerText) : Int :=
  let magnitude : Nat := Nat.ofDigits integer.radix.base integer.places.reverse
  if integer.negative then -(magnitude : Int) else magnitude

end IntegerText

namespace Radix

variable {radix : Radix} {c : Char}

theorem toNat_lt_of_isDigit (h : radix.isDigit c = true) : c.toNat < 103 := by
  cases radix with
  | decimal =>
      have hrange := Char.isDigit_iff_toNat.1 h
      have hupper : c.toNat ≤ 57 := hrange.2
      omega
  | hexadecimal =>
      simp only [isDigit, isHexDigit, Bool.or_eq_true, Bool.and_eq_true, decide_eq_true_eq] at h
      rcases h with (hdigit | ⟨_, hupper⟩) | ⟨_, hupper⟩
      · have hrange := Char.isDigit_iff_toNat.1 hdigit
        have hupper : c.toNat ≤ 57 := hrange.2
        omega
      · have hupper : c.toNat ≤ 102 := hupper
        omega
      · have hupper : c.toNat ≤ 70 := hupper
        omega
  | octal =>
      simp only [isDigit, isOctalDigit, Bool.and_eq_true, decide_eq_true_eq] at h
      have hupper : c.toNat ≤ 55 := h.2
      omega
  | binary =>
      simp only [isDigit, isBinaryDigit, Bool.or_eq_true, beq_iff_eq] at h
      rcases h with rfl | rfl <;> decide

/-- A digit of a radix is a character of words, and it counts by its place. -/
theorem isDigit_spec (h : radix.isDigit c = true) :
    isWordChar c = true ∧ Number.digitValue? radix.base c = some (digitPlace c) := by
  have hall : ∀ n < 103, radix.isDigit (Char.ofNat n) = true →
      isWordChar (Char.ofNat n) = true ∧
        Number.digitValue? radix.base (Char.ofNat n) = some (digitPlace (Char.ofNat n)) := by
    cases radix <;> decide +kernel
  have hsame := hall c.toNat (toNat_lt_of_isDigit h)
  rw [Char.ofNat_toNat] at hsame
  exact hsame h

end Radix

namespace Number

/-- Reading digits one by one gives the number that they denote by their
places. -/
theorem ofDigitValues_eq_ofDigits (radix : Nat) (digits : List Nat) :
    ofDigitValues radix digits = Nat.ofDigits radix digits.reverse := by
  rw [Nat.ofDigits_eq_foldr, List.foldr_reverse, ofDigitValues]
  simp only [Nat.cast_id, Nat.mul_comm, Nat.add_comm]

end Number

/-- Without its underscores a text of digits holds digits only. -/
theorem AreSpaced.isDigit {isDigit : Char → Bool} {digits : List Char}
    (h : AreSpaced isDigit digits) : ∀ c ∈ withoutUnderscores digits, isDigit c = true := by
  intro c hc
  obtain ⟨hmember, hother⟩ := List.mem_filter.1 hc
  have hspaced := h c hmember
  rw [Bool.or_eq_true, beq_iff_eq] at hspaced
  exact hspaced.resolve_right (by simpa using hother)

namespace Literal

theorem withoutUnderscores_append (first second : List Char) :
    withoutUnderscores (first ++ second) =
      withoutUnderscores first ++ withoutUnderscores second :=
  List.filter_append ..

theorem withoutUnderscores_of_not_mem {text : List Char} (h : '_' ∉ text) :
    withoutUnderscores text = text := by
  apply List.filter_eq_self.2
  intro c hc
  have hne : c ≠ '_' := by
    rintro rfl
    exact h hc
  simpa using hne

/-- Nothing is left without the underscores exactly if there is nothing else. -/
theorem withoutUnderscores_eq_nil_iff {digits : List Char} :
    withoutUnderscores digits = [] ↔ ∀ c ∈ digits, c = '_' := by
  simp [withoutUnderscores, List.filter_eq_nil_iff]

theorem withoutUnderscores_sign (negative : Bool) :
    withoutUnderscores (minusChars negative) = minusChars negative := by
  cases negative <;> rfl

theorem withoutUnderscores_opening (radix : Radix) :
    withoutUnderscores radix.opening = radix.opening := by
  cases radix <;> rfl

/-- Without a mark a text is split into its sign and its digits. -/
theorem splitRadix_unmarked (negative : Bool) {c : Char} {tail : List Char} (hminus : c ≠ '-')
    (hmark : ∀ d ∈ tail.head?, ¬IsRadixMark d) :
    splitRadix (minusChars negative ++ c :: tail) = (negative, 10, c :: tail) := by
  by_cases hzero : c = '0'
  · subst hzero
    cases tail with
    | nil => cases negative <;> rfl
    | cons d tail =>
        have hnot := hmark d rfl
        simp only [IsRadixMark, List.mem_cons, List.not_mem_nil, or_false, not_or] at hnot
        cases negative <;> simp [splitRadix, minusChars, hnot]
  · -- a radix mark can only stand behind a zero
    cases negative <;> simp [splitRadix, minusChars, hminus, hzero]

/-- The digits of an integer behind its sign and the mark of its radix. -/
theorem splitRadix_digits (negative : Bool) {radix : Radix} {digits : List Char}
    (hdigits : ∀ c ∈ digits, radix.isDigit c = true) (hsome : radix = .decimal → digits ≠ []) :
    splitRadix (minusChars negative ++ (radix.opening ++ digits)) =
      (negative, radix.base, digits) := by
  cases radix with
  | decimal =>
      obtain ⟨c, others, rfl⟩ := List.exists_cons_of_ne_nil (hsome rfl)
      obtain ⟨hfirst, hothers⟩ := List.forall_mem_cons.1 hdigits
      apply splitRadix_unmarked
      · rintro rfl
        cases hfirst
      · exact fun d hd => not_isRadixMark_of_isDecimalChar
          (isDecimalChar_of_isDigit (hothers d (List.mem_of_mem_head? hd)))
  | hexadecimal => cases negative <;> rfl
  | octal => cases negative <;> rfl
  | binary => cases negative <;> rfl

section

variable {radix : Radix} {digits : List Char} (hne : digits ≠ [])
  (hdigits : ∀ c ∈ digits, radix.isDigit c = true)

include hne hdigits

/-- Digits of a radix are read as the number that they denote by their places,
in every radix. -/
theorem readUnsigned?_radix :
    readUnsigned? radix.base digits =
      some (Nat.ofDigits radix.base (digits.map digitPlace).reverse) := by
  obtain ⟨c, others, rfl⟩ := List.exists_cons_of_ne_nil hne
  have hvalues : Number.digitValues? radix.base (c :: others) =
      some ((c :: others).map digitPlace) :=
    Number.digitValues?_of_forall fun d hd => (Radix.isDigit_spec (hdigits d hd)).2
  have hplus : c ≠ '+' := by
    rintro rfl
    exact absurd (Radix.isDigit_spec (hdigits _ List.mem_cons_self)).1 (by decide)
  unfold readUnsigned?
  split
  · next heq => cases heq; exact absurd rfl hplus
  · dsimp only
    rw [List.isEmpty_cons, if_neg nofun, hvalues, Option.map_some,
      Number.ofDigitValues_eq_ofDigits]

/-- The same behind the reader that would take a sign, of which digits have
none. -/
theorem readSigned?_radix :
    readSigned? radix.base digits =
      some ((Nat.ofDigits radix.base (digits.map digitPlace).reverse : Nat) : Int) := by
  obtain ⟨c, others, rfl⟩ := List.exists_cons_of_ne_nil hne
  have hminus : c ≠ '-' := by
    rintro rfl
    exact absurd (Radix.isDigit_spec (hdigits _ List.mem_cons_self)).1 (by decide)
  unfold readSigned?
  split
  · next heq => cases heq; exact absurd rfl hminus
  · rw [readUnsigned?_radix hne hdigits]
    rfl

end

end Literal

theorem IntegerText.hasDigit_iff {integer : IntegerText} :
    integer.HasDigit ↔ withoutUnderscores integer.digits ≠ [] := by
  rw [Ne, withoutUnderscores_eq_nil_iff, HasDigit]
  simp

namespace IntegerText.WellFormed

variable {integer : IntegerText} (h : integer.WellFormed)

include h

theorem withoutUnderscores_ne_nil (hradix : integer.radix = .decimal) :
    withoutUnderscores integer.digits ≠ [] := by
  intro hnil
  obtain ⟨c, hmember, hdigit⟩ := List.any_eq_true.1 (h.digit hradix)
  rw [withoutUnderscores_eq_nil_iff.1 hnil c hmember] at hdigit
  cases hdigit

omit h in
/-- What is left to read of an integer is its sign, its radix and its digits. -/
theorem readBigInt?_split {parts : Bool × Nat × List Char}
    (h : splitRadix (minusChars integer.negative ++
      (integer.radix.opening ++ withoutUnderscores integer.digits)) = parts) :
    readBigInt? integer.chars =
      (readSigned? parts.2.1 parts.2.2).map fun value => if parts.1 then -value else value := by
  have hlast : integer.chars.getLast? = some 'n' := by
    rw [chars, ← List.append_assoc, List.getLast?_append, List.getLast?_singleton, Option.some_or]
  have hfront : integer.chars.dropLast =
      minusChars integer.negative ++ (integer.radix.opening ++ integer.digits) := by
    rw [chars, ← List.append_assoc, List.dropLast_concat]
  rw [readBigInt?, if_pos hlast, hfront, withoutUnderscores_append, withoutUnderscores_append,
    withoutUnderscores_sign, withoutUnderscores_opening, h]

/-- An integer with a digit is read as what it denotes, and without one it is
refused. -/
theorem readBigInt?_chars :
    readBigInt? integer.chars =
      if withoutUnderscores integer.digits = [] then none else some integer.value := by
  have hdigits := h.digits.isDigit
  have hsplit := splitRadix_digits integer.negative hdigits h.withoutUnderscores_ne_nil
  rw [readBigInt?_split hsplit]
  dsimp only
  by_cases hnil : withoutUnderscores integer.digits = []
  · rw [if_pos hnil, hnil]
    rfl
  · rw [if_neg hnil, readSigned?_radix hnil hdigits]
    rfl

theorem char_cases : ∀ c ∈ integer.chars, c = '-' ∨ isWordChar c = true := by
  intro c hc
  simp only [chars, List.mem_append] at hc
  rcases hc with hsign | (hopening | hdigit) | hletter
  · cases hnegative : integer.negative with
    | true =>
        rw [hnegative] at hsign
        exact .inl (List.mem_singleton.1 hsign)
    | false =>
        rw [hnegative] at hsign
        cases hsign
  · have hword : ∀ c ∈ integer.radix.opening, isWordChar c = true := by
      cases integer.radix <;> decide
    exact .inr (hword c hopening)
  · have hspaced := h.digits c hdigit
    rw [Bool.or_eq_true, beq_iff_eq] at hspaced
    rcases hspaced with hdigit | rfl
    · exact .inr (Radix.isDigit_spec hdigit).1
    · exact .inr rfl
  · rw [List.mem_singleton.1 hletter]
    exact .inr rfl

/-- The text of an integer holds no mark of a comment, so a source that is just
the integer is left as it is. -/
theorem isVerbatim_chars : IsVerbatim integer.chars := by
  apply IsVerbatim.of_codeChars
  intro c hc
  rcases h.char_cases c hc with rfl | hword
  · decide
  · exact isCodeChar_of_isWordChar hword

end IntegerText.WellFormed

def IntegerText.ofInt (value : Int) : IntegerText :=
  ⟨value < 0, .decimal, Nat.toDigits 10 value.natAbs⟩

theorem IntegerText.chars_ofInt (value : Int) :
    (ofInt value).chars = (toString value ++ "n").toList := by
  cases value with
  | ofNat n => simp [ofInt, chars, Radix.opening, minusChars, toString, Int.repr]
  | negSucc n =>
      simp [ofInt, chars, Radix.opening, minusChars, toString, Int.repr, Int.negSucc_lt_zero]

theorem IntegerText.wellFormed_ofInt (value : Int) : (ofInt value).WellFormed := by
  have hdigits : AreDigits (ofInt value).digits := areDigits_toDigits value.natAbs
  have hne : (ofInt value).digits ≠ [] := Nat.toDigits_ne_nil
  refine ⟨hdigits.areSpaced, hne, fun _ => ?_⟩
  obtain ⟨c, others, hcons⟩ := List.exists_cons_of_ne_nil hne
  rw [hcons] at hdigits ⊢
  rw [List.any_cons, hdigits c List.mem_cons_self, Bool.true_or]

theorem digitPlace_of_isDigit {c : Char} (h : c.isDigit = true) :
    digitPlace c = c.toNat - '0'.toNat := by
  have hplace := (@Radix.isDigit_spec .decimal c h).2
  exact Option.some.inj (hplace.symm.trans (Number.digitValue?_of_isDigit h))

/-- The text that an integer is written with has the value of the integer, in
decimal and with its sign. -/
theorem IntegerText.value_ofInt (value : Int) : (ofInt value).value = value := by
  have hdigits := areDigits_toDigits value.natAbs
  have hplain : withoutUnderscores (Nat.toDigits 10 value.natAbs) =
      Nat.toDigits 10 value.natAbs :=
    withoutUnderscores_of_not_mem fun hunderscore => absurd (hdigits _ hunderscore) (by decide)
  have hplaces : (ofInt value).places =
      (Nat.toDigits 10 value.natAbs).map fun c => c.toNat - '0'.toNat := by
    rw [places, ofInt, hplain]
    exact List.map_congr_left fun c hc => digitPlace_of_isDigit (hdigits c hc)
  have hmagnitude : Nat.ofDigits 10 (ofInt value).places.reverse = value.natAbs := by
    rw [hplaces, ← Number.ofDigitValues_eq_ofDigits, Number.ofDigitValues_eq_ofDigitChars,
      Nat.ofDigitChars_ten_toDigits]
  have hbase : (ofInt value).radix.base = 10 := rfl
  have hnegative : (ofInt value).negative = decide (value < 0) := rfl
  simp only [IntegerText.value, hbase, hmagnitude, hnegative, decide_eq_true_eq]
  split <;> omega

/-- An integer of any size is read from its own text. -/
theorem Literal.readBigInt?_text (value : Int) :
    readBigInt? (toString value ++ "n").toList = some value := by
  have hwell := IntegerText.wellFormed_ofInt value
  rw [← IntegerText.chars_ofInt, hwell.readBigInt?_chars,
    if_neg (hwell.withoutUnderscores_ne_nil rfl), IntegerText.value_ofInt]

end ConfigNotation
