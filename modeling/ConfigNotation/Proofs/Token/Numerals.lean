import ConfigNotation.Proofs.Number.Numeral
import ConfigNotation.Proofs.Token.Longest

/-!
How the tokens of numbers are spelled: the digits of an integer in a radix, words for what
is not finite, and decimals with a fraction and an exponent. Underscores may stand anywhere
among the digits, and in the place of them where no digit is asked for.
-/

namespace ConfigNotation

open Pattern

theorem isDecimalChar_of_isDigit {c : Char} (h : c.isDigit = true) : isDecimalChar c = true := by
  rw [isDecimalChar, h, Bool.true_or]

/-- No numeral goes on at the start of a text. -/
def EndsNumeral (rest : List Char) : Prop :=
  ∀ c ∈ rest.head?, isDecimalChar c = false ∧ c ≠ '.' ∧ c ≠ 'e'

def StartsDecimal (c : Char) : Prop := isDecimalChar c = true ∨ c = '.'

theorem StartsDecimal.ne {c other : Char} (h : StartsDecimal c)
    (hdecimal : isDecimalChar other = false) (hpoint : other ≠ '.') : c ≠ other := by
  rintro rfl
  rcases h with hchar | hchar
  · rw [hdecimal] at hchar
    cases hchar
  · exact hpoint hchar

def IsRadixMark (c : Char) : Prop := c ∈ ['x', 'X', 'o', 'O', 'b', 'B']

instance : DecidablePred IsRadixMark := fun c =>
  inferInstanceAs (Decidable (c ∈ ['x', 'X', 'o', 'O', 'b', 'B']))

theorem not_isRadixMark_of_isDecimalChar {c : Char} (h : isDecimalChar c = true) :
    ¬IsRadixMark c := by
  have hmarks : ∀ c ∈ ['x', 'X', 'o', 'O', 'b', 'B'], isDecimalChar c = false := by decide
  intro hmark
  rw [hmarks c hmark] at h
  cases h

/-- Without the letter of a radix in the second place there is no integer in
that radix, so decimals are not in doubt. -/
theorem radixInteger?_eq_none {c : Char} {rest : List Char}
    (h : ∀ d ∈ rest.head?, ¬IsRadixMark d) :
    radixInteger? (c :: rest) = none := by
  unfold radixInteger?
  split
  · next heq => cases heq; exact absurd (by decide) (h 'x' rfl)
  · next heq => cases heq; exact absurd (by decide) (h 'o' rfl)
  · next heq => cases heq; exact absurd (by decide) (h 'b' rfl)
  · rfl

def minusChars (negative : Bool) : List Char := if negative then ['-'] else []

/-- A pattern behind an optional minus sign goes on behind the sign. -/
theorem signed?_minusChars {body : List Char} (h : ∀ c ∈ body.head?, c ≠ '-') (negative : Bool)
    (length? : List Char → Option Nat) :
    signed? length? (minusChars negative ++ body) =
      (length? body).map (· + (minusChars negative).length) := by
  cases negative with
  | true => rfl
  | false =>
      rw [minusChars, if_neg nofun, List.nil_append]
      unfold signed?
      split
      · exact absurd rfl (h '-' rfl)
      · simp

inductive Radix where
  | decimal | hexadecimal | octal | binary
  deriving DecidableEq, Repr

namespace Radix

def base : Radix → Nat
  | decimal => 10
  | hexadecimal => 16
  | octal => 8
  | binary => 2

def opening : Radix → List Char
  | decimal => []
  | hexadecimal => ['0', 'x']
  | octal => ['0', 'o']
  | binary => ['0', 'b']

def isDigit : Radix → Char → Bool
  | decimal => Char.isDigit
  | hexadecimal => isHexDigit
  | octal => isOctalDigit
  | binary => isBinaryDigit

end Radix

/-- A text of digits with underscores among them. -/
def AreSpaced (isDigit : Char → Bool) (text : List Char) : Prop :=
  ∀ c ∈ text, (isDigit c || c == '_') = true

theorem areSpaced_takeWhile (isDigit : Char → Bool) (text : List Char) :
    AreSpaced isDigit (text.takeWhile fun c => isDigit c || c == '_') :=
  fun c hc => List.all_eq_true.1 List.all_takeWhile c hc

theorem areSpaced_decimalRun (text : List Char) : AreSpaced Char.isDigit (decimalRun text) :=
  areSpaced_takeWhile Char.isDigit text

theorem take_decimalRun (text : List Char) :
    text.take (decimalRun text).length = decimalRun text :=
  take_takeWhile isDecimalChar text

/-- An integer with the mark of its radix is that mark and what it has of
digits. -/
theorem Pattern.radixInteger?_eq_some {text : List Char} {size : Nat}
    (h : radixInteger? text = some size) :
    ∃ radix digits, radix ≠ Radix.decimal ∧ text.take size = radix.opening ++ digits ∧
      digits ≠ [] ∧ AreSpaced radix.isDigit digits := by
  have hdigits {isDigit : Char → Bool} {mark : Char} {rest : List Char}
      (h : (if 0 < (rest.takeWhile fun c => isDigit c || c == '_').length then
        some ((rest.takeWhile fun c => isDigit c || c == '_').length + 2) else none) = some size) :
      ∃ digits, ('0' :: mark :: rest).take size = ['0', mark] ++ digits ∧ digits ≠ [] ∧
        AreSpaced isDigit digits := by
    rw [Option.ite_none_right_eq_some] at h
    obtain ⟨hsome, h⟩ := h
    cases h
    refine ⟨_, ?_, List.length_pos_iff.1 hsome, areSpaced_takeWhile isDigit rest⟩
    rw [List.take_succ_cons, List.take_succ_cons, take_takeWhile]
    rfl
  unfold radixInteger? at h
  split at h
  · obtain ⟨digits, hspelled⟩ := hdigits h
    exact ⟨.hexadecimal, digits, nofun, hspelled⟩
  · obtain ⟨digits, hspelled⟩ := hdigits h
    exact ⟨.octal, digits, nofun, hspelled⟩
  · obtain ⟨digits, hspelled⟩ := hdigits h
    exact ⟨.binary, digits, nofun, hspelled⟩
  · cases h

/-- A number as a token spells it, without its sign. -/
inductive NumberText where
  | integer (radix : Radix) (digits : List Char)
  | infinity
  | nan
  /-- The digits before the point and behind it, and the sign of the exponent
  with its digits. -/
  | decimal (whole : List Char) (fraction : Option (List Char))
      (exponent : Option (List Char × List Char))

namespace NumberText

def fractionChars : Option (List Char) → List Char
  | none => []
  | some digits => '.' :: digits

def exponentChars : Option (List Char × List Char) → List Char
  | none => []
  | some (sign, digits) => 'e' :: (sign ++ digits)

def chars : NumberText → List Char
  | integer radix digits => radix.opening ++ digits
  | infinity => ['I', 'n', 'f', 'i', 'n', 'i', 't', 'y']
  | nan => ['N', 'a', 'N']
  | decimal whole fraction exponent => whole ++ fractionChars fraction ++ exponentChars exponent

/-- The parts of a number that a token spells. A digit is asked for only before
the exponent of a decimal; elsewhere underscores do. -/
inductive WellFormed : NumberText → Prop where
  | integer {radix : Radix} {digits : List Char} (hradix : radix ≠ .decimal) (hne : digits ≠ [])
      (hdigits : AreSpaced radix.isDigit digits) :
      WellFormed (.integer radix digits)
  | infinity : WellFormed .infinity
  | nan : WellFormed .nan
  | decimal {whole : List Char} {fraction : Option (List Char)}
      {exponent : Option (List Char × List Char)} (hwhole : AreSpaced Char.isDigit whole)
      (hfraction : ∀ digits ∈ fraction, digits ≠ [] ∧ AreSpaced Char.isDigit digits)
      (hdigit : (whole ++ fractionChars fraction).any Char.isDigit = true)
      (hexponent : ∀ parts ∈ exponent, parts.1 ∈ [[], ['+'], ['-']] ∧ parts.2 ≠ [] ∧
        AreSpaced Char.isDigit parts.2) :
      WellFormed (.decimal whole fraction exponent)

end NumberText

namespace Pattern

/-- What is counted as a fraction is nothing, or a point with digits behind it.
A point alone is not counted. -/
theorem take_fractionSize (text : List Char) :
    ∃ fraction, text.take (fractionSize text) = NumberText.fractionChars fraction ∧
      ∀ digits ∈ fraction, digits ≠ [] ∧ AreSpaced Char.isDigit digits := by
  unfold fractionSize
  split
  · next rest =>
    split
    · exact ⟨none, rfl, nofun⟩
    · next hne =>
      refine ⟨some (decimalRun rest), ?_, ?_⟩
      · rw [List.take_succ_cons, take_decimalRun]
        rfl
      · intro digits hsame
        cases hsame
        exact ⟨hne, areSpaced_decimalRun rest⟩
  · exact ⟨none, rfl, nofun⟩

/-- What is counted as an exponent is nothing, or a mark with at least one digit
behind an optional sign. -/
theorem take_exponentSize (text : List Char) :
    ∃ exponent, text.take (exponentSize text) = NumberText.exponentChars exponent ∧
      ∀ parts ∈ exponent, parts.1 ∈ [[], ['+'], ['-']] ∧ parts.2 ≠ [] ∧
        AreSpaced Char.isDigit parts.2 := by
  unfold exponentSize
  split
  · next rest =>
    have hsign : ∃ sign ∈ [[], ['+'], ['-']],
        rest.take (if rest.head? == some '+' || rest.head? == some '-' then 1 else 0) = sign := by
      split
      · next hhead =>
        cases rest with
        | nil => simp at hhead
        | cons c rest =>
            simp only [List.head?_cons, Bool.or_eq_true, beq_iff_eq, Option.some.injEq] at hhead
            rcases hhead with rfl | rfl <;> simp
      · simp
    dsimp only
    generalize (if rest.head? == some '+' || rest.head? == some '-' then 1 else 0) = size at hsign ⊢
    split
    · exact ⟨none, rfl, nofun⟩
    · next hne =>
      obtain ⟨sign, hmember, htake⟩ := hsign
      refine ⟨some (sign, decimalRun (rest.drop size)), ?_, ?_⟩
      · rw [Nat.add_assoc, Nat.add_comm 1, List.take_succ_cons, List.take_add, htake,
          take_decimalRun]
        rfl
      · intro parts hsame
        cases hsame
        exact ⟨hmember, hne, areSpaced_decimalRun _⟩
  · exact ⟨none, rfl, nofun⟩

/-- Every match of a decimal is a numeral that is well formed, with its parts
told apart. -/
theorem decimal?_eq_some {text : List Char} {size : Nat} (h : decimal? text = some size) :
    ∃ whole fraction exponent, NumberText.WellFormed (.decimal whole fraction exponent) ∧
      text.take size = NumberText.chars (.decimal whole fraction exponent) := by
  unfold decimal? at h
  rw [Option.ite_none_right_eq_some] at h
  obtain ⟨hdigit, h⟩ := h
  cases h
  obtain ⟨fraction, hpoint, hfraction⟩ :=
    take_fractionSize (text.drop (decimalRun text).length)
  obtain ⟨exponent, hmark, hexponent⟩ := take_exponentSize
    (text.drop ((decimalRun text).length + fractionSize (text.drop (decimalRun text).length)))
  have hmantissa : text.take ((decimalRun text).length +
      fractionSize (text.drop (decimalRun text).length)) =
        decimalRun text ++ NumberText.fractionChars fraction := by
    rw [List.take_add, take_decimalRun, hpoint]
  rw [hmantissa] at hdigit
  refine ⟨decimalRun text, fraction, exponent, ?_, ?_⟩
  · exact .decimal (areSpaced_decimalRun text) hfraction hdigit hexponent
  · rw [List.take_add, hmantissa, hmark]
    rfl

theorem take_of_fixed? {word text : List Char} {size : Nat} (h : fixed? word text = some size) :
    text.take size = word := by
  rw [fixed?, Option.ite_none_right_eq_some] at h
  obtain ⟨hstarts, h⟩ := h
  cases h
  exact take_of_isPrefixOf hstarts

/-- Every match of a number without its sign is a number text: a decimal, or
digits behind the mark of a radix. -/
theorem magnitude?_eq_some {text : List Char} {size : Nat} (h : magnitude? text = some size) :
    ∃ number : NumberText, number.WellFormed ∧ text.take size = number.chars := by
  unfold magnitude? at h
  simp only [Option.orElse_eq_orElse, Option.orElse_eq_or, Option.or_eq_some_iff] at h
  rcases h with hradix | ⟨-, hinfinity | ⟨-, hnan | ⟨-, hdecimal⟩⟩⟩
  · obtain ⟨radix, digits, hmarked, htake, hne, hdigits⟩ := radixInteger?_eq_some hradix
    exact ⟨.integer radix digits, .integer hmarked hne hdigits, htake⟩
  · exact ⟨.infinity, .infinity, take_of_fixed? hinfinity⟩
  · exact ⟨.nan, .nan, take_of_fixed? hnan⟩
  · obtain ⟨whole, fraction, exponent, hwell, htake⟩ := decimal?_eq_some hdecimal
    exact ⟨.decimal whole fraction exponent, hwell, htake⟩

/-- A pattern behind an optional minus sign covers the sign and what the pattern
covers. -/
theorem signed?_eq_some {length? : List Char → Option Nat} {text : List Char} {size : Nat}
    (h : signed? length? text = some size) :
    ∃ negative body inner, length? body = some inner ∧
      text.take size = minusChars negative ++ body.take inner := by
  unfold signed? at h
  split at h
  · next rest =>
    obtain ⟨inner, hinner, rfl⟩ := Option.map_eq_some_iff.1 h
    exact ⟨true, rest, inner, hinner, rfl⟩
  · exact ⟨false, text, size, h, rfl⟩

/-- A token for numbers spells one. -/
theorem number?_eq_some {text : List Char} {size : Nat} (h : number? text = some size) :
    ∃ negative number, NumberText.WellFormed number ∧
      text.take size = minusChars negative ++ number.chars := by
  obtain ⟨negative, body, inner, hinner, htake⟩ := signed?_eq_some h
  obtain ⟨number, hwell, hchars⟩ := magnitude?_eq_some hinner
  exact ⟨negative, number, hwell, by rw [htake, hchars]⟩

end Pattern

/-- An integer of any size as a token spells it, with its letter behind it. -/
structure IntegerText where
  negative : Bool
  radix : Radix
  digits : List Char

namespace IntegerText

def chars (integer : IntegerText) : List Char :=
  minusChars integer.negative ++ (integer.radix.opening ++ integer.digits ++ ['n'])

/-- A digit is asked for only where no mark of a radix stands. -/
structure WellFormed (integer : IntegerText) : Prop where
  digits : AreSpaced integer.radix.isDigit integer.digits
  nonempty : integer.digits ≠ []
  digit : integer.radix = .decimal → integer.digits.any Char.isDigit = true

end IntegerText

namespace Pattern

/-- Every match of an integer is a radix with its digits, among which only
underscores may stand. -/
theorem integer?_eq_some {text : List Char} {size : Nat} (h : integer? text = some size) :
    ∃ radix digits, (IntegerText.mk false radix digits).WellFormed ∧
      text.take size = radix.opening ++ digits := by
  unfold integer? at h
  simp only [Option.orElse_eq_orElse, Option.orElse_eq_or, Option.or_eq_some_iff] at h
  rcases h with hradix | ⟨-, hdecimal⟩
  · obtain ⟨radix, digits, hmarked, htake, hne, hdigits⟩ := radixInteger?_eq_some hradix
    exact ⟨radix, digits, ⟨hdigits, hne, fun hsame => absurd hsame hmarked⟩, htake⟩
  · rw [Option.ite_none_right_eq_some] at hdecimal
    obtain ⟨hdigit, hdecimal⟩ := hdecimal
    cases hdecimal
    refine ⟨.decimal, decimalRun text, ⟨areSpaced_decimalRun text, ?_, fun _ => hdigit⟩,
      take_decimalRun text⟩
    intro (hnil : decimalRun text = [])
    rw [hnil] at hdigit
    cases hdigit

/-- A token for integers of any size spells one. -/
theorem bigInt?_eq_some {text : List Char} {size : Nat} (h : bigInt? text = some size) :
    ∃ integer : IntegerText, integer.WellFormed ∧ text.take size = integer.chars := by
  obtain ⟨negative, body, inner, hinner, htake⟩ := signed?_eq_some h
  obtain ⟨digitsSize, hdigits, hletter⟩ := Option.bind_eq_some_iff.1 hinner
  obtain ⟨radix, digits, hwell, hchars⟩ := integer?_eq_some hdigits
  rw [Option.ite_none_right_eq_some] at hletter
  obtain ⟨hletter, hsize⟩ := hletter
  cases hsize
  refine ⟨⟨negative, radix, digits⟩, ⟨hwell.digits, hwell.nonempty, hwell.digit⟩, ?_⟩
  rw [htake, List.take_add, hchars, IntegerText.chars]
  cases hrest : body.drop digitsSize with
  | nil => simp [hrest] at hletter
  | cons c rest =>
      have hn : c = 'n' := by simpa [hrest] using hletter
      rw [hn]
      rfl

end Pattern

theorem AreSpaced.decimalRun_append {digits rest : List Char}
    (h : AreSpaced Char.isDigit digits) (hrest : ∀ c ∈ rest.head?, isDecimalChar c = false) :
    decimalRun (digits ++ rest) = digits :=
  takeWhile_append_stop h hrest

theorem AreDigits.areSpaced {digits : List Char} (h : AreDigits digits) :
    AreSpaced Char.isDigit digits :=
  fun c hc => isDecimalChar_of_isDigit (h c hc)

/-- What two texts both start with, they start with together. -/
theorem forall_head?_append {condition : Char → Prop} {first second : List Char}
    (hfirst : ∀ c ∈ first.head?, condition c) (hsecond : ∀ c ∈ second.head?, condition c) :
    ∀ c ∈ (first ++ second).head?, condition c := by
  cases first with
  | nil => exact hsecond
  | cons d others => exact hfirst

namespace NumberText

theorem head?_exponentChars (exponent : Option (List Char × List Char)) :
    ∀ c ∈ (exponentChars exponent).head?, c = 'e' := by
  intro c hc
  cases exponent with
  | none => cases hc
  | some parts => exact (Option.some.inj hc).symm

theorem head?_behind_whole (fraction : Option (List Char))
    (exponent : Option (List Char × List Char)) :
    ∀ c ∈ (fractionChars fraction ++ exponentChars exponent).head?, c = '.' ∨ c = 'e' := by
  intro c hc
  cases fraction with
  | none => exact .inr (head?_exponentChars exponent c hc)
  | some digits => exact .inl (Option.some.inj hc).symm

/-- A fraction is counted to its end in front of anything that cannot go on with
it. -/
theorem fractionSize_append {fraction : Option (List Char)} {rest : List Char}
    (h : ∀ digits ∈ fraction, digits ≠ [] ∧ AreSpaced Char.isDigit digits)
    (hrest : ∀ c ∈ rest.head?, isDecimalChar c = false ∧ c ≠ '.') :
    fractionSize (fractionChars fraction ++ rest) = (fractionChars fraction).length := by
  cases fraction with
  | none =>
      rw [fractionChars, List.nil_append, fractionSize.eq_def]
      split
      · exact absurd rfl (hrest '.' rfl).2
      · rfl
  | some digits =>
      obtain ⟨hne, hdigits⟩ := h digits rfl
      have hrun : decimalRun (digits ++ rest) = digits :=
        hdigits.decimalRun_append fun c hc => (hrest c hc).1
      rw [fractionChars, List.cons_append, fractionSize, hrun, if_neg hne, List.length_cons]

theorem exponentSize_append {exponent : Option (List Char × List Char)} {rest : List Char}
    (h : ∀ parts ∈ exponent, parts.1 ∈ [[], ['+'], ['-']] ∧ parts.2 ≠ [] ∧
      AreSpaced Char.isDigit parts.2)
    (hrest : EndsNumeral rest) :
    exponentSize (exponentChars exponent ++ rest) = (exponentChars exponent).length := by
  cases exponent with
  | none =>
      rw [exponentChars, List.nil_append, exponentSize.eq_def]
      split
      · exact absurd rfl (hrest 'e' rfl).2.2
      · rfl
  | some parts =>
      obtain ⟨sign, digits⟩ := parts
      obtain ⟨hsign, hne, hdigits⟩ := h (sign, digits) rfl
      obtain ⟨c, others, rfl⟩ := List.exists_cons_of_ne_nil hne
      have hrun : decimalRun (c :: (others ++ rest)) = c :: others :=
        hdigits.decimalRun_append fun d hd => (hrest d hd).1
      have hfirst : StartsDecimal c := .inl (hdigits c List.mem_cons_self)
      have hplus : c ≠ '+' := hfirst.ne rfl (by decide)
      have hminus : c ≠ '-' := hfirst.ne rfl (by decide)
      simp only [List.mem_cons, List.not_mem_nil, or_false] at hsign
      rcases hsign with rfl | rfl | rfl <;>
        simp [exponentChars, exponentSize, hrun, hplus, hminus] <;> omega

/-- A decimal starts with a digit, an underscore or a point, and no mark of a
radix follows. -/
theorem decimal_starts {whole : List Char} {fraction : Option (List Char)}
    (exponent : Option (List Char × List Char)) (hwhole : AreSpaced Char.isDigit whole)
    (hfraction : ∀ digits ∈ fraction, AreSpaced Char.isDigit digits)
    (hsome : whole ++ fractionChars fraction ≠ []) :
    ∃ c tail, chars (.decimal whole fraction exponent) = c :: tail ∧
      StartsDecimal c ∧ ∀ d ∈ tail.head?, ¬IsRadixMark d := by
  have hbehind {digits behind : List Char} (hdigits : AreSpaced Char.isDigit digits)
      (hmark : ∀ d ∈ behind.head?, d = '.' ∨ d = 'e') :
      ∀ d ∈ (digits ++ behind).head?, ¬IsRadixMark d := by
    apply forall_head?_append
    · exact fun d hd =>
        not_isRadixMark_of_isDecimalChar (hdigits d (List.mem_of_mem_head? hd))
    · intro d hd
      rcases hmark d hd with rfl | rfl <;> decide
  cases whole with
  | cons c others =>
      obtain ⟨hfirst, hothers⟩ := List.forall_mem_cons.1 hwhole
      refine ⟨c, others ++ (fractionChars fraction ++ exponentChars exponent), ?_, .inl hfirst, ?_⟩
      · simp only [chars, List.cons_append, List.append_assoc]
      · exact hbehind hothers (head?_behind_whole fraction exponent)
  | nil =>
      cases fraction with
      | none => exact absurd rfl hsome
      | some digits =>
          refine ⟨'.', digits ++ exponentChars exponent, rfl, .inr rfl, ?_⟩
          exact hbehind (hfraction digits rfl) fun d hd => .inr (head?_exponentChars exponent d hd)

namespace WellFormed

variable {whole : List Char} {fraction : Option (List Char)}
  {exponent : Option (List Char × List Char)} (h : WellFormed (.decimal whole fraction exponent))

include h

/-- How a decimal starts: with a digit or a point, and with no radix mark behind
it. -/
theorem decimal_starts :
    ∃ c tail, chars (.decimal whole fraction exponent) = c :: tail ∧
      StartsDecimal c ∧ ∀ d ∈ tail.head?, ¬IsRadixMark d := by
  cases h with
  | decimal hwhole hfraction hdigit hexponent =>
      apply NumberText.decimal_starts exponent hwhole fun digits hd => (hfraction digits hd).2
      intro hnil
      rw [hnil] at hdigit
      cases hdigit

theorem head?_ne_minus (rest : List Char) :
    ∀ c ∈ (chars (.decimal whole fraction exponent) ++ rest).head?, c ≠ '-' := by
  obtain ⟨c, tail, hchars, hfirst, _⟩ := h.decimal_starts
  rw [hchars]
  intro d hd
  cases hd
  exact hfirst.ne rfl (by decide)

theorem radixInteger?_append {rest : List Char} (hmark : ∀ c ∈ rest.head?, ¬IsRadixMark c) :
    radixInteger? (chars (.decimal whole fraction exponent) ++ rest) = none := by
  obtain ⟨c, tail, hchars, _, htail⟩ := h.decimal_starts
  rw [hchars]
  exact radixInteger?_eq_none (forall_head?_append htail hmark)

variable {rest : List Char} (hrest : EndsNumeral rest)

include hrest

theorem decimalRun_append :
    decimalRun (chars (.decimal whole fraction exponent) ++ rest) = whole := by
  cases h with
  | decimal hwhole hfraction hdigit hexponent =>
      rw [chars, List.append_assoc, List.append_assoc]
      apply hwhole.decimalRun_append
      rw [← List.append_assoc]
      refine forall_head?_append (fun c hc => ?_) fun c hc => (hrest c hc).1
      rcases head?_behind_whole fraction exponent c hc with rfl | rfl <;> rfl

/-- A decimal that is spelled well is a decimal number up to its end. -/
theorem decimal?_append :
    decimal? (chars (.decimal whole fraction exponent) ++ rest) =
      some (chars (.decimal whole fraction exponent)).length := by
  have hrun := h.decimalRun_append hrest
  cases h with
  | decimal hwhole hfraction hdigit hexponent =>
      have hbehind : ∀ c ∈ (exponentChars exponent ++ rest).head?,
          isDecimalChar c = false ∧ c ≠ '.' := by
        refine forall_head?_append (fun c hc => ?_) fun c hc => ⟨(hrest c hc).1, (hrest c hc).2.1⟩
        rw [head?_exponentChars exponent c hc]
        exact ⟨rfl, by decide⟩
      have hpoint := fractionSize_append hfraction hbehind
      have hmark := exponentSize_append hexponent hrest
      have htake : (whole ++ (fractionChars fraction ++ (exponentChars exponent ++ rest))).take
          (whole.length + (fractionChars fraction).length) = whole ++ fractionChars fraction := by
        rw [← List.append_assoc, ← List.length_append, List.take_left]
      have hdrop : (whole ++ (fractionChars fraction ++ (exponentChars exponent ++ rest))).drop
          (whole.length + (fractionChars fraction).length) = exponentChars exponent ++ rest := by
        rw [← List.append_assoc, ← List.length_append, List.drop_left]
      simp only [chars, List.append_assoc] at hrun ⊢
      simp only [decimal?, hrun, List.drop_left, hpoint, htake, hdigit, if_true, hdrop, hmark,
        List.length_append, Nat.add_assoc]

variable (hmark : ∀ c ∈ rest.head?, ¬IsRadixMark c)

include hmark

/-- A decimal is matched as a whole wherever no numeral goes on behind it; the
converse of what was read off a match. -/
theorem magnitude?_append :
    magnitude? (chars (.decimal whole fraction exponent) ++ rest) =
      some (chars (.decimal whole fraction exponent)).length := by
  have hdecimal := h.decimal?_append hrest
  have hradix := h.radixInteger?_append hmark
  obtain ⟨c, tail, hchars, hfirst, _⟩ := h.decimal_starts
  have hword {first : Char} (word : List Char) (hletter : isDecimalChar first = false)
      (hpoint : first ≠ '.') :
      fixed? (first :: word) (c :: (tail ++ rest)) = none := by
    simp [fixed?, List.isPrefixOf, (hfirst.ne hletter hpoint).symm]
  have hinfinity : fixed? "Infinity".toList (c :: (tail ++ rest)) = none :=
    hword _ rfl (by decide)
  have hnan : fixed? "NaN".toList (c :: (tail ++ rest)) = none := hword _ rfl (by decide)
  rw [hchars, List.cons_append] at hdecimal hradix ⊢
  rw [magnitude?, hradix, hinfinity, hnan]
  exact hdecimal

theorem number?_append (negative : Bool) :
    number? (minusChars negative ++ (chars (.decimal whole fraction exponent) ++ rest)) =
      some ((minusChars negative).length +
        (chars (.decimal whole fraction exponent)).length) := by
  have hmagnitude := h.magnitude?_append hrest hmark
  rw [number?, signed?_minusChars (h.head?_ne_minus rest), hmagnitude, Option.map_some,
    Nat.add_comm]

/-- Without its letter behind it a decimal is no integer. -/
theorem bigInt?_append (hletter : 'n' ∉ rest.head?) (negative : Bool) :
    bigInt? (minusChars negative ++ (chars (.decimal whole fraction exponent) ++ rest)) =
      none := by
  have hrun := h.decimalRun_append hrest
  have hbehind : (((chars (.decimal whole fraction exponent) ++ rest).drop whole.length).head? ==
      some 'n') = false := by
    rw [chars, List.append_assoc, List.append_assoc, List.drop_left, ← List.append_assoc,
      beq_eq_false_iff_ne]
    have hother : ∀ d ∈ ((fractionChars fraction ++ exponentChars exponent) ++ rest).head?,
        d ≠ 'n' := by
      apply forall_head?_append
      · intro d hd
        rcases head?_behind_whole fraction exponent d hd with rfl | rfl <;> decide
      · rintro d hd rfl
        exact hletter hd
    exact fun hn => hother 'n' hn rfl
  rw [bigInt?, signed?_minusChars (h.head?_ne_minus rest), integer?,
    h.radixInteger?_append hmark, hrun]
  cases whole.any Char.isDigit with
  | false => rfl
  | true =>
      simp only [Option.orElse_eq_orElse, Option.orElse_eq_or, Option.none_or, if_true,
        Option.bind_some, hbehind, Bool.false_eq_true, if_false, Option.map_none]

end WellFormed

end NumberText

namespace Pattern

/-- The mark of a radix with its digits is an integer up to what is none of
them. -/
theorem radixInteger?_append {radix : Radix} {digits rest : List Char}
    (hmarked : radix ≠ .decimal) (hne : digits ≠ []) (hdigits : AreSpaced radix.isDigit digits)
    (hrest : ∀ c ∈ rest.head?, (radix.isDigit c || c == '_') = false) :
    radixInteger? (radix.opening ++ (digits ++ rest)) = some (digits.length + 2) := by
  have hsize {isDigit : Char → Bool} (hdigits : AreSpaced isDigit digits)
      (hrest : ∀ c ∈ rest.head?, (isDigit c || c == '_') = false) :
      (if 0 < ((digits ++ rest).takeWhile fun c => isDigit c || c == '_').length then
        some (((digits ++ rest).takeWhile fun c => isDigit c || c == '_').length + 2)
      else none) = some (digits.length + 2) := by
    rw [takeWhile_append_stop hdigits hrest, if_pos (List.length_pos_iff.2 hne)]
  cases radix with
  | decimal => exact absurd rfl hmarked
  | hexadecimal => exact hsize hdigits hrest
  | octal => exact hsize hdigits hrest
  | binary => exact hsize hdigits hrest

theorem length_opening {radix : Radix} (h : radix ≠ .decimal) : radix.opening.length = 2 := by
  cases radix with
  | decimal => exact absurd rfl h
  | hexadecimal => rfl
  | octal => rfl
  | binary => rfl

end Pattern

namespace NumberText.WellFormed

variable {number : NumberText} (h : number.WellFormed)

include h

/-- A number text by itself is matched as a whole, in any radix and with its
sign. -/
theorem number?_chars (negative : Bool) :
    number? (minusChars negative ++ number.chars) =
      some (minusChars negative ++ number.chars).length := by
  rw [List.length_append]
  cases h with
  | @integer radix digits hradix hne hdigits =>
      have hinteger : radixInteger? (radix.opening ++ (digits ++ [])) = some (digits.length + 2) :=
        Pattern.radixInteger?_append hradix hne hdigits nofun
      have hminus : ∀ c ∈ (radix.opening ++ digits).head?, c ≠ '-' := by
        cases radix with
        | decimal => exact absurd rfl hradix
        | hexadecimal => simp [Radix.opening]
        | octal => simp [Radix.opening]
        | binary => simp [Radix.opening]
      rw [List.append_nil] at hinteger
      rw [chars, number?, signed?_minusChars hminus, magnitude?, hinteger, List.length_append,
        length_opening hradix, Nat.add_comm 2, Nat.add_comm (minusChars negative).length]
      rfl
  | infinity => cases negative <;> rfl
  | nan => cases negative <;> rfl
  | decimal hwhole hfraction hdigit hexponent =>
      have hends : EndsNumeral [] := nofun
      have hwell := decimal hwhole hfraction hdigit hexponent
      have hnumber := hwell.number?_append hends nofun negative
      rwa [List.append_nil] at hnumber

/-- A character that is no digit and no mark is in no number, but for the word
for what is not finite. -/
theorem not_mem_chars {c : Char} (hdigit : ∀ radix : Radix, (radix.isDigit c || c == '_') = false)
    (hmark : c ∉ ['0', 'x', 'o', 'b', 'e', '.', '+', '-', 'N', 'a'])
    (hinfinity : number = .infinity → c ∉ chars .infinity) : c ∉ number.chars := by
  have hspaced (radix : Radix) {digits : List Char} (hdigits : AreSpaced radix.isDigit digits) :
      c ∉ digits := by
    intro hmember
    have hfound := hdigits c hmember
    rw [hdigit radix] at hfound
    cases hfound
  simp only [List.mem_cons, List.not_mem_nil, or_false, not_or] at hmark
  cases h with
  | @integer radix digits hradix hne hdigits =>
      have hinside := hspaced radix hdigits
      cases radix with
      | decimal => exact absurd rfl hradix
      | hexadecimal => simp [chars, Radix.opening, hinside, hmark]
      | octal => simp [chars, Radix.opening, hinside, hmark]
      | binary => simp [chars, Radix.opening, hinside, hmark]
  | infinity => exact hinfinity rfl
  | nan => simp [chars, hmark]
  | @decimal whole fraction exponent hwhole hfraction hpresent hexponent =>
      simp only [chars, List.mem_append, not_or]
      refine ⟨⟨hspaced .decimal hwhole, ?_⟩, ?_⟩
      · cases fraction with
        | none => exact List.not_mem_nil
        | some digits =>
            have hinside := hspaced .decimal (hfraction digits rfl).2
            simp [fractionChars, hinside, hmark]
      · cases exponent with
        | none => exact List.not_mem_nil
        | some parts =>
            obtain ⟨hsign, _, hdigits⟩ := hexponent parts rfl
            have hinside := hspaced .decimal hdigits
            simp only [List.mem_cons, List.not_mem_nil, or_false] at hsign
            rcases hsign with hsign | hsign | hsign <;>
              simp [exponentChars, hsign, hinside, hmark]

/-- Only the word for what is not finite has the letter of an integer in it. -/
theorem letter_not_mem (hfinite : number ≠ .infinity) : 'n' ∉ number.chars := by
  refine h.not_mem_chars ?_ (by decide) fun hinfinite => absurd hinfinite hfinite
  intro radix
  cases radix <;> rfl

end NumberText.WellFormed

namespace IntegerText.WellFormed

variable {integer : IntegerText} (h : integer.WellFormed)

include h

theorem not_mem_chars {c : Char} (hdigit : ∀ radix : Radix, (radix.isDigit c || c == '_') = false)
    (hmark : c ∉ ['0', 'x', 'o', 'b', '-', 'n']) : c ∉ integer.chars := by
  obtain ⟨negative, radix, digits⟩ := integer
  have hinside : c ∉ digits := by
    intro hmember
    have hfound := h.digits c hmember
    rw [hdigit radix] at hfound
    cases hfound
  simp only [List.mem_cons, List.not_mem_nil, or_false, not_or] at hmark
  cases negative <;> cases radix <;>
    simp [IntegerText.chars, minusChars, Radix.opening, hinside, hmark]

theorem integer?_append (rest : List Char) :
    integer? (integer.radix.opening ++ (integer.digits ++ 'n' :: rest)) =
      some (integer.radix.opening ++ integer.digits).length := by
  obtain ⟨negative, radix, digits⟩ := integer
  obtain ⟨hdigits, hne, hdigit⟩ := h
  dsimp only at hdigits hne hdigit ⊢
  by_cases hradix : radix = .decimal
  · subst hradix
    have hrun : decimalRun (digits ++ 'n' :: rest) = digits :=
      hdigits.decimalRun_append fun c hc => by cases hc; rfl
    obtain ⟨c, others, rfl⟩ := List.exists_cons_of_ne_nil hne
    have hmark : ∀ d ∈ (others ++ 'n' :: rest).head?, ¬IsRadixMark d := by
      apply forall_head?_append
      · exact fun d hd => not_isRadixMark_of_isDecimalChar
          (hdigits d (List.mem_cons_of_mem c (List.mem_of_mem_head? hd)))
      · intro d hd
        cases hd
        decide
    rw [List.cons_append] at hrun
    rw [Radix.opening, List.nil_append, List.cons_append, integer?, radixInteger?_eq_none hmark,
      hrun, hdigit rfl]
    rfl
  · have hletter : (radix.isDigit 'n' || 'n' == '_') = false := by
      cases radix with
      | decimal => exact absurd rfl hradix
      | hexadecimal => rfl
      | octal => rfl
      | binary => rfl
    rw [integer?, radixInteger?_append hradix hne hdigits fun c hc => by cases hc; exact hletter,
      List.length_append, length_opening hradix, Nat.add_comm]
    rfl

/-- The marks of the radices start with a digit too. -/
theorem head?_isDecimalChar (rest : List Char) :
    ∀ c ∈ (integer.radix.opening ++ (integer.digits ++ rest)).head?, isDecimalChar c = true := by
  obtain ⟨c, others, hcons⟩ := List.exists_cons_of_ne_nil h.nonempty
  have hdigits := h.digits
  rw [hcons] at hdigits ⊢
  intro d hd
  cases hradix : integer.radix with
  | decimal =>
      rw [hradix] at hd hdigits
      cases hd
      exact hdigits _ List.mem_cons_self
  | hexadecimal => rw [hradix] at hd; cases hd; rfl
  | octal => rw [hradix] at hd; cases hd; rfl
  | binary => rw [hradix] at hd; cases hd; rfl

omit h in
theorem chars_append (rest : List Char) :
    integer.chars ++ rest = minusChars integer.negative ++
      (integer.radix.opening ++ (integer.digits ++ 'n' :: rest)) := by
  simp [chars]

/-- An integer is one up to its letter, whatever follows. -/
theorem bigInt?_append (rest : List Char) :
    bigInt? (integer.chars ++ rest) = some integer.chars.length := by
  have hminus : ∀ c ∈ (integer.radix.opening ++ (integer.digits ++ 'n' :: rest)).head?,
      c ≠ '-' := by
    rintro c hc rfl
    cases h.head?_isDecimalChar _ _ hc
  have hdrop : (integer.radix.opening ++ (integer.digits ++ 'n' :: rest)).drop
      (integer.radix.opening ++ integer.digits).length = 'n' :: rest := by
    rw [← List.append_assoc, List.drop_left]
  rw [chars_append, bigInt?, signed?_minusChars hminus, h.integer?_append, Option.bind_some, hdrop]
  simp only [List.head?_cons, beq_self_eq_true, if_true, Option.map_some, chars,
    List.length_append, List.length_cons, List.length_nil, Option.some.injEq]
  omega

/-- The number in front of its letter is shorter than an integer. -/
theorem length_of_number? {rest : List Char} {size : Nat}
    (hnumber : number? (integer.chars ++ rest) = some size) : size < integer.chars.length := by
  obtain ⟨negative, number, hwell, hspelled⟩ := number?_eq_some hnumber
  by_contra hlong
  rw [List.take_append, List.take_of_length_le (by omega), chars_append] at hspelled
  by_cases hinfinite : number = .infinity
  · -- a word starts with no digit
    have hhead := h.head?_isDecimalChar ('n' :: rest.take (size - integer.chars.length))
    generalize integer.radix.opening ++ _ = body, integer.negative = sign at hhead hspelled
    subst hinfinite
    cases sign with
    | false =>
        change body = _ at hspelled
        subst hspelled
        cases negative with
        | false => cases hhead 'I' rfl
        | true => cases hhead '-' rfl
    | true =>
        cases negative with
        | false => cases hspelled
        | true =>
            have hbody : body = NumberText.chars .infinity := List.append_cancel_left hspelled
            subst hbody
            cases hhead 'I' rfl
  · have hletter : 'n' ∈ minusChars negative ++ number.chars := by rw [← hspelled]; simp
    rcases List.mem_append.1 hletter with hminus | hletter
    · cases negative <;> simp [minusChars] at hminus
    · exact hwell.letter_not_mem hinfinite hletter

end IntegerText.WellFormed

/-- The tokens of numbers are exactly the texts that spell one. -/
theorem number?_eq_length_iff {text : List Char} :
    number? text = some text.length ↔
      ∃ negative number, NumberText.WellFormed number ∧
        text = minusChars negative ++ number.chars := by
  constructor
  · intro h
    have hspelled := number?_eq_some h
    rwa [List.take_length] at hspelled
  · rintro ⟨negative, number, hwell, rfl⟩
    exact hwell.number?_chars negative

/-- The texts that the pattern of integers matches as a whole are exactly those
that integers of any size are spelled with. -/
theorem bigInt?_eq_length_iff {text : List Char} :
    bigInt? text = some text.length ↔
      ∃ integer : IntegerText, integer.WellFormed ∧ text = integer.chars := by
  constructor
  · intro h
    have hspelled := bigInt?_eq_some h
    rwa [List.take_length] at hspelled
  · rintro ⟨integer, hwell, rfl⟩
    simpa using hwell.bigInt?_append []

namespace Pattern

section

variable {text : List Char} (hstart : ∀ c ∈ text.head?, c ≠ '"' ∧ c ≠ '/')
  (previous : Option Char)

include hstart

/-- A text that is a number as a whole is cut off as one token of that kind. No
pattern in front of numbers in the list can cover as much. -/
theorem isChosen_number (h : number? text = some text.length) :
    IsChosen previous text .number text.length :=
  @isChosen_of_covers previous text delimited (all.drop 5) ⟨.number, fun _ => number?⟩ rfl h
    fun _ hother => delimited_ne_some hstart previous hother _

/-- The same for integers of any size. A number covers one character less, since
the letter at the end belongs to no number. -/
theorem isChosen_bigInt (h : bigInt? text = some text.length) :
    IsChosen previous text .bigInt text.length := by
  obtain ⟨integer, hwell, rfl⟩ := bigInt?_eq_length_iff.1 h
  have hsplit : all = (delimited ++ [⟨.number, fun _ => number?⟩]) ++
      ⟨.bigInt, fun _ => bigInt?⟩ :: all.drop 6 := rfl
  apply isChosen_of_covers hsplit h
  intro other hother
  rcases List.mem_append.1 hother with hother | hother
  · exact delimited_ne_some hstart previous hother _
  · rw [List.mem_singleton.1 hother]
    intro hnumber
    rw [← List.append_nil integer.chars] at hnumber
    have hshorter := hwell.length_of_number? hnumber
    rw [List.append_nil] at hshorter
    exact Nat.lt_irrefl _ hshorter

end

end Pattern

end ConfigNotation
