import ConfigNotation.Proofs.Text.Placeholders
import ConfigNotation.Proofs.Token.Numerals
import ConfigNotation.Proofs.Token.Tiling

/-!
Which words are names. A word that starts with a letter is one unless it is reserved. An
underscore can start a name and a number alike, and a word that is both is a number.
-/

namespace ConfigNotation

open Text Pattern Placeholder

/-- The words that are tokens of kinds of their own. -/
def reservedWords : List String :=
  ["import", "use", "export", "from", "as", "skip", "class", "extends", "includes",
    "True", "False", "Null", "Undefined", "Infinity", "NaN"]

/-- Decimal digits with underscores among them, which are not underscores
only. -/
def IsDigitGroup (text : List Char) : Prop :=
  AreSpaced Char.isDigit text ∧ text.any Char.isDigit = true

/-- A word that a number can be spelled with: its digits, and an exponent
without sign. -/
inductive IsNumberWord : List Char → Prop where
  | digits {digits : List Char} (h : IsDigitGroup digits) : IsNumberWord digits
  | scientific {digits power : List Char} (h : IsDigitGroup digits) (hne : power ≠ [])
      (hpower : AreSpaced Char.isDigit power) :
      IsNumberWord (digits ++ 'e' :: power)

/-- A word that an integer of any size can be spelled with. -/
def IsIntegerWord (text : List Char) : Prop :=
  ∃ digits, IsDigitGroup digits ∧ text = digits ++ ['n']

namespace NumberText

/-- A number in the characters of words only, and not marked by a radix, is a
number word. -/
theorem WellFormed.isNumberWord {whole : List Char} {fraction : Option (List Char)}
    {exponent : Option (List Char × List Char)} (h : WellFormed (.decimal whole fraction exponent))
    (hword : ∀ c ∈ chars (.decimal whole fraction exponent), isWordChar c = true) :
    IsNumberWord (chars (.decimal whole fraction exponent)) := by
  cases h with
  | decimal hwhole hfraction hdigit hexponent =>
      cases fraction with
      | some digits => exact absurd (hword '.' (by simp [chars, fractionChars])) (by decide)
      | none =>
          rw [fractionChars, List.append_nil] at hdigit
          cases exponent with
          | none =>
              rw [chars, fractionChars, exponentChars, List.append_nil, List.append_nil]
              exact .digits ⟨hwhole, hdigit⟩
          | some parts =>
              obtain ⟨sign, power⟩ := parts
              obtain ⟨hsign, hne, hpower⟩ := hexponent (sign, power) rfl
              simp only [List.mem_cons, List.not_mem_nil, or_false] at hsign
              rcases hsign with rfl | rfl | rfl
              · rw [chars, fractionChars, exponentChars, List.append_nil, List.nil_append]
                exact .scientific ⟨hwhole, hdigit⟩ hne hpower
              · exact absurd (hword '+' (by simp [chars, exponentChars])) (by decide)
              · exact absurd (hword '-' (by simp [chars, exponentChars])) (by decide)

end NumberText

theorem IsNumberWord.number? {text : List Char} (h : IsNumberWord text) :
    number? text = some text.length := by
  rw [number?_eq_length_iff]
  cases h with
  | digits h =>
      refine ⟨false, .decimal text none none, .decimal h.1 nofun ?_ nofun, ?_⟩
      · rw [NumberText.fractionChars, List.append_nil, h.2]
      · simp [minusChars, NumberText.chars, NumberText.fractionChars, NumberText.exponentChars]
  | @scientific digits power h hne hpower =>
      refine ⟨false, .decimal digits none (some ([], power)), .decimal h.1 nofun ?_ ?_, ?_⟩
      · rw [NumberText.fractionChars, List.append_nil, h.2]
      · intro parts hparts
        cases hparts
        exact ⟨List.mem_cons_self, hne, hpower⟩
      · simp [minusChars, NumberText.chars, NumberText.fractionChars, NumberText.exponentChars]

theorem IsIntegerWord.bigInt? {text : List Char} (h : IsIntegerWord text) :
    bigInt? text = some text.length := by
  obtain ⟨digits, hdigits, rfl⟩ := h
  have hne : digits ≠ [] := by
    rintro rfl
    cases hdigits.2
  exact bigInt?_eq_length_iff.2
    ⟨⟨false, .decimal, digits⟩, ⟨hdigits.1, hne, fun _ => hdigits.2⟩, rfl⟩

section

variable {text : List Char} (hname : isIdentifier text = true)

include hname

/-- No name starts with a minus sign. -/
theorem eq_of_isIdentifier_minusChars {negative : Bool} {body : List Char}
    (h : text = minusChars negative ++ body) :
    negative = false ∧ text = body := by
  cases negative with
  | false => exact ⟨rfl, h⟩
  | true =>
      rw [h] at hname
      cases hname

theorem isNumberWord_of_number? (hinfinity : text ≠ ['I', 'n', 'f', 'i', 'n', 'i', 't', 'y'])
    (hnan : text ≠ ['N', 'a', 'N']) (h : number? text = some text.length) :
    IsNumberWord text := by
  obtain ⟨negative, number, hwell, hchars⟩ := number?_eq_length_iff.1 h
  obtain ⟨-, rfl⟩ := eq_of_isIdentifier_minusChars hname hchars
  cases number with
  | integer radix digits =>
      cases hwell with
      | integer hradix _ _ =>
          -- with the mark of a radix the text would start with a zero
          cases radix with
          | decimal => exact absurd rfl hradix
          | hexadecimal => cases hname
          | octal => cases hname
          | binary => cases hname
  | infinity => exact absurd rfl hinfinity
  | nan => exact absurd rfl hnan
  | decimal whole fraction exponent =>
      exact hwell.isNumberWord fun c hc => isWordChar_of_mem_identifier hname hc

theorem isIntegerWord_of_bigInt? (h : bigInt? text = some text.length) : IsIntegerWord text := by
  obtain ⟨⟨negative, radix, digits⟩, hwell, hchars⟩ := bigInt?_eq_length_iff.1 h
  obtain ⟨-, rfl⟩ := eq_of_isIdentifier_minusChars hname hchars
  cases radix with
  | decimal => exact ⟨digits, ⟨hwell.digits, hwell.digit rfl⟩, rfl⟩
  | hexadecimal => cases hname
  | octal => cases hname
  | binary => cases hname

/-- A name that starts with a digit group starts with an underscore. -/
theorem IsDigitGroup.head?_eq {digits rest : List Char} (h : IsDigitGroup digits)
    (htext : text = digits ++ rest) : text.head? = some '_' := by
  subst htext
  cases digits with
  | nil => cases h.2
  | cons c digits =>
      have hstart := (Bool.and_eq_true_iff.1 hname).1
      have hspaced := h.1 c List.mem_cons_self
      rw [Bool.or_eq_true, beq_iff_eq] at hspaced
      rw [List.cons_append, List.head?_cons,
        hspaced.resolve_left (not_isDigit_of_isIdentStart hstart)]

theorem head?_of_isIdentifier : ∀ c ∈ text.head?, c ≠ '"' ∧ c ≠ '/' := by
  obtain ⟨c, rest, rfl, hstart, _⟩ := isIdentifier_spec hname
  intro d hd
  cases hd
  constructor <;> (rintro rfl; cases hstart)

theorem lex_name {kind : TokenKind} (hchosen : IsChosen none text kind text.length) :
    lex (String.ofList text) = .ok (.single kind text) := by
  have hkept := stripComments_of_isVerbatim (isVerbatim_of_isIdentifier hname)
  obtain ⟨c, rest, rfl, hstart, _⟩ := isIdentifier_spec hname
  exact lex_single (isBlank_of_isWordChar (isWordChar_of_isIdentStart hstart)) hkept hchosen

end

theorem Pattern.take_of_word? {word text : List Char} {previous : Option Char} {size : Nat}
    (h : word? word previous text = some size) : text.take size = word := by
  rw [word?, Option.ite_none_right_eq_some, Bool.and_eq_true, Bool.and_eq_true] at h
  obtain ⟨⟨⟨hstarts, _⟩, _⟩, h⟩ := h
  cases h
  exact take_of_isPrefixOf hstarts

section

variable {text rest : List Char}

/-- A word of the language that starts some text covers less of it than a name
in front that is not reserved. -/
theorem Pattern.lt_of_word? {previous : Option Char} {word : List Char} {size : Nat}
    (hfree : String.ofList text ∉ reservedWords) (hstops : Stops rest)
    (hreserved : String.ofList word ∈ reservedWords) (hchars : ∀ c ∈ word, isWordChar c = true)
    (h : word? word previous (text ++ rest) = some size) : size < text.length := by
  have htake := take_of_word? h
  by_contra hlong
  rw [List.take_append, List.take_of_length_le (by omega)] at htake
  cases hbehind : rest.take (size - text.length) with
  | nil =>
      rw [hbehind, List.append_nil] at htake
      exact hfree (htake ▸ hreserved)
  | cons c tail =>
      have hfirst : rest.head? = some c := by
        rw [← List.take_append_drop (size - text.length) rest, hbehind]
        rfl
      have hletter := hchars c (by rw [← htake, hbehind]; simp)
      rw [(hstops c hfirst).1] at hletter
      cases hletter

/-- No mark starts a text that starts with a character of a word. -/
theorem Pattern.fixed?_ne_some {c : Char} (word : List Char) (hchar : isWordChar c = false)
    (hstart : ∀ first ∈ text.head?, isWordChar first = true) (size : Nat) :
    fixed? (c :: word) text ≠ some size := by
  intro hmatch
  rw [fixed?, Option.ite_none_right_eq_some] at hmatch
  obtain ⟨tail, htail⟩ := List.isPrefixOf_iff_prefix.1 hmatch.1
  have hletter := hstart c (by rw [← htail]; rfl)
  rw [hchar] at hletter
  cases hletter

theorem Pattern.assocKey?_ne_some (hstart : ∀ first ∈ text.head?, isWordChar first = true)
    (size : Nat) : assocKey? text ≠ some size := by
  intro hmatch
  unfold assocKey? at hmatch
  split at hmatch
  · exact absurd (hstart '@' rfl) (by decide)
  · cases hmatch

/-- A word that is not reserved is a name where no number covers it. -/
theorem isChosen_ident_append {previous : Option Char} (hname : isIdentifier text = true)
    (hfree : String.ofList text ∉ reservedWords) (hstops : Stops rest)
    (hnumber : ∀ size, number? (text ++ rest) = some size → size < text.length)
    (hinteger : ∀ size, bigInt? (text ++ rest) = some size → size < text.length) :
    IsChosen previous (text ++ rest) .ident text.length := by
  have hstart : ∀ c ∈ (text ++ rest).head?, c ≠ '"' ∧ c ≠ '/' ∧ isWordChar c = true := by
    have hdelimiter := head?_of_isIdentifier hname
    obtain ⟨c, tail, rfl, hstart, _⟩ := isIdentifier_spec hname
    intro d hd
    cases hd
    obtain ⟨hquote, hslash⟩ := hdelimiter c rfl
    exact ⟨hquote, hslash, isWordChar_of_isIdentStart hstart⟩
  have hletter : ∀ c ∈ (text ++ rest).head?, isWordChar c = true := fun c hc => (hstart c hc).2.2
  have hdelimited : ∀ pattern ∈ delimited, ∀ size,
      pattern.length? previous (text ++ rest) = some size → size < text.length :=
    fun _ hmember size hmatch => absurd hmatch (delimited_ne_some
      (fun c hc => ⟨(hstart c hc).1, (hstart c hc).2.1⟩) previous hmember size)
  simp only [delimited, List.forall_mem_cons] at hdelimited
  obtain ⟨hdate, hfile, hstring, hregExp, _⟩ := hdelimited
  have hpath (size : Nat) (hmatch : path? (text ++ rest) = some size) : size < text.length := by
    rw [path?_append hname hstops] at hmatch
    cases hmatch
  refine ⟨all.take 24, ⟨.ident, fun _ => ident?⟩, all.drop 25, rfl, rfl,
    ident?_append hname hstops, ?_, ?_⟩
  · rw [all_eq]
    simp only [List.take_succ_cons, List.take_zero, List.forall_mem_cons]
    refine ⟨hdate, hfile, hstring, hregExp, hnumber, hinteger, ?_⟩
    and_intros
    all_goals first
      | exact fun _ => lt_of_word? hfree hstops (by decide) (by decide)
      | exact fun size hmatch => absurd hmatch (fixed?_ne_some _ rfl hletter size)
      | exact fun size hmatch => absurd hmatch (assocKey?_ne_some hletter size)
      | exact hpath
      | exact List.forall_mem_nil _
  · rw [all_eq]
    simp only [List.drop_succ_cons, List.drop_zero, List.forall_mem_cons]
    and_intros
    all_goals first
      | exact fun size hmatch => absurd hmatch (fixed?_ne_some _ rfl hletter size)
      | exact List.forall_mem_nil _

end

/-- A word that is not reserved and no number is a name. -/
theorem isChosen_ident {text : List Char} (hname : isIdentifier text = true)
    (hfree : String.ofList text ∉ reservedWords) (hnumber : number? text ≠ some text.length)
    (hinteger : bigInt? text ≠ some text.length) :
    IsChosen none text .ident text.length := by
  have hless {length? : List Char → Option Nat} (hcovers : CoversSome length?)
      (hne : length? text ≠ some text.length) (size : Nat)
      (hmatch : length? (text ++ []) = some size) : size < text.length := by
    rw [List.append_nil] at hmatch
    refine Nat.lt_of_le_of_ne (hcovers text size hmatch).2 ?_
    rintro rfl
    exact hne hmatch
  have hchosen : IsChosen none (text ++ []) .ident text.length :=
    isChosen_ident_append hname hfree nofun (hless coversSome_number hnumber)
      (hless coversSome_bigInt hinteger)
  rwa [List.append_nil] at hchosen

/-- A word that is not reserved is one token as a whole: a name, or a number if
it is spelled as one, which takes an underscore at its start. -/
theorem name_is_one_token {word : String} (hname : isIdentifier word.toList = true)
    (hfree : word ∉ reservedWords) :
    (lex word = .ok (.single .ident word.toList) ↔
      ¬IsNumberWord word.toList ∧ ¬IsIntegerWord word.toList) ∧
    (IsNumberWord word.toList → lex word = .ok (.single .number word.toList)) ∧
    (IsIntegerWord word.toList → lex word = .ok (.single .bigInt word.toList)) ∧
    (IsNumberWord word.toList ∨ IsIntegerWord word.toList → word.toList.head? = some '_') := by
  have hlex {kind : TokenKind} (h : IsChosen none word.toList kind word.toList.length) :
      lex word = .ok (.single kind word.toList) := by
    have hsingle := lex_name hname h
    rwa [String.ofList_toList] at hsingle
  have hstart := head?_of_isIdentifier hname
  have hnumber (h : IsNumberWord word.toList) : lex word = .ok (.single .number word.toList) :=
    hlex (isChosen_number hstart none h.number?)
  have hinteger (h : IsIntegerWord word.toList) : lex word = .ok (.single .bigInt word.toList) :=
    hlex (isChosen_bigInt hstart none h.bigInt?)
  refine ⟨⟨?_, ?_⟩, hnumber, hinteger, ?_⟩
  · intro hident
    constructor
    · intro h
      rw [hnumber h] at hident
      cases hident
    · intro h
      rw [hinteger h] at hident
      cases hident
  · rintro ⟨hnot, hnone⟩
    have hother (other : String) (hreserved : other ∈ reservedWords) :
        word.toList ≠ other.toList := by
      intro heq
      rw [String.toList_injective heq] at hfree
      exact hfree hreserved
    apply hlex
    apply isChosen_ident hname
    · rwa [String.ofList_toList]
    · intro h
      exact hnot (isNumberWord_of_number? hname (hother "Infinity" (by decide))
        (hother "NaN" (by decide)) h)
    · intro h
      exact hnone (isIntegerWord_of_bigInt? hname h)
  · rintro (h | ⟨digits, h, htext⟩)
    · generalize htext : word.toList = text at h
      cases h with
      | digits h => exact htext ▸ h.head?_eq hname (htext.trans (List.append_nil _).symm)
      | scientific h => exact htext ▸ h.head?_eq hname htext
    · exact h.head?_eq hname htext

theorem name_is_one_token_underscored :
    (isIdentifier "x_1".toList = true ∧ "x_1" ∉ reservedWords) ∧
      (isIdentifier "_1n".toList = true ∧ "_1n" ∉ reservedWords) ∧
      lex "x_1" = .ok (.single .ident "x_1".toList) ∧
      lex "_1n" = .ok (.single .bigInt "_1n".toList) := by
  have hplain : isIdentifier "x_1".toList = true ∧ "x_1" ∉ reservedWords := by decide
  have hspelled : isIdentifier "_1n".toList = true ∧ "_1n" ∉ reservedWords := by decide
  obtain ⟨hname, -, -, hstart⟩ := name_is_one_token hplain.1 hplain.2
  obtain ⟨-, -, hinteger, -⟩ := name_is_one_token hspelled.1 hspelled.2
  refine ⟨hplain, hspelled, hname.2 ⟨?_, ?_⟩, hinteger ⟨['_', '1'], ?_, rfl⟩⟩
  · exact fun h => absurd (hstart (.inl h)) (by decide)
  · exact fun h => absurd (hstart (.inr h)) (by decide)
  · exact ⟨by simp [AreSpaced], rfl⟩

/-- The word `_1` could be a name, and the number that it spells is what it is
taken for. -/
theorem underscored_name_is_number :
    isIdentifier "_1".toList = true ∧ "_1" ∉ reservedWords ∧
      lex "_1" = .ok (.single .number "_1".toList) ∧
      lex "_1" ≠ .ok (.single .ident "_1".toList) := by
  have hlex : lex "_1" = .ok (.single .number "_1".toList) := lex_eq_ok (by decide +kernel)
  refine ⟨by decide, by decide, hlex, ?_⟩
  rw [hlex]
  intro heq
  cases heq

end ConfigNotation
