import ConfigNotation.Proofs.Source.Words
import ConfigNotation.Proofs.Syntax.LegibleTypes
import ConfigNotation.Proofs.Syntax.Spanless

/-!
The text of a type, read again. It is spelled word by word, each of which is a token where it
stands, and the tokens form the type that was shown.
-/

namespace ConfigNotation

open Grammar Pattern Word
open Text (lastOr)

namespace TypeExpr

open Source (bracketedWords)

mutual

def words (gap : List Char) : TypeExpr → List Word
  | reference name => [⟨gap, .ident, name.toList⟩]
  | object fields => bracketedWords gap (fieldWords fields) [' ']
  | array => bracketedWords gap [] []
  | arrayOf element => bracketedWords gap (words [] element) []
  | tuple elements => bracketedWords gap (elementWords [] elements) []
  | literal body => [⟨gap, .string, '"' :: (body.toList ++ ['"'])⟩]

def fieldWords : List (Field TypeExpr) → List Word
  | [] => []
  | ⟨name, type, optional, _, _⟩ :: rest =>
      ⟨[' '], .assocKey, '@' :: name.toList⟩ ::
        ((if optional then [⟨[], .question, ['?']⟩] else []) ++ ⟨[], .colon, [':']⟩ ::
          (words [' '] type ++ ⟨[], .semicolon, [';']⟩ :: fieldWords rest))

/-- The words of the elements of a tuple, with blanks in front of the first. -/
def elementWords (gap : List Char) : List TypeExpr → List Word
  | [] => []
  | element :: rest =>
      words gap element ++ ⟨[], .semicolon, [';']⟩ :: elementWords [' '] rest

end

mutual

theorem spell_words (gap : List Char) (type : TypeExpr) :
    spell (words gap type) = gap ++ type.text.toList := by
  cases type with
  | reference name => simp [words, text]
  | object fields =>
      have hfields := spell_fieldWords fields
      simp [words, text, bracketedWords, hfields]
  | array => simp [words, text, bracketedWords]
  | arrayOf element =>
      have helement := spell_words [] element
      simp [words, text, bracketedWords, helement]
  | tuple elements =>
      have helements := spell_elementWords [] elements
      simp [words, text, bracketedWords, helements]
  | literal body => simp [words, text]

theorem spell_fieldWords (fields : List (Field TypeExpr)) :
    spell (fieldWords fields) = (fieldsText fields).toList := by
  match fields with
  | [] => rfl
  | ⟨name, type, optional, _, _⟩ :: rest =>
      have htype := spell_words [' '] type
      have hrest := spell_fieldWords rest
      cases optional <;> simp [fieldWords, fieldsText, htype, hrest]

theorem spell_elementWords (gap : List Char) (elements : List TypeExpr) :
    spell (elementWords gap elements) =
      (if elements.isEmpty then [] else gap) ++ (elementsText elements).toList := by
  match elements with
  | [] => rfl
  | element :: rest =>
      have helement := spell_words gap element
      have hrest := spell_elementWords [' '] rest
      have hblank : (if rest.isEmpty then "" else " ").toList =
          if rest.isEmpty then [] else [' '] := by
        split <;> rfl
      rw [elementWords, elementsText]
      simp only [spell_append, spell_cons, helement, hrest, String.toList_append, hblank]
      simp

end

def fieldMarks : List (TokenKind × Char) := [(.question, '?'), (.colon, ':')]

theorem isMark_of_mem_fieldMarks {kind : TokenKind} {c : Char} (h : (kind, c) ∈ fieldMarks) :
    IsMark kind [c] := by
  simp only [fieldMarks, List.mem_cons, Prod.mk.injEq, List.not_mem_nil, or_false] at h
  rcases h with h | h
  all_goals
    obtain ⟨rfl, rfl⟩ := h
    apply isMark_of_listed rfl (by decide)
    intro previous rest
    rw [longestMatch, all_eq]
    rfl

theorem spelled_fieldMark {verbatim : Prop} {kind : TokenKind} {c : Char}
    (h : (kind, c) ∈ fieldMarks) {rest : List Word}
    (hrest : ∀ previous, Spelled verbatim previous rest) (previous : Option Char) :
    Spelled verbatim previous (⟨[], kind, [c]⟩ :: rest) :=
  Spelled.mark (by simp) (isMark_of_mem_fieldMarks h) hrest previous

/-- The key of a field is spelled in front of a mark. -/
theorem spelled_fieldKey {verbatim : Prop} {name : List Char} (hname : isIdentifier name = true)
    {kind : TokenKind} {c : Char} (hmark : (kind, c) ∈ fieldMarks) {rest : List Word}
    (hrest : ∀ previous, Spelled verbatim previous (⟨[], kind, [c]⟩ :: rest))
    (previous : Option Char) :
    Spelled verbatim previous (⟨[' '], .assocKey, '@' :: name⟩ :: ⟨[], kind, [c]⟩ :: rest) := by
  have hstop : ∀ mark ∈ fieldMarks, isWordChar mark.2 = false ∧ mark.2 ≠ '.' := by decide
  exact .cons (by simp) (isLexeme_assocKey hname) (stops_cons _ (hstop _ hmark)) (hrest _)

theorem endsType_closing (rest : List Word) :
    EndsType (spell (⟨[], .rightBracket, [']']⟩ :: rest)) := by
  rintro c ⟨⟩
  exact .inr rfl

theorem endsType_semicolon (rest : List Word) :
    EndsType (spell (⟨[], .semicolon, [';']⟩ :: rest)) := by
  rintro c ⟨⟩
  exact .inl rfl

open Source (spelled_bracketedWords spelled_closing spelled_semicolon)

theorem clear_bracket : IsClear (lastOr (some '[') []) := by decide

mutual

/-- A type is spelled in front of words that may follow any character, if a mark
ends it. -/
theorem spelled_words {verbatim : Prop} {type : TypeExpr} (h : type.Legible) {gap : List Char}
    (hgap : ∀ c ∈ gap, c = ' ' ∨ c = '\n') {rest : List Word}
    (hrest : ∀ previous, Spelled verbatim previous rest) (hends : EndsType (spell rest))
    (previous : Option Char) (hclear : IsClear (lastOr previous gap)) :
    Spelled verbatim previous (words gap type ++ rest) := by
  have hclosing (previous : Option Char) :
      Spelled verbatim previous (⟨[], .rightBracket, [']']⟩ :: rest) :=
    spelled_closing (by simp) hrest previous
  cases type with
  | reference name => exact .cons hgap h.own.isLexeme ⟨hclear, hends⟩ (hrest _)
  | literal body =>
      exact .cons hgap (h.own.1.isLexeme h.own.2) ⟨hclear, hends.stops⟩ (hrest _)
  | array => exact spelled_bracketedWords hgap (hclosing _) previous
  | arrayOf element =>
      have helement := h.parts element List.mem_cons_self
      exact spelled_bracketedWords hgap (spelled_words helement (by simp) hclosing
        (endsType_closing rest) _ clear_bracket) previous
  | tuple elements =>
      exact spelled_bracketedWords hgap (spelled_elementWords h.parts (by simp) hclosing _
        clear_bracket) previous
  | object fields =>
      have hfields : ∀ field ∈ fields, isIdentifier field.name.toList = true ∧
          field.type.Legible := fun field hfield =>
        ⟨h.own.2 field hfield, h.parts _ (List.mem_map_of_mem hfield)⟩
      have hend (previous : Option Char) :
          Spelled verbatim previous (⟨[' '], .rightBracket, [']']⟩ :: rest) :=
        spelled_closing (by simp) hrest previous
      exact spelled_bracketedWords hgap (spelled_fieldWords hfields hend _) previous

theorem spelled_elementWords {verbatim : Prop} {elements : List TypeExpr}
    (h : ∀ element ∈ elements, element.Legible) {gap : List Char}
    (hgap : ∀ c ∈ gap, c = ' ' ∨ c = '\n') {rest : List Word}
    (hrest : ∀ previous, Spelled verbatim previous rest) (previous : Option Char)
    (hclear : IsClear (lastOr previous gap)) :
    Spelled verbatim previous (elementWords gap elements ++ rest) := by
  cases elements with
  | nil => exact hrest previous
  | cons element others =>
      rw [List.forall_mem_cons] at h
      rw [elementWords, List.append_assoc]
      refine spelled_words h.1 hgap (fun previous => ?_) (endsType_semicolon _) previous hclear
      exact .cons nofun (isMark_of_mem (by simp [marks])) trivial
        (spelled_elementWords h.2 (by simp) hrest _ (by decide))

theorem spelled_fieldWords {verbatim : Prop} {fields : List (Field TypeExpr)}
    (h : ∀ field ∈ fields, isIdentifier field.name.toList = true ∧ field.type.Legible)
    {rest : List Word} (hrest : ∀ previous, Spelled verbatim previous rest)
    (previous : Option Char) :
    Spelled verbatim previous (fieldWords fields ++ rest) := by
  match fields with
  | [] => exact hrest previous
  | ⟨name, type, optional, _, _⟩ :: others =>
      rw [List.forall_mem_cons] at h
      obtain ⟨⟨hname, htype⟩, hothers⟩ := h
      have hbehind := spelled_semicolon (spelled_fieldWords hothers hrest)
      have hcolon (previous : Option Char) : Spelled verbatim previous (⟨[], .colon, [':']⟩ ::
          (words [' '] type ++ ⟨[], .semicolon, [';']⟩ :: (fieldWords others ++ rest))) :=
        .cons (by simp) (isMark_of_mem_fieldMarks (by decide)) trivial
          (spelled_words htype (by simp) hbehind (endsType_semicolon _) _ (by decide))
      cases optional with
      | false => simpa [fieldWords] using spelled_fieldKey hname (by decide) hcolon previous
      | true =>
          have hmark : (.question, '?') ∈ fieldMarks := by decide
          have hquestion := spelled_fieldMark hmark hcolon
          simpa [fieldWords] using spelled_fieldKey hname hmark hquestion previous

end

end TypeExpr

end ConfigNotation
