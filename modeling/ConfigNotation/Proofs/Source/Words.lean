import ConfigNotation.Proofs.Source.Numbers
import ConfigNotation.Proofs.Source.Quoted
import ConfigNotation.Proofs.Token.RegExps
import ConfigNotation.Proofs.Value.Keyed
import ConfigNotation.Source.Writer

/-!
The words of a written value. The writer spells them one after the other, and each of
them is a token where it stands.
-/

namespace ConfigNotation

namespace Value

mutual

/-- Values without dates and regular expressions whose keys are identifiers. A
record has each key once. -/
def Writable : Value → Prop
  | date _ | regExp _ => False
  | array items => ItemsWritable items
  | object ⟨entries⟩ => (entries.map (·.1)).Nodup ∧ EntriesWritable entries
  | _ => True

def ItemsWritable : List Value → Prop
  | [] => True
  | item :: rest => item.Writable ∧ ItemsWritable rest

def EntriesWritable : List (String × Value) → Prop
  | [] => True
  | (key, item) :: rest => isIdentifier key.toList = true ∧ item.Writable ∧ EntriesWritable rest

end

/-- A leaf that is written as a token which is read as the leaf again: no date.
If it is asked for, a regular expression is left as it is where comments are
blanked. -/
def IsLegible (verbatim : Prop) : Value → Prop
  | date _ => False
  | regExp value => value.IsLiteral ∧ (verbatim → Text.IsVerbatim value.text.toList)
  | _ => True

mutual

/-- A value that can be written has identifiers as its keys, and leaves that are
legible. What is legible depends on whether the text has to be verbatim. -/
theorem Writable.keyed (verbatim : Prop) {value : Value} (h : value.Writable) :
    value.Keyed (IsLegible verbatim) := by
  cases value with
  | array items => exact ItemsWritable.keyed verbatim h
  | object record => exact ⟨h.1, EntriesWritable.keyed verbatim h.2⟩
  | date | regExp => cases h
  | _ => trivial

theorem ItemsWritable.keyed (verbatim : Prop) {items : List Value} (h : ItemsWritable items) :
    ItemsKeyed (IsLegible verbatim) items := by
  cases items with
  | nil => trivial
  | cons item rest => exact ⟨Writable.keyed verbatim h.1, ItemsWritable.keyed verbatim h.2⟩

theorem EntriesWritable.keyed (verbatim : Prop) {entries : List (String × Value)}
    (h : EntriesWritable entries) :
    EntriesKeyed (IsLegible verbatim) entries := by
  match entries, h with
  | [], _ => trivial
  | (key, item) :: rest, ⟨hkey, hitem, hrest⟩ =>
      exact ⟨hkey, Writable.keyed verbatim hitem, EntriesWritable.keyed verbatim hrest⟩

end

mutual

def holdsEmptyArray : Value → Bool
  | array [] => true
  | array items => itemsHoldEmptyArray items
  | object ⟨entries⟩ => entriesHoldEmptyArray entries
  | _ => false

def itemsHoldEmptyArray : List Value → Bool
  | [] => false
  | item :: rest => item.holdsEmptyArray || itemsHoldEmptyArray rest

def entriesHoldEmptyArray : List (String × Value) → Bool
  | [] => false
  | (_, item) :: rest => item.holdsEmptyArray || entriesHoldEmptyArray rest

end

end Value

namespace Source

open Word
open Text (lastOr)

/-- The kind of token that a value is written as if it is no container. -/
def leafKind : Value → TokenKind
  | .null => .null
  | .undefined => .undefined
  | .boolean _ => .boolean
  | .number _ => .number
  | .bigInt _ => .bigInt
  | .date _ => .date
  | .regExp _ => .regExp
  | .string _ | .buffer _ | .array _ | .object _ => .string

def arrowGap (indent : Nat) : List Char := if indent = 0 then [] else [' ']

def closingGap (indent level : Nat) (isEmpty : Bool) : List Char :=
  if isEmpty then [] else (lineBreak indent level).toList

def bracketedWords (gap : List Char) (entries : List Word) (closing : List Char) : List Word :=
  ⟨gap, .leftBracket, ['[']⟩ :: (entries ++ [⟨closing, .rightBracket, [']']⟩])

def entryOf (indent level : Nat) (kind : TokenKind) (key : List Char) (value : List Word) :
    List Word :=
  ⟨(lineBreak indent level).toList, kind, '@' :: key⟩ :: ⟨arrowGap indent, .arrow, ['=', '>']⟩ ::
    (value ++ [⟨[], .semicolon, [';']⟩])

mutual

/-- The words of a value at a level of nesting, with blanks in front of the
first. -/
def valueWords (indent level : Nat) (gap : List Char) : Value → List Word
  | .array [] => [⟨gap, .path, emptyArray.text.toList⟩]
  | .array items =>
      bracketedWords gap (itemWords indent (level + 1) items) (closingGap indent level false)
  | .object ⟨entries⟩ =>
      bracketedWords gap (entryWords indent (level + 1) entries)
        (closingGap indent level entries.isEmpty)
  | leaf => [⟨gap, leafKind leaf, (leafText leaf).toList⟩]

def itemWords (indent level : Nat) : List Value → List Word
  | [] => []
  | item :: rest =>
      entryOf indent level .numericKey ['*'] (valueWords indent level (arrowGap indent) item) ++
        itemWords indent level rest

def entryWords (indent level : Nat) : List (String × Value) → List Word
  | [] => []
  | (key, item) :: rest =>
      entryOf indent level .assocKey key.toList
          (valueWords indent level (arrowGap indent) item) ++
        entryWords indent level rest

end

theorem valueWords_leaf {value : Value} (hleaf : value.isContainer = false) (indent level : Nat)
    (gap : List Char) :
    valueWords indent level gap value = [⟨gap, leafKind value, (leafText value).toList⟩] := by
  cases value <;> first | rfl | cases hleaf

/-- Blanks in front of a value stand in front of its first word. -/
theorem spell_valueWords (indent level : Nat) (gap : List Char) (value : Value) :
    spell (valueWords indent level gap value) =
      gap ++ spell (valueWords indent level [] value) := by
  cases value with
  | array items => cases items <;> simp [valueWords, bracketedWords]
  | object record => simp [valueWords, bracketedWords]
  | _ => simp [valueWords]

namespace Part

@[simp] theorem text_plain (text : String) : (plain text).text = text := rfl

@[simp] theorem usesEmptyArray_plain (text : String) : (plain text).usesEmptyArray = false := rfl

/-- The text of two parts is the text of the first one with that of the second
one behind it. -/
@[simp] theorem text_append (first second : Part) :
    (first ++ second).text = first.text ++ second.text := rfl

@[simp] theorem usesEmptyArray_append (first second : Part) :
    (first ++ second).usesEmptyArray = (first.usesEmptyArray || second.usesEmptyArray) := rfl

/-- A part is spelled by words, and knows whether the empty array is among
them. -/
structure IsSpelled (part : Part) (words : List Word) (usesEmptyArray : Bool) : Prop where
  text : part.text.toList = spell words
  uses : part.usesEmptyArray = usesEmptyArray

theorem IsSpelled.append {first second : Part} {firstWords secondWords : List Word}
    {firstUses secondUses : Bool} (hfirst : first.IsSpelled firstWords firstUses)
    (hsecond : second.IsSpelled secondWords secondUses) :
    (first ++ second).IsSpelled (firstWords ++ secondWords) (firstUses || secondUses) where
  text := by simp [hfirst.text, hsecond.text]
  uses := by simp [hfirst.uses, hsecond.uses]

/-- An entry is spelled if its value is: a key, an arrow with its blanks, the
value, and a semicolon. -/
theorem IsSpelled.entry {indent level : Nat} {value : Value} {part : Part} {uses : Bool}
    (h : part.IsSpelled (valueWords indent level [] value) uses) (kind : TokenKind)
    (key : String) :
    (entry indent level key part).IsSpelled
      (entryOf indent level kind key.toList (valueWords indent level (arrowGap indent) value))
      uses where
  text := by
    have harrow : (arrow indent).toList = arrowGap indent ++ ['=', '>'] ++ arrowGap indent := by
      unfold arrow arrowGap
      split <;> rfl
    have hvalue := spell_valueWords indent level (arrowGap indent) value
    simp [Source.entry, entryOf, harrow, hvalue, h.text]
  uses := by simp [Source.entry, h.uses]

/-- Entries between brackets are spelled by the words of the entries, with the
line break in front of the closing one. -/
theorem IsSpelled.bracketed {entries : Part} {words : List Word} {uses : Bool}
    (h : entries.IsSpelled words uses) (indent level : Nat) (isEmpty : Bool) :
    (bracketed indent level isEmpty entries).IsSpelled
      (bracketedWords [] words (closingGap indent level isEmpty)) uses where
  text := by
    cases isEmpty <;> simp [Source.bracketed, bracketedWords, closingGap, h.text]
  uses := by simp [Source.bracketed, h.uses]

end Part

section

variable {condition : Value → Prop}

mutual

/-- What is written for a value is what its words spell, at any level of nesting
and with any indentation. The three lemmas go over the value together. -/
theorem writeValue_spelled (indent level : Nat) (value : Value) (h : value.Keyed condition) :
    ∃ part, writeValue plainLeaf indent level value = .ok part ∧
      part.IsSpelled (valueWords indent level [] value) value.holdsEmptyArray := by
  cases value with
  | array items =>
      cases items with
      | nil => exact ⟨emptyArray, rfl, by simp [valueWords, emptyArray], rfl⟩
      | cons item rest =>
          obtain ⟨part, hpart, hspelled⟩ := writeItems_spelled indent (level + 1) (item :: rest) h
          refine ⟨bracketed indent level false part, ?_, hspelled.bracketed indent level false⟩
          simp only [writeValue, hpart]
          rfl
  | object record =>
      obtain ⟨entries⟩ := record
      obtain ⟨part, hpart, hspelled⟩ := writeEntries_spelled indent (level + 1) entries h.2
      refine ⟨bracketed indent level entries.isEmpty part, ?_, hspelled.bracketed indent level _⟩
      simp only [writeValue, hpart]
      rfl
  | _ => exact ⟨_, rfl, by simp [valueWords], rfl⟩

theorem writeItems_spelled (indent level : Nat) (items : List Value)
    (h : Value.ItemsKeyed condition items) :
    ∃ part, writeItems plainLeaf indent level items = .ok part ∧
      part.IsSpelled (itemWords indent level items) (Value.itemsHoldEmptyArray items) := by
  cases items with
  | nil => exact ⟨.plain "", rfl, rfl, rfl⟩
  | cons item rest =>
      obtain ⟨part, hpart, hspelled⟩ := writeValue_spelled indent level item h.1
      obtain ⟨others, hothers, hrest⟩ := writeItems_spelled indent level rest h.2
      refine ⟨entry indent level "*" part ++ others, ?_,
        (hspelled.entry .numericKey "*").append hrest⟩
      simp only [writeItems, hpart, hothers]
      rfl

theorem writeEntries_spelled (indent level : Nat) (entries : List (String × Value))
    (h : Value.EntriesKeyed condition entries) :
    ∃ part, writeEntries plainLeaf indent level entries = .ok part ∧
      part.IsSpelled (entryWords indent level entries) (Value.entriesHoldEmptyArray entries) := by
  match entries, h with
  | [], _ => exact ⟨.plain "", rfl, rfl, rfl⟩
  | (key, item) :: rest, ⟨hkey, hitem, hothers⟩ =>
      obtain ⟨part, hpart, hspelled⟩ := writeValue_spelled indent level item hitem
      obtain ⟨others, hothers, hrest⟩ := writeEntries_spelled indent level rest hothers
      refine ⟨entry indent level key part ++ others, ?_,
        (hspelled.entry .assocKey key).append hrest⟩
      simp only [writeEntries, hkey, hpart, hothers]
      rfl

end

end

/-- A leaf that is legible is one token, of the kind that its value asks for. -/
theorem isToken_leaf {verbatim : Prop} {value : Value} (hleaf : value.isContainer = false)
    (h : value.IsLegible verbatim) :
    IsToken Apart (leafKind value) (leafText value).toList ∧
      (verbatim → Text.IsVerbatim (leafText value).toList) := by
  have hlexeme {kind : TokenKind} {text : List Char} (hlexeme : IsLexeme Apart kind text) :
      IsToken Apart kind text ∧ (verbatim → Text.IsVerbatim text) :=
    ⟨hlexeme.toIsToken, fun _ => hlexeme.verbatim⟩
  cases value with
  | null => exact hlexeme (isLexeme_of_mem (by decide))
  | undefined => exact hlexeme (isLexeme_of_mem (by decide))
  | boolean value =>
      cases value with
      | true => exact hlexeme (isLexeme_of_mem (by decide))
      | false => exact hlexeme (isLexeme_of_mem (by decide))
  | number value => exact hlexeme value.isLexeme_text
  | bigInt value => exact hlexeme (Literal.isLexeme_integer_text value)
  | string text => exact hlexeme (isLexeme_quoted text)
  | buffer value => exact hlexeme (isLexeme_quoted value.text)
  | regExp value => exact ⟨h.1.isToken.mono fun _ _ hfits => hfits.2, h.2⟩
  | date => cases h
  | array | object => cases hleaf

/-- The name for the empty array is one path. -/
theorem isLexeme_emptyArray :
    IsLexeme Apart .path ['e', 'm', 'p', 't', 'y', '.', 'i', 't', 'e', 'm', 's'] where
  starts := ⟨_, _, rfl, rfl⟩
  verbatim := .of_codeChars (by decide)
  longest previous rest hfits := by
    have hlast : Pattern.pathTail false (['t', 'e', 'm', 's'] ++ rest) = 4 :=
      pathTail_append hfits.2 (by decide)
    have htail : Pattern.pathTail false
        (['m', 'p', 't', 'y', '.', 'i', 't', 'e', 'm', 's'] ++ rest) =
        Pattern.pathTail false (['t', 'e', 'm', 's'] ++ rest) + 6 := rfl
    have hident : Pattern.ident?
        (['e', 'm', 'p', 't', 'y', '.', 'i', 't', 'e', 'm', 's'] ++ rest) = some 5 := rfl
    have hpath : Pattern.path?
        (['e', 'm', 'p', 't', 'y', '.', 'i', 't', 'e', 'm', 's'] ++ rest) = some 11 := by
      rw [List.cons_append] at hident ⊢
      rw [Pattern.path?, htail, hlast, hident]
      rfl
    have hlongest : Pattern.longestMatch previous
        (['e', 'm', 'p', 't', 'y', '.', 'i', 't', 'e', 'm', 's'] ++ rest) =
        namePatterns.foldl (Pattern.prefer previous
          (['e', 'm', 'p', 't', 'y', '.', 'i', 't', 'e', 'm', 's'] ++ rest)) none := by
      rw [Pattern.longestMatch, Pattern.all_eq]
      rfl
    rw [hlongest, namePatterns, List.foldl_cons, List.foldl_cons, List.foldl_nil]
    simp only [Pattern.prefer, hpath, hident]
    rfl

theorem mem_lineBreak (indent level : Nat) :
    ∀ c ∈ (lineBreak indent level).toList, c = ' ' ∨ c = '\n' := by
  unfold lineBreak
  split
  · simp
  · rw [String.pushn_eq_repeat_push]
    generalize level * indent = width
    induction width with
    | zero => simp [Nat.repeat]
    | succ width ih =>
        intro c hc
        rw [Nat.repeat, String.toList_push, List.mem_append] at hc
        rcases hc with hc | hc
        · exact ih c hc
        · exact .inl (List.mem_singleton.1 hc)

theorem mem_arrowGap (indent : Nat) : ∀ c ∈ arrowGap indent, c = ' ' ∨ c = '\n' := by
  unfold arrowGap
  split <;> simp

theorem mem_closingGap (indent level : Nat) (isEmpty : Bool) :
    ∀ c ∈ closingGap indent level isEmpty, c = ' ' ∨ c = '\n' := by
  unfold closingGap
  split
  · simp
  · exact mem_lineBreak indent level

section

variable {verbatim : Prop}

/-- An entry is spelled in front of words that may follow any character. -/
theorem spelled_entryOf {indent level : Nat} {kind : TokenKind} {key : List Char}
    {value rest : List Word} (hkey : IsLexeme (fun _ rest => Stops rest) kind ('@' :: key))
    (hvalue : ∀ previous, IsClear (lastOr previous (arrowGap indent)) →
      Spelled verbatim previous (value ++ ⟨[], .semicolon, [';']⟩ :: rest))
    (previous : Option Char) :
    Spelled verbatim previous (entryOf indent level kind key value ++ rest) := by
  have hclear : IsClear (lastOr (some '>') (arrowGap indent)) := by
    unfold arrowGap
    split <;> (rintro c hc; cases hc; decide)
  have hstops : Stops (spell (⟨arrowGap indent, .arrow, ['=', '>']⟩ ::
      (value ++ ⟨[], .semicolon, [';']⟩ :: rest))) := by
    rw [spell_cons]
    unfold arrowGap
    split <;> exact stops_cons _ (by decide)
  have harrow : Spelled verbatim (lastOr none ('@' :: key))
      (⟨arrowGap indent, .arrow, ['=', '>']⟩ :: (value ++ ⟨[], .semicolon, [';']⟩ :: rest)) :=
    .cons (mem_arrowGap indent) (isMark_of_mem (by simp [marks])) trivial (hvalue _ hclear)
  have hentry : entryOf indent level kind key value ++ rest =
      ⟨(lineBreak indent level).toList, kind, '@' :: key⟩ ::
        ⟨arrowGap indent, .arrow, ['=', '>']⟩ :: (value ++ ⟨[], .semicolon, [';']⟩ :: rest) := by
    simp [entryOf]
  rw [hentry]
  exact .cons (mem_lineBreak indent level) hkey hstops harrow

/-- Brackets are spelled behind any character, around words that may follow a
bracket. -/
theorem spelled_bracketedWords {gap closing : List Char} {entries rest : List Word}
    (hgap : ∀ c ∈ gap, c = ' ' ∨ c = '\n')
    (hentries : Spelled verbatim (some '[')
      (entries ++ ⟨closing, .rightBracket, [']']⟩ :: rest))
    (previous : Option Char) :
    Spelled verbatim previous (bracketedWords gap entries closing ++ rest) := by
  have hwords : bracketedWords gap entries closing ++ rest = ⟨gap, .leftBracket, ['[']⟩ ::
      (entries ++ ⟨closing, .rightBracket, [']']⟩ :: rest) := by
    simp [bracketedWords]
  rw [hwords]
  exact .cons hgap (isMark_of_mem (by simp [marks])) trivial hentries

theorem spelled_semicolon {rest : List Word} (hrest : ∀ previous, Spelled verbatim previous rest)
    (previous : Option Char) :
    Spelled verbatim previous (⟨[], .semicolon, [';']⟩ :: rest) :=
  Spelled.mark (by simp) (isMark_of_mem (by decide)) hrest previous

theorem spelled_closing {closing : List Char} (hclosing : ∀ c ∈ closing, c = ' ' ∨ c = '\n')
    {rest : List Word} (hrest : ∀ previous, Spelled verbatim previous rest)
    (previous : Option Char) :
    Spelled verbatim previous (⟨closing, .rightBracket, [']']⟩ :: rest) :=
  Spelled.mark hclosing (isMark_of_mem (by simp [marks])) hrest previous

theorem stops_semicolon (rest : List Word) : Stops (spell (⟨[], .semicolon, [';']⟩ :: rest)) :=
  stops_cons _ (by decide)

mutual

/-- The words of a value are cut off again, in front of anything that no word
goes on with. Containers end in a bracket, which asks for nothing. -/
theorem spelled_valueWords {value : Value} (h : value.Keyed (Value.IsLegible verbatim))
    {gap : List Char} (hgap : ∀ c ∈ gap, c = ' ' ∨ c = '\n') {rest : List Word}
    (hrest : ∀ previous, Spelled verbatim previous rest) (hstops : Stops (spell rest))
    (indent level : Nat) (previous : Option Char) (hclear : IsClear (lastOr previous gap)) :
    Spelled verbatim previous (valueWords indent level gap value ++ rest) := by
  have hleaf (hleaf : value.isContainer = false) :
      Spelled verbatim previous (valueWords indent level gap value ++ rest) := by
    obtain ⟨htoken, hverbatim⟩ := isToken_leaf hleaf ((Value.keyed_leaf hleaf).1 h)
    rw [valueWords_leaf hleaf]
    exact .token hgap htoken hverbatim ⟨hclear, hstops⟩ (hrest _)
  cases value with
  | array items =>
      cases items with
      | nil => exact .cons hgap isLexeme_emptyArray ⟨hclear, hstops⟩ (hrest _)
      | cons item others =>
          have hclosing := spelled_closing (mem_closingGap indent level false) hrest
          exact spelled_bracketedWords hgap (spelled_itemWords h hclosing indent (level + 1) _)
            previous
  | object record =>
      obtain ⟨entries⟩ := record
      have hclosing := spelled_closing (mem_closingGap indent level entries.isEmpty) hrest
      exact spelled_bracketedWords hgap (spelled_entryWords h.2 hclosing indent (level + 1) _)
        previous
  | _ => exact hleaf rfl

theorem spelled_itemWords {items : List Value}
    (h : Value.ItemsKeyed (Value.IsLegible verbatim) items) {rest : List Word}
    (hrest : ∀ previous, Spelled verbatim previous rest) (indent level : Nat)
    (previous : Option Char) :
    Spelled verbatim previous (itemWords indent level items ++ rest) := by
  cases items with
  | nil => exact hrest previous
  | cons item others =>
      have hothers := spelled_semicolon (spelled_itemWords h.2 hrest indent level)
      rw [itemWords, List.append_assoc]
      exact spelled_entryOf ((isMark_of_mem (by decide)).mono fun _ _ _ => trivial)
        (spelled_valueWords h.1 (mem_arrowGap indent) hothers (stops_semicolon _) indent level)
        previous

theorem spelled_entryWords {entries : List (String × Value)}
    (h : Value.EntriesKeyed (Value.IsLegible verbatim) entries) {rest : List Word}
    (hrest : ∀ previous, Spelled verbatim previous rest) (indent level : Nat)
    (previous : Option Char) :
    Spelled verbatim previous (entryWords indent level entries ++ rest) := by
  match entries, h with
  | [], _ => exact hrest previous
  | (key, item) :: others, ⟨hkey, hitem, hothers⟩ =>
      have hbehind := spelled_semicolon (spelled_entryWords hothers hrest indent level)
      rw [entryWords, List.append_assoc]
      exact spelled_entryOf (isLexeme_assocKey hkey)
        (spelled_valueWords hitem (mem_arrowGap indent) hbehind (stops_semicolon _) indent level)
        previous

end

def lineGap (indent : Nat) : List Char := if indent = 0 then [] else ['\n']

/-- The words of the declarations that the name for the empty array needs. -/
def declarationWords (indent : Nat) : List Word :=
  [⟨[], .classWord, ['c', 'l', 'a', 's', 's']⟩,
    ⟨[' '], .ident, ['E', 'm', 'p', 't', 'y', 'L', 'i', 's', 't']⟩, ⟨[], .leftParen, ['(']⟩,
    ⟨[], .spread, ['.', '.', '.']⟩, ⟨[], .ident, ['i', 't', 'e', 'm', 's']⟩,
    ⟨[], .rightParen, [')']⟩, ⟨[' '], .leftBracket, ['[']⟩,
    ⟨[], .assocKey, ['@', 'i', 't', 'e', 'm', 's']⟩, ⟨[' '], .arrow, ['=', '>']⟩,
    ⟨[' '], .ident, ['i', 't', 'e', 'm', 's']⟩, ⟨[], .semicolon, [';']⟩,
    ⟨[], .rightBracket, [']']⟩, ⟨[], .semicolon, [';']⟩,
    ⟨lineGap indent, .useWord, ['u', 's', 'e']⟩,
    ⟨[' '], .ident, ['E', 'm', 'p', 't', 'y', 'L', 'i', 's', 't']⟩, ⟨[], .leftParen, ['(']⟩,
    ⟨[], .rightParen, [')']⟩, ⟨[' '], .asWord, ['a', 's']⟩,
    ⟨[' '], .ident, ['e', 'm', 'p', 't', 'y']⟩, ⟨[], .semicolon, [';']⟩]

def exportWords (indent : Nat) (gap : List Char) (value : Value) : List Word :=
  ⟨gap, .exportWord, ['e', 'x', 'p', 'o', 'r', 't']⟩ ::
    (valueWords indent 0 [' '] value ++ [⟨[], .semicolon, [';']⟩])

def moduleWords (indent : Nat) (value : Value) : List Word :=
  if value.holdsEmptyArray then
    declarationWords indent ++ exportWords indent (lineGap indent) value
  else exportWords indent [] value

theorem toList_declarations (indent : Nat) :
    (declarations indent).flatMap String.toList =
      spell (declarationWords indent) ++ lineGap indent := by
  unfold declarations declarationWords lineGap
  split <;> rfl

/-- A container is written whatever its leaves are. -/
theorem source_of_keyed {condition : Value → Prop} {value : Value}
    (hcontainer : value.isContainer = true) (h : value.Keyed condition) (indent : Nat) :
    value.source none indent = .ok (String.ofList (spell (moduleWords indent value))) := by
  obtain ⟨part, hpart, hspelled⟩ := writeValue_spelled indent 0 value h
  have hexport : exportPart plainLeaf indent value =
      .ok (.plain "export " ++ part ++ .plain ";") := by
    cases value with
    | array | object =>
        simp only [exportPart, hpart]
        rfl
    | _ => cases hcontainer
  have huses : (.plain "export " ++ part ++ .plain ";" : Part).usesEmptyArray =
      value.holdsEmptyArray := by
    simp [hspelled.uses]
  have hpieces : value.sourcePieces none indent =
      .ok ((if value.holdsEmptyArray then declarations indent else []) ++
        [(.plain "export " ++ part ++ .plain ";" : Part).text]) := by
    rw [← huses]
    simp only [Value.sourcePieces, leafWriter, hexport]
    rfl
  have hvalue := spell_valueWords indent 0 [' '] value
  have htext : (.plain "export " ++ part ++ .plain ";" : Part).text.toList =
      spell (exportWords indent [] value) := by
    simp [exportWords, hvalue, hspelled.text]
  have hjoin : value.source none indent = .ok (String.join
      ((if value.holdsEmptyArray then declarations indent else []) ++
        [(.plain "export " ++ part ++ .plain ";" : Part).text])) := by
    simp only [Value.source, hpieces]
    rfl
  have hlist : (String.join ((if value.holdsEmptyArray then declarations indent else []) ++
      [(.plain "export " ++ part ++ .plain ";" : Part).text])).toList =
      spell (moduleWords indent value) := by
    rw [String.toList_join, List.flatMap_append, List.flatMap_singleton, htext]
    unfold moduleWords
    split
    · rw [spell_append, toList_declarations, List.append_assoc]
      simp [exportWords]
    · rfl
  rw [hjoin, ← hlist, String.ofList_toList]

/-- The module that is written for a container is what its words spell,
declarations included. -/
theorem source_eq_spell {value : Value} (hcontainer : value.isContainer = true)
    (h : value.Writable) (indent : Nat) :
    value.source none indent = .ok (String.ofList (spell (moduleWords indent value))) :=
  source_of_keyed hcontainer (h.keyed True) indent

def declaredNames : List (List Char) :=
  [['E', 'm', 'p', 't', 'y', 'L', 'i', 's', 't'], ['i', 't', 'e', 'm', 's'],
    ['e', 'm', 'p', 't', 'y']]

theorem isLexeme_declaredName {name : List Char} (h : name ∈ declaredNames) :
    IsLexeme Apart .ident name := by
  simp only [declaredNames, List.mem_cons, List.not_mem_nil, or_false] at h
  rcases h with rfl | rfl | rfl
  all_goals
    apply isLexeme_name rfl
    intro previous rest
    rw [Pattern.longestMatch, Pattern.all_eq]
    rfl

/-- The declarations in front of a module are cut off again. Their names are
identifiers that no keyword is among. -/
theorem spelled_declarationWords {indent : Nat} {rest : List Word}
    (hrest : Spelled verbatim (some ';') rest) :
    Spelled verbatim none (declarationWords indent ++ rest) := by
  -- class EmptyList(...items)
  refine .cons (by decide) (isLexeme_of_mem (by decide)) ⟨by decide, stops_cons _ (by decide)⟩ ?_
  refine .cons (by decide) (isLexeme_declaredName (by decide))
    ⟨by decide, stops_cons _ (by decide)⟩ ?_
  refine .cons (by decide) (isMark_of_mem (by decide)) trivial ?_
  refine .cons (by decide) (isMark_of_mem (by decide)) trivial ?_
  refine .cons (by decide) (isLexeme_declaredName (by decide))
    ⟨by decide, stops_cons _ (by decide)⟩ ?_
  refine .cons (by decide) (isMark_of_mem (by decide)) trivial ?_
  -- [@items => items;];
  refine .cons (by decide) (isMark_of_mem (by decide)) trivial ?_
  refine .cons (by decide) (isLexeme_assocKey rfl) (stops_cons _ (by decide)) ?_
  refine .cons (by decide) (isMark_of_mem (by decide)) trivial ?_
  refine .cons (by decide) (isLexeme_declaredName (by decide))
    ⟨by decide, stops_cons _ (by decide)⟩ ?_
  refine .cons (by decide) (isMark_of_mem (by decide)) trivial ?_
  refine .cons (by decide) (isMark_of_mem (by decide)) trivial ?_
  refine .cons (by decide) (isMark_of_mem (by decide)) trivial ?_
  -- use EmptyList() as empty;
  refine .cons (by unfold lineGap; split <;> decide) (isLexeme_of_mem (by simp [keywords]))
    ⟨by unfold lineGap; split <;> decide, stops_cons _ (by decide)⟩ ?_
  refine .cons (by decide) (isLexeme_declaredName (by decide))
    ⟨by rintro c hc; cases hc; decide, stops_cons _ (by decide)⟩ ?_
  refine .cons (by decide) (isMark_of_mem (by decide)) trivial ?_
  refine .cons (by decide) (isMark_of_mem (by decide)) trivial ?_
  refine .cons (by decide) (isLexeme_of_mem (by decide)) ⟨by decide, stops_cons _ (by decide)⟩ ?_
  refine .cons (by decide) (isLexeme_declaredName (by decide))
    ⟨by decide, stops_cons _ (by decide)⟩ ?_
  exact .cons (by decide) (isMark_of_mem (by decide)) trivial hrest

theorem spelled_exportWords {value : Value} (h : value.Keyed (Value.IsLegible verbatim))
    (indent : Nat) {gap : List Char} (hgap : ∀ c ∈ gap, c = ' ' ∨ c = '\n') {previous : Option Char}
    (hclear : IsClear (lastOr previous gap)) :
    Spelled verbatim previous (exportWords indent gap value) := by
  have hend (previous : Option Char) : Spelled verbatim previous [⟨[], .semicolon, [';']⟩] :=
    spelled_semicolon (fun _ => .nil) previous
  have hspace : ∀ c ∈ [' '], c = ' ' ∨ c = '\n' := by decide
  have hvalue := spelled_valueWords h hspace hend (stops_semicolon []) indent 0 (some 't')
    (by decide)
  have hstops : Stops (spell (valueWords indent 0 [' '] value ++ [⟨[], .semicolon, [';']⟩])) := by
    rw [spell_append, spell_valueWords]
    exact stops_cons _ (by decide)
  exact .cons hgap (isLexeme_of_mem (by simp [keywords])) ⟨hclear, hstops⟩ hvalue

/-- The words of a whole module are cut off again if all of its leaves are
legible, the verbatim sense or the plain one. -/
theorem spelled_of_legible {value : Value} (h : value.Keyed (Value.IsLegible verbatim))
    (indent : Nat) :
    Spelled verbatim none (moduleWords indent value) := by
  have hgap : ∀ c ∈ lineGap indent, c = ' ' ∨ c = '\n' := by
    unfold lineGap
    split <;> decide
  have hclear : IsClear (lastOr (some ';') (lineGap indent)) := by
    unfold lineGap
    split <;> decide
  unfold moduleWords
  split
  · exact spelled_declarationWords (spelled_exportWords h indent hgap hclear)
  · exact spelled_exportWords h indent (by decide) (by decide)

end

/-- Of a value that can be written all words are verbatim: nothing in the text
is taken for a comment. -/
theorem spelled_moduleWords {value : Value} (h : value.Writable) (indent : Nat) :
    Spelled True none (moduleWords indent value) :=
  spelled_of_legible (h.keyed True) indent

end Source

end ConfigNotation
